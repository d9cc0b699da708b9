import EmbeddedPlatform.Bootloader.Bootloader

/-! # A new image and an interrupted rewrite of its records

The two records of an image are two stores. What the next boot makes of the
partition depends on which of them took effect. -/
namespace EmbeddedPlatform.Bootloader

variable {P : Platform} {kvs : Kvs} {appVector : Partition} {f : Faults}

/-! ## Words and version strings -/

theorem readWord_wordBytes (w : UInt32) : readWord (KvsObject.ofBytes (wordBytes w)).ptr = w := by
  have hw : w.toNat < 2 ^ 32 := w.toNat_lt
  apply UInt32.toNat.inj
  simp only [readWord, KvsObject.ofBytes, wordBytes, List.getD_cons_zero, List.getD_cons_succ,
    UInt8.toNat_ofNat', UInt32.toNat_ofNat']
  omega

theorem hexDigit_ne_zero {n : Nat} (hn : n < 16) : hexDigit n ≠ 0 := by
  unfold hexDigit
  split
  · intro h
    have := congrArg UInt8.toNat h
    simp only [UInt8.toNat_ofNat', UInt8.toNat_zero] at this
    omega
  · intro h
    have := congrArg UInt8.toNat h
    simp only [UInt8.toNat_ofNat', UInt8.toNat_zero] at this
    omega

/-- The digits of a formatted build id, without the terminator. -/
def buildIdDigits (buildID : Nat → UInt8) : List UInt8 :=
  (List.range 20).flatMap fun i =>
    [hexDigit ((buildID (16 + i)).toNat / 16), hexDigit ((buildID (16 + i)).toNat % 16)]

theorem formatBuildID_eq (buildID : Nat → UInt8) :
    FormatBuildID buildID = buildIdDigits buildID ++ [0] := rfl

theorem buildIdDigits_length (buildID : Nat → UInt8) : (buildIdDigits buildID).length = 40 := by
  simp only [buildIdDigits, List.length_flatMap, List.length_cons, List.length_nil]
  rfl

theorem formatBuildID_length (buildID : Nat → UInt8) :
    (FormatBuildID buildID).length = GNU_BUILD_ID_HEX_SIZE := by
  simp [formatBuildID_eq, buildIdDigits_length, GNU_BUILD_ID_HEX_SIZE]

theorem buildIdDigits_ne_zero (buildID : Nat → UInt8) : ∀ d ∈ buildIdDigits buildID, d ≠ 0 := by
  intro d hd
  obtain ⟨i, -, hi⟩ := List.mem_flatMap.mp hd
  have hb : (buildID (16 + i)).toNat < 256 := UInt8.toNat_lt _
  simp only [List.mem_cons, List.not_mem_nil, or_false] at hi
  rcases hi with rfl | rfl
  · exact hexDigit_ne_zero (by omega)
  · exact hexDigit_ne_zero (by omega)

theorem cstr_formatBuildID (buildID : Nat → UInt8) :
    cstr (FormatBuildID buildID) = buildIdDigits buildID := by
  rw [formatBuildID_eq, cstr, List.takeWhile_append_of_pos]
  · simp
  · intro d hd
    simpa using buildIdDigits_ne_zero buildID d hd

/-- A buffer of the right size that compares equal to a build id is that build
id, terminator included. -/
theorem eq_formatBuildID {buildID : Nat → UInt8} {buf : List UInt8}
    (hlen : buf.length = GNU_BUILD_ID_HEX_SIZE)
    (h : cstr buf = cstr (FormatBuildID buildID)) : buf = FormatBuildID buildID := by
  rw [cstr_formatBuildID] at h
  have hsplit : buildIdDigits buildID ++ buf.dropWhile (· != 0) = buf := by
    rw [← h]; exact List.takeWhile_append_dropWhile
  have hrest : (buf.dropWhile (· != 0)).length = 1 := by
    have := congrArg List.length hsplit
    rw [List.length_append, buildIdDigits_length, hlen, GNU_BUILD_ID_HEX_SIZE] at this
    omega
  obtain ⟨d, hd⟩ := List.length_eq_one_iff.mp hrest
  have hzero : d = 0 := by
    have hne : buf.dropWhile (· != 0) ≠ [] := by simp [hd]
    have := List.head_dropWhile_not (· != 0) hne
    simpa [hd] using this
  rw [formatBuildID_eq, ← hsplit, hd, hzero]

/-! ## Records -/

/-- The version record is the given string. -/
def RecordedVersion (kvs : Kvs) (v : List UInt8) : Prop :=
  ∃ o, kvs.FindObject g_imageVersionKey = some o ∧ o.m_len = GNU_BUILD_ID_HEX_SIZE ∧
    o.read GNU_BUILD_ID_HEX_SIZE = v

/-- The CRC record, whatever its length, reads as the given word. -/
def RecordedCRC (kvs : Kvs) (w : UInt32) : Prop :=
  ∃ o, kvs.FindObject g_imageCRCKey = some o ∧ readWord o.ptr = w

theorem isAppUpdated_iff (hid : validVersion P appVector = true) :
    IsAppUpdated P kvs appVector = true ↔
      ¬ RecordedVersion kvs (FormatBuildID (firmwareVer P appVector)) := by
  unfold IsAppUpdated RecordedVersion
  rw [if_neg (by simp [hid])]
  dsimp only
  cases kvs.FindObject g_imageVersionKey with
  | none => simp
  | some o =>
    by_cases hlen : o.m_len = GNU_BUILD_ID_HEX_SIZE
    · simp only [hlen, if_true, bne_iff_ne, ne_eq, Option.some.injEq, exists_eq_left', true_and]
      refine not_congr ⟨fun h => eq_formatBuildID ?_ h, fun h => by rw [h]⟩
      simp [KvsObject.read]
    · simp [hlen]

theorem keys_ne : g_imageCRCKey ≠ g_imageVersionKey := by decide

theorem recordedVersion_store (kvs : Kvs) (buildID : Nat → UInt8) :
    RecordedVersion (kvs.store g_imageVersionKey (FormatBuildID buildID)) (FormatBuildID buildID) := by
  refine ⟨_, Kvs.store_self .., formatBuildID_length buildID, ?_⟩
  rw [← formatBuildID_length buildID]
  exact KvsObject.read_ofBytes _

theorem recordedVersion_store_crc {data v : List UInt8} :
    RecordedVersion (kvs.store g_imageCRCKey data) v ↔ RecordedVersion kvs v := by
  unfold RecordedVersion Kvs.FindObject
  rw [Kvs.store_of_ne keys_ne.symm]

/-! ## A boot that completes -/

/-- The verdict on a partition that is not blank and reads without ECC error. -/
theorem validate_verdict (hblank : readWord appVector ≠ 0xffffffff) (hecc : f.ecc = false)
    (hversion : f.version.returns = true) (hcrc : f.crc.returns = true) :
    (ValidateAppPartition P f kvs appVector).2 = some true ↔
      IsAppUpdated P kvs appVector = true ∨
        ∀ w, RecordedCRC kvs w → w = imageCRC P appVector := by
  unfold ValidateAppPartition RecordedCRC
  rw [if_neg hblank, if_neg (by simp [hecc])]
  cases hupd : IsAppUpdated P kvs appVector with
  | true => simp [updateRecords, hversion, hcrc]
  | false =>
    cases ho : kvs.FindObject g_imageCRCKey with
    | none => simp [updateRecords, hversion, hcrc]
    | some o =>
      simp only [Bool.false_eq_true, if_false, Option.map_some, Option.some.injEq, beq_iff_eq,
        false_or, exists_eq_left', forall_eq']
      exact eq_comm

/-! ## A boot that is cut short -/

/-- The version store takes effect, the CRC store does not, and a CRC of
another partition content is on record from before. -/
def TornRecords (P : Platform) (f : Faults) (kvs : Kvs) (appVector : Partition) : Prop :=
  f.version.takesEffect = true ∧ (f.version.returns && f.crc.takesEffect) = false ∧
    ∃ w, RecordedCRC kvs w ∧ w ≠ imageCRC P appVector

theorem validate_updates (hblank : readWord appVector ≠ 0xffffffff) (hecc : f.ecc = false)
    (hupd : IsAppUpdated P kvs appVector = true) :
    ValidateAppPartition P f kvs appVector = updateRecords P f kvs appVector := by
  simp [ValidateAppPartition, hblank, hecc, hupd]

/-- The KVS that an update leaves, by which of the two stores took effect. -/
theorem updateRecords_kvs (P : Platform) (f : Faults) (kvs : Kvs) (appVector : Partition) :
    (updateRecords P f kvs appVector).1 =
      let version := StoreObject f.version kvs g_imageVersionKey
        (FormatBuildID (firmwareVer P appVector))
      if f.version.returns && f.crc.takesEffect then
        version.store g_imageCRCKey (wordBytes (imageCRC P appVector))
      else version := by
  unfold updateRecords StoreObject
  cases f.version.returns <;> cases f.crc.takesEffect <;> cases f.crc.returns <;> simp

theorem recordedVersion_updateRecords (h : ¬ RecordedVersion kvs (FormatBuildID (firmwareVer P appVector))) :
    RecordedVersion (updateRecords P f kvs appVector).1 (FormatBuildID (firmwareVer P appVector)) ↔
      f.version.takesEffect = true := by
  rw [updateRecords_kvs]
  have hversion : RecordedVersion (StoreObject f.version kvs g_imageVersionKey
      (FormatBuildID (firmwareVer P appVector))) (FormatBuildID (firmwareVer P appVector)) ↔
      f.version.takesEffect = true := by
    unfold StoreObject
    cases f.version.takesEffect with
    | true => simp [recordedVersion_store]
    | false => simpa using h
  dsimp only
  split
  · rw [recordedVersion_store_crc, hversion]
  · exact hversion

theorem recordedCRC_updateRecords {w : UInt32} :
    RecordedCRC (updateRecords P f kvs appVector).1 w ↔
      if f.version.returns && f.crc.takesEffect then w = imageCRC P appVector
      else RecordedCRC kvs w := by
  rw [updateRecords_kvs]
  have hkeep : (StoreObject f.version kvs g_imageVersionKey
      (FormatBuildID (firmwareVer P appVector))) g_imageCRCKey = kvs g_imageCRCKey := by
    unfold StoreObject
    split
    · exact Kvs.store_of_ne keys_ne
    · rfl
  dsimp only
  split
  · simp [RecordedCRC, Kvs.FindObject, readWord_wordBytes, eq_comm]
  · simp [RecordedCRC, Kvs.FindObject, hkeep]

/-- **Crash consistency of a new image.** After a first boot of the image that
was cut short anywhere, every later boot that completes accepts it, unless the
version was recorded, its CRC was not, and a different CRC is on record. -/
theorem interrupted_update_accepted_iff (P : Platform) (kvs : Kvs) (appVector : Partition)
    (hblank : readWord appVector ≠ 0xffffffff) (hid : validVersion P appVector = true)
    (hnew : ¬ RecordedVersion kvs (FormatBuildID (firmwareVer P appVector)))
    (f later : Faults) (hecc : f.ecc = false) (hlater : later.ecc = false)
    (hversion : later.version.returns = true) (hcrc : later.crc.returns = true) :
    (ValidateAppPartition P later (ValidateAppPartition P f kvs appVector).1 appVector).2 =
        some true ↔
      ¬ TornRecords P f kvs appVector := by
  rw [validate_updates hblank hecc ((isAppUpdated_iff hid).mpr hnew),
    validate_verdict hblank hlater hversion hcrc, isAppUpdated_iff hid,
    recordedVersion_updateRecords hnew]
  simp only [recordedCRC_updateRecords]
  unfold TornRecords
  cases hv : f.version.takesEffect with
  | false => simp
  | true =>
    cases hb : f.version.returns && f.crc.takesEffect with
    | true => simp
    | false => simp

/-! ## A device that has booted one image and is given the next -/

/-- One bit of the CRC-32 register. -/
def crcShift (crc : UInt32) : UInt32 :=
  if crc &&& 1 = 1 then (crc >>> 1) ^^^ 0xedb88320 else crc >>> 1

/-- CRC-32 as Ethernet uses it: reflected, all ones before and after. -/
def ethernetCRC (data : List UInt8) : UInt32 :=
  ~~~ data.foldl (fun crc d => Nat.repeat crcShift 8 (crc ^^^ d.toUInt32)) 0xffffffff

example : ethernetCRC [0x31, 0x32, 0x33, 0x34, 0x35, 0x36, 0x37, 0x38, 0x39] = 0xcbf43926 := by
  decide +kernel

def samplePlatform : Platform := ⟨40, 4, ethernetCRC⟩

/-- A stack pointer, then the build id. -/
def sampleImage (buildID : UInt8) : Partition := fun i =>
  ([0x00, 0x00, 0x02, 0x20] ++ g_gnuBuildIdHeader ++ List.replicate 20 buildID).getD i 0xff

def noFaults : Faults := ⟨false, .stored, .stored⟩

/-- Both records of the first image, as the bootloader wrote them. -/
def sampleKvs : Kvs :=
  (ValidateAppPartition samplePlatform noFaults .empty (sampleImage 0x11)).1

theorem sampleImage_new : ¬ RecordedVersion sampleKvs
    (FormatBuildID (firmwareVer samplePlatform (sampleImage 0x22))) :=
  (isAppUpdated_iff (by decide +kernel)).mp (by decide +kernel)

/-- Power lost before the first store: the next boot starts over. -/
theorem interrupted_before_accepted :
    (ValidateAppPartition samplePlatform noFaults
      (ValidateAppPartition samplePlatform ⟨false, .lostBefore, .stored⟩ sampleKvs
        (sampleImage 0x22)).1 (sampleImage 0x22)).2 = some true :=
  (interrupted_update_accepted_iff samplePlatform sampleKvs (sampleImage 0x22)
    (by decide +kernel) (by decide +kernel) sampleImage_new
    ⟨false, .lostBefore, .stored⟩ noFaults rfl rfl rfl rfl).mpr fun h => (nomatch h.1)

/-- Power lost between the two stores: the image is rejected from then on. -/
theorem interrupted_between_rejected :
    ¬ ∀ (P : Platform) (kvs : Kvs) (appVector : Partition), readWord appVector ≠ 0xffffffff →
      validVersion P appVector = true →
      ¬ RecordedVersion kvs (FormatBuildID (firmwareVer P appVector)) →
      ∀ f later : Faults, f.ecc = false → later.ecc = false →
        later.version.returns = true → later.crc.returns = true →
        (ValidateAppPartition P later (ValidateAppPartition P f kvs appVector).1 appVector).2 =
          some true := by
  intro h
  have := h samplePlatform sampleKvs (sampleImage 0x22) (by decide +kernel) (by decide +kernel)
    sampleImage_new ⟨false, .lostAfter, .stored⟩ noFaults rfl rfl rfl rfl
  exact absurd this (by decide +kernel)

end EmbeddedPlatform.Bootloader
