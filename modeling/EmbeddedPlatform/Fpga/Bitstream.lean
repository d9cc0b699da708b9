import EmbeddedPlatform.Lib.StreamMachine
import EmbeddedPlatform.Fpga.FirmwareUpdater

/-! # What a bit file says

The bit file as a stream: which of its bytes belong in flash, apart from
buffers, polls and the flash itself. The updater is compared with this machine.
-/
namespace EmbeddedPlatform.Fpga

open Lib

/-- How far a bit file has been read; in a type 2 packet, with the number of
words left. -/
inductive Phase where
  | magic
  | records
  | sync
  | packets
  | words (n : Nat)
  | done
  | failed
deriving DecidableEq

/-- A record names a device other than the one there is. -/
def wrongDevice (deviceName buf : List UInt8) : Bool :=
  recordType buf == charB && recordText buf != deviceName

/-- Reads one element of the file: the magic number, a header record, a byte of
padding, the sync word, a packet, or a word of data. `erased` tells whether the
flash can be erased when the header ends. -/
def Phase.read (deviceName : List UInt8) (erased : Bool) :
    Phase → List UInt8 → Option (Phase × Nat × List UInt8)
  | .magic, buf =>
    if buf.length < 13 then none
    else if buf.take 13 = Fpga.magic then some (.records, 13, [])
    else some (.failed, 0, [])
  | .records, buf =>
    if buf.length < 3 then none
    else if recordType buf = charE then
      if buf.length < 5 then none
      else some (if erased then .sync else .failed, 5, [])
    else if buf.length < 3 + recordLen buf then none
    else some (if wrongDevice deviceName buf then .failed else .records, 3 + recordLen buf, [])
  | .sync, buf =>
    if buf.length < 5 then none
    else if buf.take 4 = g_syncword then some (.packets, 4, buf.take 4)
    else some (.sync, 1, buf.take 1)
  | .packets, buf =>
    if buf.length < 4 then none
    else if packetType buf = 1 then
      let n := (packetSize (bswap32 buf)).toNat
      if buf.length < n then none
      else some (if isDesync buf then .done else .packets, n, buf.take n)
    else if packetType buf = 2 then
      some (.words (packetBigLen (bswap32 buf)).toNat, 4, buf.take 4)
    else some (.failed, 0, [])
  | .words n, buf =>
    if buf.length < 4 then none
    else if n = 0 then some (.packets, 0, [])
    else some (if n = 1 then .packets else .words (n - 1), 4, buf.take 4)
  | .done, _ => none
  | .failed, _ => none

def Phase.rank : Phase → Nat
  | .words _ => 2
  | .magic | .packets => 1
  | _ => 0

/-! ## Longer buffers -/

variable {buf more : List UInt8}

theorem getD_append {i : Nat} (h : i < buf.length) (d : UInt8) :
    (buf ++ more).getD i d = buf.getD i d := by
  rw [List.getD_eq_getElem?_getD, List.getD_eq_getElem?_getD, List.getElem?_append_left h]

theorem bswap32_append (h : 4 ≤ buf.length) : bswap32 (buf ++ more) = bswap32 buf := by
  simp only [bswap32]
  rw [getD_append (by omega), getD_append (by omega), getD_append (by omega),
    getD_append (by omega)]

theorem packetType_append (h : 4 ≤ buf.length) : packetType (buf ++ more) = packetType buf := by
  rw [packetType, packetType, getD_append (by omega)]

theorem recordType_append (h : 3 ≤ buf.length) : recordType (buf ++ more) = recordType buf :=
  getD_append (by omega) 0

theorem recordLen_append (h : 3 ≤ buf.length) : recordLen (buf ++ more) = recordLen buf := by
  rw [recordLen, recordLen, getD_append (by omega)]

theorem recordText_append (h : 3 + recordLen buf ≤ buf.length) :
    recordText (buf ++ more) = recordText buf := by
  rw [recordText, recordText, recordLen_append (by omega),
    List.drop_append_of_le_length (by omega),
    List.take_append_of_le_length (by rw [List.length_drop]; omega)]

theorem wrongDevice_append (deviceName : List UInt8) (h : 3 + recordLen buf ≤ buf.length) :
    wrongDevice deviceName (buf ++ more) = wrongDevice deviceName buf := by
  rw [wrongDevice, wrongDevice, recordType_append (by omega), recordText_append h]

theorem packetSize_toNat (header : UInt32) :
    (packetSize header).toNat = 4 * ((packetLen header).toNat + 1) := by
  have hlen : (packetLen header).toNat < 1024 := by
    rw [packetLen, UInt32.toNat_and]
    exact Nat.lt_of_le_of_lt Nat.and_le_right (by decide)
  simp only [packetSize, UInt32.toNat_mul, UInt32.toNat_add, UInt32.reduceToNat]
  omega

/-- A command packet has a data word behind its header. -/
theorem isDesync_size (h : isDesync buf = true) : (packetSize (bswap32 buf)).toNat = 8 := by
  simp only [isDesync, Bool.and_eq_true, beq_iff_eq] at h
  rw [packetSize_toNat, h.1.1.2]
  rfl

theorem isDesync_append (h : 4 ≤ buf.length) (hn : (packetSize (bswap32 buf)).toNat ≤ buf.length) :
    isDesync (buf ++ more) = isDesync buf := by
  unfold isDesync
  rw [bswap32_append h]
  by_cases hlen : packetLen (bswap32 buf) = 1
  · have h8 : 8 ≤ buf.length := by
      rw [packetSize_toNat, hlen] at hn
      exact hn
    rw [List.drop_append_of_le_length h, bswap32_append (by rw [List.length_drop]; omega)]
  · simp [beq_false_of_ne hlen]

/-! ## The machine -/

/-- The elements `Phase.read` reads, with what must be in the buffer for each. -/
inductive Reads (deviceName : List UInt8) (erased : Bool) (buf : List UInt8) :
    Phase → Phase → Nat → List UInt8 → Prop where
  | magic (hlen : 13 ≤ buf.length) (h : buf.take 13 = Fpga.magic) :
    Reads deviceName erased buf .magic .records 13 []
  | badMagic (hlen : 13 ≤ buf.length) (h : buf.take 13 ≠ Fpga.magic) :
    Reads deviceName erased buf .magic .failed 0 []
  | image (hlen : 5 ≤ buf.length) (htype : recordType buf = charE) :
    Reads deviceName erased buf .records (if erased then .sync else .failed) 5 []
  | record (hlen : 3 + recordLen buf ≤ buf.length) (htype : recordType buf ≠ charE) :
    Reads deviceName erased buf .records (if wrongDevice deviceName buf then .failed else .records)
      (3 + recordLen buf) []
  | syncWord (hlen : 5 ≤ buf.length) (h : buf.take 4 = g_syncword) :
    Reads deviceName erased buf .sync .packets 4 (buf.take 4)
  | padding (hlen : 5 ≤ buf.length) (h : buf.take 4 ≠ g_syncword) :
    Reads deviceName erased buf .sync .sync 1 (buf.take 1)
  | packet (hlen : 4 ≤ buf.length) (htype : packetType buf = 1)
    (hsize : (packetSize (bswap32 buf)).toNat ≤ buf.length) :
    Reads deviceName erased buf .packets (if isDesync buf then .done else .packets)
      (packetSize (bswap32 buf)).toNat (buf.take (packetSize (bswap32 buf)).toNat)
  | bigHeader (hlen : 4 ≤ buf.length) (htype : packetType buf = 2) :
    Reads deviceName erased buf .packets (.words (packetBigLen (bswap32 buf)).toNat) 4 (buf.take 4)
  | badPacket (hlen : 4 ≤ buf.length) (h1 : packetType buf ≠ 1) (h2 : packetType buf ≠ 2) :
    Reads deviceName erased buf .packets .failed 0 []
  | noWords (hlen : 4 ≤ buf.length) :
    Reads deviceName erased buf (.words 0) .packets 0 []
  | word {n : Nat} (hlen : 4 ≤ buf.length) (hn : n ≠ 0) :
    Reads deviceName erased buf (.words n) (if n = 1 then .packets else .words (n - 1)) 4 (buf.take 4)

variable {deviceName : List UInt8} {erased : Bool} {p q : Phase} {n : Nat} {out : List UInt8}

theorem reads_of_read (h : p.read deviceName erased buf = some (q, n, out)) :
    Reads deviceName erased buf p q n out := by
  cases p <;> simp only [Phase.read] at h
  case magic =>
    split at h
    · cases h
    · rename_i hlen
      split at h
      · rename_i hm; cases h; exact .magic (by omega) hm
      · rename_i hm; cases h; exact .badMagic (by omega) hm
  case records =>
    split at h
    · cases h
    · split at h
      · rename_i htype
        split at h
        · cases h
        · rename_i hlen; cases h; exact .image (by omega) htype
      · rename_i htype
        split at h
        · cases h
        · rename_i hlen; cases h; exact .record (by omega) htype
  case sync =>
    split at h
    · cases h
    · rename_i hlen
      split at h
      · rename_i hs; cases h; exact .syncWord (by omega) hs
      · rename_i hs; cases h; exact .padding (by omega) hs
  case packets =>
    split at h
    · cases h
    · rename_i hlen
      split at h
      · rename_i htype
        split at h
        · cases h
        · rename_i hsize; cases h; exact .packet (by omega) htype (by omega)
      · rename_i h1
        split at h
        · rename_i h2; cases h; exact .bigHeader (by omega) h2
        · rename_i h2; cases h; exact .badPacket (by omega) h1 h2
  case words =>
    split at h
    · cases h
    · rename_i hlen
      split at h
      · rename_i hn; cases h; subst hn; exact .noWords (by omega)
      · rename_i hn; cases h; exact .word (by omega) hn
  case done => cases h
  case failed => cases h

theorem Reads.read (h : Reads deviceName erased buf p q n out) :
    p.read deviceName erased buf = some (q, n, out) := by
  cases h with
  | magic hlen h => simp [Phase.read, Nat.not_lt.mpr hlen, h]
  | badMagic hlen h => simp [Phase.read, Nat.not_lt.mpr hlen, h]
  | image hlen htype => simp [Phase.read, htype, Nat.not_lt.mpr hlen]; omega
  | record hlen htype => simp [Phase.read, htype, Nat.not_lt.mpr hlen]; omega
  | syncWord hlen h => simp [Phase.read, Nat.not_lt.mpr hlen, h]
  | padding hlen h => simp [Phase.read, Nat.not_lt.mpr hlen, h]
  | packet hlen htype hsize => simp [Phase.read, Nat.not_lt.mpr hlen, htype, Nat.not_lt.mpr hsize]
  | bigHeader hlen htype => simp [Phase.read, Nat.not_lt.mpr hlen, htype]
  | badPacket hlen h1 h2 => simp [Phase.read, Nat.not_lt.mpr hlen, h1, h2]
  | noWords hlen => simp [Phase.read, Nat.not_lt.mpr hlen]
  | word hlen hn => simp [Phase.read, Nat.not_lt.mpr hlen, hn]

theorem Reads.length_le (h : Reads deviceName erased buf p q n out) : n ≤ buf.length := by
  cases h <;> omega

theorem Reads.rank_lt (h : Reads deviceName erased buf p q n out) (hn : n = 0) :
    q.rank < p.rank := by
  cases h with
  | badMagic => decide
  | badPacket => decide
  | noWords => decide
  | packet => rw [packetSize_toNat] at hn; omega
  | record => omega
  | magic => cases hn
  | image => cases hn
  | syncWord => cases hn
  | padding => cases hn
  | bigHeader => cases hn
  | word => cases hn

/-- A longer buffer does not change what its front means. -/
theorem Reads.append (h : Reads deviceName erased buf p q n out) (more : List UInt8) :
    Reads deviceName erased (buf ++ more) p q n out := by
  have hlonger : buf.length ≤ (buf ++ more).length := by simp
  cases h with
  | magic hlen h =>
    exact .magic (by omega) (by rw [List.take_append_of_le_length hlen, h])
  | badMagic hlen h =>
    exact .badMagic (by omega) (by rwa [List.take_append_of_le_length hlen])
  | image hlen htype => exact .image (by omega) (by rw [recordType_append (by omega), htype])
  | record hlen htype =>
    have hrecord : Reads deviceName erased (buf ++ more) .records _ _ [] :=
      .record (by rw [recordLen_append (by omega)]; omega) (by rwa [recordType_append (by omega)])
    rwa [recordLen_append (by omega), wrongDevice_append deviceName hlen] at hrecord
  | syncWord hlen h =>
    rw [← List.take_append_of_le_length (by omega : 4 ≤ buf.length)] at h ⊢
    exact .syncWord (by omega) h
  | padding hlen h =>
    rw [← List.take_append_of_le_length (by omega : 4 ≤ buf.length)] at h
    rw [← List.take_append_of_le_length (by omega : 1 ≤ buf.length)]
    exact .padding (by omega) h
  | packet hlen htype hsize =>
    have hpacket : Reads deviceName erased (buf ++ more) .packets _ _ _ :=
      .packet (by omega) (by rwa [packetType_append hlen]) (by rw [bswap32_append hlen]; omega)
    rwa [isDesync_append hlen hsize, bswap32_append hlen,
      List.take_append_of_le_length hsize] at hpacket
  | bigHeader hlen htype =>
    rw [← @bswap32_append buf more hlen, ← List.take_append_of_le_length hlen]
    exact .bigHeader (by omega) (by rwa [packetType_append hlen])
  | badPacket hlen h1 h2 =>
    exact .badPacket (by omega) (by rwa [packetType_append hlen]) (by rwa [packetType_append hlen])
  | noWords hlen => exact .noWords (by omega)
  | word hlen hn =>
    rw [← List.take_append_of_le_length hlen]
    exact .word (by omega) hn

/-- The bit file as a stream machine. -/
def bitFile (deviceName : List UInt8) (erased : Bool) : StreamMachine Phase UInt8 UInt8 where
  step := Phase.read deviceName erased
  rank := Phase.rank
  step_le h := (reads_of_read h).length_le
  step_rank h := (reads_of_read h).rank_lt rfl
  step_append h more := ((reads_of_read h).append more).read

theorem settle_read (h : Reads deviceName erased buf p q n out) :
    (bitFile deviceName erased).settle p buf =
      ((bitFile deviceName erased).settle q (buf.drop n)).after out :=
  StreamMachine.settle_step h.read

theorem settle_wait (h : p.read deviceName erased buf = none) :
    (bitFile deviceName erased).settle p buf = ⟨p, buf, []⟩ :=
  StreamMachine.settle_waiting h

@[simp] theorem settle_done (buf : List UInt8) :
    (bitFile deviceName erased).settle .done buf = ⟨.done, buf, []⟩ :=
  StreamMachine.settle_waiting rfl

@[simp] theorem settle_failed (buf : List UInt8) :
    (bitFile deviceName erased).settle .failed buf = ⟨.failed, buf, []⟩ :=
  StreamMachine.settle_waiting rfl

/-- A block of a packet's words is its words one by one. -/
theorem settle_words {n k : Nat} (hn : n ≠ 0) (hk : k ≤ n) (hlen : 4 * k ≤ buf.length) :
    (bitFile deviceName erased).settle (.words n) buf =
      ((bitFile deviceName erased).settle (if n = k then .packets else .words (n - k))
        (buf.drop (4 * k))).after (buf.take (4 * k)) := by
  induction k generalizing n buf with
  | zero => simp [hn]
  | succ k ih =>
    rw [settle_read (.word (by omega) hn)]
    have htake : buf.take (4 * (k + 1)) = buf.take 4 ++ (buf.drop 4).take (4 * k) := by
      rw [← List.take_add]; congr 1; omega
    have hdrop : buf.drop (4 * (k + 1)) = (buf.drop 4).drop (4 * k) := by
      rw [List.drop_drop]; congr 1; omega
    by_cases h1 : n = 1
    · obtain rfl : k = 0 := by omega
      simp [h1]
    · have hrest := @ih (buf.drop 4) (n - 1) (by omega) (by omega)
        (by rw [List.length_drop]; omega)
      rw [if_neg h1, hrest, Rest.after_after, htake, hdrop, Nat.sub_sub, Nat.add_comm 1 k]
      congr 3
      exact propext (by omega)

/-! ## The image -/

/-- The file has been read up to its image or further, without a failure. -/
def Phase.inImage : Phase → Bool
  | .sync | .packets | .words _ | .done => true
  | .magic | .records | .failed => false

/-- Behind the header every byte read belongs in flash. -/
theorem Reads.keeps (h : Reads deviceName erased buf p q n out) (hp : p ≠ .magic ∧ p ≠ .records) :
    out = buf.take n ∧ q ≠ .magic ∧ q ≠ .records := by
  cases h with
  | magic => exact absurd rfl hp.1
  | badMagic => exact absurd rfl hp.1
  | image => exact absurd rfl hp.2
  | record => exact absurd rfl hp.2
  | syncWord => exact ⟨rfl, by decide⟩
  | padding => exact ⟨rfl, by decide⟩
  | packet => exact ⟨rfl, by split <;> simp⟩
  | bigHeader => exact ⟨rfl, by simp⟩
  | badPacket => exact ⟨rfl, by decide⟩
  | noWords => exact ⟨rfl, by decide⟩
  | word => exact ⟨rfl, by split <;> simp⟩

theorem settle_past_records (hp : p ≠ .magic ∧ p ≠ .records) :
    ((bitFile deviceName erased).settle p buf).state ≠ .records :=
  (StreamMachine.settle_rule (M := bitFile deviceName erased)
    (J := fun q _ _ => q ≠ .magic ∧ q ≠ .records)
    (fun _ _ _ _ _ _ hJ hstep => ((reads_of_read hstep).keeps hJ).2) [] hp).2

theorem settle_keeps (hp : p ≠ .magic ∧ p ≠ .records) :
    ((bitFile deviceName erased).settle p buf).out ++
      ((bitFile deviceName erased).settle p buf).buf = buf := by
  have h := StreamMachine.settle_rule (M := bitFile deviceName erased)
    (J := fun q rest out => (q ≠ .magic ∧ q ≠ .records) ∧ out ++ rest = buf)
    (fun q rest l q' n out hJ hstep => by
      obtain ⟨hout, hq'⟩ := (reads_of_read hstep).keeps hJ.1
      refine ⟨hq', ?_⟩
      rw [hout, List.append_assoc, List.take_append_drop]
      exact hJ.2)
    [] ⟨hp, rfl⟩
  simpa using h.2

/-- The device and its flash matter to the header only. -/
theorem settle_past_header {deviceName' : List UInt8} {erased' : Bool}
    (hp : p ≠ .magic ∧ p ≠ .records) :
    (bitFile deviceName erased).settle p buf = (bitFile deviceName' erased').settle p buf := by
  refine StreamMachine.settle_congr (I := fun p => p ≠ .magic ∧ p ≠ .records) ?_ ?_ hp
  · intro p buf hp
    cases p with
    | magic => exact absurd rfl hp.1
    | records => exact absurd rfl hp.2
    | sync => rfl
    | packets => rfl
    | words n => rfl
    | done => rfl
    | failed => rfl
  · intro p buf q n out hp hstep
    exact ((reads_of_read hstep).keeps hp).2

theorem Reads.out_le (h : Reads deviceName erased buf p q n out) : out.length ≤ n := by
  cases h with
  | syncWord | padding | packet | bigHeader | word => exact List.length_take_le _ _
  | magic | badMagic | image | record | badPacket | noWords => exact Nat.zero_le _

/-- The image is no longer than the file. -/
theorem settle_out_le (p : Phase) (buf : List UInt8) :
    ((bitFile deviceName erased).settle p buf).out.length ≤ buf.length := by
  have h := @StreamMachine.settle_rule _ _ _ (bitFile deviceName erased) p buf
    (fun _ rest out => out.length + rest.length ≤ buf.length)
    (fun q rest l q' n out hJ hstep => by
      have hread := reads_of_read hstep
      have hout := hread.out_le
      have hlen := hread.length_le
      rw [List.length_append, List.length_drop]
      omega)
    [] (by simp)
  rw [List.nil_append] at h
  omega

/-- The last element of a file is the command that ends it. -/
theorem Reads.desync (h : Reads deviceName erased buf p q n out) (hq : q = .done) :
    out.length = 8 ∧ isDesync out = true := by
  cases h with
  | packet hlen htype hsize =>
    cases hd : isDesync buf with
    | false => simp [hd] at hq
    | true =>
      have h8 := isDesync_size hd
      rw [h8] at hsize ⊢
      have htake : (buf.take 8).length = 8 := List.length_take_of_le hsize
      refine ⟨htake, ?_⟩
      rw [← List.take_append_drop 8 buf, bswap32_append (by omega)] at h8
      rw [← List.take_append_drop 8 buf, isDesync_append (by omega) (by omega)] at hd
      exact hd
  | image => split at hq <;> cases hq
  | record => split at hq <;> cases hq
  | word => split at hq <;> cases hq
  | magic => cases hq
  | badMagic => cases hq
  | syncWord => cases hq
  | padding => cases hq
  | bigHeader => cases hq
  | badPacket => cases hq
  | noWords => cases hq

theorem settle_desync (hp : p ≠ .done)
    (h : ((bitFile deviceName erased).settle p buf).state = .done) :
    ∃ pre pkt, ((bitFile deviceName erased).settle p buf).out = pre ++ pkt ∧
      pkt.length = 8 ∧ isDesync pkt = true := by
  have hJ := @StreamMachine.settle_rule _ _ _ (bitFile deviceName erased) p buf
    (fun q _ l => q = .done → ∃ pre pkt, l = pre ++ pkt ∧ pkt.length = 8 ∧ isDesync pkt = true)
    (fun q rest l q' n out _ hstep hq' =>
      ⟨l, out, rfl, (reads_of_read hstep).desync hq'⟩)
    [] (fun h => absurd h hp)
  simpa using hJ h

/-- The bytes behind the records: what follows the five bytes of the record
that starts the image. -/
def afterRecords (buf : List UInt8) : Option (List UInt8) :=
  if recordType buf = charE then
    if 5 ≤ buf.length then some (buf.drop 5) else none
  else if 3 + recordLen buf ≤ buf.length then afterRecords (buf.drop (3 + recordLen buf))
  else none
termination_by buf.length
decreasing_by rw [List.length_drop]; omega

/-- The bytes of a bit file behind its header. -/
def afterHeader (buf : List UInt8) : Option (List UInt8) :=
  if 13 ≤ buf.length then afterRecords (buf.drop 13) else none

theorem settle_records
    (h : ((bitFile deviceName erased).settle .records buf).state.inImage = true) :
    ∃ rest, afterRecords buf = some rest ∧
      (bitFile deviceName erased).settle .records buf =
        (bitFile deviceName erased).settle .sync rest := by
  fun_induction afterRecords buf with
  | case1 buf htype hlen =>
    rw [settle_read (.image hlen htype)] at h ⊢
    cases erased with
    | true => exact ⟨_, rfl, rfl⟩
    | false => simp [Phase.inImage] at h
  | case2 buf htype hlen =>
    have hwait : Phase.records.read deviceName erased buf = none := by
      simp [Phase.read, htype]; omega
    rw [settle_wait hwait] at h
    cases h
  | case3 buf htype hlen ih =>
    rw [settle_read (.record hlen htype)] at h ⊢
    cases hw : wrongDevice deviceName buf with
    | true => simp [hw, Phase.inImage] at h
    | false => simpa [hw] using ih (by simpa [hw] using h)
  | case4 buf htype hlen =>
    have hwait : Phase.records.read deviceName erased buf = none := by
      simp [Phase.read, htype]; omega
    rw [settle_wait hwait] at h
    cases h

/-- A file read into its image has been read as its image. -/
theorem settle_magic
    (h : ((bitFile deviceName erased).settle .magic buf).state.inImage = true) :
    ∃ rest, afterHeader buf = some rest ∧
      (bitFile deviceName erased).settle .magic buf =
        (bitFile deviceName erased).settle .sync rest := by
  unfold afterHeader
  by_cases hlen : 13 ≤ buf.length
  · rw [if_pos hlen]
    by_cases hm : buf.take 13 = Fpga.magic
    · rw [settle_read (.magic hlen hm)] at h ⊢
      exact settle_records h
    · rw [settle_read (.badMagic hlen hm)] at h
      simp [Phase.inImage] at h
  · have hwait : Phase.magic.read deviceName erased buf = none := by
      simp [Phase.read]; omega
    rw [settle_wait hwait] at h
    cases h

end EmbeddedPlatform.Fpga
