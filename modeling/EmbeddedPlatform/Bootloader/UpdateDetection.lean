import Mathlib.Data.List.Basic
import EmbeddedPlatform.Bootloader.CrashConsistency

/-! # Whether an image is another one

The record of an image is its build id in hex. It is compared as a C string with
that of the image found at the next boot, so that what it tells apart depends on
how the record is written. -/
namespace EmbeddedPlatform.Bootloader

/-! ## The record of a build id -/

theorem flatMap_inj_of_length {α β : Type*} {f g : α → List β} {l : List α}
    (h : l.flatMap f = l.flatMap g) (hlen : ∀ x ∈ l, (f x).length = (g x).length) :
    ∀ x ∈ l, f x = g x := by
  induction l with
  | nil => exact List.forall_mem_nil _
  | cons x l ih =>
    obtain ⟨hx, hl⟩ := List.forall_mem_cons.mp hlen
    rw [List.flatMap_cons, List.flatMap_cons] at h
    obtain ⟨hhead, htail⟩ := List.append_inj h hx
    exact List.forall_mem_cons.mpr ⟨hhead, ih htail hl⟩

theorem hexDigit_injective : ∀ m < 16, ∀ n < 16, hexDigit m = hexDigit n → m = n := by decide

theorem byte_eq_of_hexDigits {x y : UInt8} (hhigh : hexDigit (x.toNat / 16) = hexDigit (y.toNat / 16))
    (hlow : hexDigit (x.toNat % 16) = hexDigit (y.toNat % 16)) : x = y := by
  have hx : x.toNat < 256 := x.toNat_lt
  have hy : y.toNat < 256 := y.toNat_lt
  have hdiv := hexDigit_injective _ (by omega) _ (by omega) hhigh
  have hmod := hexDigit_injective _ (by omega) _ (by omega) hlow
  apply UInt8.toNat.inj
  omega

/-- The 20 bytes behind the header. -/
def SameBuildID (x y : Nat → UInt8) : Prop := ∀ i < 20, x (16 + i) = y (16 + i)

/-- **The record determines the build id.** -/
theorem formatBuildID_inj {x y : Nat → UInt8} : FormatBuildID x = FormatBuildID y ↔ SameBuildID x y := by
  constructor
  · intro h i hi
    have hdigits : buildIdDigits x = buildIdDigits y := List.append_cancel_right h
    unfold buildIdDigits at hdigits
    obtain ⟨hhigh, hrest⟩ := List.cons.inj <|
      flatMap_inj_of_length hdigits (fun _ _ => rfl) i (List.mem_range.mpr hi)
    exact byte_eq_of_hexDigits hhigh (List.cons.inj hrest).1
  · intro h
    rw [formatBuildID_eq, formatBuildID_eq]
    refine congrArg (· ++ [0]) (List.flatMap_congr fun i hi => ?_)
    rw [h i (List.mem_range.mp hi)]

/-! ## Two boots -/

section
variable {P : Platform} {f : Faults} {kvs : Kvs} {a b : Partition}

theorem RecordedVersion.unique {v w : List UInt8} (hv : RecordedVersion kvs v)
    (hw : RecordedVersion kvs w) : v = w := by
  obtain ⟨o, ho, -, rfl⟩ := hv
  obtain ⟨o', ho', -, rfl⟩ := hw
  obtain rfl := Option.some.inj (ho.symm.trans ho')
  rfl

theorem recordedVersion_updateRecords_of_takesEffect (h : f.version.takesEffect = true) :
    RecordedVersion (updateRecords P f kvs a).1 (FormatBuildID (firmwareVer P a)) := by
  have hversion : RecordedVersion (StoreObject f.version kvs g_imageVersionKey
      (FormatBuildID (firmwareVer P a))) (FormatBuildID (firmwareVer P a)) := by
    unfold StoreObject
    rw [if_pos h]
    exact recordedVersion_store kvs _
  rw [updateRecords_kvs]
  dsimp only
  split
  · exact recordedVersion_store_crc.mpr hversion
  · exact hversion

/-- After a boot that could read and record the image, the record is its build id,
whatever it has been before. -/
theorem recordedVersion_validate (hblank : readWord a ≠ 0xffffffff)
    (hid : validVersion P a = true) (hecc : f.ecc = false) (hstore : f.version.takesEffect = true) :
    RecordedVersion (ValidateAppPartition P f kvs a).1 (FormatBuildID (firmwareVer P a)) := by
  cases hupd : IsAppUpdated P kvs a with
  | true =>
    rw [validate_updates hblank hecc hupd]
    exact recordedVersion_updateRecords_of_takesEffect hstore
  | false =>
    have hrecorded : RecordedVersion kvs (FormatBuildID (firmwareVer P a)) := by
      by_contra hnot
      rw [(isAppUpdated_iff hid).mpr hnot] at hupd
      cases hupd
    have hnecc : ¬ f.ecc = true := by
      rw [hecc]
      exact Bool.false_ne_true
    unfold ValidateAppPartition
    rw [if_neg hblank, hupd, if_neg Bool.false_ne_true, if_neg hnecc]
    -- without a CRC on record both records are written anew
    cases kvs.FindObject g_imageCRCKey with
    | none => exact recordedVersion_updateRecords_of_takesEffect hstore
    | some o => exact hrecorded

/-- **Update detection is exact.** -/
theorem update_detection_exact (P : Platform) (f : Faults) (kvs : Kvs) (a b : Partition)
    (hblank : readWord a ≠ 0xffffffff) (hida : validVersion P a = true)
    (hidb : validVersion P b = true) (hecc : f.ecc = false)
    (hstore : f.version.takesEffect = true) :
    (IsAppUpdated P (ValidateAppPartition P f kvs a).1 b = false ↔
      SameBuildID (firmwareVer P a) (firmwareVer P b)) ∧
    (∀ x y, FormatBuildID x = FormatBuildID y ↔ SameBuildID x y) ∧
    ∀ (kvs : Kvs) (x : Nat → UInt8), ∃ hlog,
      (kvs.store g_imageVersionKey (FormatBuildID x)).FindObject g_imageVersionKey = some hlog ∧
        hlog.m_len = GNU_BUILD_ID_HEX_SIZE := by
  refine ⟨?_, fun x y => formatBuildID_inj, fun kvs x => ?_⟩
  · have hrecorded : RecordedVersion (ValidateAppPartition P f kvs a).1
        (FormatBuildID (firmwareVer P a)) := recordedVersion_validate hblank hida hecc hstore
    rw [← Bool.not_eq_true, isAppUpdated_iff hidb, not_not, ← formatBuildID_inj]
    constructor
    · exact fun h => hrecorded.unique h
    · exact fun h => h ▸ hrecorded
  · exact ⟨_, Kvs.store_self .., formatBuildID_length x⟩

/-- Another image behind the first one. -/
theorem update_detection_exact_second :
    (IsAppUpdated samplePlatform sampleKvs (sampleImage 0x22) = false ↔
      SameBuildID (firmwareVer samplePlatform (sampleImage 0x11))
        (firmwareVer samplePlatform (sampleImage 0x22))) ∧
    (∀ x y, FormatBuildID x = FormatBuildID y ↔ SameBuildID x y) ∧
    ∀ (kvs : Kvs) (x : Nat → UInt8), ∃ hlog,
      (kvs.store g_imageVersionKey (FormatBuildID x)).FindObject g_imageVersionKey = some hlog ∧
        hlog.m_len = GNU_BUILD_ID_HEX_SIZE :=
  update_detection_exact samplePlatform noFaults .empty (sampleImage 0x11) (sampleImage 0x22)
    (by decide +kernel) (by decide +kernel) (by decide +kernel) rfl rfl

end

end EmbeddedPlatform.Bootloader
