import EmbeddedPlatform.Fpga.Termination

/-! # What erasing the partition leaves behind

`EraseFlashPartition` erases the sectors that fit into the image size, from the
offset of the image on, and then reads as many bytes from the start of the chip
on. Only with no offset, and a size that is a whole number of sectors, are these
the same bytes, and those of the partition. -/
namespace EmbeddedPlatform.Fpga

open Lib FPGAFirmwareUpdater

variable {φ : Type} {F : SpiFlash φ} {c : UpdaterConfig} {fuel : Nat}
  {s t : FPGAFirmwareUpdater φ} {es : List Action} {content : φ → UInt32 → UInt8}

/-! ## A chip and its result -/

/-- `content` is what the chip reads as, and a sector that it says is erased is. -/
structure SpiFlash.Shows (F : SpiFlash φ) (content : φ → UInt32 → UInt8) : Prop where
  read : ∀ addr n f, (F.ReadData addr n f).1.toList =
    (List.range n).map fun i => content f (addr + .ofNat i)
  read_keeps : ∀ addr n f, content (F.ReadData addr n f).2 = content f
  erase : ∀ ptr f, ptr.toNat % F.GetEraseBlockSize.toNat = 0 → (F.EraseSector ptr f).1 = true →
    content (F.EraseSector ptr f).2 =
      fun a => if a - ptr < F.GetEraseBlockSize then 0xff else content f a

/-- The chip says of each sector that it is erased. -/
def AllErased (F : SpiFlash φ) : List UInt32 → φ → Prop
  | [], _ => True
  | ptr :: ptrs, f => (F.EraseSector ptr f).1 = true ∧ AllErased F ptrs (F.EraseSector ptr f).2

/-- If `EraseFlashPartition` does not fail then the partition is blank, and if the
sectors are erased then it does not. -/
structure Truthful (F : SpiFlash φ) (c : UpdaterConfig) (content : φ → UInt32 → UInt8)
    (s : FPGAFirmwareUpdater φ) : Prop where
  blank : ∀ fuel t es, EraseFlashPartition F c fuel s = .ok (t, es) → .setState .FAILED ∉ es →
    ∀ a, a - c.m_imageOffset < c.m_imageSize → content t.g_fpgaFlash a = 0xff
  succeeds : AllErased F (sectorsToErase F c) s.g_fpgaFlash →
    ∃ fuel t es, EraseFlashPartition F c fuel s = .ok (t, es) ∧ .setState .FAILED ∉ es

/-! ## The sectors -/

/-- Setting the low bits of a number does not round it up. -/
theorem or_two_pow_sub_one_div (n k : Nat) : (n ||| (2 ^ k - 1)) / 2 ^ k = n / 2 ^ k := by
  rw [← Nat.shiftRight_eq_div_pow, ← Nat.shiftRight_eq_div_pow, Nat.shiftRight_or_distrib]
  have hlow : (2 ^ k - 1) >>> k = 0 := by
    rw [Nat.shiftRight_eq_div_pow]
    exact Nat.div_eq_of_lt (Nat.sub_lt (Nat.two_pow_pos k) Nat.one_pos)
  rw [hlow, Nat.or_zero]

theorem isPowerOfTwo_dvd {n : Nat} (hpow : n.isPowerOfTwo) (hn : n < 4294967296) :
    n ∣ 4294967296 := by
  obtain ⟨k, rfl⟩ := hpow
  have hlt : 2 ^ k < 2 ^ 32 := hn
  show 2 ^ k ∣ 2 ^ 32
  exact Nat.pow_dvd_pow 2 (Nat.le_of_lt ((Nat.pow_lt_pow_iff_right Nat.one_lt_two).mp hlt))

/-- The sectors erased. -/
theorem mem_sectorsToErase (hpow : F.GetEraseBlockSize.toNat.isPowerOfTwo) {ptr : UInt32} :
    ptr ∈ sectorsToErase F c ↔ ∃ i, i < c.m_imageSize.toNat / F.GetEraseBlockSize.toNat ∧
      ptr = c.m_imageOffset + .ofNat i * F.GetEraseBlockSize := by
  have hblocks : ((c.m_imageSize ||| (F.GetEraseBlockSize - 1)) / F.GetEraseBlockSize).toNat =
      c.m_imageSize.toNat / F.GetEraseBlockSize.toNat := by
    have hpos := F.eraseBlock_pos
    have hsub : (F.GetEraseBlockSize - 1).toNat = F.GetEraseBlockSize.toNat - 1 :=
      UInt32.toNat_sub_of_le _ _ (UInt32.le_iff_toNat_le.mpr hpos)
    obtain ⟨k, hk⟩ := hpow
    rw [UInt32.toNat_div, UInt32.toNat_or, hsub, hk]
    exact or_two_pow_sub_one_div _ k
  unfold sectorsToErase
  dsimp only
  rw [hblocks, List.mem_map]
  simp only [List.mem_range, eq_comm]

theorem sectorsToErase_aligned (hpow : F.GetEraseBlockSize.toNat.isPowerOfTwo)
    (haligned : c.m_imageOffset.toNat % F.GetEraseBlockSize.toNat = 0) {ptr : UInt32}
    (hptr : ptr ∈ sectorsToErase F c) : ptr.toNat % F.GetEraseBlockSize.toNat = 0 := by
  obtain ⟨i, -, rfl⟩ := (mem_sectorsToErase hpow).mp hptr
  have hdvd := isPowerOfTwo_dvd hpow F.GetEraseBlockSize.toNat_lt
  rw [UInt32.toNat_add, UInt32.toNat_mul]
  show (_ + _ % 4294967296) % 4294967296 % _ = 0
  rw [Nat.mod_mod_of_dvd _ hdvd, Nat.add_mod, Nat.mod_mod_of_dvd _ hdvd, haligned, Nat.mul_mod_left]
  rfl

/-- A byte in one of the whole sectors of the partition. -/
def InWholeSector (F : SpiFlash φ) (c : UpdaterConfig) (a : UInt32) : Prop :=
  (a - c.m_imageOffset).toNat <
    c.m_imageSize.toNat / F.GetEraseBlockSize.toNat * F.GetEraseBlockSize.toNat

instance (F : SpiFlash φ) (c : UpdaterConfig) (a : UInt32) : Decidable (InWholeSector F c a) :=
  inferInstanceAs (Decidable (_ < _))

theorem sub_add_eq (a x y : UInt32) : a - (x + y) = a - x - y := by
  have ha := a.toNat_lt
  have hx := x.toNat_lt
  have hy := y.toNat_lt
  apply UInt32.toNat_inj.mp
  simp only [UInt32.toNat_sub, UInt32.toNat_add]
  omega

/-- The bytes of a sector, counted from the start of the partition. -/
theorem sub_sector_lt_iff {i : Nat} (hi : i < c.m_imageSize.toNat / F.GetEraseBlockSize.toNat)
    (a : UInt32) :
    a - (c.m_imageOffset + .ofNat i * F.GetEraseBlockSize) < F.GetEraseBlockSize ↔
      i * F.GetEraseBlockSize.toNat ≤ (a - c.m_imageOffset).toNat ∧
        (a - c.m_imageOffset).toNat < (i + 1) * F.GetEraseBlockSize.toNat := by
  have hend : (i + 1) * F.GetEraseBlockSize.toNat ≤ c.m_imageSize.toNat :=
    Nat.le_trans (Nat.mul_le_mul_right _ hi) (Nat.div_mul_le_self _ _)
  have hsize := c.m_imageSize.toNat_lt
  have hblock := F.GetEraseBlockSize.toNat_lt
  have hpos := F.eraseBlock_pos
  rw [Nat.succ_mul] at hend ⊢
  have hsmall : i < 4294967296 := by
    have := Nat.le_mul_of_pos_right i hpos
    omega
  have hmul : (.ofNat i * F.GetEraseBlockSize : UInt32).toNat = i * F.GetEraseBlockSize.toNat := by
    rw [UInt32.toNat_mul, UInt32.toNat_ofNat_of_lt' hsmall]
    exact Nat.mod_eq_of_lt (by omega)
  have hlt := (a - c.m_imageOffset).toNat_lt
  have hsub : a - (c.m_imageOffset + .ofNat i * F.GetEraseBlockSize) =
      a - c.m_imageOffset - .ofNat i * F.GetEraseBlockSize := sub_add_eq ..
  rw [hsub, UInt32.lt_iff_toNat_lt, UInt32.toNat_sub, hmul]
  omega

theorem inWholeSector_iff (hpow : F.GetEraseBlockSize.toNat.isPowerOfTwo) (a : UInt32) :
    InWholeSector F c a ↔ ∃ ptr ∈ sectorsToErase F c, a - ptr < F.GetEraseBlockSize := by
  have hpos := F.eraseBlock_pos
  constructor
  · intro h
    let i := (a - c.m_imageOffset).toNat / F.GetEraseBlockSize.toNat
    have hi : i < c.m_imageSize.toNat / F.GetEraseBlockSize.toNat :=
      (Nat.div_lt_iff_lt_mul hpos).mpr h
    refine ⟨_, (mem_sectorsToErase hpow).mpr ⟨i, hi, rfl⟩, (sub_sector_lt_iff hi a).mpr ⟨?_, ?_⟩⟩
    · exact Nat.div_mul_le_self _ _
    · exact (Nat.div_lt_iff_lt_mul hpos).mp (Nat.lt_succ_self _)
  · rintro ⟨ptr, hptr, hlt⟩
    obtain ⟨i, hi, rfl⟩ := (mem_sectorsToErase hpow).mp hptr
    exact Nat.lt_of_lt_of_le ((sub_sector_lt_iff hi a).mp hlt).2 (Nat.mul_le_mul_right _ hi)

/-! ## Erasing and the blank check -/

theorem eraseSectors_iff {ptrs : List UInt32} {f : φ} :
    (eraseSectors F ptrs f).1 = true ↔ AllErased F ptrs f := by
  induction ptrs generalizing f with
  | nil => exact ⟨fun _ => trivial, fun _ => rfl⟩
  | cons ptr ptrs ih =>
    unfold eraseSectors AllErased
    dsimp only
    cases hok : (F.EraseSector ptr f).1 with
    | false => exact ⟨fun h => Bool.noConfusion h, fun h => Bool.noConfusion h.1⟩
    | true => exact ⟨fun h => ⟨rfl, ih.mp h⟩, fun h => ih.mpr h.2⟩

theorem eraseSectors_content (hF : F.Shows content) {ptrs : List UInt32}
    (haligned : ∀ ptr ∈ ptrs, ptr.toNat % F.GetEraseBlockSize.toNat = 0) {f : φ}
    (h : AllErased F ptrs f) (a : UInt32) :
    ((∃ ptr ∈ ptrs, a - ptr < F.GetEraseBlockSize) →
        content (eraseSectors F ptrs f).2.1 a = 0xff) ∧
      ((∀ ptr ∈ ptrs, ¬ a - ptr < F.GetEraseBlockSize) →
        content (eraseSectors F ptrs f).2.1 a = content f a) := by
  induction ptrs generalizing f with
  | nil => exact ⟨fun ⟨ptr, hptr, _⟩ => absurd hptr List.not_mem_nil, fun _ => rfl⟩
  | cons ptr ptrs ih =>
    obtain ⟨hok, hrest⟩ := h
    obtain ⟨hptr, hptrs⟩ := List.forall_mem_cons.mp haligned
    have herase := congrFun (hF.erase ptr f hptr hok) a
    have hresult : (eraseSectors F (ptr :: ptrs) f).2.1 =
        (eraseSectors F ptrs (F.EraseSector ptr f).2).2.1 := by
      conv_lhs => unfold eraseSectors
      dsimp only
      rw [hok]
      rfl
    obtain ⟨hin, hout⟩ := ih hptrs hrest
    rw [hresult]
    constructor
    · rintro ⟨p, hp, hlt⟩
      by_cases hex : ∃ q ∈ ptrs, a - q < F.GetEraseBlockSize
      · exact hin hex
      · rcases List.mem_cons.mp hp with rfl | hp
        · rw [hout fun q hq hq' => hex ⟨q, hq, hq'⟩, herase]
          exact if_pos hlt
        · exact absurd ⟨p, hp, hlt⟩ hex
    · intro hall
      obtain ⟨hhead, htail⟩ := List.forall_mem_cons.mp hall
      rw [hout htail, herase]
      exact if_neg hhead

/-- How far the blank check reads. -/
def blankCheckEnd (c : UpdaterConfig) : Nat := (c.m_imageSize.toNat + 255) / 256 * 256

theorem buf_blank_iff (hF : F.Shows content) (addr : UInt32) (f : φ) :
    (F.ReadData addr 256 f).1.toList = List.replicate 256 0xff ↔
      ∀ i < 256, content f (addr + .ofNat i) = 0xff := by
  rw [hF.read, List.eq_replicate_iff]
  simp

/-- The blank check says whether all that it reads is blank. -/
theorem blankCheck_iff (hF : F.Shows content) (hsize : c.m_imageSize.toNat ≤ 0xffffff00)
    {addr : UInt32} {f g : φ} {blank : Bool} (haddr : addr.toNat % 256 = 0)
    (h : blankCheck F c fuel addr f = .ok (blank, g)) :
    content g = content f ∧ (blank = true ↔
      ∀ a : UInt32, addr.toNat ≤ a.toNat → a.toNat < blankCheckEnd c → content f a = 0xff) := by
  induction fuel generalizing addr f with
  | zero => cases h
  | succ fuel ih =>
    unfold blankCheck at h
    dsimp only at h
    have hkeeps := hF.read_keeps addr 256 f
    have hchunk := buf_blank_iff hF addr f
    by_cases hlt : addr < c.m_imageSize
    · rw [if_pos hlt] at h
      rw [UInt32.lt_iff_toNat_lt] at hlt
      have hend : addr.toNat + 256 ≤ blankCheckEnd c := by
        unfold blankCheckEnd
        omega
      have hbyte {i : Nat} (hi : i < 256) : (addr + .ofNat i).toNat = addr.toNat + i := by
        rw [UInt32.toNat_add, UInt32.toNat_ofNat_of_lt' (Nat.lt_trans hi (by decide))]
        exact Nat.mod_eq_of_lt (by omega)
      by_cases hblank : (F.ReadData addr 256 f).1.toList = List.replicate 256 0xff
      · rw [if_neg fun hne => bne_iff_ne.mp hne hblank] at h
        have hnext : (addr + 256).toNat = addr.toNat + 256 := by
          rw [UInt32.toNat_add]
          exact Nat.mod_eq_of_lt (by show addr.toNat + 256 < 4294967296; omega)
        obtain ⟨hg, hiff⟩ := ih (by rw [hnext]; omega) h
        refine ⟨hg.trans hkeeps, hiff.trans ⟨fun hall a hle hlt => ?_, fun hall a hle hlt => ?_⟩⟩
        · by_cases ha : addr.toNat + 256 ≤ a.toNat
          · rw [← hkeeps]
            exact hall a (by omega) hlt
          · have heq : a = addr + .ofNat (a.toNat - addr.toNat) :=
              UInt32.toNat_inj.mp (by rw [hbyte (by omega)]; omega)
            rw [heq]
            exact hchunk.mp hblank _ (by omega)
        · rw [hkeeps]
          exact hall a (by omega) hlt
      · rw [if_pos (bne_iff_ne.mpr hblank)] at h
        cases h
        refine ⟨hkeeps, fun hfalse => Bool.noConfusion hfalse, fun hall => ?_⟩
        refine absurd (hchunk.mpr fun i hi => ?_) hblank
        have hi' := hbyte hi
        exact hall _ (by omega) (by omega)
    · rw [if_neg hlt] at h
      cases h
      rw [UInt32.lt_iff_toNat_lt] at hlt
      refine ⟨rfl, fun _ a hle ha => ?_, fun _ => rfl⟩
      unfold blankCheckEnd at ha
      omega

/-- On a chip that is blank it goes round and round for the greatest sizes. -/
theorem blankCheck_never (hsize : 0xffffff00 < c.m_imageSize.toNat) {addr : UInt32} {f g : φ}
    (haddr : addr.toNat % 256 = 0) : blankCheck F c fuel addr f ≠ .ok (true, g) := by
  induction fuel generalizing addr f with
  | zero =>
    intro h
    cases h
  | succ fuel ih =>
    have hlt : addr < c.m_imageSize := by
      have := addr.toNat_lt
      rw [UInt32.lt_iff_toNat_lt]
      omega
    unfold blankCheck
    dsimp only
    rw [if_pos hlt]
    split
    · intro h
      cases h
    · refine ih ?_
      rw [UInt32.toNat_add]
      show (addr.toNat + 256) % 4294967296 % 256 = 0
      omega

/-! ## The partition -/

/-- What is erased, or is read and has to be, is blank beforehand where no whole sector is. -/
def BlankOutside (F : SpiFlash φ) (c : UpdaterConfig) (content : φ → UInt32 → UInt8) (f : φ) :
    Prop :=
  ∀ a : UInt32, a.toNat < blankCheckEnd c ∨ a - c.m_imageOffset < c.m_imageSize →
    ¬ InWholeSector F c a → content f a = 0xff

/-- With its sectors erased, a run comes to what the blank check comes to. -/
theorem eraseFlashPartition_erased (h : AllErased F (sectorsToErase F c) s.g_fpgaFlash)
    {blank : Bool} {g : φ}
    (hcheck : blankCheck F c fuel 0 (eraseSectors F (sectorsToErase F c) s.g_fpgaFlash).2.1 =
      .ok (blank, g)) :
    ∃ t es, EraseFlashPartition F c fuel s = .ok (t, es) ∧ t.g_fpgaFlash = g ∧
      (.setState .FAILED ∉ es ↔ blank = true) := by
  have hok := eraseSectors_iff.mpr h
  have hlog : .setState .FAILED ∉ (eraseSectors F (sectorsToErase F c) s.g_fpgaFlash).2.2 := by
    intro he
    obtain ⟨ptr, hptr⟩ := eraseSectors_log F _ _ _ he
    cases hptr
  unfold EraseFlashPartition
  dsimp only
  rw [hok, hcheck]
  cases blank with
  | true => exact ⟨_, _, rfl, rfl, fun _ => rfl, fun _ => hlog⟩
  | false =>
    refine ⟨_, _, rfl, rfl, fun hno => ?_, fun hfalse => Bool.noConfusion hfalse⟩
    exact absurd (List.mem_append_right _ (List.mem_singleton_self _)) hno

theorem eraseFlashPartition_not_failed (h : EraseFlashPartition F c fuel s = .ok (t, es))
    (hes : .setState .FAILED ∉ es) :
    AllErased F (sectorsToErase F c) s.g_fpgaFlash ∧
      blankCheck F c fuel 0 (eraseSectors F (sectorsToErase F c) s.g_fpgaFlash).2.1 =
        .ok (true, t.g_fpgaFlash) := by
  have hall : AllErased F (sectorsToErase F c) s.g_fpgaFlash := by
    refine eraseSectors_iff.mp ?_
    cases hok : (eraseSectors F (sectorsToErase F c) s.g_fpgaFlash).1 with
    | true => rfl
    | false =>
      unfold EraseFlashPartition at h
      dsimp only at h
      rw [hok] at h
      cases h
      exact absurd (List.mem_append_right _ (List.mem_singleton_self _)) hes
  refine ⟨hall, ?_⟩
  cases hcheck : blankCheck F c fuel 0 (eraseSectors F (sectorsToErase F c) s.g_fpgaFlash).2.1 with
  | error e =>
    unfold EraseFlashPartition at h
    dsimp only at h
    rw [eraseSectors_iff.mpr hall, hcheck] at h
    cases h
  | ok r =>
    obtain ⟨blank, g⟩ := r
    obtain ⟨t', es', ht', hg, hblank⟩ := eraseFlashPartition_erased hall hcheck
    rw [h] at ht'
    cases ht'
    rw [hblank.mp hes, ← hg]

/-- What the erased chip reads as. -/
theorem erased_content (hF : F.Shows content) (hpow : F.GetEraseBlockSize.toNat.isPowerOfTwo)
    (haligned : c.m_imageOffset.toNat % F.GetEraseBlockSize.toNat = 0) {f : φ}
    (h : AllErased F (sectorsToErase F c) f) (a : UInt32) :
    content (eraseSectors F (sectorsToErase F c) f).2.1 a =
      if InWholeSector F c a then 0xff else content f a := by
  have hptrs : ∀ ptr ∈ sectorsToErase F c, ptr.toNat % F.GetEraseBlockSize.toNat = 0 :=
    fun _ hptr => sectorsToErase_aligned hpow haligned hptr
  obtain ⟨hin, hout⟩ := eraseSectors_content hF hptrs h a
  split
  · rename_i ha
    exact hin ((inWholeSector_iff hpow a).mp ha)
  · rename_i ha
    refine hout fun ptr hptr hlt => ha ?_
    exact (inWholeSector_iff hpow a).mpr ⟨ptr, hptr, hlt⟩

/-- **Erasing is as it says** exactly when, should all sectors be erased, the blank
check ends and all else that it or the partition covers has been blank before. -/
theorem erase_truthful_iff (hF : F.Shows content) (hpow : F.GetEraseBlockSize.toNat.isPowerOfTwo)
    (haligned : c.m_imageOffset.toNat % F.GetEraseBlockSize.toNat = 0)
    (s : FPGAFirmwareUpdater φ) :
    Truthful F c content s ↔ (AllErased F (sectorsToErase F c) s.g_fpgaFlash →
      c.m_imageSize.toNat ≤ 0xffffff00 ∧ BlankOutside F c content s.g_fpgaFlash) := by
  have hcontent {a : UInt32} (hall : AllErased F (sectorsToErase F c) s.g_fpgaFlash) :=
    erased_content hF hpow haligned hall a
  have hzero : (0 : UInt32).toNat % 256 = 0 := rfl
  constructor
  · intro htruth hall
    obtain ⟨fuel, t, es, ht, hes⟩ := htruth.succeeds hall
    obtain ⟨-, hcheck⟩ := eraseFlashPartition_not_failed ht hes
    have hsize : c.m_imageSize.toNat ≤ 0xffffff00 := by
      refine Nat.le_of_not_lt fun hbig => ?_
      exact blankCheck_never hbig hzero hcheck
    obtain ⟨hkeeps, hblank⟩ := blankCheck_iff hF hsize hzero hcheck
    refine ⟨hsize, fun a ha hout => ?_⟩
    have hsame := hcontent (a := a) hall
    rw [if_neg hout] at hsame
    rw [← hsame]
    rcases ha with hread | hpart
    · exact hblank.mp rfl a (Nat.zero_le _) hread
    · rw [← hkeeps]
      exact htruth.blank fuel t es ht hes a hpart
  · intro hcond
    have hall_blank {a : UInt32} (hall : AllErased F (sectorsToErase F c) s.g_fpgaFlash)
        (ha : a.toNat < blankCheckEnd c ∨ a - c.m_imageOffset < c.m_imageSize) :
        content (eraseSectors F (sectorsToErase F c) s.g_fpgaFlash).2.1 a = 0xff := by
      rw [hcontent hall]
      split
      · rfl
      · rename_i hout
        exact (hcond hall).2 a ha hout
    refine ⟨fun fuel t es ht hes a ha => ?_, fun hall => ?_⟩
    · obtain ⟨hall, hcheck⟩ := eraseFlashPartition_not_failed ht hes
      obtain ⟨hkeeps, -⟩ := blankCheck_iff hF (hcond hall).1 hzero hcheck
      rw [hkeeps]
      exact hall_blank hall (.inr ha)
    · have hsize := (hcond hall).1
      have hrounds : c.m_imageSize.toNat ≤ (0 : UInt32).toNat + 256 * c.m_imageSize.toNat := by
        show _ ≤ 0 + _
        omega
      obtain ⟨⟨blank, g⟩, hcheck⟩ := blankCheck_total (F := F)
        (f := (eraseSectors F (sectorsToErase F c) s.g_fpgaFlash).2.1) hsize hrounds
        (Nat.lt_succ_self _)
      have hblank := (blankCheck_iff hF hsize hzero hcheck).2.mpr
        fun a _ hlt => hall_blank hall (.inl hlt)
      obtain ⟨t, es, ht, -, hes⟩ := eraseFlashPartition_erased hall hcheck
      exact ⟨_, t, es, ht, hes.mpr hblank⟩

/-! ## Chips -/

theorem contentsFlash_shows {e w : UInt32} (he : 0 < e.toNat) (hw : 0 < w.toNat) :
    (contentsFlash e w he hw).Shows id where
  read _ _ _ := rfl
  read_keeps _ _ _ := rfl
  erase _ _ _ _ := rfl

theorem contentsFlash_allErased {e w : UInt32} (he : 0 < e.toNat) (hw : 0 < w.toNat)
    (ptrs : List UInt32) (f : UInt32 → UInt8) : AllErased (contentsFlash e w he hw) ptrs f := by
  induction ptrs generalizing f with
  | nil => trivial
  | cons ptr ptrs ih => exact ⟨rfl, ih _⟩

/-- A chip that has data in it up to an address. -/
def usedBelow (addr : UInt32) : UInt32 → UInt8 := fun a => if a < addr then 0x12 else 0xff

/-- One that has data in it from there on. -/
def usedFrom (addr : UInt32) : UInt32 → UInt8 := fun a => if a < addr then 0xff else 0x12

theorem erase_truthful_sample : Truthful sampleFlash sampleConfig id (.init 0 (usedBelow 64)) := by
  have hpow : sampleFlash.GetEraseBlockSize.toNat.isPowerOfTwo := ⟨4, rfl⟩
  refine (erase_truthful_iff (contentsFlash_shows _ _) hpow rfl _).mpr fun _ => ⟨by decide, ?_⟩
  intro a _ hout
  refine if_neg fun hlt => hout ?_
  show (a - 0).toNat < 64
  rw [UInt32.sub_zero]
  exact UInt32.lt_iff_toNat_lt.mp hlt

/-- The last bytes of a partition are left as they are, and are not looked at;
what is looked at need not be the partition. -/
theorem erase_not_truthful :
    ¬ Truthful sampleFlash ⟨[0x78], 4096, 24⟩ id (.init 0 (usedFrom 4096)) ∧
      ¬ Truthful sampleFlash ⟨[0x78], 256, 256⟩ id (.init 0 (usedBelow 256)) := by
  constructor
  · intro h
    obtain ⟨fuel, t, es, ht, hes⟩ := h.succeeds (contentsFlash_allErased _ _ _ _)
    obtain ⟨-, hcheck⟩ := eraseFlashPartition_not_failed ht hes
    have hkeeps := (blankCheck_iff (contentsFlash_shows _ _) (by decide) rfl hcheck).1
    have hlast := h.blank fuel t es ht hes 4112 (by decide)
    rw [hkeeps] at hlast
    exact absurd hlast (by decide)
  · intro h
    obtain ⟨fuel, t, es, ht, hes⟩ := h.succeeds (contentsFlash_allErased _ _ _ _)
    obtain ⟨-, hcheck⟩ := eraseFlashPartition_not_failed ht hes
    have hblank := (blankCheck_iff (contentsFlash_shows _ _) (by decide) rfl hcheck).2.mp rfl 0
    exact absurd (hblank (Nat.le_refl _) (by decide)) (by decide +kernel)

end EmbeddedPlatform.Fpga
