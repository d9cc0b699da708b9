import EmbeddedPlatform.Bootloader.BootIntegrity

/-! # Erasing the application

`EraseFlash` is what an update flow of a board calls before it programs a new image.
It goes up from the vector table, so that an update that programs the first word of
that last can lose power anywhere behind the first block: until the word is there, no
reset boots, and from then on what is booted is the image as a whole. The driver of
the flash belongs to a library and is a parameter. How the image gets into the flash
is the board's. -/
namespace EmbeddedPlatform.Bootloader
open EmbeddedPlatform.Lib

/-! ## The erasure -/

/-- The parts with a flash of their own. The others never return. -/
inductive Part where
  | STM32L431
  | STM32L031
  | STM32H735

def Part.eraseBlockSize : Part → Nat
  | STM32L431 => 2 * 1024
  | STM32L031 => 128
  | STM32H735 => 128 * 1024

/-- `BlockErase` is called with the start of a block, as an offset from `appStart`. The
block reads as blank afterwards, and the others as before. -/
structure Flash (part : Part) where
  BlockErase : Nat → Partition → Partition
  blockErase_blank : ∀ {k i : Nat} {flash : Partition}, k * part.eraseBlockSize ≤ i →
    i < (k + 1) * part.eraseBlockSize → BlockErase (k * part.eraseBlockSize) flash i = 0xff
  blockErase_other : ∀ {k i : Nat} {flash : Partition},
    i < k * part.eraseBlockSize ∨ (k + 1) * part.eraseBlockSize ≤ i →
    BlockErase (k * part.eraseBlockSize) flash i = flash i

section
variable {part : Part}

/-- The loop, up to some block. -/
def eraseBlocks (F : Flash part) : Nat → Partition → Partition
  | 0, flash => flash
  | i + 1, flash => F.BlockErase (i * part.eraseBlockSize) (eraseBlocks F i flash)

/-- Power is lost while a block is being erased, and the block is left as it happens. -/
structure PowerCut where
  block : Nat
  torn : Partition

def EraseFlash (P : Platform) (F : Flash part) (cut : Option PowerCut) (flash : Partition) :
    Partition :=
  let nblocks := P.g_appImageSize / part.eraseBlockSize
  match cut with
  | none => eraseBlocks F nblocks flash
  | some c =>
    if c.block < nblocks then
      fun i =>
        if c.block * part.eraseBlockSize ≤ i ∧ i < (c.block + 1) * part.eraseBlockSize then c.torn i
        else eraseBlocks F c.block flash i
    else eraseBlocks F nblocks flash

end

/-! ## What is erased -/

section
variable {P : Platform} {part : Part} {F : Flash part} {cut : Option PowerCut} {flash : Partition}
  {i : Nat}

theorem Part.eraseBlockSize_ge (part : Part) : 128 ≤ part.eraseBlockSize := by
  cases part <;> decide

theorem eraseBlocks_below {k : Nat} (h : i < k * part.eraseBlockSize) :
    eraseBlocks F k flash i = 0xff := by
  induction k with
  | zero => exact absurd h (by omega)
  | succ k ih =>
    show F.BlockErase (k * part.eraseBlockSize) (eraseBlocks F k flash) i = 0xff
    by_cases hi : i < k * part.eraseBlockSize
    · rw [F.blockErase_other (.inl hi)]
      exact ih hi
    · exact F.blockErase_blank (Nat.le_of_not_lt hi) h

/-- The first block, at least, is done. -/
def FirstBlockErased (cut : Option PowerCut) : Prop := ∀ c, cut = some c → 0 < c.block

theorem eraseFlash_first (hsize : part.eraseBlockSize ≤ P.g_appImageSize)
    (hcut : FirstBlockErased cut) (h : i < part.eraseBlockSize) :
    EraseFlash P F cut flash i = 0xff := by
  have hpos : 0 < P.g_appImageSize / part.eraseBlockSize := Nat.div_pos hsize (by omega)
  have hdone : ∀ k, 0 < k → eraseBlocks F k flash i = 0xff := fun k hk =>
    eraseBlocks_below (Nat.lt_of_lt_of_le h (Nat.le_mul_of_pos_left _ hk))
  cases cut with
  | none => exact hdone _ hpos
  | some c =>
    have hc := hcut c rfl
    have hblock := Nat.le_mul_of_pos_left part.eraseBlockSize hc
    unfold EraseFlash
    dsimp only
    split
    · show (if _ then _ else _) = _
      rw [if_neg (by omega)]
      exact hdone _ hc
    · exact hdone _ hpos

/-- The first word of the vector table is blank. -/
def VectorBlank (appVector : Partition) : Prop := readWord appVector = 0xffffffff

theorem eraseFlash_vectorBlank (hsize : part.eraseBlockSize ≤ P.g_appImageSize)
    (hcut : FirstBlockErased cut) : VectorBlank (EraseFlash P F cut flash) := by
  have h : ∀ i < 4, EraseFlash P F cut flash i = 0xff := fun i hi =>
    eraseFlash_first hsize hcut
      (Nat.lt_of_lt_of_le hi (Nat.le_trans (by decide) part.eraseBlockSize_ge))
  unfold VectorBlank readWord
  rw [h 0 (by decide), h 1 (by decide), h 2 (by decide), h 3 (by decide)]
  rfl

end

/-! ## An update -/

/-- `EraseFlash`, and all that happens to a device anyway. -/
inductive UpdateEvent where
  | EraseFlash (cut : Option PowerCut)
  | other (e : Event)

def updateStep (P : Platform) {part : Part} (F : Flash part) (d : Device) :
    UpdateEvent → Except Empty (Device × List Boot)
  | .EraseFlash cut => .ok ({ d with appVector := EraseFlash P F cut d.appVector }, [])
  | .other e => step P d e

/-- What the update does leaves the first word blank. -/
def UpdateEvent.KeepsBlank : UpdateEvent → Prop
  | .EraseFlash cut => FirstBlockErased cut
  | .other (.rewritten d) => VectorBlank d.appVector
  | .other (.reset _ _) => True

/-- The boot went to the update flow, and left everything as it was. -/
def Boot.Declined (b : Boot) : Prop :=
  b.next = some .Bootloader_FirmwareUpdateFlow ∧ b.after = b.before

section
variable {P : Platform} {part : Part} {F : Flash part} {d d' : Device} {log : List Boot}
  {f : Faults} {m_state : BootloaderState} {kvs : Kvs} {appVector : Partition}

theorem validate_of_vectorBlank (h : VectorBlank appVector) :
    ValidateAppPartition P f kvs appVector = (kvs, some false) := if_pos h

/-- With a blank vector table there is only the update flow, whatever the reason of the
reset. -/
theorem mainLoop_of_vectorBlank (h : VectorBlank appVector) :
    Bootloader_MainLoop P f m_state kvs appVector =
      ⟨m_state, kvs, some .Bootloader_FirmwareUpdateFlow⟩ := by
  have hvalid : ValidateAppPartition P f kvs appVector = (kvs, some false) :=
    validate_of_vectorBlank h
  unfold Bootloader_MainLoop
  rw [hvalid]
  cases m_state with
  | STATE_CRASH =>
    show ite _ _ _ = _
    exact ite_self _
  | STATE_DFU | STATE_POR | STATE_APP | unknown => rfl

theorem updateStep_blank (hsize : part.eraseBlockSize ≤ P.g_appImageSize)
    (hd : VectorBlank d.appVector) {e : UpdateEvent} (he : e.KeepsBlank) {boots : List Boot}
    (hs : updateStep P F d e = .ok (d', boots)) :
    VectorBlank d'.appVector ∧ ∀ b ∈ boots, b.Declined := by
  cases e with
  | EraseFlash cut =>
    cases hs
    exact ⟨eraseFlash_vectorBlank hsize he, List.forall_mem_nil _⟩
  | other e =>
    cases e with
    | reset m_state f =>
      obtain ⟨rfl, rfl⟩ := ok_eq hs
      rw [mainLoop_of_vectorBlank hd]
      exact ⟨hd, List.forall_mem_singleton.mpr ⟨rfl, rfl⟩⟩
    | rewritten d₁ =>
      cases hs
      exact ⟨he, List.forall_mem_nil _⟩

theorem update_blank (hsize : part.eraseBlockSize ≤ P.g_appImageSize) {events : List UpdateEvent}
    (hkeep : ∀ e ∈ events, e.KeepsBlank) (hd : VectorBlank d.appVector)
    (hr : run (updateStep P F) d events = .ok (d', log)) : ∀ b ∈ log, b.Declined := by
  have h := run_rule (C := fun _ e => UpdateEvent.KeepsBlank e) (l := []) (b := [])
    (J := fun s log _ => VectorBlank s.appVector ∧ ∀ b ∈ log, b.Declined)
    (fun s log _ e t boots h he hs => by
      obtain ⟨ht, hboots⟩ := updateStep_blank hsize h.1 he hs
      exact ⟨ht, List.forall_mem_append.mpr ⟨h.2, hboots⟩⟩)
    ⟨hd, fun _ hb => absurd hb List.not_mem_nil⟩ (allSteps_of_forall hkeep) hr
  exact h.2

/-! ## After the update -/

/-- A reset. -/
def UpdateEvent.IsReset : UpdateEvent → Prop
  | .other (.reset _ _) => True
  | _ => False

/-- A reset that is not asked for by a crash or for an update, without faults. -/
def UpdateEvent.IsHealthy : UpdateEvent → Prop
  | .other (.reset m_state f) =>
    m_state ≠ .STATE_DFU ∧ m_state ≠ .STATE_CRASH ∧ f.ecc = false ∧ f.StoresSucceed
  | _ => False

theorem UpdateEvent.IsHealthy.isReset {e : UpdateEvent} (h : e.IsHealthy) : e.IsReset := by
  cases e with
  | EraseFlash cut => exact h
  | other e =>
    cases e with
    | reset m_state f => trivial
    | rewritten d => exact h

theorem updateStep_reset {e : UpdateEvent} (he : e.IsReset) {boots : List Boot}
    (hs : updateStep P F d e = .ok (d', boots)) :
    d'.appVector = d.appVector ∧ ∀ b ∈ boots, b.before.appVector = d.appVector := by
  cases e with
  | EraseFlash cut => exact he.elim
  | other e =>
    cases e with
    | reset m_state f =>
      obtain ⟨rfl, rfl⟩ := ok_eq hs
      exact ⟨rfl, List.forall_mem_singleton.mpr rfl⟩
    | rewritten d => exact he.elim

theorem resets_same_image {events : List UpdateEvent} (hresets : ∀ e ∈ events, e.IsReset)
    (hr : run (updateStep P F) d events = .ok (d', log)) :
    ∀ b ∈ log, b.before.appVector = d.appVector := by
  have h := run_rule (C := fun _ e => UpdateEvent.IsReset e) (l := []) (b := [])
    (J := fun t log _ => t.appVector = d.appVector ∧ ∀ b ∈ log, b.before.appVector = d.appVector)
    (fun s log _ e t boots h he hs => by
      obtain ⟨ht, hboots⟩ := updateStep_reset he hs
      rw [h.1] at ht hboots
      exact ⟨ht, List.forall_mem_append.mpr ⟨h.2, hboots⟩⟩)
    ⟨rfl, List.forall_mem_nil _⟩ (allSteps_of_forall hresets) hr
  exact h.2

/-- A boot without faults accepts the image. -/
def Acceptable (P : Platform) (d : Device) : Prop :=
  ∀ f : Faults, f.ecc = false → f.StoresSucceed →
    (ValidateAppPartition P f d.g_kvs d.appVector).2 = some true

/-- An image with a build id that is not on record. -/
structure NewImage (P : Platform) (d : Device) : Prop where
  not_blank : ¬ VectorBlank d.appVector
  version : validVersion P d.appVector = true
  new : ¬ RecordedVersion d.g_kvs (FormatBuildID (firmwareVer P d.appVector))

theorem NewImage.acceptable (h : NewImage P d) : Acceptable P d := by
  intro f hecc hf
  refine (validate_verdict h.not_blank hecc ?_ ?_).mpr (.inl ((isAppUpdated_iff h.version).mpr h.new))
  · rw [hf.version]
    rfl
  · rw [hf.crc]
    rfl

theorem updateStep_healthy (hblank : ¬ VectorBlank d.appVector) (hd : Acceptable P d)
    {e : UpdateEvent} (he : e.IsHealthy) {boots : List Boot}
    (hs : updateStep P F d e = .ok (d', boots)) :
    Acceptable P d' ∧ ∀ b ∈ boots, b.next = some .BootApplication := by
  cases e with
  | EraseFlash cut => exact he.elim
  | other e =>
    cases e with
    | rewritten d => exact he.elim
    | reset m_state f =>
      obtain ⟨hdfu, hcrash, hecc, hf⟩ := he
      obtain ⟨rfl, rfl⟩ := ok_eq hs
      have hvalid := hd f hecc hf
      have hboots : (Bootloader_MainLoop P f m_state d.g_kvs d.appVector).next =
          some .BootApplication :=
        mainLoop_boots_iff.mpr ⟨hdfu, fun h => absurd h hcrash, hvalid⟩
      refine ⟨fun f' hecc' _ => ?_, List.forall_mem_singleton.mpr hboots⟩
      -- the first boot has put the image on record
      have hsame := comparesEqual_of_accepted hf hvalid
      show (ValidateAppPartition P f' (Bootloader_MainLoop P f m_state d.g_kvs d.appVector).g_kvs
        d.appVector).2 = some true
      rw [mainLoop_kvs_of_boots hboots, validate_of_comparesEqual hblank hecc' hsame]

theorem resets_boot {events : List UpdateEvent} (hblank : ¬ VectorBlank d.appVector)
    (hd : Acceptable P d) (hhealthy : ∀ e ∈ events, e.IsHealthy)
    (hr : run (updateStep P F) d events = .ok (d', log)) :
    ∀ b ∈ log, b.next = some .BootApplication := by
  have h := run_rule (C := fun _ e => UpdateEvent.IsHealthy e) (l := []) (b := [])
    (J := fun t log _ => (t.appVector = d.appVector ∧ Acceptable P t) ∧
      ∀ b ∈ log, b.next = some .BootApplication)
    (fun s log _ e t boots h he hs => by
      have hs' : ¬ VectorBlank s.appVector := h.1.1 ▸ hblank
      obtain ⟨ht, hboots⟩ := updateStep_healthy hs' h.1.2 he hs
      have himage := (updateStep_reset he.isReset hs).1.trans h.1.1
      exact ⟨⟨himage, ht⟩, List.forall_mem_append.mpr ⟨h.2, hboots⟩⟩)
    ⟨⟨rfl, hd⟩, List.forall_mem_nil _⟩ (allSteps_of_forall hhealthy) hr
  exact h.2

end

/-- A driver that writes the blank bytes itself. -/
def blanking (part : Part) : Flash part where
  BlockErase offset flash i :=
    if offset ≤ i ∧ i < offset + part.eraseBlockSize then 0xff else flash i
  blockErase_blank hle hlt := if_pos ⟨hle, by rwa [← Nat.add_one_mul]⟩
  blockErase_other h := if_neg (by rw [← Nat.add_one_mul]; omega)

end EmbeddedPlatform.Bootloader
