import EmbeddedPlatform.Drivers.TCA6424A

/-! # Reading back a pin of the expander

A `TCA6424A_GPIO` answers from what was last done through itself. Other ways to
the same pin, and the level outputs have at power up, pass it by. -/
namespace EmbeddedPlatform.Drivers
open EmbeddedPlatform.Lib

/-- The wrapper's caches: whether it made the pin an output, and what was last
assigned to it. -/
structure TCA6424A_GPIO where
  m_channel : Fin 24
  m_output : Bool
  m_outputValue : Bool

namespace TCA6424A_GPIO

def construct (channel : Fin 24) : TCA6424A_GPIO := ⟨channel, false, false⟩

def SetDirection (w : TCA6424A_GPIO) (input : Bool) : TCA6424A_GPIO × Operation :=
  ({ w with m_output := !input }, .SetDirection w.m_channel input)

def assign (w : TCA6424A_GPIO) (value : Bool) : TCA6424A_GPIO × Operation :=
  ({ w with m_outputValue := value }, .SetOutputValue w.m_channel value)

/-- `operator bool`; the input path is not implemented. -/
def read (w : TCA6424A_GPIO) : Bool := if w.m_output then w.m_outputValue else false

/-- If the pin is an output, what is read is the level it is driven to. -/
def ReadsBack (w : TCA6424A_GPIO) (chip : Expander) : Prop :=
  chip.isInput w.m_channel = false → w.read = chip.level w.m_channel

end TCA6424A_GPIO

section
variable {ι : Type*} [DecidableEq ι]

/-- Use of a wrapper, or of the driver behind its back. -/
inductive GPIOOperation (ι : Type*) where
  | SetDirection (w : ι) (input : Bool)
  | assign (w : ι) (value : Bool)
  | direct (op : Operation)

/-- An expander with wrappers for its pins, several for one pin if need be. -/
structure Pins (ι : Type*) where
  bus : Bus
  wrappers : ι → TCA6424A_GPIO

namespace Pins

/-- The parent performs what the wrapper `w` asks for. -/
def through (s : Pins ι) (w : ι) (r : TCA6424A_GPIO × Operation) : Pins ι :=
  ⟨s.bus.step r.2, Function.update s.wrappers w r.1⟩

def step (s : Pins ι) : GPIOOperation ι → Pins ι
  | .SetDirection w input => s.through w ((s.wrappers w).SetDirection input)
  | .assign w value => s.through w ((s.wrappers w).assign value)
  | .direct op => { s with bus := s.bus.step op }

def powerUp (address : UInt8) (others : BitVec 8 → BitVec 8) (channel : ι → Fin 24) : Pins ι :=
  ⟨.powerUp address others, fun w => .construct (channel w)⟩

/-- Every wrapper of a pin that is an output reads the level the pin is driven to. -/
def Coherent (s : Pins ι) : Prop := ∀ w, (s.wrappers w).ReadsBack s.bus.chip

/-- The wrapper was used to make its pin an output and was last assigned `value`,
or was not used and `value` is 0. -/
def Cached (w : TCA6424A_GPIO) (value : Bool) : Prop :=
  (w.m_output = true ∧ w.m_outputValue = value) ∨ (w.m_output = false ∧ value = false)

/-- What an operation needs in order that no cache goes stale. -/
def KeepsCaches (s : Pins ι) : GPIOOperation ι → Prop
  | .SetDirection w input => input = false →
    let chan := (s.wrappers w).m_channel
    (s.wrappers w).m_outputValue = s.bus.chip.level chan ∧
      ∀ v, v ≠ w → (s.wrappers v).m_channel = chan → Cached (s.wrappers v) (s.bus.chip.level chan)
  | .assign w value =>
    let chan := (s.wrappers w).m_channel
    s.bus.chip.isInput chan = false → ((s.wrappers w).m_output = true ∨ value = false) ∧
      ∀ v, v ≠ w → (s.wrappers v).m_channel = chan → Cached (s.wrappers v) value
  | .direct (.SetDirection chan input) => input = false →
    ∀ v, (s.wrappers v).m_channel = chan → Cached (s.wrappers v) (s.bus.chip.level chan)
  | .direct (.SetOutputValue chan value) => s.bus.chip.isInput chan = false →
    ∀ v, (s.wrappers v).m_channel = chan → Cached (s.wrappers v) value
  | .direct (.Batch updates) =>
    ∀ v value, s.bus.chip.isInput (s.wrappers v).m_channel = false →
      (Operation.Batch updates).level (s.wrappers v).m_channel = some value →
        Cached (s.wrappers v) value

end Pins

end

/-! ## What an operation does to one wrapper -/

namespace TCA6424A_GPIO

variable {b : Bus} {w : TCA6424A_GPIO}

theorem cached_iff (w : TCA6424A_GPIO) (value : Bool) : Pins.Cached w value ↔ w.read = value := by
  unfold Pins.Cached read
  cases w.m_output <;> simp [eq_comm]

theorem read_assign (w : TCA6424A_GPIO) (value : Bool) :
    (w.assign value).1.read = value ↔ w.m_output = true ∨ value = false := by
  unfold assign read
  cases w.m_output <;> simp [eq_comm]

/-- In terms of what the operation requests. -/
theorem readsBack_step (h : InStep b) (op : Operation) :
    w.ReadsBack (b.step op).chip ↔
      ((op.direction w.m_channel).getD (b.chip.isInput w.m_channel) = false →
        w.read = (op.level w.m_channel).getD (b.chip.level w.m_channel)) := by
  unfold ReadsBack
  rw [h.step_level, h.step_isInput]

theorem readsBack_setDirection (h : InStep b) {chan : Fin 24} (hchan : w.m_channel = chan)
    (input : Bool) : w.ReadsBack (b.step (.SetDirection chan input)).chip ↔
      (input = false → w.read = b.chip.level chan) := by
  rw [readsBack_step h, hchan]
  simp [Operation.direction, Operation.level]

theorem readsBack_setOutputValue (h : InStep b) {chan : Fin 24} (hchan : w.m_channel = chan)
    (value : Bool) : w.ReadsBack (b.step (.SetOutputValue chan value)).chip ↔
      (b.chip.isInput chan = false → w.read = value) := by
  rw [readsBack_step h, hchan]
  simp [Operation.direction, Operation.level]

/-- An operation that requests nothing of a pin. -/
theorem ReadsBack.step_other (hw : w.ReadsBack b.chip) (h : InStep b) {op : Operation}
    (hd : op.direction w.m_channel = none) (hl : op.level w.m_channel = none) :
    w.ReadsBack (b.step op).chip := by
  rw [readsBack_step h, hd, hl]
  exact hw

theorem ReadsBack.setDirection_of_ne (hw : w.ReadsBack b.chip) (h : InStep b) {chan : Fin 24}
    (hchan : w.m_channel ≠ chan) (input : Bool) :
    w.ReadsBack (b.step (.SetDirection chan input)).chip :=
  hw.step_other h (if_neg (Ne.symm hchan)) rfl

theorem ReadsBack.setOutputValue_of_ne (hw : w.ReadsBack b.chip) (h : InStep b) {chan : Fin 24}
    (hchan : w.m_channel ≠ chan) (value : Bool) :
    w.ReadsBack (b.step (.SetOutputValue chan value)).chip :=
  hw.step_other h rfl (if_neg (Ne.symm hchan))

/-- For a wrapper used by no one, a change of direction is noticed only by an output. -/
theorem ReadsBack.setDirection_iff (hw : w.ReadsBack b.chip) (h : InStep b) (chan : Fin 24)
    (input : Bool) : w.ReadsBack (b.step (.SetDirection chan input)).chip ↔
      (w.m_channel = chan → input = false → Pins.Cached w (b.chip.level chan)) := by
  rw [cached_iff]
  by_cases hchan : w.m_channel = chan
  · rw [readsBack_setDirection h hchan]
    exact ⟨fun hr _ => hr, fun hr => hr hchan⟩
  · exact iff_of_true (hw.setDirection_of_ne h hchan input) fun he => absurd he hchan

theorem ReadsBack.setOutputValue_iff (hw : w.ReadsBack b.chip) (h : InStep b) (chan : Fin 24)
    (value : Bool) : w.ReadsBack (b.step (.SetOutputValue chan value)).chip ↔
      (w.m_channel = chan → b.chip.isInput chan = false → Pins.Cached w value) := by
  rw [cached_iff]
  by_cases hchan : w.m_channel = chan
  · rw [readsBack_setOutputValue h hchan]
    exact ⟨fun hr _ => hr, fun hr => hr hchan⟩
  · exact iff_of_true (hw.setOutputValue_of_ne h hchan value) fun he => absurd he hchan

theorem ReadsBack.batch_iff (hw : w.ReadsBack b.chip) (h : InStep b)
    (updates : List (Fin 3 × BitVec 8)) : w.ReadsBack (b.step (.Batch updates)).chip ↔
      ∀ value, b.chip.isInput w.m_channel = false →
        (Operation.Batch updates).level w.m_channel = some value → Pins.Cached w value := by
  cases hl : (Operation.Batch updates).level w.m_channel with
  | none => exact iff_of_true (hw.step_other h rfl hl) fun _ _ he => absurd he (by simp)
  | some value =>
    rw [readsBack_step h, hl]
    simp [Operation.direction, cached_iff]

end TCA6424A_GPIO

/-! ## What an operation does to all of them -/

section
variable {ι : Type*} [DecidableEq ι] {s : Pins ι}

namespace Pins

theorem coherent_through (w : ι) (r : TCA6424A_GPIO × Operation) :
    (s.through w r).Coherent ↔ r.1.ReadsBack (s.bus.step r.2).chip ∧
      ∀ v, v ≠ w → (s.wrappers v).ReadsBack (s.bus.step r.2).chip :=
  Function.forall_update_iff s.wrappers fun _ v => v.ReadsBack (s.bus.step r.2).chip

theorem keepsCaches_setDirection (h : InStep s.bus) (hc : s.Coherent) (w : ι) (input : Bool) :
    (s.step (.SetDirection w input)).Coherent ↔ s.KeepsCaches (.SetDirection w input) := by
  have hown : ((s.wrappers w).SetDirection input).1.ReadsBack
      (s.bus.step (.SetDirection (s.wrappers w).m_channel input)).chip ↔
        (input = false → (s.wrappers w).m_outputValue = s.bus.chip.level (s.wrappers w).m_channel) := by
    have hread := TCA6424A_GPIO.readsBack_setDirection (w := ((s.wrappers w).SetDirection input).1)
      h rfl input
    refine hread.trans (imp_congr_right fun hin => ?_)
    rw [hin]
    rfl
  have hothers := fun v => (hc v).setDirection_iff h (s.wrappers w).m_channel input
  refine (coherent_through w _).trans ⟨?_, ?_⟩
  · rintro ⟨hw, hv⟩ hin
    exact ⟨hown.mp hw hin, fun v hne hchan => (hothers v).mp (hv v hne) hchan hin⟩
  · intro hk
    refine ⟨hown.mpr fun hin => (hk hin).1, fun v hne => (hothers v).mpr fun hchan hin => ?_⟩
    exact (hk hin).2 v hne hchan

theorem keepsCaches_assign (h : InStep s.bus) (hc : s.Coherent) (w : ι) (value : Bool) :
    (s.step (.assign w value)).Coherent ↔ s.KeepsCaches (.assign w value) := by
  have hown : ((s.wrappers w).assign value).1.ReadsBack
      (s.bus.step (.SetOutputValue (s.wrappers w).m_channel value)).chip ↔
        (s.bus.chip.isInput (s.wrappers w).m_channel = false →
          (s.wrappers w).m_output = true ∨ value = false) := by
    have hread := TCA6424A_GPIO.readsBack_setOutputValue (w := ((s.wrappers w).assign value).1)
      h rfl value
    exact hread.trans (imp_congr_right fun _ => TCA6424A_GPIO.read_assign ..)
  have hothers := fun v => (hc v).setOutputValue_iff h (s.wrappers w).m_channel value
  refine (coherent_through w _).trans ⟨?_, ?_⟩
  · rintro ⟨hw, hv⟩ hout
    exact ⟨hown.mp hw hout, fun v hne hchan => (hothers v).mp (hv v hne) hchan hout⟩
  · intro hk
    refine ⟨hown.mpr fun hout => (hk hout).1, fun v hne => (hothers v).mpr fun hchan hout => ?_⟩
    exact (hk hout).2 v hne hchan

theorem keepsCaches_direct (h : InStep s.bus) (hc : s.Coherent) (op : Operation) :
    (s.step (.direct op)).Coherent ↔ s.KeepsCaches (.direct op) := by
  cases op with
  | SetDirection chan input =>
    refine (forall_congr' fun v => (hc v).setDirection_iff h chan input).trans ?_
    exact ⟨fun hv hin v hchan => hv v hchan hin, fun hk v hchan hin => hk hin v hchan⟩
  | SetOutputValue chan value =>
    refine (forall_congr' fun v => (hc v).setOutputValue_iff h chan value).trans ?_
    exact ⟨fun hv hout v hchan => hv v hchan hout, fun hk v hchan hout => hk hout v hchan⟩
  | Batch updates => exact forall_congr' fun v => (hc v).batch_iff h updates

/-- **Step lemma.** From a coherent state the condition is what an operation needs. -/
theorem keepsCaches_iff (h : InStep s.bus) (hc : s.Coherent) (op : GPIOOperation ι) :
    (s.step op).Coherent ↔ s.KeepsCaches op := by
  cases op with
  | SetDirection w input => exact keepsCaches_setDirection h hc w input
  | assign w value => exact keepsCaches_assign h hc w value
  | direct op => exact keepsCaches_direct h hc op

theorem step_inStep (s : Pins ι) (op : GPIOOperation ι) (h : InStep s.bus) :
    InStep (s.step op).bus := by
  cases op with
  | SetDirection | assign | direct => exact h.step _

omit [DecidableEq ι] in
/-- At power up no pin is an output. -/
theorem coherent_powerUp (address : UInt8) (others : BitVec 8 → BitVec 8) (channel : ι → Fin 24) :
    (powerUp address others channel).Coherent := by
  intro w hout
  exact absurd ((isInput_powerUp address others (channel w)).symm.trans hout) (by decide)

/-- **Readback.** The wrappers read what their pins are driven to, at every point
of a run, exactly when every operation finds the caches it needs. -/
theorem readback_iff (address : UInt8) (others : BitVec 8 → BitVec 8) (channel : ι → Fin 24)
    (ops : List (GPIOOperation ι)) :
    Along step Coherent (powerUp address others channel) ops ↔
      Complies step KeepsCaches (powerUp address others channel) ops :=
  along_iff_complies step (I := Coherent) (J := fun s => InStep s.bus) step_inStep (fun _ op h hc => keepsCaches_iff h hc op)
    (inStep_powerUp address others) (coherent_powerUp address others channel) ops

/-- A wrapper whose pin is made an output before anything was assigned to it. -/
theorem readback_stale : ¬ ∀ (channel : Fin 1 → Fin 24) (ops : List (GPIOOperation (Fin 1))),
    (replay step (powerUp 0x22 (fun _ => 0) channel) ops).Coherent := by
  intro h
  have h0 := h (fun _ => 3) [.SetDirection 0 false] 0 (by decide)
  revert h0
  decide

end Pins

end

end EmbeddedPlatform.Drivers
