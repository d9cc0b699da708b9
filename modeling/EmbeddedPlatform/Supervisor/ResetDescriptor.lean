import EmbeddedPlatform.Core.MainLoop

/-! # Resets that take time

The two reset descriptors with a delay note what the timer counts when the reset
is released, and compare that with what it counts later. The timer belongs to a
driver outside the repository; it wraps at its own width, and the main loop moves
the log timer back as `MainLoop` has it. -/
namespace EmbeddedPlatform.Supervisor
open EmbeddedPlatform.Lib

/-- A timer counts up to its modulus, at most 2^32. -/
structure Timer where
  modulus : Nat
  modulus_pos : 0 < modulus
  modulus_le : modulus ≤ 4294967296

/-- The count when `n` ticks have passed. -/
def Timer.after (timer : Timer) (count : UInt32) (n : Nat) : UInt32 :=
  .ofNat ((count.toNat + n) % timer.modulus)

/-- What the two classes have in common; `m_tstart` is not initialised before the
first `Deassert`. -/
structure ResetDescriptorWithDelay where
  m_pin : Bool
  m_delay : UInt16
  m_done : Bool
  m_tstart : UInt32
deriving DecidableEq

namespace ResetDescriptorWithDelay

/-- The constructor, with the pin as the base class leaves it and `m_tstart` as it
happens to be. -/
def construct (m_pin : Bool) (delay : UInt16) (m_tstart : UInt32) : ResetDescriptorWithDelay :=
  ⟨m_pin, delay, false, m_tstart⟩

/-- The reset pin goes to its active `level`. -/
def Assert (level : Bool) (r : ResetDescriptorWithDelay) : ResetDescriptorWithDelay :=
  { r with m_pin := level }

/-- The reset pin goes to its inactive `level`, with the timer at `count`. -/
def Deassert (level : Bool) (count : UInt32) (r : ResetDescriptorWithDelay) :
    ResetDescriptorWithDelay :=
  { r with m_pin := level, m_done := false, m_tstart := count }

def IsReady (tnow : UInt32) (r : ResetDescriptorWithDelay) : ResetDescriptorWithDelay × Bool :=
  -- a count that has gone back is taken for a wrap
  let r := if tnow < r.m_tstart then { r with m_done := true } else r
  let r := if tnow > r.m_tstart + r.m_delay.toUInt32 then { r with m_done := true } else r
  (r, r.m_done)

end ResetDescriptorWithDelay

def ActiveLowResetDescriptorWithDelay.Assert := ResetDescriptorWithDelay.Assert false
def ActiveLowResetDescriptorWithDelay.Deassert := ResetDescriptorWithDelay.Deassert true
def ActiveHighResetDescriptorWithDelay.Assert := ResetDescriptorWithDelay.Assert true
def ActiveHighResetDescriptorWithDelay.Deassert := ResetDescriptorWithDelay.Deassert false

/-- Which of the two classes a descriptor is of. -/
inductive Polarity where
  | ActiveLow
  | ActiveHigh
deriving DecidableEq

def Polarity.Assert : Polarity → ResetDescriptorWithDelay → ResetDescriptorWithDelay
  | ActiveLow => ActiveLowResetDescriptorWithDelay.Assert
  | ActiveHigh => ActiveHighResetDescriptorWithDelay.Assert

def Polarity.Deassert :
    Polarity → UInt32 → ResetDescriptorWithDelay → ResetDescriptorWithDelay
  | ActiveLow => ActiveLowResetDescriptorWithDelay.Deassert
  | ActiveHigh => ActiveHighResetDescriptorWithDelay.Deassert

/-! ## Runs -/

/-- A descriptor and the count of its timer. -/
structure TimedReset where
  count : UInt32
  reset : ResetDescriptorWithDelay

/-- The calls of the descriptor, time that passes, and the check of the main loop. -/
inductive ResetOp where
  | Assert
  | Deassert
  | IsReady
  | elapse (ticks : Nat)
  | UpdateOffset

/-- What there is to see of it, with the counts that are read. -/
inductive ResetEvent where
  | Deassert (count : UInt32)
  | IsReady (count : UInt32) (ready : Bool)
  | ticks (n : Nat)
deriving DecidableEq

/-- None of it can fail. -/
def TimedReset.step (timer : Timer) (polarity : Polarity) (b : TimedReset) :
    ResetOp → Except Empty (TimedReset × List ResetEvent)
  | .Assert => .ok ({ b with reset := polarity.Assert b.reset }, [])
  | .Deassert => .ok ({ b with reset := polarity.Deassert b.count b.reset }, [.Deassert b.count])
  | .IsReady =>
    let (reset, ready) := b.reset.IsReady b.count
    .ok ({ b with reset := reset }, [.IsReady b.count ready])
  | .elapse n => .ok ({ b with count := timer.after b.count n }, [.ticks n])
  | .UpdateOffset => .ok ({ b with count := (Core.UpdateOffset b.count Core.logTimerMax).1 }, [])

/-! ## What a delay is for -/

/-- What has happened since the latest `Deassert`: the count it read, the ticks
that have passed, and whether an `IsReady` call has read less since. -/
structure SinceDeassert where
  count : UInt32
  elapsed : Nat
  below : Bool

namespace SinceDeassert

def act : Option SinceDeassert → ResetEvent → Option SinceDeassert
  | _, .Deassert count => some ⟨count, 0, false⟩
  | p, .IsReady count _ => p.map fun s => { s with below := s.below || decide (count < s.count) }
  | p, .ticks n => p.map fun s => { s with elapsed := s.elapsed + n }

/-- The device is ready only when the delay has passed. -/
def InTime (delay : UInt16) : Option SinceDeassert → ResetEvent → Prop
  | some s, .IsReady _ ready => ready = true → delay.toNat ≤ s.elapsed
  | _, _ => True

/-- Or when the count has been seen to go back. Nothing is said where the end of the
delay does not fit into 32 bits. -/
def InTimeOrBack (delay : UInt16) : Option SinceDeassert → ResetEvent → Prop
  | some s, .IsReady count ready => ready = true → s.count.toNat + delay.toNat < 4294967296 →
      delay.toNat ≤ s.elapsed ∨ s.below = true ∨ count < s.count
  | _, _ => True

end SinceDeassert

/-! ## One step -/

namespace TimedReset
open SinceDeassert ResetDescriptorWithDelay

variable {timer : Timer} {polarity : Polarity} {delay : UInt16}

/-- The count is at most what it would be had it never gone back, and a descriptor
that is done has a reason. -/
structure Tracks (delay : UInt16) (b : TimedReset) (s : SinceDeassert) : Prop where
  start : b.reset.m_tstart = s.count
  count_le : b.count.toNat ≤ s.count.toNat + s.elapsed
  done : b.reset.m_done = true → s.count.toNat + delay.toNat < 4294967296 →
    delay.toNat ≤ s.elapsed ∨ s.below = true

theorem toNat_after_le (timer : Timer) (count : UInt32) (n : Nat) :
    (timer.after count n).toNat ≤ count.toNat + n := by
  have hlt := Nat.mod_lt (count.toNat + n) timer.modulus_pos
  unfold Timer.after
  rw [UInt32.toNat_ofNat_of_lt' (Nat.lt_of_lt_of_le hlt timer.modulus_le)]
  exact Nat.mod_le _ _

theorem toNat_updateOffset_le (count t : UInt32) :
    (Core.UpdateOffset count t).1.toNat ≤ count.toNat := by
  unfold Core.UpdateOffset
  split
  · rename_i hle
    rw [UInt32.toNat_sub_of_le _ _ hle]
    exact Nat.sub_le _ _
  · exact Nat.le_refl _

/-- What `IsReady` goes by. -/
theorem isReady_eq (tnow : UInt32) (r : ResetDescriptorWithDelay) :
    r.IsReady tnow =
      let ready := r.m_done || decide (tnow < r.m_tstart) ||
        decide (r.m_tstart + r.m_delay.toUInt32 < tnow)
      ({ r with m_done := ready }, ready) := by
  unfold IsReady
  by_cases hback : tnow < r.m_tstart <;> by_cases hover : r.m_tstart + r.m_delay.toUInt32 < tnow <;>
    simp [hback, hover]

theorem deassert_eq (polarity : Polarity) (count : UInt32) (r : ResetDescriptorWithDelay) :
    ∃ level, polarity.Deassert count r = r.Deassert level count := by
  cases polarity with
  | ActiveLow => exact ⟨true, rfl⟩
  | ActiveHigh => exact ⟨false, rfl⟩

theorem assert_eq (polarity : Polarity) (r : ResetDescriptorWithDelay) :
    ∃ level, polarity.Assert r = r.Assert level := by
  cases polarity with
  | ActiveLow => exact ⟨false, rfl⟩
  | ActiveHigh => exact ⟨true, rfl⟩

/-- A count that is past the delay has got there by ticks alone. -/
theorem elapsed_of_over {start count : UInt32} {elapsed : Nat}
    (hle : count.toNat ≤ start.toNat + elapsed)
    (hfits : start.toNat + delay.toNat < 4294967296) (hover : start + delay.toUInt32 < count) :
    delay.toNat ≤ elapsed := by
  rw [UInt32.lt_iff_toNat_lt, UInt32.toNat_add, UInt16.toNat_toUInt32,
    Nat.mod_eq_of_lt hfits] at hover
  omega

theorem Tracks.isReady {b : TimedReset} {s : SinceDeassert} (h : Tracks delay b s)
    (hdelay : b.reset.m_delay = delay) :
    InTimeOrBack delay (some s) (.IsReady b.count (b.reset.IsReady b.count).2) ∧
      Tracks delay { b with reset := (b.reset.IsReady b.count).1 }
        { s with below := s.below || decide (b.count < s.count) } := by
  have hready : ((b.reset.IsReady b.count).2 = true → s.count.toNat + delay.toNat < 4294967296 →
      delay.toNat ≤ s.elapsed ∨ s.below = true ∨ b.count < s.count) := by
    intro hready hfits
    rw [isReady_eq, h.start, hdelay] at hready
    simp only [Bool.or_eq_true, decide_eq_true_eq] at hready
    rcases hready with (hdone | hback) | hover
    · exact (h.done hdone hfits).imp_right .inl
    · exact .inr (.inr hback)
    · exact .inl (elapsed_of_over h.count_le hfits hover)
  refine ⟨hready, ?_, h.count_le, fun hdone hfits => ?_⟩
  · rw [isReady_eq]
    exact h.start
  · have hdone' : (b.reset.IsReady b.count).2 = true := by
      rw [isReady_eq] at hdone ⊢
      exact hdone
    rw [Bool.or_eq_true, decide_eq_true_eq]
    exact hready hdone' hfits

/-- **Step lemma.** -/
theorem step_tracks {b t : TimedReset} {p : Option SinceDeassert} {op : ResetOp}
    {es : List ResetEvent} (hdelay : b.reset.m_delay = delay) (h : ∀ s, p = some s → Tracks delay b s)
    (hs : b.step timer polarity op = .ok (t, es)) :
    Complies act (InTimeOrBack delay) p es ∧ t.reset.m_delay = delay ∧
      ∀ s, replay act p es = some s → Tracks delay t s := by
  cases op with
  | Assert =>
    cases hs
    obtain ⟨level, hlevel⟩ := assert_eq polarity b.reset
    rw [hlevel]
    exact ⟨trivial, hdelay, fun s hp => ⟨(h s hp).start, (h s hp).count_le, (h s hp).done⟩⟩
  | Deassert =>
    cases hs
    obtain ⟨level, hlevel⟩ := deassert_eq polarity b.count b.reset
    rw [hlevel]
    refine ⟨⟨?_, trivial⟩, hdelay, fun s hp => ?_⟩
    · cases p <;> trivial
    · cases hp
      exact ⟨rfl, Nat.le_refl _, fun hfalse => Bool.noConfusion hfalse⟩
  | IsReady =>
    cases hs
    have hkeeps : (b.reset.IsReady b.count).1.m_delay = delay := by
      rw [isReady_eq]
      exact hdelay
    cases p with
    | none => exact ⟨⟨trivial, trivial⟩, hkeeps, fun s hp => by cases hp⟩
    | some s =>
      obtain ⟨hin, htracks⟩ := (h s rfl).isReady hdelay
      refine ⟨⟨hin, trivial⟩, hkeeps, fun s' hp => ?_⟩
      cases hp
      exact htracks
  | elapse n =>
    cases hs
    refine ⟨⟨by cases p <;> trivial, trivial⟩, hdelay, fun s' hp => ?_⟩
    cases p with
    | none => cases hp
    | some s =>
      cases hp
      have hle := toNat_after_le timer b.count n
      have hcount := (h s rfl).count_le
      refine ⟨(h s rfl).start, ?_, fun hdone hfits => ?_⟩
      · show (timer.after b.count n).toNat ≤ s.count.toNat + (s.elapsed + n)
        omega
      · exact ((h s rfl).done hdone hfits).imp_left fun hd => Nat.le_add_right_of_le hd
  | UpdateOffset =>
    cases hs
    refine ⟨trivial, hdelay, fun s hp => ⟨(h s hp).start, ?_, (h s hp).done⟩⟩
    exact Nat.le_trans (toNat_updateOffset_le _ _) (h s hp).count_le

/-! ## Every run -/

/-- **Timed reset delay.** -/
theorem delay_kept_unless_back (timer : Timer) (polarity : Polarity) (b : TimedReset)
    (ops : List ResetOp) :
    ∃ t log, run (step timer polarity) b ops = .ok (t, log) ∧
      Complies act (InTimeOrBack b.reset.m_delay) none log := by
  obtain ⟨t, log, hr⟩ := @run_total _ _ _ _ (step timer polarity) (fun _ => True)
    (fun b op _ => by cases op <;> exact ⟨_, _, rfl, trivial⟩) b trivial ops
  refine ⟨t, log, hr, ?_⟩
  have hrun : Complies act (InTimeOrBack b.reset.m_delay) none log ↔
      AllSteps (step timer polarity) (fun _ _ => True) b ops :=
    (run_complies_iff
      (J := fun u p => u.reset.m_delay = b.reset.m_delay ∧
        ∀ s, p = some s → Tracks b.reset.m_delay u s)
      (fun _ _ _ _ _ hJ hs => iff_of_true (step_tracks hJ.1 hJ.2 hs).1 trivial)
      (fun _ _ _ _ _ hJ hs _ => (step_tracks hJ.1 hJ.2 hs).2)
      ⟨rfl, fun s hp => absurd hp.symm (Option.some_ne_none s)⟩ hr).1
  exact hrun.mpr (allSteps_true _ _)

/-- A timer of 16 bits. -/
def shortTimer : Timer := ⟨65536, by decide, by decide⟩

/-- The reset is released ten ticks before the main loop moves the count back, and
the device is ready at once instead of after 1000 ticks. -/
theorem ready_behind_shift :
    ∃ t log, run (step shortTimer .ActiveLow) ⟨59990, .construct false 1000 0⟩
        [.Deassert, .elapse 10, .UpdateOffset, .IsReady] = .ok (t, log) ∧
      ¬ Complies act (InTime 1000) none log := by
  refine ⟨_, [.Deassert 59990, .ticks 10, .IsReady 0 true], rfl, ?_⟩
  rintro ⟨-, -, hready, -⟩
  have hlate : 1000 ≤ 10 := hready rfl
  omega

end TimedReset

end EmbeddedPlatform.Supervisor
