import Mathlib.Logic.Function.Basic
import EmbeddedPlatform.Supervisor.Operations
import EmbeddedPlatform.Supervisor.ResetDescriptor

/-! # The supervisor with its reset descriptors

The supervisor again, calling the descriptors themselves instead of taking any answer
they might give. Each has its own timer and done line; those that have no use for them
do not look. Time may pass before every call that reads a timer. What the supervisor
does here, it also does for some answers (`run_simulates`). -/
namespace EmbeddedPlatform.Supervisor
open EmbeddedPlatform.Lib

/-! ## The descriptors -/

def ActiveLowResetDescriptor.Deassert (r : ResetDescriptorWithDelay) : ResetDescriptorWithDelay :=
  { r with m_pin := true }

def ActiveHighResetDescriptor.Deassert (r : ResetDescriptorWithDelay) : ResetDescriptorWithDelay :=
  { r with m_pin := false }

/-- The classes. All but the second leave `m_done` and `m_tstart` alone, and the last
two have a done line. -/
inductive ResetDescriptor where
  | plain (polarity : Polarity)
  | withDelay (polarity : Polarity) (m_delay : UInt16)
  | activeLowWithActiveHighDone
  | activeLowWithActiveLowDone

namespace ResetDescriptor

def m_delay : ResetDescriptor → UInt16
  | withDelay _ m_delay => m_delay
  | plain _ | activeLowWithActiveHighDone | activeLowWithActiveLowDone => 0

/-- The level of the pin that releases the reset. -/
def released : ResetDescriptor → Bool
  | plain .ActiveHigh | withDelay .ActiveHigh _ => false
  | plain .ActiveLow | withDelay .ActiveLow _ | activeLowWithActiveHighDone
  | activeLowWithActiveLowDone => true

/-- The classes with a delay inherit it. -/
def Assert : ResetDescriptor → ResetDescriptorWithDelay → ResetDescriptorWithDelay
  | plain polarity | withDelay polarity _ => polarity.Assert
  | activeLowWithActiveHighDone | activeLowWithActiveLowDone =>
    ActiveLowResetDescriptorWithDelay.Assert

def Deassert (count : UInt32) :
    ResetDescriptor → ResetDescriptorWithDelay → ResetDescriptorWithDelay
  | plain .ActiveHigh => ActiveHighResetDescriptor.Deassert
  | withDelay polarity _ => polarity.Deassert count
  | plain .ActiveLow | activeLowWithActiveHighDone | activeLowWithActiveLowDone =>
    ActiveLowResetDescriptor.Deassert

def IsReady (tnow : UInt32) (m_done : Bool) (r : ResetDescriptorWithDelay) :
    ResetDescriptor → ResetDescriptorWithDelay × Bool
  | plain _ => (r, true)
  | withDelay .. => r.IsReady tnow
  | activeLowWithActiveHighDone => (r, m_done)
  | activeLowWithActiveLowDone => (r, !m_done)

end ResetDescriptor

/-! ## Calls of the descriptors -/

/-- What is called and read, and the ticks of each timer between. -/
inductive ResetCall where
  | Assert (reset : Nat)
  | Deassert (reset : Nat) (count : UInt32)
  | IsReady (reset : Nat) (count : UInt32) (ready : Bool)
  | ticks (n : Nat → Nat)
  | other (e : Event)

/-- A look at a descriptor: the ticks before it, and the level of its done line. -/
structure Look where
  ticks : Nat → Nat
  m_done : Bool

abbrev Resets := Nat → TimedReset

namespace Resets

section
variable (timer : Nat → Timer) (d : Nat → ResetDescriptor)

def elapse (n : Nat → Nat) (r : Resets) : Resets := fun i =>
  { r i with count := (timer i).after (r i).count (n i) }

def IsReady (i : Nat) (l : Look) (r : Resets) : Bool × Resets × List ResetCall :=
  let r := r.elapse timer l.ticks
  let (reset, ready) := (d i).IsReady (r i).count l.m_done (r i).reset
  (ready, Function.update r i { r i with reset := reset },
    [.ticks l.ticks, .IsReady i (r i).count ready])

def Deassert (i : Nat) (n : Nat → Nat) (r : Resets) : Resets × List ResetCall :=
  let r := r.elapse timer n
  (Function.update r i { r i with reset := (d i).Deassert (r i).count (r i).reset },
    [.ticks n, .Deassert i (r i).count])

def Assert (i : Nat) (r : Resets) : Resets × List ResetCall :=
  (Function.update r i { r i with reset := (d i).Assert (r i).reset }, [.Assert i])

/-- The main loop moves some of the timers back, or none. -/
def UpdateOffset (moved : Nat → Bool) (r : Resets) : Resets := fun i =>
  if moved i = true then
    { r i with count := (Core.UpdateOffset (r i).count Core.logTimerMax).1 }
  else r i

/-- Calls that nothing is asked by. `n` ticks pass before a `Deassert`. -/
def drive (n : Nat → Nat) (r : Resets) : List Event → Resets × List ResetCall
  | [] => (r, [])
  | .Assert i :: es =>
    let (r, cs) := r.Assert d i
    let (r, ds) := drive n r es
    (r, cs ++ ds)
  | .Deassert i :: es =>
    let (r, cs) := r.Deassert timer d i n
    let (r, ds) := drive n r es
    (r, cs ++ ds)
  | e :: es =>
    let (r, ds) := drive n r es
    (r, .other e :: ds)

end

end Resets

/-! ## The operations -/

structure ResetBoard where
  supervisor : PowerResetSupervisor
  reset : Resets

/-- What `Iteration` meets: at the current reset, whichever that is, before the next one
is released, at the earlier ones, and at the rails. -/
structure Looks where
  current : Nat → Look
  released : Nat → Nat
  earlier : Nat → Look
  isPowerGood : Nat → Bool
  isCritical : Nat → Bool
  isInputSupply : Nat → Bool

namespace ResetBoard

section
variable (q : Sequences) (timer : Nat → Timer) (d : Nat → ResetDescriptor)

def advance (a : Looks) (b : ResetBoard) : Except Fault (ResetBoard × List ResetCall) :=
  let s := b.supervisor
  if s.m_resetsDone then .ok (b, [])
  else if s.m_resetSequenceIndex < q.m_resetSequence then
    let (ready, r, cs) := b.reset.IsReady timer d s.m_resetSequenceIndex
      (a.current s.m_resetSequenceIndex)
    if ready then
      let next := s.m_resetSequenceIndex + 1
      if next ≥ q.m_resetSequence then
        .ok (⟨{ s with m_resetSequenceIndex := next, m_resetsDone := true }, r⟩,
          cs ++ [.other .OnResetDone])
      else
        let (r, ds) := r.Deassert timer d next a.released
        .ok (⟨{ s with m_resetSequenceIndex := next }, r⟩, cs ++ ds)
    else .ok (⟨s, r⟩, cs)
  else .error (.resetSequence s.m_resetSequenceIndex)

def backUp (a : Looks) (b : ResetBoard) : List Nat → Except Fault (ResetBoard × List ResetCall)
  | [] => .ok (b, [])
  | i :: rest =>
    if i < q.m_resetSequence then
      let (ready, r, cs) := b.reset.IsReady timer d i (a.earlier i)
      if ready then
        match backUp a ⟨b.supervisor, r⟩ rest with
        | .error f => .error f
        | .ok (b, ds) => .ok (b, cs ++ ds)
      else
        let (r, ds) := r.drive timer d (fun _ => 0) (assertBehind q i)
        .ok (⟨backedUp b.supervisor i, r⟩, cs ++ ds)
    else .error (.resetSequence i)

def UpdateResets (a : Looks) (b : ResetBoard) : Except Fault (ResetBoard × List ResetCall) :=
  match advance q timer d a b with
  | .error f => .error f
  | .ok (b, cs) =>
    match backUp q timer d a b (List.range b.supervisor.m_resetSequenceIndex) with
    | .error f => .error f
    | .ok (b, ds) => .ok (b, cs ++ ds)

/-- An operation that does not look at the descriptors. -/
def perform (n : Nat → Nat) (r : Resets) (out : Outcome) : ResetBoard × List ResetCall :=
  let (r, cs) := r.drive timer d n out.2
  (⟨out.1, r⟩, cs)

def Iteration (a : Looks) (b : ResetBoard) : Except Fault (ResetBoard × List ResetCall) :=
  if b.supervisor.m_powerOn then
    match UpdateResets q timer d a b with
    | .error f => .error f
    | .ok (b, cs) =>
      match MonitorRails q ⟨fun _ => true, fun _ => true, a.isPowerGood, a.isCritical,
        a.isInputSupply⟩ b.supervisor with
      | .error f => .error f
      | .ok out =>
        let (b, ds) := perform timer d (fun _ => 0) b.reset out
        .ok (b, cs ++ ds)
  else .ok (b, [])

end

/-- The operations, time that passes, and the check of the main loop, which moves the
timers back that it uses. -/
inductive TimedOp where
  | PowerOn (turnOn : Nat → Bool) (released : Nat → Nat)
  | PowerOff
  | PanicShutdown
  | Iteration (a : Looks)
  | elapse (n : Nat → Nat)
  | UpdateOffset (moved : Nat → Bool)

def step (q : Sequences) (timer : Nat → Timer) (d : Nat → ResetDescriptor) (b : ResetBoard) :
    TimedOp → Except Fault (ResetBoard × List ResetCall)
  | .PowerOn turnOn released =>
    .ok (perform timer d released b.reset (PowerOn q turnOn b.supervisor))
  | .PowerOff => .ok (perform timer d (fun _ => 0) b.reset (PowerOff q b.supervisor))
  | .PanicShutdown => .ok (perform timer d (fun _ => 0) b.reset (PanicShutdown q b.supervisor))
  | .Iteration a => Iteration q timer d a b
  | .elapse n => .ok ({ b with reset := b.reset.elapse timer n }, [.ticks n])
  | .UpdateOffset moved => .ok ({ b with reset := b.reset.UpdateOffset moved }, [])

/-- The descriptors as constructed, with timers, pins and starts as they happen to be. -/
def constructed (d : Nat → ResetDescriptor) (count : Nat → UInt32) (m_pin : Nat → Bool)
    (m_tstart : Nat → UInt32) : ResetBoard where
  supervisor := .init
  reset i := ⟨count i, .construct (m_pin i) (d i).m_delay (m_tstart i)⟩

end ResetBoard

/-! ## What it does for some answers -/

/-- What the supervisor alone does. -/
def ResetCall.event : ResetCall → Option Event
  | .Assert i => some (.Assert i)
  | .Deassert i _ => some (.Deassert i)
  | .IsReady .. | .ticks _ => none
  | .other e => some e

/-- Looks at descriptors, one after another. -/
inductive OnlyLooks (timer : Nat → Timer) (d : Nat → ResetDescriptor) :
    Resets → Resets → List ResetCall → Prop
  | none (r : Resets) : OnlyLooks timer d r r []
  | more {r t u : Resets} {ready : Bool} {cs ds : List ResetCall} (i : Nat) (l : Look)
      (look : r.IsReady timer d i l = (ready, t, cs)) (rest : OnlyLooks timer d t u ds) :
      OnlyLooks timer d r u (cs ++ ds)

section
variable {q : Sequences} {timer : Nat → Timer} {d : Nat → ResetDescriptor} {a : Looks}
  {b b' : ResetBoard} {r t : Resets} {cs : List ResetCall}

theorem OnlyLooks.one {ready : Bool} {i : Nat} {l : Look}
    (h : r.IsReady timer d i l = (ready, t, cs)) : OnlyLooks timer d r t cs := by
  rw [← List.append_nil cs]
  exact .more i l h (.none t)

theorem OnlyLooks.event (h : OnlyLooks timer d r t cs) : cs.filterMap ResetCall.event = [] := by
  induction h with
  | none r => rfl
  | more i l look rest ih =>
    cases look
    rw [List.filterMap_append, ih]
    rfl

theorem drive_event (n : Nat → Nat) (r : Resets) (es : List Event) :
    (r.drive timer d n es).2.filterMap ResetCall.event = es := by
  induction es generalizing r with
  | nil => rfl
  | cons e es ih =>
    cases e with
    | Assert i => exact congrArg (Event.Assert i :: ·) (ih _)
    | Deassert i => exact congrArg (Event.Deassert i :: ·) (ih _)
    | TurnOn i => exact congrArg (Event.TurnOn i :: ·) (ih _)
    | TurnOff i => exact congrArg (Event.TurnOff i :: ·) (ih _)
    | OnPowerOn => exact congrArg (Event.OnPowerOn :: ·) (ih _)
    | OnResetDone => exact congrArg (Event.OnResetDone :: ·) (ih _)
    | OnPowerOff => exact congrArg (Event.OnPowerOff :: ·) (ih _)
    | OnFault => exact congrArg (Event.OnFault :: ·) (ih _)
    | OnPowerLost => exact congrArg (Event.OnPowerLost :: ·) (ih _)

namespace ResetBoard

/-- The first half of `UpdateResets` looks at the current reset, and if that is ready
it ends the sequence or releases the next one. -/
theorem advance_cases (h : advance q timer d a b = .ok (b', cs)) :
    (b.supervisor.m_resetsDone = true ∧ b' = b ∧ cs = []) ∨
    b.supervisor.m_resetsDone = false ∧
      b.supervisor.m_resetSequenceIndex < q.m_resetSequence ∧ ∃ ready r es,
      b.reset.IsReady timer d b.supervisor.m_resetSequenceIndex
        (a.current b.supervisor.m_resetSequenceIndex) = (ready, r, es) ∧
      ((ready = false ∧ b' = ⟨b.supervisor, r⟩ ∧ cs = es) ∨
        (ready = true ∧ q.m_resetSequence ≤ b.supervisor.m_resetSequenceIndex + 1 ∧
          b'.supervisor = { b.supervisor with
            m_resetSequenceIndex := b.supervisor.m_resetSequenceIndex + 1
            m_resetsDone := true } ∧
          b'.reset = r ∧ cs = es ++ [.other .OnResetDone]) ∨
        (ready = true ∧ b.supervisor.m_resetSequenceIndex + 1 < q.m_resetSequence ∧
          b'.supervisor = { b.supervisor with
            m_resetSequenceIndex := b.supervisor.m_resetSequenceIndex + 1 } ∧
          ∃ ds, r.Deassert timer d (b.supervisor.m_resetSequenceIndex + 1) a.released =
              (b'.reset, ds) ∧ cs = es ++ ds)) := by
  obtain ⟨s, r⟩ := b
  unfold advance at h
  dsimp only at h
  split at h
  · rename_i hdone
    cases h
    exact .inl ⟨hdone, rfl, rfl⟩
  · rename_i hdone
    rw [Bool.not_eq_true] at hdone
    split at h
    · rename_i hlt
      refine .inr ⟨hdone, hlt, _, _, _, rfl, ?_⟩
      split at h
      · rename_i hready
        split at h
        · rename_i hend
          cases h
          exact .inr (.inl ⟨hready, hend, rfl, rfl, rfl⟩)
        · rename_i hmore
          cases h
          exact .inr (.inr ⟨hready, Nat.lt_of_not_le hmore, rfl, _, rfl, rfl⟩)
      · rename_i hready
        cases h
        exact .inl ⟨Bool.not_eq_true _ ▸ hready, rfl, rfl⟩
    · cases h

/-- The second half looks at resets, and if one is not ready it holds those behind. -/
theorem backUp_looks {is : List Nat} (h : backUp q timer d a b is = .ok (b', cs)) :
    ∃ r es, OnlyLooks timer d b.reset r es ∧
      ((b' = ⟨b.supervisor, r⟩ ∧ cs = es) ∨
        ∃ i ∈ is, b'.supervisor = backedUp b.supervisor i ∧
          ∃ ds, r.drive timer d (fun _ => 0) (assertBehind q i) = (b'.reset, ds) ∧
            cs = es ++ ds) := by
  induction is generalizing b cs with
  | nil =>
    cases h
    exact ⟨_, _, .none _, .inl ⟨rfl, rfl⟩⟩
  | cons i rest ih =>
    unfold backUp at h
    split at h
    · dsimp only at h
      split at h
      · split at h
        · cases h
        · rename_i c ds hrest
          cases h
          obtain ⟨r, es, hlooks, hcases⟩ := ih hrest
          refine ⟨r, _, .more i (a.earlier i) rfl hlooks, ?_⟩
          obtain ⟨rfl, rfl⟩ | ⟨j, hj, hsup, fs, hdrive, rfl⟩ := hcases
          · exact .inl ⟨rfl, rfl⟩
          · exact .inr ⟨j, List.mem_cons_of_mem i hj, hsup, fs, hdrive,
              (List.append_assoc ..).symm⟩
      · cases h
        exact ⟨_, _, .one rfl, .inr ⟨i, List.mem_cons_self, rfl, _, rfl, rfl⟩⟩
    · cases h

theorem advance_simulates (h : advance q timer d a b = .ok (b', cs)) :
    ∃ isReady, Supervisor.advance q isReady b.supervisor =
      .ok (b'.supervisor, cs.filterMap ResetCall.event) := by
  obtain ⟨hdone, rfl, rfl⟩ | ⟨hdone, hlt, ready, r, es, hlook, hcases⟩ := advance_cases h
  · refine ⟨fun _ => true, ?_⟩
    unfold Supervisor.advance
    rw [if_pos hdone]
    rfl
  · refine ⟨fun _ => ready, ?_⟩
    unfold Supervisor.advance
    rw [if_neg (Bool.not_eq_true _ ▸ hdone), if_pos hlt]
    have hes := (OnlyLooks.one hlook).event
    obtain ⟨rfl, rfl, rfl⟩ | ⟨rfl, hend, hsup, -, rfl⟩ | ⟨rfl, hmore, hsup, ds, hds, rfl⟩ := hcases
    · rw [hes]
      rfl
    · rw [if_pos rfl, hsup, List.filterMap_append, hes]
      exact if_pos hend
    · have hevent : ds.filterMap ResetCall.event =
          [.Deassert (b.supervisor.m_resetSequenceIndex + 1)] := by
        obtain rfl : _ = ds := congrArg Prod.snd hds
        rfl
      rw [if_pos rfl, hsup, List.filterMap_append, hes, hevent]
      exact if_neg (Nat.not_le_of_lt hmore)

theorem advance_indexed (hb : b.supervisor.Indexed q) (h : advance q timer d a b = .ok (b', cs)) :
    b'.supervisor.Indexed q := by
  obtain ⟨isReady, hs⟩ := advance_simulates h
  rw [advance_eq isReady hb, Except.ok.injEq] at hs
  obtain ⟨hsup, -⟩ := Prod.mk.inj hs
  rw [← hsup]
  exact afterAdvance_indexed isReady hb

theorem backUp_simulates (hb : b.supervisor.m_resetSequenceIndex ≤ q.m_resetSequence)
    (h : backUp q timer d a b (List.range b.supervisor.m_resetSequenceIndex) = .ok (b', cs)) :
    ∃ stillReady, Supervisor.backUp q stillReady b.supervisor
        (List.range b.supervisor.m_resetSequenceIndex) =
      .ok (b'.supervisor, cs.filterMap ResetCall.event) := by
  obtain ⟨r, es, hlooks, ⟨rfl, rfl⟩ | ⟨i, hi, hsup, ds, hdrive, rfl⟩⟩ := backUp_looks h
  · refine ⟨fun _ => true, ?_⟩
    rw [hlooks.event]
    obtain ⟨he, -⟩ | ⟨j, -, hdown, -⟩ := backUp_cases (fun _ => true) hb
    · exact he
    · exact absurd hdown.symm Bool.false_ne_true
  · refine ⟨fun k => k != i, ?_⟩
    obtain ⟨-, hall⟩ | ⟨j, -, hdown, -, he⟩ := backUp_cases (fun k => k != i) hb
    · exact absurd (hall i (List.mem_range.mp hi)) (by simp)
    · obtain rfl : j = i := by simpa using hdown
      obtain rfl : _ = ds := congrArg Prod.snd hdrive
      rw [he, hsup, List.filterMap_append, hlooks.event, drive_event]
      rfl

/-- **`UpdateResets` with descriptors is `UpdateResets` with some answers.** -/
theorem updateResets_simulates (hb : b.supervisor.Indexed q)
    (h : UpdateResets q timer d a b = .ok (b', cs)) :
    ∃ isReady stillReady, Supervisor.UpdateResets q isReady stillReady b.supervisor =
      .ok (b'.supervisor, cs.filterMap ResetCall.event) := by
  unfold UpdateResets at h
  split at h
  · cases h
  · rename_i c es hadvance
    split at h
    · cases h
    · rename_i c' ds hback
      cases h
      obtain ⟨isReady, hs⟩ := advance_simulates hadvance
      obtain ⟨stillReady, ht⟩ := backUp_simulates (advance_indexed hb hadvance).le hback
      refine ⟨isReady, stillReady, ?_⟩
      unfold Supervisor.UpdateResets
      rw [hs]
      dsimp only
      rw [ht, List.filterMap_append]

/-- `MonitorRails` does not ask whether resets are ready. -/
theorem monitorRails_answers (isReady stillReady : Nat → Bool) (s : PowerResetSupervisor) :
    MonitorRails q ⟨fun _ => true, fun _ => true, a.isPowerGood, a.isCritical, a.isInputSupply⟩ s =
      MonitorRails q ⟨isReady, stillReady, a.isPowerGood, a.isCritical, a.isInputSupply⟩ s := rfl

theorem iteration_simulates (hb : b.supervisor.Indexed q)
    (h : Iteration q timer d a b = .ok (b', cs)) :
    ∃ answers, Supervisor.Iteration q answers b.supervisor =
      .ok (b'.supervisor, cs.filterMap ResetCall.event) := by
  unfold Iteration at h
  split at h
  · rename_i hon
    split at h
    · cases h
    · rename_i c es hupdate
      obtain ⟨isReady, stillReady, hs⟩ := updateResets_simulates hb hupdate
      refine ⟨⟨isReady, stillReady, a.isPowerGood, a.isCritical, a.isInputSupply⟩, ?_⟩
      split at h
      · cases h
      · rename_i out hmonitor
        cases h
        rw [monitorRails_answers isReady stillReady] at hmonitor
        unfold Supervisor.Iteration
        rw [if_pos hon, hs]
        dsimp only
        rw [hmonitor, List.filterMap_append, drive_event]
  · rename_i hoff
    cases h
    refine ⟨⟨fun _ => true, fun _ => true, a.isPowerGood, a.isCritical, a.isInputSupply⟩, ?_⟩
    exact iteration_off _ (Bool.not_eq_true _ ▸ hoff)

/-- One step is one operation of the supervisor, or none. -/
theorem step_simulates (hb : b.supervisor.Indexed q) {op : TimedOp}
    (h : step q timer d b op = .ok (b', cs)) :
    ∃ ops, run (Supervisor.step q) b.supervisor ops =
      .ok (b'.supervisor, cs.filterMap ResetCall.event) := by
  have hone : ∀ (op : Op) (s : PowerResetSupervisor) (es : List Event),
      Supervisor.step q b.supervisor op = .ok (s, es) →
      run (Supervisor.step q) b.supervisor [op] = .ok (s, es) := by
    intro op s es hstep
    rw [run_cons_of_ok hstep (show run (Supervisor.step q) s [] = .ok (s, []) from rfl),
      List.append_nil]
  have hdrive : ∀ (n : Nat → Nat) (out : Outcome), perform timer d n b.reset out = (b', cs) →
      out = (b'.supervisor, cs.filterMap ResetCall.event) := by
    intro n out hperform
    cases hperform
    rw [drive_event]
  cases op with
  | PowerOn turnOn released =>
    refine ⟨[.PowerOn turnOn], hone _ _ _ ?_⟩
    rw [← hdrive _ _ (Except.ok.inj h)]
    rfl
  | PowerOff =>
    refine ⟨[.PowerOff], hone _ _ _ ?_⟩
    rw [← hdrive _ _ (Except.ok.inj h)]
    rfl
  | PanicShutdown =>
    refine ⟨[.PanicShutdown], hone _ _ _ ?_⟩
    rw [← hdrive _ _ (Except.ok.inj h)]
    rfl
  | Iteration a =>
    obtain ⟨answers, hs⟩ := iteration_simulates hb h
    exact ⟨[.Iteration answers], hone _ _ _ hs⟩
  | elapse n =>
    cases h
    exact ⟨[], rfl⟩
  | UpdateOffset moved =>
    cases h
    exact ⟨[], rfl⟩

/-- **A run with descriptors is a run with some answers.** -/
theorem run_simulates (hn : 0 < q.m_resetSequence) {ops : List TimedOp}
    (hb : b.supervisor.Indexed q) (h : run (step q timer d) b ops = .ok (b', cs)) :
    ∃ ops', run (Supervisor.step q) b.supervisor ops' =
      .ok (b'.supervisor, cs.filterMap ResetCall.event) := by
  have hrun := run_rule (C := fun _ _ => True) (l := []) (b := [])
    (J := fun c log _ => c.supervisor.Indexed q ∧ ∃ ops', run (Supervisor.step q) b.supervisor ops' =
      .ok (c.supervisor, log.filterMap ResetCall.event))
    (fun c log _ op c' es hc _ hs => by
      obtain ⟨hindexed, ops', hops⟩ := hc
      obtain ⟨more, hmore⟩ := step_simulates hindexed hs
      have hindexed' := run_invariant (C := fun _ _ => True)
        (fun _ _ _ _ h _ hs => step_indexed hn h hs) hindexed (allSteps_true _ _) hmore
      refine ⟨hindexed', ops' ++ more, ?_⟩
      rw [List.filterMap_append]
      exact run_append_of_ok hops hmore)
    ⟨hb, [], rfl⟩ (allSteps_true _ _) h
  exact hrun.2

end ResetBoard

end

end EmbeddedPlatform.Supervisor
