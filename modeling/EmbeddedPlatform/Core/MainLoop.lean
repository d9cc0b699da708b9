import Mathlib.Algebra.GroupWithZero.Nat
import EmbeddedPlatform.Lib.Run

/-! # Timer tasks and the main loop

`DefaultMainLoop` moves the counter of the log timer back by 60000 ticks when it
has got that far, tells the timer tasks so, and then gives every task its turn.
The counter belongs to a timer driver outside the repository; how many ticks pass
between two readings of it is left to each pass. -/
namespace EmbeddedPlatform.Core

/-- A task that executes a function at regular intervals. -/
structure TimerTask where
  m_target : UInt32
  m_period : UInt32
deriving DecidableEq

namespace TimerTask

/-- The constructor, called when the counter reads `count`. -/
def construct (count initialOffset period : UInt32) : TimerTask := ⟨count + initialOffset, period⟩

def OnTimerShift (t : TimerTask) (delta : UInt32) : TimerTask :=
  if t.m_target > delta then { t with m_target := t.m_target - delta } else t

/-- One turn, with the counter at `now`, and whether it calls `OnTimer`. -/
def Iteration (t : TimerTask) (now : UInt32) : TimerTask × Bool :=
  if now ≥ t.m_target then ({ t with m_target := now + t.m_period }, true) else (t, false)

end TimerTask

def logTimerMax : UInt32 := 60000

/-- `Logger::UpdateOffset`: the counter is moved back once it has reached `t`. -/
def UpdateOffset (count t : UInt32) : UInt32 × Bool :=
  if t ≤ count then (count - t, true) else (count, false)

/-- The counter, and the timer tasks in the order of their turns. They are in
both `g_tasks` and `g_timerTasks`. -/
structure MainLoop (n : Nat) where
  count : UInt32
  tasks : Fin n → TimerTask

/-- The ticks that pass in one turn of the loop: up to the call of
`UpdateOffset`, and from there from one timer task's reading of the counter to
the next one's. Other tasks only let time pass. -/
structure Pass where
  idle : Nat
  elapsed : Nat → Nat

/-- Ticks from `UpdateOffset` up to the end of the `k`-th interval. -/
def Pass.ticks (p : Pass) (k : Nat) : Nat := ((List.range k).map p.elapsed).sum

/-- What one turn of the loop did: which tasks it called `OnTimer` of. -/
structure Ran (n : Nat) where
  pass : Pass
  fired : Fin n → Bool

variable {n : Nat}

/-- The counter behind `UpdateOffset`, and whether it was moved back. -/
def MainLoop.check (m : MainLoop n) (p : Pass) : UInt32 × Bool :=
  UpdateOffset (m.count + .ofNat p.idle) logTimerMax

/-- The counter that the `k`-th task reads. -/
def MainLoop.now (m : MainLoop n) (p : Pass) (k : Fin n) : UInt32 :=
  (m.check p).1 + .ofNat (p.ticks (k + 1))

/-- The tasks when their turns begin. -/
def MainLoop.shifted (m : MainLoop n) (p : Pass) : Fin n → TimerTask :=
  if (m.check p).2 then fun k => (m.tasks k).OnTimerShift logTimerMax else m.tasks

/-- One turn of the loop in `DefaultMainLoop`; it cannot fail. -/
def step (m : MainLoop n) (p : Pass) : Except Empty (MainLoop n × List (Ran n)) :=
  let turn k := (m.shifted p k).Iteration (m.now p k)
  .ok (⟨(m.check p).1 + .ofNat (p.ticks n), fun k => (turn k).1⟩, [⟨p, fun k => (turn k).2⟩])

end EmbeddedPlatform.Core
