import EmbeddedPlatform.Lib.Expansion
import EmbeddedPlatform.Supervisor.PowerSequence

/-! # Rails and their pins

A rail descriptor drives the enable of its rail. Some also look at a PGOOD line, or
are the other way up. Below, the calls the supervisor makes are carried out on the
pins, and what the pins show decides what the calls return. -/
namespace EmbeddedPlatform.Supervisor
open EmbeddedPlatform.Lib

/-- The enable is driven to a level, PGOOD is looked at, the timer sleeps. -/
inductive RailEvent where
  | enable (level : Bool)
  | pgood (good : Bool)
  | Sleep (ticks : Nat)
deriving DecidableEq

/-! ## The classes -/

/-- The loop of the two classes with PGOOD, which shows `pgood i` when it is looked at
for the `i`-th time, and the look after the loop. -/
def waitForPGood (pgood : Nat → Bool) (i : Nat) : Nat → Bool × List RailEvent
  | 0 => (pgood i, [.pgood (pgood i)])
  | n + 1 =>
    if pgood i then (true, [.pgood true])
    else
      let (ok, es) := waitForPGood pgood (i + 1) n
      (ok, .pgood false :: .Sleep 1 :: es)

def enableAndWait (level : Bool) (m_delay : UInt16) (pgood : Nat → Bool) :
    Bool × List RailEvent :=
  let (ok, es) := waitForPGood pgood 0 m_delay.toNat
  (ok, .enable level :: es)

/-- Only a regular GPIO pin is turned off immediately. -/
def RailDescriptorWithEnable.construct (isGPIOPin : Bool) : List RailEvent :=
  if isGPIOPin then [.enable false] else []

def RailDescriptorWithEnable.TurnOn (m_delay : UInt16) : Bool × List RailEvent :=
  (true, [.enable true, .Sleep m_delay.toNat])

def RailDescriptorWithEnable.TurnOff : List RailEvent := [.enable false]

def RailDescriptorWithEnableAndPGood.construct (isGPIOPin : Bool) : List RailEvent :=
  RailDescriptorWithEnable.construct isGPIOPin ++ [.enable false]

def RailDescriptorWithEnableAndPGood.TurnOn := enableAndWait true

def RailDescriptorWithActiveLowEnableAndPGood.construct (isGPIOPin : Bool) : List RailEvent :=
  RailDescriptorWithEnableAndPGood.construct isGPIOPin ++ [.enable true]

def RailDescriptorWithActiveLowEnableAndPGood.TurnOn := enableAndWait false

def RailDescriptorWithActiveLowEnableAndPGood.TurnOff : List RailEvent := [.enable true]

/-- A descriptor of any of the classes. `isGPIOPin` is what `std::is_same_v` says of
the type of its enable. -/
inductive RailDescriptor where
  | WithEnable (isGPIOPin : Bool) (m_delay : UInt16)
  | WithEnableAndPGood (isGPIOPin : Bool) (m_delay : UInt16)
  | WithActiveLowEnableAndPGood (isGPIOPin : Bool) (m_delay : UInt16)

namespace RailDescriptor

def m_delay : RailDescriptor → UInt16
  | WithEnable _ n | WithEnableAndPGood _ n | WithActiveLowEnableAndPGood _ n => n

def construct : RailDescriptor → List RailEvent
  | WithEnable b _ => RailDescriptorWithEnable.construct b
  | WithEnableAndPGood b _ => RailDescriptorWithEnableAndPGood.construct b
  | WithActiveLowEnableAndPGood b _ => RailDescriptorWithActiveLowEnableAndPGood.construct b

def TurnOn (pgood : Nat → Bool) : RailDescriptor → Bool × List RailEvent
  | WithEnable _ n => RailDescriptorWithEnable.TurnOn n
  | WithEnableAndPGood _ n => RailDescriptorWithEnableAndPGood.TurnOn n pgood
  | WithActiveLowEnableAndPGood _ n => RailDescriptorWithActiveLowEnableAndPGood.TurnOn n pgood

/-- The class with PGOOD inherits the one of the class without. -/
def TurnOff : RailDescriptor → List RailEvent
  | WithEnable _ _ | WithEnableAndPGood _ _ => RailDescriptorWithEnable.TurnOff
  | WithActiveLowEnableAndPGood _ _ => RailDescriptorWithActiveLowEnableAndPGood.TurnOff

/-- The base class says yes. -/
def IsPowerGood (pgood : Bool) : RailDescriptor → Bool
  | WithEnable _ _ => true
  | WithEnableAndPGood _ _ | WithActiveLowEnableAndPGood _ _ => pgood

/-- The level that turns the rail on. -/
def onLevel : RailDescriptor → Bool
  | WithEnable _ _ | WithEnableAndPGood _ _ => true
  | WithActiveLowEnableAndPGood _ _ => false

/-- There is a PGOOD line. -/
def hasPGood : RailDescriptor → Bool
  | WithEnable _ _ => false
  | WithEnableAndPGood _ _ | WithActiveLowEnableAndPGood _ _ => true

end RailDescriptor

/-! ## The pins -/

/-- The enable of a rail, whether PGOOD has been seen since it was last driven, and
the ticks that were slept since. -/
structure RailState where
  level : Bool
  seen : Bool
  slept : Nat

/-- What happens at the rail itself. -/
def RailState.act (r : RailState) : RailEvent → RailState
  | .enable level => ⟨level, false, 0⟩
  | .pgood good => { r with seen := r.seen || good }
  | .Sleep ticks => { r with slept := r.slept + ticks }

/-- What happens at another rail. -/
def RailState.pass (r : RailState) : RailEvent → RailState
  | .enable _ | .pgood _ => r
  | .Sleep ticks => { r with slept := r.slept + ticks }

abbrev RailPins := Nat → RailState

def RailPins.act (p : RailPins) (e : Nat × RailEvent) : RailPins := fun i =>
  if i = e.1 then (p i).act e.2 else (p i).pass e.2

namespace RailDescriptor

def IsOn (d : RailDescriptor) (r : RailState) : Prop := r.level = d.onLevel

/-- PGOOD has been seen, or there is none and the delay has been slept. -/
def Confirmed (d : RailDescriptor) (r : RailState) : Prop :=
  if d.hasPGood then r.seen = true else d.m_delay.toNat ≤ r.slept

structure Up (d : RailDescriptor) (r : RailState) : Prop where
  on : d.IsOn r
  confirmed : d.Confirmed r

end RailDescriptor

/-- A rail is turned on only when those before it in the sequence are up. -/
def Gated (rail : Nat → RailDescriptor) (p : RailPins) (e : Nat × RailEvent) : Prop :=
  e.2 = .enable (rail e.1).onLevel → ∀ i < e.1, (rail i).Up (p i)

/-! ## The supervisor on the pins -/

/-- The events of one rail, with its position. -/
def ofRail (j : Nat) (es : List RailEvent) : List (Nat × RailEvent) := es.map (j, ·)

/-- What a call does to the pins. Those to resets and hooks do nothing, and the sleeps
of `PowerOff` are left out. -/
def drive (rail : Nat → RailDescriptor) (pgood : Nat → Nat → Bool) :
    Event → List (Nat × RailEvent)
  | .TurnOn j => ofRail j ((rail j).TurnOn (pgood j)).2
  | .TurnOff j => ofRail j (rail j).TurnOff
  | .Assert _ | .Deassert _ | .OnPowerOn | .OnResetDone | .OnPowerOff | .OnFault
  | .OnPowerLost => []

/-- The operations, with what the PGOOD lines show: `pgood j i` is the `i`-th look of
`PowerOn` at the line of rail `j`. -/
inductive BoardOp where
  | PowerOn (pgood : Nat → Nat → Bool)
  | PowerOff
  | PanicShutdown
  | Iteration (pgood isReady stillReady isCritical isInputSupply : Nat → Bool)

namespace BoardOp

/-- What the lines show `PowerOn`; nothing else looks more than once. -/
def looks : BoardOp → Nat → Nat → Bool
  | PowerOn pgood => pgood
  | PowerOff | PanicShutdown | Iteration .. => fun _ _ => false

def toOp (rail : Nat → RailDescriptor) : BoardOp → Op
  | PowerOn pgood => .PowerOn fun j => ((rail j).TurnOn (pgood j)).1
  | PowerOff => .PowerOff
  | PanicShutdown => .PanicShutdown
  | Iteration pgood isReady stillReady isCritical isInputSupply =>
    .Iteration ⟨isReady, stillReady, fun j => (rail j).IsPowerGood (pgood j), isCritical,
      isInputSupply⟩

end BoardOp

def stepPins (q : Sequences) (rail : Nat → RailDescriptor) (s : PowerResetSupervisor)
    (op : BoardOp) : Except Fault (PowerResetSupervisor × List (Nat × RailEvent)) :=
  match step q s (op.toOp rail) with
  | .error f => .error f
  | .ok (t, es) => .ok (t, es.flatMap (drive rail op.looks))

/-- The pins when the descriptors have been constructed. -/
def constructed (q : Sequences) (rail : Nat → RailDescriptor) (p : RailPins) : RailPins :=
  replay RailPins.act p
    ((List.range q.m_railSequence).flatMap fun j => ofRail j (rail j).construct)

end EmbeddedPlatform.Supervisor
