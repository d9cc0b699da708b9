import EmbeddedPlatform.Lib.Run

/-! # The power and reset supervisor

`PowerResetSupervisor` brings up the rails of a board in order, releases its
resets one by one as each device reports ready, and watches the rails while
power is on. Rails and resets are external devices: what they answer is an
argument of each operation, what they are told is the operation's log. A
device is named by its position in its sequence. Log messages and sleeps are
left out; an index outside its list or a zero modulus is a `Fault`. -/
namespace EmbeddedPlatform.Supervisor
open EmbeddedPlatform.Lib

/-- The lists the constructor keeps, as the number of their entries. -/
structure Sequences where
  m_railSequence : Nat
  m_resetSequence : Nat

structure PowerResetSupervisor where
  m_powerOn : Bool
  m_resetsDone : Bool
  m_resetSequenceIndex : Nat
  m_monitorRailIndex : Nat
deriving DecidableEq

/-- The constructor's initializers. -/
def PowerResetSupervisor.init : PowerResetSupervisor where
  m_powerOn := false
  m_resetsDone := false
  m_resetSequenceIndex := 0
  m_monitorRailIndex := 0

/-- Calls into the rail and reset descriptors and into the hooks. -/
inductive Event where
  | TurnOn (rail : Nat)
  | TurnOff (rail : Nat)
  | Assert (reset : Nat)
  | Deassert (reset : Nat)
  | OnPowerOn
  | OnResetDone
  | OnPowerOff
  | OnFault
  | OnPowerLost
deriving DecidableEq

inductive Fault where
  | railSequence (i : Nat)
  | resetSequence (i : Nat)
  | modulus
deriving DecidableEq

/-- What the devices say during one `Iteration`. `isReady` answers the question
whether the current reset is up, `stillReady` the later check of the earlier
ones; a device may change its mind in between. -/
structure Answers where
  isReady : Nat → Bool
  stillReady : Nat → Bool
  isPowerGood : Nat → Bool
  isCritical : Nat → Bool
  isInputSupply : Nat → Bool

abbrev Outcome := PowerResetSupervisor × List Event

/-! ## Power -/

def PanicShutdown (q : Sequences) (s : PowerResetSupervisor) : Outcome :=
  ({ s with m_powerOn := false, m_resetsDone := false, m_resetSequenceIndex := 0 },
    (List.range q.m_railSequence).reverse.map .TurnOff ++
      (List.range q.m_resetSequence).map .Assert ++ [.OnFault])

/-- The loop over the rails of `PowerOn`: stops at the first that fails. -/
def turnOnRails (turnOn : Nat → Bool) : List Nat → Bool × List Event
  | [] => (true, [])
  | rail :: rest =>
    if turnOn rail then
      let (ok, es) := turnOnRails turnOn rest
      (ok, .TurnOn rail :: es)
    else (false, [.TurnOn rail])

def PowerOn (q : Sequences) (turnOn : Nat → Bool) (s : PowerResetSupervisor) : Outcome :=
  match turnOnRails turnOn (List.range q.m_railSequence) with
  | (false, es) =>
    let (s, fs) := PanicShutdown q s
    (s, es ++ fs)
  | (true, es) =>
    ({ s with m_powerOn := true, m_resetsDone := false, m_resetSequenceIndex := 0 },
      es ++ (if q.m_resetSequence ≠ 0 then [.Deassert 0] else []) ++ [.OnPowerOn])

def PowerOff (q : Sequences) (s : PowerResetSupervisor) : Outcome :=
  ({ s with m_powerOn := false, m_resetsDone := false, m_resetSequenceIndex := 0 },
    (List.range q.m_resetSequence).reverse.map .Assert ++
      (List.range q.m_railSequence).reverse.map .TurnOff ++ [.OnPowerOff])

/-! ## Resets -/

/-- First half of `UpdateResets`: time to advance the sequence? -/
def advance (q : Sequences) (isReady : Nat → Bool) (s : PowerResetSupervisor) :
    Except Fault Outcome :=
  if s.m_resetsDone then .ok (s, [])
  else if s.m_resetSequenceIndex < q.m_resetSequence then
    if isReady s.m_resetSequenceIndex then
      let next := s.m_resetSequenceIndex + 1
      if next ≥ q.m_resetSequence then
        .ok ({ s with m_resetSequenceIndex := next, m_resetsDone := true }, [.OnResetDone])
      else .ok ({ s with m_resetSequenceIndex := next }, [.Deassert next])
    else .ok (s, [])
  else .error (.resetSequence s.m_resetSequenceIndex)

/-- Second half of `UpdateResets`: back up to the first earlier device that
went down, asserting all resets behind it. -/
def backUp (q : Sequences) (stillReady : Nat → Bool) (s : PowerResetSupervisor) :
    List Nat → Except Fault Outcome
  | [] => .ok (s, [])
  | i :: rest =>
    if i < q.m_resetSequence then
      if stillReady i then backUp q stillReady s rest
      else
        .ok ({ s with m_resetSequenceIndex := i, m_resetsDone := false },
          (List.range' (i + 1) (q.m_resetSequence - (i + 1))).map .Assert)
    else .error (.resetSequence i)

def UpdateResets (q : Sequences) (isReady stillReady : Nat → Bool) (s : PowerResetSupervisor) :
    Except Fault Outcome :=
  match advance q isReady s with
  | .error f => .error f
  | .ok (s, es) =>
    match backUp q stillReady s (List.range s.m_resetSequenceIndex) with
    | .error f => .error f
    | .ok (s, fs) => .ok (s, es ++ fs)

/-! ## Rails -/

/-- What `MonitorRails` does about the rail whose turn it is. -/
def checkRail (q : Sequences) (a : Answers) (rail : Nat) (s : PowerResetSupervisor) : Outcome :=
  if a.isPowerGood rail then (s, [])
  else if a.isCritical rail then PanicShutdown q s
  else if a.isInputSupply rail then
    let (s, es) := PowerOff q s
    (s, .OnPowerLost :: es)
  else (s, [])

def MonitorRails (q : Sequences) (a : Answers) (s : PowerResetSupervisor) : Except Fault Outcome :=
  if s.m_monitorRailIndex < q.m_railSequence then
    let (s, es) := checkRail q a s.m_monitorRailIndex s
    if q.m_railSequence = 0 then .error .modulus
    else
      .ok ({ s with m_monitorRailIndex := (s.m_monitorRailIndex + 1) % q.m_railSequence }, es)
  else .error (.railSequence s.m_monitorRailIndex)

def Iteration (q : Sequences) (a : Answers) (s : PowerResetSupervisor) : Except Fault Outcome :=
  if s.m_powerOn then
    match UpdateResets q a.isReady a.stillReady s with
    | .error f => .error f
    | .ok (s, es) =>
      match MonitorRails q a s with
      | .error f => .error f
      | .ok (s, fs) => .ok (s, es ++ fs)
  else .ok (s, [])

/-! ## The public operations -/

inductive Op where
  | PowerOn (turnOn : Nat → Bool)
  | PowerOff
  | PanicShutdown
  | Iteration (answers : Answers)

def step (q : Sequences) (s : PowerResetSupervisor) : Op → Except Fault Outcome
  | .PowerOn turnOn => .ok (PowerOn q turnOn s)
  | .PowerOff => .ok (PowerOff q s)
  | .PanicShutdown => .ok (PanicShutdown q s)
  | .Iteration a => Iteration q a s

/-! ## The board -/

/-- The enable of each rail and the reset line of each device. A rail counts as
on from the moment it is being brought up. -/
structure Board where
  railOn : Nat → Bool
  asserted : Nat → Bool

def Board.act (b : Board) : Event → Board
  | .TurnOn rail => { b with railOn := fun i => if i = rail then true else b.railOn i }
  | .TurnOff rail => { b with railOn := fun i => if i = rail then false else b.railOn i }
  | .Assert reset => { b with asserted := fun i => if i = reset then true else b.asserted i }
  | .Deassert reset => { b with asserted := fun i => if i = reset then false else b.asserted i }
  | _ => b

/-- All rails off and all resets asserted. -/
def Board.off : Board where
  railOn := fun _ => false
  asserted := fun _ => true

end EmbeddedPlatform.Supervisor
