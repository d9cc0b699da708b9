import EmbeddedPlatform.Multicore.IPCDescriptorTable

/-! # The log of several cores

Each secondary core collects what it prints in a buffer of its own, and pushes
the buffer into its own channel when it is full, towards the end of a line, and
whenever it is told to. A core that pushes may have to wait; meanwhile the other
cores go on. Names of channels are left out: what is registered for a core is the
channel that `FindChannel` found. -/
namespace EmbeddedPlatform.Multicore

/-- `cores` is NUM_SECONDARY_CORES and `size` LOG_TXBUF_SIZE. -/
structure MulticoreLogDevice (cores n size : Nat) where
  m_channels : Fin cores → Option (Fin n)
  m_txBuffers : Fin cores → Fin size → UInt8
  m_writePointers : Fin cores → UInt32

namespace MulticoreLogDevice

variable {cores n size : Nat}

def construct : MulticoreLogDevice cores n size := ⟨fun _ => none, fun _ _ => 0, fun _ => 0⟩

def LookupChannel (d : MulticoreLogDevice cores n size) (i : Nat) (found : Option (Fin n)) :
    MulticoreLogDevice cores n size :=
  if h : i < cores then { d with m_channels := Function.update d.m_channels ⟨i, h⟩ found } else d

def setWritePointer (d : MulticoreLogDevice cores n size) (core : Fin cores) (wptr : UInt32) :
    MulticoreLogDevice cores n size :=
  { d with m_writePointers := Function.update d.m_writePointers core wptr }

/-- The first two lines of `PrintBinary`, with the write pointer within the buffer. -/
def store (d : MulticoreLogDevice cores n size) (core : Fin cores) (ch : UInt8)
    (h : (d.m_writePointers core).toNat < size) : MulticoreLogDevice cores n size :=
  { d with
    m_txBuffers := Function.update d.m_txBuffers core
      (Function.update (d.m_txBuffers core) ⟨(d.m_writePointers core).toNat, h⟩ ch) }.setWritePointer
    core (d.m_writePointers core + 1)

/-- The bytes in front of the write pointer. -/
def buffered (d : MulticoreLogDevice cores n size) (core : Fin cores) : List UInt8 :=
  (List.ofFn (d.m_txBuffers core)).take (d.m_writePointers core).toNat

/-- The second test of `PrintBinary`. The difference is an `int` that becomes unsigned. -/
def prettyFull (d : MulticoreLogDevice cores n size) (core : Fin cores) : Bool :=
  d.m_writePointers core > .ofNat size - 128

end MulticoreLogDevice

/-! ## The cores -/

/-- The FIFO a secondary core pushes into. -/
def secondaryFifo {n : Nat} (c : Fin n) : FifoId n := ⟨c, false⟩

/-- The next access of a core, as a total function. -/
def System.act {n : Nat} (s : System n) (m : Move n) : System n × List (Event n) :=
  match step s m with
  | .ok r => r

/-- Where a core's call is: between the two tests of `PrintBinary`, or in the
`Push` of a `Flush`, after which `PrintBinary` goes on to its second test. -/
inductive LogPhase where
  | idle
  | endOfLine (ch : UInt8)
  | flushing (next : Option UInt8)
deriving DecidableEq

structure LogSystem (cores n size : Nat) where
  device : MulticoreLogDevice cores n size
  phase : Fin cores → LogPhase
  system : System n

/-- A call by a core or the next access of a call that is under way; or an access
of another user of the channels. -/
inductive LogMove (cores n : Nat) where
  | PrintBinary (core : Fin cores) (ch : UInt8)
  | Flush (core : Fin cores)
  | go (core : Fin cores)
  | other (m : Move n)

inductive LogEvent (cores n : Nat) where
  | printed (core : Fin cores) (ch : UInt8)
  | ipc (e : Event n)

inductive LogFault where
  | outOfBounds

namespace LogSystem

variable {cores n size : Nat}

def setPhase (s : LogSystem cores n size) (core : Fin cores) (phase : LogPhase) :
    LogSystem cores n size :=
  { s with phase := Function.update s.phase core phase }

/-- The channel takes the next access. -/
def act (s : LogSystem cores n size) (m : Move n) :
    LogSystem cores n size × List (LogEvent cores n) :=
  ({ s with system := (s.system.act m).1 }, (s.system.act m).2.map .ipc)

/-- The end of `Flush`, and where the call it is part of goes on. -/
def endFlush (s : LogSystem cores n size) (core : Fin cores) (next : Option UInt8) :
    LogSystem cores n size :=
  { s with device := s.device.setWritePointer core 0 }.setPhase core
    (match next with
    | some ch => .endOfLine ch
    | none => .idle)

/-- `Flush` up to the call of `Push`. -/
def beginFlush (s : LogSystem cores n size) (core : Fin cores) (next : Option UInt8) :
    LogSystem cores n size × List (LogEvent cores n) :=
  match s.device.m_channels core with
  | some c =>
    if s.device.m_writePointers core ≠ 0 then
      (s.setPhase core (.flushing next)).act (.Push (secondaryFifo c) (s.device.buffered core))
    else (s.endFlush core next, [])
  | none => (s.endFlush core next, [])

def PrintBinary (s : LogSystem cores n size) (core : Fin cores) (ch : UInt8) :
    Except LogFault (LogSystem cores n size × List (LogEvent cores n)) :=
  if h : (s.device.m_writePointers core).toNat < size then
    let s := { s with device := s.device.store core ch h }
    let r :=
      if s.device.m_writePointers core = .ofNat size then s.beginFlush core (some ch)
      else (s.setPhase core (.endOfLine ch), [])
    .ok (r.1, .printed core ch :: r.2)
  else .error .outOfBounds

/-- The next access of a core's call; in `Push` it waits until that has returned. -/
def go (s : LogSystem cores n size) (core : Fin cores) :
    LogSystem cores n size × List (LogEvent cores n) :=
  match s.phase core with
  | .idle => (s, [])
  | .endOfLine ch =>
    if ch = 10 ∧ s.device.prettyFull core then s.beginFlush core none
    else (s.setPhase core .idle, [])
  | .flushing next =>
    match s.device.m_channels core with
    | some c =>
      match s.system.push (secondaryFifo c) with
      | .idle => (s.endFlush core next, [])
      | _ => s.act (.goPush (secondaryFifo c))
    | none => (s.endFlush core next, [])

/-- A core makes one call at a time. -/
def step (s : LogSystem cores n size) (m : LogMove cores n) :
    Except LogFault (LogSystem cores n size × List (LogEvent cores n)) :=
  match m with
  | .PrintBinary core ch => if s.phase core = .idle then s.PrintBinary core ch else .ok (s, [])
  | .Flush core => .ok (if s.phase core = .idle then s.beginFlush core none else (s, []))
  | .go core => .ok (s.go core)
  | .other m => .ok (s.act m)

/-- The cores' channels are registered before anything is printed. -/
def boot (chan : Fin cores → Fin n) (buffers : List Buffers) : LogSystem cores n size where
  device := (List.finRange cores).foldl
    (fun d (core : Fin cores) => d.LookupChannel core (some (chan core))) .construct
  phase _ := .idle
  system := .boot n buffers

end LogSystem

end EmbeddedPlatform.Multicore
