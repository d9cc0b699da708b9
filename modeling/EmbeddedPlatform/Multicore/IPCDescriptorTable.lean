import Mathlib.Logic.Function.Basic
import EmbeddedPlatform.Lib.Run

/-! # Mailboxes between two cores

Each channel of an `IPCDescriptorTable` has a FIFO in each direction: a buffer in
shared memory, of which the IPC controller keeps one flag that says whether it is
occupied. `Push` and `Pop` are taken apart into their accesses to shared memory,
and the accesses of both cores come in any order. A core's use of one end of a
FIFO is a sequence of its own, so that a core may also be interrupted in one FIFO
to use another. The buffers handed over do not overlap. The controller belongs to
the peripheral library; names of channels and cache maintenance are left out. -/
namespace EmbeddedPlatform.Multicore

/-! ## The controller -/

/-- The occupied flags, a word in each direction. -/
structure IPCC where
  primaryToSecondary : BitVec 32
  secondaryToPrimary : BitVec 32

def channelFree (flags mask : BitVec 32) : Bool := flags &&& mask == 0

/-- The bits that set a flag are the upper half of the register. -/
def markBusy (flags mask : BitVec 32) : BitVec 32 := flags ||| mask >>> 16

def markFree (flags mask : BitVec 32) : BitVec 32 := flags &&& ~~~mask

namespace IPCC

def IsPrimaryToSecondaryChannelFree (c : IPCC) (mask : BitVec 32) : Bool :=
  channelFree c.primaryToSecondary mask

def IsSecondaryToPrimaryChannelFree (c : IPCC) (mask : BitVec 32) : Bool :=
  channelFree c.secondaryToPrimary mask

def SetPrimaryToSecondaryChannelBusy (c : IPCC) (mask : BitVec 32) : IPCC :=
  { c with primaryToSecondary := markBusy c.primaryToSecondary mask }

def SetSecondaryToPrimaryChannelBusy (c : IPCC) (mask : BitVec 32) : IPCC :=
  { c with secondaryToPrimary := markBusy c.secondaryToPrimary mask }

def SetPrimaryToSecondaryChannelFree (c : IPCC) (mask : BitVec 32) : IPCC :=
  { c with primaryToSecondary := markFree c.primaryToSecondary mask }

def SetSecondaryToPrimaryChannelFree (c : IPCC) (mask : BitVec 32) : IPCC :=
  { c with secondaryToPrimary := markFree c.secondaryToPrimary mask }

end IPCC

/-! ## The table -/

/-- Buffer and pointers of a unidirectional FIFO, all in shared memory. -/
structure UnidirectionalIPCFifo where
  m_buffer : Nat → UInt8
  m_size : UInt32
  m_writePtr : UInt32
  m_setmask : BitVec 32
  m_clearmask : BitVec 32
  m_primaryTx : Bool

namespace UnidirectionalIPCFifo

/-- The constructor's values. -/
def unused : UnidirectionalIPCFifo := ⟨fun _ => 0, 0, 0, 0, 0, false⟩

def Initialize (fifo : UnidirectionalIPCFifo) (buf : Nat → UInt8) (size : UInt32) (channel : Nat)
    (primaryTx : Bool) : UnidirectionalIPCFifo :=
  { fifo with
    m_buffer := buf
    m_size := size
    m_setmask := 1#32 <<< (16 + channel)
    m_clearmask := 1#32 <<< channel
    m_primaryTx := primaryTx }

/-- The test of `Push` and, negated, of `Peek`. -/
def isFree (fifo : UnidirectionalIPCFifo) (ipcc : IPCC) : Bool :=
  if fifo.m_primaryTx then ipcc.IsPrimaryToSecondaryChannelFree fifo.m_clearmask
  else ipcc.IsSecondaryToPrimaryChannelFree fifo.m_clearmask

def Peek (fifo : UnidirectionalIPCFifo) (ipcc : IPCC) : Bool := !fifo.isFree ipcc

/-- The end of `Push`. -/
def setBusy (fifo : UnidirectionalIPCFifo) (ipcc : IPCC) : IPCC :=
  if fifo.m_primaryTx then ipcc.SetPrimaryToSecondaryChannelBusy fifo.m_setmask
  else ipcc.SetSecondaryToPrimaryChannelBusy fifo.m_setmask

/-- The end of `Pop`. -/
def setFree (fifo : UnidirectionalIPCFifo) (ipcc : IPCC) : IPCC :=
  if fifo.m_primaryTx then ipcc.SetPrimaryToSecondaryChannelFree fifo.m_clearmask
  else ipcc.SetSecondaryToPrimaryChannelFree fifo.m_clearmask

end UnidirectionalIPCFifo

structure IPCDescriptorChannel where
  m_primaryTxFifo : UnidirectionalIPCFifo
  m_secondaryTxFifo : UnidirectionalIPCFifo

structure IPCDescriptorTable (n : Nat) where
  m_channels : Fin n → IPCDescriptorChannel
  m_firstFreeChannel : Nat

/-- The buffers handed to `AllocateChannel`. -/
structure Buffers where
  txbuf : Nat → UInt8
  txsize : UInt32
  rxbuf : Nat → UInt8
  rxsize : UInt32

/-- A FIFO: its channel, and whether the primary core pushes into it. -/
structure FifoId (n : Nat) where
  channel : Fin n
  primary : Bool
deriving DecidableEq

namespace IPCDescriptorTable

variable {n : Nat}

def empty (n : Nat) : IPCDescriptorTable n := ⟨fun _ => ⟨.unused, .unused⟩, 0⟩

def setChannel (t : IPCDescriptorTable n) (i : Fin n) (chan : IPCDescriptorChannel) :
    IPCDescriptorTable n :=
  { t with m_channels := Function.update t.m_channels i chan }

/-- `n` is NUM_IPC_CHANNELS; without a free channel nothing happens. -/
def AllocateChannel (t : IPCDescriptorTable n) (b : Buffers) : IPCDescriptorTable n :=
  if h : t.m_firstFreeChannel < n then
    let idx : Fin n := ⟨t.m_firstFreeChannel, h⟩
    let chan := t.m_channels idx
    { t.setChannel idx
        ⟨chan.m_primaryTxFifo.Initialize b.txbuf b.txsize idx true,
          chan.m_secondaryTxFifo.Initialize b.rxbuf b.rxsize idx false⟩ with
      m_firstFreeChannel := t.m_firstFreeChannel + 1 }
  else t

/-- `GetPrimaryFifo` and `GetSecondaryFifo` of a channel. -/
def fifo (t : IPCDescriptorTable n) (f : FifoId n) : UnidirectionalIPCFifo :=
  if f.primary then (t.m_channels f.channel).m_primaryTxFifo
  else (t.m_channels f.channel).m_secondaryTxFifo

def setFifo (t : IPCDescriptorTable n) (f : FifoId n) (fifo : UnidirectionalIPCFifo) :
    IPCDescriptorTable n :=
  let chan := t.m_channels f.channel
  t.setChannel f.channel
    (if f.primary then { chan with m_primaryTxFifo := fifo }
      else { chan with m_secondaryTxFifo := fifo })

end IPCDescriptorTable

/-! ## The cores -/

/-- Where a call of `Push` is: waiting for the buffer, copying with `i` bytes
done, about to set the size, about to set the flag. -/
inductive PushPhase where
  | idle
  | wait (buf : List UInt8)
  | copy (buf : List UInt8) (i : Nat)
  | publish (buf : List UInt8)
  | mark (buf : List UInt8)

/-- Where a call of `Pop` is: about to look at the flag, about to read the size,
copying with `rxbuf` done, about to clear the flag. -/
inductive PopPhase where
  | idle
  | peek
  | readSize
  | copy (p : UInt32) (rxbuf : List UInt8)
  | release (rxbuf : List UInt8)

/-- Both cores, their memory and their controller. -/
structure System (n : Nat) where
  table : IPCDescriptorTable n
  ipcc : IPCC
  push : FifoId n → PushPhase
  pop : FifoId n → PopPhase

/-- A call with its message, or the next access of a call that is under way. -/
inductive Move (n : Nat) where
  | Push (f : FifoId n) (buf : List UInt8)
  | goPush (f : FifoId n)
  | Pop (f : FifoId n)
  | goPop (f : FifoId n)

/-- The messages given to `Push` and returned by `Pop`. -/
inductive Event (n : Nat) where
  | given (f : FifoId n) (buf : List UInt8)
  | returned (f : FifoId n) (rxbuf : List UInt8)

variable {n : Nat}

namespace System

def setPush (s : System n) (f : FifoId n) (p : PushPhase) : System n :=
  { s with push := Function.update s.push f p }

def setPop (s : System n) (f : FifoId n) (p : PopPhase) : System n :=
  { s with pop := Function.update s.pop f p }

/-- Of a message that is too big nothing further is done. -/
def callPush (s : System n) (f : FifoId n) (buf : List UInt8) : System n × List (Event n) :=
  match s.push f with
  | .idle =>
    if (s.table.fifo f).m_size.toNat < buf.length then (s, [.given f buf])
    else (s.setPush f (.wait buf), [.given f buf])
  | _ => (s, [])

/-- The next access of `Push`. -/
def goPush (s : System n) (f : FifoId n) : System n :=
  let fifo := s.table.fifo f
  match s.push f with
  | .idle => s
  | .wait buf => if fifo.isFree s.ipcc then s.setPush f (.copy buf 0) else s
  | .copy buf i =>
    if h : i < buf.length then
      { s with
        table := s.table.setFifo f
          { fifo with m_buffer := Function.update fifo.m_buffer i buf[i] } }.setPush f
            (.copy buf (i + 1))
    else s.setPush f (.publish buf)
  | .publish buf =>
    { s with
      table := s.table.setFifo f { fifo with m_writePtr := .ofNat buf.length } }.setPush f
        (.mark buf)
  | .mark _ => { s with ipcc := fifo.setBusy s.ipcc }.setPush f .idle

def callPop (s : System n) (f : FifoId n) : System n :=
  match s.pop f with
  | .idle => s.setPop f .peek
  | _ => s

/-- The next access of `Pop`; with no data ready it returns nothing. -/
def goPop (s : System n) (f : FifoId n) : System n × List (Event n) :=
  let fifo := s.table.fifo f
  match s.pop f with
  | .idle => (s, [])
  | .peek =>
    if fifo.Peek s.ipcc then (s.setPop f .readSize, []) else (s.setPop f .idle, [.returned f []])
  | .readSize => (s.setPop f (.copy fifo.m_writePtr []), [])
  | .copy p rxbuf =>
    if rxbuf.length < p.toNat then
      (s.setPop f (.copy p (rxbuf ++ [fifo.m_buffer rxbuf.length])), [])
    else (s.setPop f (.release rxbuf), [])
  | .release rxbuf => ({ s with ipcc := fifo.setFree s.ipcc }.setPop f .idle, [.returned f rxbuf])

/-- Channels are allocated before the second core is started. -/
def boot (n : Nat) (buffers : List Buffers) : System n where
  table := buffers.foldl .AllocateChannel (.empty n)
  ipcc := ⟨0, 0⟩
  push := fun _ => .idle
  pop := fun _ => .idle

end System

/-- The FIFO a move is about. -/
def Move.fifo : Move n → FifoId n
  | .Push f _ | .goPush f | .Pop f | .goPop f => f

/-- Only allocated channels can be used. -/
def step (s : System n) (m : Move n) : Except Empty (System n × List (Event n)) :=
  if m.fifo.channel < s.table.m_firstFreeChannel then
    match m with
    | .Push f buf => .ok (s.callPush f buf)
    | .goPush f => .ok (s.goPush f, [])
    | .Pop f => .ok (s.callPop f, [])
    | .goPop f => .ok (s.goPop f)
  else .ok (s, [])

end EmbeddedPlatform.Multicore
