import EmbeddedPlatform.Lib.Rounds
import EmbeddedPlatform.Lib.BoundedQueue

/-! # The FPGA firmware updater

`FPGAFirmwareUpdater` receives a bit file in chunks of any size, checks its
header, erases a flash partition and programs the bitstream into it. The flash
controller is a parameter; what the updater does is logged as `Action`s. Logging
and timing are left out. -/
namespace EmbeddedPlatform.Fpga

open Lib

/-- The SPI flash interface, with `φ` the state of the chip behind it. -/
structure SpiFlash (φ : Type) where
  GetEraseBlockSize : UInt32
  GetMaxWriteBlockSize : UInt32
  EraseSector : UInt32 → φ → Bool × φ
  WriteData : UInt32 → List UInt8 → φ → Bool × φ
  ReadData : UInt32 → (n : Nat) → φ → Vector UInt8 n × φ
  eraseBlock_pos : 0 < GetEraseBlockSize.toNat
  writeBlock_pos : 0 < GetMaxWriteBlockSize.toNat

inductive State where
  | READ_BITHDR
  | READ_BITHDR_RECORDS
  | SYNC_WAIT
  | BITSTREAM
  | BIG_WRITE
  | DONE
  | FAILED
deriving DecidableEq

def BIT_RX_BUFFER_SIZE : Nat := 4096

abbrev CircularFIFO := BoundedQueue UInt8 BIT_RX_BUFFER_SIZE

/-- The constructor's arguments; the device name without its terminator. -/
structure UpdaterConfig where
  m_deviceName : List UInt8
  m_imageOffset : UInt32
  m_imageSize : UInt32

structure FPGAFirmwareUpdater (φ : Type) where
  m_state : State
  m_rxBuffer : CircularFIFO
  m_writeBuffer : CircularFIFO
  m_bigWordLen : UInt32
  m_wptr : UInt32
  g_fpgaFlash : φ

inductive Action where
  | opened
  | setState (st : State)
  | EraseSector (ptr : UInt32)
  | WriteData (addr : UInt32) (data : List UInt8)
  | pushFailed
deriving DecidableEq

/-- A loop of the source that was still going when the fuel ran out. -/
inductive Hang where
  | blankCheck
  | polling

def g_syncword : List UInt8 := [0xaa, 0x99, 0x55, 0x66]

def magic : List UInt8 :=
  [0x00, 0x09, 0x0f, 0xf0, 0x0f, 0xf0, 0x0f, 0xf0, 0x0f, 0xf0, 0x00, 0x00, 0x01]

/-! ## Records and packet headers -/

def recordType (p : List UInt8) : UInt8 := p.getD 0 0
def recordLen (p : List UInt8) : Nat := (p.getD 2 0).toNat

/-- The payload up to a null or the end of the record. -/
def recordText (p : List UInt8) : List UInt8 := ((p.drop 3).take (recordLen p)).takeWhile (· != 0)

def charB : UInt8 := 0x62
def charE : UInt8 := 0x65

/-- A big endian word, as `__builtin_bswap32` makes of the word at `p`. -/
def bswap32 (p : List UInt8) : UInt32 :=
  (p.getD 0 0).toUInt32 <<< 24 ||| (p.getD 1 0).toUInt32 <<< 16 |||
    (p.getD 2 0).toUInt32 <<< 8 ||| (p.getD 3 0).toUInt32

def packetType (p : List UInt8) : UInt8 := p.getD 0 0 >>> 5
def packetOp (header : UInt32) : UInt32 := (header >>> 27) &&& 3
def packetReg (header : UInt32) : UInt32 := (header >>> 13) &&& 0xff
def packetLen (header : UInt32) : UInt32 := header &&& 0x3ff
def packetSize (header : UInt32) : UInt32 := 4 * (packetLen header + 1)
def packetBigLen (header : UInt32) : UInt32 := header &&& 0x07ffffff

def REG_CMD : UInt32 := 0x04
def CMD_DESYNC : UInt32 := 0x0d

/-- The type 1 packet at `p` is the command that ends the bitstream. -/
def isDesync (p : List UInt8) : Bool :=
  packetOp (bswap32 p) != 0 && packetLen (bswap32 p) == 1 && packetReg (bswap32 p) == REG_CMD &&
    bswap32 (p.drop 4) &&& 0x1f == CMD_DESYNC

/-! ## Pieces of the updater -/

variable {φ : Type}

namespace FPGAFirmwareUpdater

def setState (s : FPGAFirmwareUpdater φ) (st : State) : FPGAFirmwareUpdater φ × List Action :=
  ({ s with m_state := st }, [.setState st])

def popRx (s : FPGAFirmwareUpdater φ) (n : Nat) : FPGAFirmwareUpdater φ :=
  { s with m_rxBuffer := s.m_rxBuffer.pop n }

/-- `m_writeBuffer.Push`, with the result the source mostly ignores. -/
def pushWrite (s : FPGAFirmwareUpdater φ) (data : List UInt8) :
    Bool × FPGAFirmwareUpdater φ × List Action :=
  match s.m_writeBuffer.push data with
  | some q => (true, { s with m_writeBuffer := q }, [])
  | none => (false, s, [.pushFailed])

end FPGAFirmwareUpdater

open FPGAFirmwareUpdater

variable (F : SpiFlash φ) (c : UpdaterConfig)

/-! ## Erasing -/

/-- The first loop of `EraseFlashPartition`. -/
def eraseSectors : List UInt32 → φ → Bool × φ × List Action
  | [], f => (true, f, [])
  | ptr :: ptrs, f =>
    let (ok, f) := F.EraseSector ptr f
    if !ok then (false, f, [.EraseSector ptr])
    else
      let (ok, f, es) := eraseSectors ptrs f
      (ok, f, .EraseSector ptr :: es)

/-- The second loop, from `addr` on. The counter is 32 bits wide, so the loop
does not end on a blank flash if `m_imageSize` is within 256 bytes of 2^32. -/
def blankCheck : Nat → UInt32 → φ → Except Hang (Bool × φ)
  | 0, _, _ => .error .blankCheck
  | fuel + 1, addr, f =>
    if addr < c.m_imageSize then
      let (buf, f) := F.ReadData addr 256 f
      if buf.toList != List.replicate 256 0xff then .ok (false, f)
      else blankCheck fuel (addr + 256) f
    else .ok (true, f)

def sectorsToErase : List UInt32 :=
  let secsize := F.GetEraseBlockSize
  let nblocks := (c.m_imageSize ||| (secsize - 1)) / secsize
  (List.range nblocks.toNat).map fun i => c.m_imageOffset + .ofNat i * secsize

def EraseFlashPartition (fuel : Nat) (s : FPGAFirmwareUpdater φ) :
    Except Hang (FPGAFirmwareUpdater φ × List Action) :=
  let (ok, f, es) := eraseSectors F (sectorsToErase F c) s.g_fpgaFlash
  let s := { s with g_fpgaFlash := f }
  if !ok then
    let (s, fs) := s.setState .FAILED
    .ok (s, es ++ fs)
  else
    match blankCheck F c fuel 0 f with
    | .error e => .error e
    | .ok (blank, f) =>
      let s := { s with g_fpgaFlash := f }
      if !blank then
        let (s, fs) := s.setState .FAILED
        .ok (s, es ++ fs)
      else .ok (s, es)

/-! ## Writing -/

/-- One write at `m_wptr` of the first `n` bytes waiting, and its readback. On
success the bytes are popped. -/
def writeVerify (n : Nat) (s : FPGAFirmwareUpdater φ) :
    Bool × FPGAFirmwareUpdater φ × List Action :=
  let wbuf := s.m_writeBuffer.items.take n
  let (ok, f) := F.WriteData s.m_wptr wbuf s.g_fpgaFlash
  let s := { s with g_fpgaFlash := f }
  if !ok then
    let (t, es) := s.setState .FAILED
    (false, t, .WriteData s.m_wptr wbuf :: es)
  else
    let (rdbuf, f) := F.ReadData s.m_wptr n s.g_fpgaFlash
    let s := { s with g_fpgaFlash := f }
    if rdbuf.toList != wbuf then
      let (t, es) := s.setState .FAILED
      (false, t, .WriteData s.m_wptr wbuf :: es)
    else (true, { s with m_writeBuffer := s.m_writeBuffer.pop n }, [.WriteData s.m_wptr wbuf])

/-- The loop of `PushWriteData`; a write buffer of `n` bytes bounds it by `n`. -/
def writeBlocks (wblock : UInt32) : Nat → FPGAFirmwareUpdater φ → FPGAFirmwareUpdater φ × List Action
  | 0, s => (s, [])
  | n + 1, s =>
    if s.m_writeBuffer.items.length < wblock.toNat then (s, [])
    else
      let (ok, s, es) := writeVerify F wblock.toNat s
      if !ok then (s, es)
      else
        let (s, fs) := writeBlocks wblock n { s with m_wptr := s.m_wptr + wblock }
        (s, es ++ fs)

def PushWriteData (s : FPGAFirmwareUpdater φ) : FPGAFirmwareUpdater φ × List Action :=
  if s.m_state = .FAILED then (s, [])
  else if 512 < F.GetMaxWriteBlockSize.toNat then s.setState .FAILED
  else writeBlocks F F.GetMaxWriteBlockSize s.m_writeBuffer.items.length s

/-- `PushWriteData` may fail here; the rest is written all the same. -/
def FlushWriteData (s : FPGAFirmwareUpdater φ) : FPGAFirmwareUpdater φ × List Action :=
  if s.m_state = .FAILED then (s, [])
  else
    let (s, es) := PushWriteData F s
    let (_, s, fs) := writeVerify F s.m_writeBuffer.items.length s
    (s, es ++ fs)

/-! ## Parsing

One case of `ProcessDataFromBuffer` each: whether to go on, the next state and
what was done. -/

def readBitHeader (s : FPGAFirmwareUpdater φ) : Bool × FPGAFirmwareUpdater φ × List Action :=
  if 13 ≤ s.m_rxBuffer.items.length then
    if s.m_rxBuffer.items.take 13 ≠ magic then (true, s.setState .FAILED)
    else (true, (s.popRx 13).setState .READ_BITHDR_RECORDS)
  else (false, s, [])

def readBitHeaderRecords (fuel : Nat) (s : FPGAFirmwareUpdater φ) :
    Except Hang (Bool × FPGAFirmwareUpdater φ × List Action) :=
  let p := s.m_rxBuffer.items
  if 3 ≤ p.length then
    if recordType p = charE then
      let (s, es) := (s.popRx 5).setState .SYNC_WAIT
      match EraseFlashPartition F c fuel s with
      | .error e => .error e
      | .ok (s, fs) => .ok (true, s, es ++ fs)
    else
      let blocksize := 3 + recordLen p
      if blocksize ≤ p.length then
        if recordType p = charB ∧ recordText p ≠ c.m_deviceName then
          let (s, es) := s.setState .FAILED
          .ok (true, s.popRx blocksize, es)
        else .ok (true, s.popRx blocksize, [])
      else .ok (false, s, [])
  else .ok (false, s, [])

/-- The loop of `STATE_SYNC_WAIT`; it pops a byte each time round. -/
def syncWait : Nat → FPGAFirmwareUpdater φ → Bool × FPGAFirmwareUpdater φ × List Action
  | 0, s => (false, s, [])
  | n + 1, s =>
    let ptr := s.m_rxBuffer.items
    if 4 < ptr.length then
      if ptr.take 4 = g_syncword then
        let (_, s, es) := s.pushWrite (ptr.take 4)
        let (s, fs) := (s.popRx 4).setState .BITSTREAM
        (true, s, es ++ fs)
      else
        let (_, s, es) := s.pushWrite (ptr.take 1)
        let (more, s, fs) := syncWait n (s.popRx 1)
        (more, s, es ++ fs)
    else (false, s, [])

def bitstream (s : FPGAFirmwareUpdater φ) : Bool × FPGAFirmwareUpdater φ × List Action :=
  let ptr := s.m_rxBuffer.items
  let header := bswap32 ptr
  if 4 ≤ ptr.length then
    if packetType ptr = 1 then
      let packsize := (packetSize header).toNat
      if ptr.length < packsize then (false, s, [])
      else
        let (s, es) := if isDesync ptr then s.setState .DONE else (s, [])
        let (_, s, fs) := s.pushWrite (ptr.take packsize)
        (true, s.popRx packsize, es ++ fs)
    else if packetType ptr = 2 then
      let (s, es) := { s with m_bigWordLen := packetBigLen header }.setState .BIG_WRITE
      let (_, s, fs) := s.pushWrite (ptr.take 4)
      (true, s.popRx 4, es ++ fs)
    else (true, s.setState .FAILED)
  else (false, s, [])

def bigWrite (s : FPGAFirmwareUpdater φ) : Bool × FPGAFirmwareUpdater φ × List Action :=
  let ptr := s.m_rxBuffer.items
  if 4 ≤ ptr.length then
    let avail : UInt32 := .ofNat (ptr.length / 4)
    let wordcount := if s.m_bigWordLen ≤ avail then s.m_bigWordLen else avail
    let n := 4 * wordcount.toNat
    let (ok, s, es) := s.pushWrite (ptr.take n)
    let (s, fs) := if ok then (s, []) else s.setState .FAILED
    let s := { s.popRx n with m_bigWordLen := s.m_bigWordLen - wordcount }
    -- a packet that is complete goes on as bitstream, also when its data was dropped
    if s.m_bigWordLen = 0 then
      let (s, gs) := s.setState .BITSTREAM
      (true, s, es ++ fs ++ gs)
    else (false, s, es ++ fs)
  else (false, s, [])

def ProcessDataFromBuffer (fuel : Nat) (s : FPGAFirmwareUpdater φ) :
    Except Hang (Bool × FPGAFirmwareUpdater φ × List Action) :=
  match s.m_state with
  | .READ_BITHDR => .ok (readBitHeader s)
  | .READ_BITHDR_RECORDS => readBitHeaderRecords F c fuel s
  | .SYNC_WAIT => .ok (syncWait s.m_rxBuffer.items.length s)
  | .BITSTREAM => .ok (bitstream s)
  | .BIG_WRITE => .ok (bigWrite s)
  | .DONE | .FAILED => .ok (false, { s with m_rxBuffer := .empty }, [])

/-! ## The interface -/

/-- One evaluation of the polling loop's condition and the write behind it: the
loop calls `PushWriteData` after every `ProcessDataFromBuffer`, the last one
included. -/
def pollOnce (fuel : Nat) (s : FPGAFirmwareUpdater φ) :
    Except Hang (Bool × FPGAFirmwareUpdater φ × List Action) :=
  match ProcessDataFromBuffer F c fuel s with
  | .error e => .error e
  | .ok (more, t, es) =>
    let (t, fs) := PushWriteData F t
    .ok (more, t, es ++ fs)

def OnDeviceOpened (s : FPGAFirmwareUpdater φ) : FPGAFirmwareUpdater φ × List Action :=
  ({ s with
      m_rxBuffer := .empty
      m_writeBuffer := .empty
      m_state := .READ_BITHDR
      m_bigWordLen := 0
      m_wptr := c.m_imageOffset }, [.opened])

/-- An upper bound on the polls of a buffer of `n` bytes. -/
def pollFuel (n : Nat) : Nat := 2 * n + 3

def OnRxData (fuel : Nat) (data : List UInt8) (s : FPGAFirmwareUpdater φ) :
    Except Hang (FPGAFirmwareUpdater φ × List Action) :=
  match s.m_rxBuffer.push data with
  | none => .ok (s, [.pushFailed])
  | some q =>
    rounds (pollOnce F c fuel) .polling (pollFuel q.items.length) { s with m_rxBuffer := q }

def OnDeviceClosed (s : FPGAFirmwareUpdater φ) : FPGAFirmwareUpdater φ × List Action :=
  FlushWriteData F s

inductive Op where
  | OnDeviceOpened
  | OnRxData (data : List UInt8)
  | OnDeviceClosed

def step (fuel : Nat) (s : FPGAFirmwareUpdater φ) :
    Op → Except Hang (FPGAFirmwareUpdater φ × List Action)
  | .OnDeviceOpened => .ok (OnDeviceOpened c s)
  | .OnRxData data => OnRxData F c fuel data s
  | .OnDeviceClosed => .ok (OnDeviceClosed F s)

/-- The constructor; it leaves `m_wptr` as it finds it. -/
def FPGAFirmwareUpdater.init (m_wptr : UInt32) (g_fpgaFlash : φ) : FPGAFirmwareUpdater φ where
  m_state := .READ_BITHDR
  m_rxBuffer := .empty
  m_writeBuffer := .empty
  m_bigWordLen := 0
  m_wptr := m_wptr
  g_fpgaFlash := g_fpgaFlash

end EmbeddedPlatform.Fpga
