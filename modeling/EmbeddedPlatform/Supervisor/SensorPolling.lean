import Mathlib.Logic.Function.Basic
import EmbeddedPlatform.Lib.Run

/-! # Polling the sensors

`PollIBCSensors` reads the sensors of a board in rotation, a step of a bus
transaction a call, in a build with the intermediate bus converter, its current
registers and an ADC. The I2C driver and the ADC are external devices: what they
answer is an argument of each call, what they are told is its log. The register
numbers are the converter's own. -/
namespace EmbeddedPlatform.Supervisor
open EmbeddedPlatform.Lib

/-- The readings kept, by the variables that keep them. -/
inductive Sensor where
  | g_ibcTemp
  | g_vin48
  | g_vout12
  | g_voutsense
  | g_iin
  | g_iout
  | g_ibcMcuTemp
  | g_ibc3v3
  | g_mcutemp
  | g_3v3Voltage
deriving DecidableEq

structure IBCRegisters where
  IBC_REG_VIN : UInt8
  IBC_REG_VOUT : UInt8
  IBC_REG_VSENSE : UInt8
  IBC_REG_IIN : UInt8
  IBC_REG_IOUT : UInt8
  IBC_REG_MCU_TEMP : UInt8
  IBC_REG_3V3_SB : UInt8

structure SensorBuild where
  regs : IBCRegisters
  STM32L431 : Bool

def g_tempI2cAddress : UInt8 := 0x90
def g_ibcI2cAddress : UInt8 := 0x42

/-- What the driver and the ADC say during one call. -/
structure SensorAnswers where
  IsStartDone : Bool
  IsWriteDone : Bool
  IsReadReady : Bool
  GetReadData : UInt8
  GetTemperatureNonblocking : Option UInt16
  GetTemperature : UInt16
  GetSupplyVoltage : UInt16

/-- Calls into the driver, assignments of readings, and the end of a call that
returns true. -/
inductive SensorEvent where
  | NonblockingStart (nbytes : Nat) (addr : UInt8) (read : Bool)
  | NonblockingWrite (data : UInt8)
  | GetReadData (data : UInt8)
  | Reset
  | Assign (sensor : Sensor) (value : UInt16)
  | ReturnTrue
deriving DecidableEq

/-! ## The readers -/

inductive ReaderState where
  | STATE_IDLE
  | STATE_ADDR_START
  | STATE_REGID
  | STATE_DATA_LO
  | STATE_DATA_HI
deriving DecidableEq

structure Reader where
  m_state : ReaderState
  m_tmpval : UInt8
deriving DecidableEq

namespace Reader

def init : Reader := ⟨.STATE_IDLE, 0⟩

def Reset (r : Reader) : Reader := { r with m_state := .STATE_IDLE }

/-- The two readers differ in the address and the register. A reading comes with
the return value true. -/
def ReadNonblocking (address regid : UInt8) (a : SensorAnswers) (r : Reader) :
    Option UInt16 × Reader × List SensorEvent :=
  match r.m_state with
  | .STATE_IDLE =>
    (none, { r with m_state := .STATE_ADDR_START }, [.NonblockingStart 1 address false])
  | .STATE_ADDR_START =>
    if a.IsStartDone then (none, { r with m_state := .STATE_REGID }, [.NonblockingWrite regid])
    else (none, r, [])
  | .STATE_REGID =>
    if a.IsWriteDone then
      (none, { r with m_state := .STATE_DATA_LO }, [.NonblockingStart 2 address true])
    else (none, r, [])
  | .STATE_DATA_LO =>
    if a.IsReadReady then
      (none, { r with m_tmpval := a.GetReadData, m_state := .STATE_DATA_HI },
        [.GetReadData a.GetReadData])
    else (none, r, [])
  | .STATE_DATA_HI =>
    if a.IsReadReady then
      (some (a.GetReadData.toUInt16 ||| r.m_tmpval.toUInt16 <<< 8),
        { r with m_state := .STATE_IDLE }, [.GetReadData a.GetReadData])
    else (none, r, [])

/-- `IBCRegisterReader::ReadRegisterNonblocking` -/
def ReadRegisterNonblocking (regid : UInt8) (a : SensorAnswers) (r : Reader) :
    Option UInt16 × Reader × List SensorEvent :=
  r.ReadNonblocking g_ibcI2cAddress regid a

/-- `TempSensorReader::ReadTempNonblocking` -/
def ReadTempNonblocking (a : SensorAnswers) (r : Reader) :
    Option UInt16 × Reader × List SensorEvent :=
  r.ReadNonblocking g_tempI2cAddress 0x00 a

end Reader

/-! ## The rotation -/

/-- The static variables of `PollIBCSensors`, and the readings. -/
structure SensorPolling where
  regreader : Reader
  tempreader : Reader
  state : Nat
  iLastUpdate : Nat
  reading : Sensor → UInt16

namespace SensorPolling

def init : SensorPolling where
  regreader := .init
  tempreader := .init
  state := 0
  iLastUpdate := 0
  reading := fun _ => 0

/-- What a call returns. -/
abbrev Outcome := Bool × SensorPolling × List SensorEvent

def assign (sensor : Sensor) (value : UInt16) (s : SensorPolling) : SensorPolling :=
  { s with reading := Function.update s.reading sensor value }

/-- The timeout. -/
def timeout (s : SensorPolling) : SensorPolling × List SensorEvent :=
  if 30000 < s.iLastUpdate then
    ({ s with
        tempreader := s.tempreader.Reset
        regreader := s.regreader.Reset
        state := 0
        iLastUpdate := 0 }, [.Reset])
  else (s, [])

def readTemp (a : SensorAnswers) (s : SensorPolling) : Outcome :=
  match s.tempreader.ReadTempNonblocking a with
  | (none, r, es) => (false, { s with tempreader := r }, es)
  | (some x, r, es) =>
    (false, { s.assign .g_ibcTemp x with
        tempreader := r
        iLastUpdate := 0
        state := s.state + 1 }, es ++ [.Assign .g_ibcTemp x])

/-- The cases that read a register of the converter. The later ones do not count
as an update. -/
def readRegister (regid : UInt8) (sensor : Sensor) (updates : Bool) (a : SensorAnswers)
    (s : SensorPolling) : Outcome :=
  match s.regreader.ReadRegisterNonblocking regid a with
  | (none, r, es) => (false, { s with regreader := r }, es)
  | (some x, r, es) =>
    (false, { s.assign sensor x with
        regreader := r
        iLastUpdate := if updates then 0 else s.iLastUpdate
        state := s.state + 1 }, es ++ [.Assign sensor x])

/-- The cases that ask the ADC. -/
def measure (sensor : Sensor) (value : UInt16) (s : SensorPolling) : Outcome :=
  (false, { s.assign sensor value with state := s.state + 1 }, [.Assign sensor value])

def poll (b : SensorBuild) (a : SensorAnswers) (s : SensorPolling) : Outcome :=
  match s.state with
  | 0 => s.readTemp a
  | 1 => s.readRegister b.regs.IBC_REG_VIN .g_vin48 true a
  | 2 => s.readRegister b.regs.IBC_REG_VOUT .g_vout12 true a
  | 3 => s.readRegister b.regs.IBC_REG_VSENSE .g_voutsense true a
  | 4 => s.readRegister b.regs.IBC_REG_IIN .g_iin false a
  | 5 => s.readRegister b.regs.IBC_REG_IOUT .g_iout false a
  | 6 => s.readRegister b.regs.IBC_REG_MCU_TEMP .g_ibcMcuTemp false a
  | 7 => s.readRegister b.regs.IBC_REG_3V3_SB .g_ibc3v3 false a
  | 8 =>
    if b.STM32L431 then
      match a.GetTemperatureNonblocking with
      | none => (false, s, [])
      | some x => s.measure .g_mcutemp x
    else s.measure .g_mcutemp a.GetTemperature
  | 9 => s.measure .g_3v3Voltage a.GetSupplyVoltage
  | _ => (true, { s with state := 0 }, [])

def PollIBCSensors (b : SensorBuild) (a : SensorAnswers) (s : SensorPolling) : Outcome :=
  let (s, es) := { s with iLastUpdate := s.iLastUpdate + 1 }.timeout
  let (ret, s, fs) := s.poll b a
  (ret, s, es ++ fs)

/-- A call in a run; it cannot fail. -/
def step (b : SensorBuild) (s : SensorPolling) (a : SensorAnswers) :
    Except Empty (SensorPolling × List SensorEvent) :=
  let (ret, t, es) := s.PollIBCSensors b a
  .ok (t, es ++ if ret then [.ReturnTrue] else [])

end SensorPolling

end EmbeddedPlatform.Supervisor
