import EmbeddedPlatform.Lib.Run

/-! # The microcontroller of a PHY

The PHY has an 8051 of its own. A command is written to a register of it, with the
top bit set; the 8051 clears the bit when it has finished, which it always does.
Commands move a pointer into the memory of the 8051, and read or write the byte
there. Of the 8051 is assumed what the encoding of the commands says, and that the
byte read is put where the byte to be written is. -/
namespace EmbeddedPlatform.Drivers
open EmbeddedPlatform.Lib

def REG_VSC8512_PAGESEL : BitVec 8 := 0x1f
def REG_VSC_GP_GLOBAL_SERDES : BitVec 8 := 0x12
def VSC_PAGE_MAIN : BitVec 16 := 0x0000
def VSC_PAGE_GENERAL_PURPOSE : BitVec 16 := 0x0010

/-! ## The 8051 -/

/-- `register` is what the command register holds when the last command is done. -/
structure MCU where
  memory : BitVec 14 → BitVec 8
  pointer : BitVec 14
  register : BitVec 16

/-- What is not known of the 8051: the other bits of a reply, and what it reads from
the SERDES. -/
structure Firmware where
  reply : MCU → BitVec 16
  reply_byte : ∀ m, (reply m).extractLsb' 4 8 = m.memory m.pointer
  readMCB : BitVec 16 → (BitVec 14 → BitVec 8) → BitVec 14 → BitVec 8

def MCU.advance (m : MCU) (postIncrement : Bool) : MCU :=
  if postIncrement then { m with pointer := m.pointer + 1 } else m

/-- What a command does: bit 14 sets the pointer, else the low digit says what is
done, and bit 12 whether the pointer moves on. -/
def Firmware.exec (fw : Firmware) (m : MCU) (cmd : BitVec 16) : MCU :=
  let m := { m with register := cmd &&& 0x7fff }
  if cmd.getLsbD 14 then { m with pointer := cmd.setWidth 14 }
  else if cmd.extractLsb' 0 4 = 7#4 then { m with register := fw.reply m }.advance (cmd.getLsbD 12)
  else if cmd.extractLsb' 0 4 = 6#4 then
    { m with memory := Function.update m.memory m.pointer (cmd.extractLsb' 4 8) }.advance
      (cmd.getLsbD 12)
  else if cmd.extractLsb' 0 4 = 3#4 then { m with memory := fw.readMCB cmd m.memory }
  else m

/-! ## The driver -/

/-- Device 0 of the PHY: the page that is selected, the 8051, and the other
registers by page and number. -/
structure VSC8512 where
  page : BitVec 16
  mcu : MCU
  registers : BitVec 16 → BitVec 8 → BitVec 16

namespace VSC8512

def WriteRegister (fw : Firmware) (s : VSC8512) (regid : BitVec 8) (value : BitVec 16) : VSC8512 :=
  if regid = REG_VSC8512_PAGESEL then { s with page := value }
  else if s.page = VSC_PAGE_GENERAL_PURPOSE ∧ regid = REG_VSC_GP_GLOBAL_SERDES then
    if value.getLsbD 15 then { s with mcu := fw.exec s.mcu value }
    else { s with mcu := { s.mcu with register := value } }
  else
    { s with
      registers := Function.update s.registers s.page
        (Function.update (s.registers s.page) regid value) }

def ReadRegister (s : VSC8512) (regid : BitVec 8) : BitVec 16 :=
  if regid = REG_VSC8512_PAGESEL then s.page
  else if s.page = VSC_PAGE_GENERAL_PURPOSE ∧ regid = REG_VSC_GP_GLOBAL_SERDES then s.mcu.register
  else s.registers s.page regid

variable (fw : Firmware)

/-- The wait for the 8051 is over when the last command is done. -/
def PrepareForMCUAccess (s : VSC8512) : VSC8512 :=
  s.WriteRegister fw REG_VSC8512_PAGESEL VSC_PAGE_GENERAL_PURPOSE

def SelectMainPage (s : VSC8512) : VSC8512 := s.WriteRegister fw REG_VSC8512_PAGESEL VSC_PAGE_MAIN

/-- The wait for the 8051 is over when the command is done. -/
def SendCommandToMCU (s : VSC8512) (cmd : BitVec 16) : VSC8512 :=
  s.WriteRegister fw REG_VSC_GP_GLOBAL_SERDES (cmd ||| 0x8000)

def ReadMCBToShadowRegisters (s : VSC8512) (mcbBusIndex serdesIndex : BitVec 8) : VSC8512 :=
  s.SendCommandToMCU fw ((serdesIndex.setWidth 16 <<< 8) ||| (mcbBusIndex.setWidth 16 <<< 4) ||| 0x3)

def PushShadowRegistersToMCB (s : VSC8512) : VSC8512 := s.SendCommandToMCU fw 0x9cc0

def SetIndirectAccessPointer (s : VSC8512) (ptr : BitVec 16) : VSC8512 :=
  let ptr := if ptr &&& 0x4000 ≠ 0 then ptr ||| 0x1000 else ptr
  s.SendCommandToMCU fw (0x4000 ||| ptr)

def MCUPeekByte (s : VSC8512) (postIncrement : Bool) : VSC8512 × BitVec 8 :=
  let s := if postIncrement then s.SendCommandToMCU fw 0x1007 else s.SendCommandToMCU fw 0x0007
  -- the register has 16 bits, the variable 8
  let ret : BitVec 8 := (s.ReadRegister REG_VSC_GP_GLOBAL_SERDES).setWidth 8
  (s, (ret >>> 4) &&& 0xff)

def MCUPokeByte (s : VSC8512) (bval : BitVec 8) (postIncrement : Bool) : VSC8512 :=
  let cmd : BitVec 16 := if postIncrement then 0x6 ||| 0x1000 else 0x6
  s.SendCommandToMCU fw (cmd ||| (bval.setWidth 16 <<< 4))

def SetSerdes6GPostCursor0Tap (s : VSC8512) (tap : BitVec 8) : VSC8512 :=
  let s := s.PrepareForMCUAccess fw
  let s := s.ReadMCBToShadowRegisters fw 1 1
  let s := s.SetIndirectAccessPointer fw 0x47d8
  let (s, tmp) := s.MCUPeekByte fw false
  let s := s.MCUPokeByte fw ((tmp &&& 0x1f) ||| ((tap &&& 7) <<< 5)) true
  let (s, tmp) := s.MCUPeekByte fw false
  let s := s.MCUPokeByte fw ((tmp &&& 0xf8) ||| ((tap >>> 3) &&& 7)) false
  let s := s.SetIndirectAccessPointer fw 0x47ce
  let s := s.MCUPokeByte fw 0x0e false
  let s := s.PushShadowRegistersToMCB fw
  s.SelectMainPage fw

end VSC8512

end EmbeddedPlatform.Drivers
