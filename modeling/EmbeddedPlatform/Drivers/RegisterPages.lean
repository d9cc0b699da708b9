import Mathlib.Logic.Function.Basic
import EmbeddedPlatform.Drivers.VSC8512

/-! # Register pages

Each of the twelve PHYs of the chip has its registers on pages, and register 31 selects
the page. The header of the driver lists registers by page; a register of another page
than the selected one would be something else. Here the driver is the accesses it makes,
in order. What the chip answers may depend on all that was done to it, and waits end
after some number of answers. The driver of the bus belongs to a library: a read and a
write are one access each, and what it does to replace some bits of a register is a
parameter. -/
namespace EmbeddedPlatform.Drivers
open EmbeddedPlatform.Lib

/-! ## Registers -/

/-- The registers of every PHY, whoever makes it, are not of this header. -/
def REG_PHY_ID_1 : BitVec 8 := 0x02
def REG_PHY_ID_2 : BitVec 8 := 0x03
def REG_AN_ADVERT : BitVec 8 := 0x04
def REG_GIG_CONTROL : BitVec 8 := 0x09

def REG_VSC8512_EXT_CTRL_STAT : BitVec 8 := 0x14
def REG_VSC8512_EXT_PHY_CTRL_2 : BitVec 8 := 0x18
def REG_VSC8512_AUX_CTRL_STAT : BitVec 8 := 0x1c
def REG_VSC8512_LED_MODE : BitVec 8 := 0x1d
def VSC_CU_PMD_TX : BitVec 8 := 0x10
def VSC_MAC_PCS_CTL : BitVec 8 := 0x10
def REG_VSC_MAC_MODE : BitVec 8 := 0x13
def REG_VSC_TEMP_CONF : BitVec 8 := 0x1a
def REG_VSC_TEMP_VAL : BitVec 8 := 0x1c

def VSC_PAGE_EXT1 : BitVec 16 := 0x0001
def VSC_PAGE_EXT2 : BitVec 16 := 0x0002
def VSC_PAGE_EXT3 : BitVec 16 := 0x0003
def VSC_PAGE_TEST : BitVec 16 := 0x2a30
def VSC_PAGE_TR : BitVec 16 := 0x52b5

/-- The registers that the header lists for a page. It lists none for the test page and
the token ring page. -/
def registersOf (page : BitVec 16) : List (BitVec 8) :=
  if page = VSC_PAGE_MAIN then
    [REG_VSC8512_EXT_CTRL_STAT, REG_VSC8512_EXT_PHY_CTRL_2, REG_VSC8512_AUX_CTRL_STAT]
  else if page = VSC_PAGE_EXT1 then [REG_VSC8512_LED_MODE]
  else if page = VSC_PAGE_EXT2 then [VSC_CU_PMD_TX]
  else if page = VSC_PAGE_EXT3 then [VSC_MAC_PCS_CTL]
  else if page = VSC_PAGE_GENERAL_PURPOSE then
    [REG_VSC_GP_GLOBAL_SERDES, REG_VSC_MAC_MODE, REG_VSC_TEMP_CONF, REG_VSC_TEMP_VAL]
  else []

/-- The standard registers that the driver accesses. -/
def standardRegisters : List (BitVec 8) :=
  [REG_PHY_ID_1, REG_PHY_ID_2, REG_AN_ADVERT, REG_GIG_CONTROL]

/-- The numbers without a name that the initialization script goes by. -/
def unnamedRegisters (page : BitVec 16) : List (BitVec 8) :=
  if page = VSC_PAGE_TEST then [5, 8, 9, 20, 24] else if page = VSC_PAGE_TR then [16, 17, 18] else []

/-! ## Accesses -/

/-- An access to a register of a PHY, with the page selected then and what is written. -/
structure MDIOAccess where
  port : Nat
  page : BitVec 16
  regid : BitVec 8
  written : Option (BitVec 16)

/-- The pages selected, and the accesses so far. -/
structure MDIOBus where
  pages : Nat → BitVec 16
  log : List MDIOAccess

/-- What the library does to write some bits of a register goes to that register, with
the page that is selected, and nowhere else. -/
structure MDIODevice where
  WriteMasked : MDIOBus → Nat → BitVec 8 → BitVec 16 → BitVec 16 → MDIOBus
  writeMasked_pages : ∀ {s port regid value mask}, regid ≠ REG_VSC8512_PAGESEL →
    (WriteMasked s port regid value mask).pages = s.pages
  writeMasked_log : ∀ {s port regid value mask}, ∃ accesses,
    (WriteMasked s port regid value mask).log = s.log ++ accesses ∧
      ∀ a ∈ accesses, a.port = port ∧ a.page = s.pages port ∧ a.regid = regid

/-- What a read of a register gives after the accesses so far, how often a wait for the
8051 has to look again, and how the library gets at the chip. -/
structure Chip where
  answer : List MDIOAccess → Nat → BitVec 8 → BitVec 16
  busy : List MDIOAccess → Nat
  m_mdioDevices : MDIODevice

namespace MDIOBus

/-- All PHYs are on the main page when they come out of reset. -/
def reset : MDIOBus := ⟨fun _ => VSC_PAGE_MAIN, []⟩

def WriteRegister (s : MDIOBus) (port : Nat) (regid : BitVec 8) (value : BitVec 16) : MDIOBus where
  pages := if regid = REG_VSC8512_PAGESEL then Function.update s.pages port value else s.pages
  log := s.log ++ [⟨port, s.pages port, regid, some value⟩]

/-- The access of a read. -/
def access (s : MDIOBus) (port : Nat) (regid : BitVec 8) : MDIOBus :=
  { s with log := s.log ++ [⟨port, s.pages port, regid, none⟩] }

variable (chip : Chip)

def ReadRegister (s : MDIOBus) (port : Nat) (regid : BitVec 8) : BitVec 16 × MDIOBus :=
  (chip.answer s.log port regid, s.access port regid)

def WriteMasked (s : MDIOBus) (port : Nat) (regid : BitVec 8) (value mask : BitVec 16) : MDIOBus :=
  chip.m_mdioDevices.WriteMasked s port regid value mask

/-! ## The driver -/

def IDCheck (s : MDIOBus) : Bool × MDIOBus :=
  let (phyid1, s) := s.ReadRegister chip 0 REG_PHY_ID_1
  let (phyid2, s) := s.ReadRegister chip 0 REG_PHY_ID_2
  if phyid1 = 0x0007 ∧ phyid2 >>> 4 = 0x06e then
    if phyid2 &&& 0xf ≠ 3 then (false, s) else (true, s)
  else (false, s)

def magicTokenRingBlock : List (BitVec 16 × BitVec 16 × BitVec 16) :=
   [(0x0027, 0x303d, 0x9792), (0x00a0, 0xf147, 0x97a0), (0x0005, 0x2f54, 0x8fe4),
    (0x0004, 0x01bd, 0x8fae), (0x000f, 0x000f, 0x8fac), (0x0000, 0x0004, 0x87fe),
    (0x0006, 0x0150, 0x8fe0), (0x0012, 0x480a, 0x8f82), (0x0000, 0x0034, 0x8f80),
    (0x0000, 0x0012, 0x82e0), (0x0005, 0x0208, 0x83a2), (0x0000, 0x9186, 0x83b2),
    (0x000e, 0x3700, 0x8fb0), (0x0004, 0x9fa1, 0x9688), (0x0000, 0xffff, 0x8fd2),
    (0x0003, 0x9fa0, 0x968a), (0x0020, 0x640b, 0x9690), (0x0000, 0x2220, 0x8258),
    (0x0000, 0x2a20, 0x825a), (0x0000, 0x3060, 0x825c), (0x0000, 0x3fa0, 0x825e),
    (0x0000, 0xe0f0, 0x83a6), (0x0000, 0x4489, 0x8f92), (0x0000, 0x7000, 0x96a2),
    (0x0010, 0x2048, 0x96a6), (0x00ff, 0x0000, 0x96a0), (0x0091, 0x9880, 0x8fe8),
    (0x0004, 0xd602, 0x8fea), (0x00ef, 0xef00, 0x96b0), (0x0000, 0x7100, 0x96b2),
    (0x0000, 0x5064, 0x96b4), (0x0050, 0x100f, 0x87fa), (0x0071, 0xf6d9, 0x8488),
    (0x0000, 0x0db6, 0x848e), (0x0059, 0x6596, 0x849c), (0x0000, 0x0514, 0x849e),
    (0x0041, 0x0280, 0x84a2), (0x0000, 0x0000, 0x84a4), (0x0000, 0x0000, 0x84a6),
    (0x0000, 0x0000, 0x84a8), (0x0000, 0x0000, 0x84aa), (0x007d, 0xf7dd, 0x84ae),
    (0x006d, 0x95d4, 0x84b0), (0x0049, 0x2410, 0x84b2), (0x0068, 0x8980, 0x8f90)]

def MagicInitScript (s : MDIOBus) : Bool × MDIOBus :=
  let s := s.WriteRegister 0 REG_VSC8512_PAGESEL VSC_PAGE_MAIN
  let s := s.WriteMasked chip 0 REG_VSC8512_EXT_CTRL_STAT 0x0001 0x0001
  let s := s.WriteRegister 0 REG_VSC8512_EXT_PHY_CTRL_2 0x0040
  let s := s.WriteRegister 0 REG_VSC8512_PAGESEL VSC_PAGE_EXT2
  let s := s.WriteRegister 0 VSC_CU_PMD_TX 0x02be
  let s := s.WriteRegister 0 REG_VSC8512_PAGESEL VSC_PAGE_TEST
  let s := s.WriteRegister 0 20 0x4420
  let s := s.WriteRegister 0 24 0x0c00
  let s := s.WriteRegister 0 9 0x18c8
  let s := s.WriteMasked chip 0 8 0x8000 0x8000
  let s := s.WriteRegister 0 5 0x1320
  let s := s.WriteRegister 0 REG_VSC8512_PAGESEL VSC_PAGE_TR
  let s := magicTokenRingBlock.foldl (fun s row =>
    ((s.WriteRegister 0 18 row.1).WriteRegister 0 17 row.2.1).WriteRegister 0 16 row.2.2) s
  let s := s.WriteRegister 0 REG_VSC8512_PAGESEL VSC_PAGE_TEST
  let s := s.WriteMasked chip 0 8 0x0000 0x8000
  let s := s.WriteRegister 0 REG_VSC8512_PAGESEL VSC_PAGE_MAIN
  (true, s.WriteMasked chip 0 REG_VSC8512_EXT_CTRL_STAT 0x0000 0x0001)

/-- The LED mode is written on the main page. -/
def DefaultPortInit (s : MDIOBus) (port : Nat) : Bool × MDIOBus :=
  let s := s.WriteRegister port REG_VSC8512_PAGESEL VSC_PAGE_EXT2
  let s := s.WriteRegister port VSC_CU_PMD_TX 0x02be
  let s := s.WriteRegister port REG_VSC8512_PAGESEL VSC_PAGE_EXT3
  let s := s.WriteRegister port VSC_MAC_PCS_CTL 0x4180
  let s := s.WriteRegister port REG_VSC8512_PAGESEL VSC_PAGE_MAIN
  let s := s.WriteRegister port REG_GIG_CONTROL 0x600
  let s := s.WriteRegister port REG_AN_ADVERT 0x141
  let s := s.WriteRegister port REG_VSC8512_PAGESEL VSC_PAGE_MAIN
  (true, s.WriteRegister port REG_VSC8512_LED_MODE 0x80e0)

def SelectMainPage (s : MDIOBus) : MDIOBus := s.WriteRegister 0 REG_VSC8512_PAGESEL VSC_PAGE_MAIN

/-- The 8051 is looked at until it is not busy any more. -/
def WaitForMCU (s : MDIOBus) : MDIOBus :=
  Nat.repeat (fun s => s.access 0 REG_VSC_GP_GLOBAL_SERDES) (chip.busy s.log + 1) s

def PrepareForMCUAccess (s : MDIOBus) : MDIOBus :=
  (s.WriteRegister 0 REG_VSC8512_PAGESEL VSC_PAGE_GENERAL_PURPOSE).WaitForMCU chip

def SendCommandToMCU (s : MDIOBus) (cmd : BitVec 16) : MDIOBus :=
  (s.WriteRegister 0 REG_VSC_GP_GLOBAL_SERDES (cmd ||| 0x8000)).WaitForMCU chip

def ReadMCBToShadowRegisters (s : MDIOBus) (mcbBusIndex serdesIndex : BitVec 8) : MDIOBus :=
  s.SendCommandToMCU chip ((serdesIndex.setWidth 16 <<< 8) ||| (mcbBusIndex.setWidth 16 <<< 4) ||| 0x3)

def PushShadowRegistersToMCB (s : MDIOBus) : MDIOBus := s.SendCommandToMCU chip 0x9cc0

def SetIndirectAccessPointer (s : MDIOBus) (ptr : BitVec 16) : MDIOBus :=
  let ptr := if ptr &&& 0x4000 ≠ 0 then ptr ||| 0x1000 else ptr
  s.SendCommandToMCU chip (0x4000 ||| ptr)

def MCUPeekByte (s : MDIOBus) (postIncrement : Bool) : BitVec 8 × MDIOBus :=
  let s := if postIncrement then s.SendCommandToMCU chip 0x1007 else s.SendCommandToMCU chip 0x0007
  let (reg, s) := s.ReadRegister chip 0 REG_VSC_GP_GLOBAL_SERDES
  let ret : BitVec 8 := reg.setWidth 8
  ((ret >>> 4) &&& 0xff, s)

def MCUPokeByte (s : MDIOBus) (bval : BitVec 8) (postIncrement : Bool) : MDIOBus :=
  let cmd : BitVec 16 := if postIncrement then 0x6 ||| 0x1000 else 0x6
  s.SendCommandToMCU chip (cmd ||| (bval.setWidth 16 <<< 4))

def SelectQSGMIIToBaseTMode (s : MDIOBus) : Bool × MDIOBus :=
  let s := s.PrepareForMCUAccess chip
  let s := s.SendCommandToMCU chip 0x80a0
  (true, s.WriteMasked chip 0 REG_VSC_MAC_MODE 0x0000 0xc000)

def SetSerdes6GPostCursor0Tap (s : MDIOBus) (tap : BitVec 8) : MDIOBus :=
  let s := s.PrepareForMCUAccess chip
  let s := s.ReadMCBToShadowRegisters chip 1 1
  let s := s.SetIndirectAccessPointer chip 0x47d8
  let (tmp, s) := s.MCUPeekByte chip false
  let s := s.MCUPokeByte chip ((tmp &&& 0x1f) ||| ((tap &&& 7) <<< 5)) true
  let (tmp, s) := s.MCUPeekByte chip false
  let s := s.MCUPokeByte chip ((tmp &&& 0xf8) ||| ((tap >>> 3) &&& 7)) false
  let s := s.SetIndirectAccessPointer chip 0x47ce
  let s := s.MCUPokeByte chip 0x0e false
  let s := s.PushShadowRegistersToMCB chip
  s.SelectMainPage

/-- In 8.8 fixed point. -/
def GetTemperature (s : MDIOBus) : BitVec 16 × MDIOBus :=
  let s := s.WriteRegister 0 REG_VSC8512_PAGESEL VSC_PAGE_GENERAL_PURPOSE
  let s := s.WriteMasked chip 0 REG_VSC_TEMP_CONF 0x00 0x40
  let s := s.WriteMasked chip 0 REG_VSC_TEMP_CONF 0x40 0x40
  let (val, s) := s.ReadRegister chip 0 REG_VSC_TEMP_VAL
  let tempadc := val &&& 0xff
  (34636 - 183 * tempadc, s.SelectMainPage)

def InitTempSensor (s : MDIOBus) : Bool × MDIOBus :=
  let s := s.WriteRegister 0 REG_VSC8512_PAGESEL VSC_PAGE_GENERAL_PURPOSE
  let s := s.WriteMasked chip 0 REG_VSC_TEMP_CONF 0xc0 0xc0
  (true, (s.GetTemperature chip).2)

def PortHealthCheck (s : MDIOBus) (port : Nat) : Bool × MDIOBus :=
  let s := s.SelectMainPage
  let (xphyid1, s) := s.ReadRegister chip port REG_PHY_ID_1
  let (xphyid2, s) := s.ReadRegister chip port REG_PHY_ID_2
  if xphyid1 ≠ 0x0007 ∨ xphyid2 >>> 4 ≠ 0x06e then (false, s) else (true, s)

/-- A loop over the ports, left by the first that fails. -/
def forPorts (f : MDIOBus → Nat → Bool × MDIOBus) : List Nat → MDIOBus → Bool × MDIOBus
  | [], s => (true, s)
  | port :: ports, s =>
    match f s port with
    | (false, s) => (false, s)
    | (true, s) => forPorts f ports s

def Init (s : MDIOBus) : Bool × MDIOBus :=
  match s.IDCheck chip with
  | (false, s) => (false, s)
  | (true, s) =>
    match s.MagicInitScript chip with
    | (false, s) => (false, s)
    | (true, s) =>
      match s.SelectQSGMIIToBaseTMode chip with
      | (false, s) => (false, s)
      | (true, s) =>
        match forPorts DefaultPortInit (List.range 12) s with
        | (false, s) => (false, s)
        | (true, s) =>
          let s := (s.InitTempSensor chip).2
          match forPorts (PortHealthCheck chip) (List.range 12) s with
          | (false, s) => (false, s)
          | (true, s) => (true, s.SelectMainPage)

end MDIOBus

end EmbeddedPlatform.Drivers
