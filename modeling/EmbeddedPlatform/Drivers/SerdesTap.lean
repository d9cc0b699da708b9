import Mathlib.Tactic.IntervalCases
import EmbeddedPlatform.Drivers.VSC8512

/-! # Reading back from the microcontroller

`MCUPeekByte` keeps the lower half of the register that holds the byte in its bits
11 to 4, so that of the byte only the lower digit is returned. The tap of the
SERDES is set by a read-modify-write that takes the byte from there. -/
namespace EmbeddedPlatform.Drivers
open EmbeddedPlatform.Lib

/-! ## Commands -/

/-- Where a pointer leads. -/
def address (ptr : BitVec 16) : BitVec 14 :=
  (if ptr &&& 0x4000 ≠ 0 then ptr ||| 0x1000 else ptr).setWidth 14

/-- The byte read from the command register. -/
theorem peeked_byte {reg : BitVec 16} {b : BitVec 8} (h : reg.extractLsb' 4 8 = b) :
    (reg.setWidth 8 >>> 4) &&& 0xff#8 = b &&& 0x0f := by
  subst h
  ext i hi
  interval_cases i <;> simp

/-- The command that pokes a byte. -/
theorem poke_fields (b : BitVec 8) (postIncrement : Bool) :
    let cmd := (((if postIncrement then 0x6 ||| 0x1000 else 0x6 : BitVec 16) |||
      (b.setWidth 16 <<< 4)) ||| 0x8000)
    cmd.getLsbD 14 = false ∧ cmd.extractLsb' 0 4 = 6#4 ∧ cmd.extractLsb' 4 8 = b ∧
      cmd.getLsbD 12 = postIncrement := by
  refine ⟨?_, ?_, ?_, ?_⟩
  · cases postIncrement <;> simp
  · ext i hi
    cases postIncrement <;> interval_cases i <;> simp
  · ext i hi
    cases postIncrement <;> interval_cases i <;> simp
  · cases postIncrement <;> simp

theorem pointer_fields (p : BitVec 16) :
    ((0x4000 ||| p) ||| 0x8000 : BitVec 16).getLsbD 14 = true ∧
      ((0x4000 ||| p) ||| 0x8000 : BitVec 16).setWidth 14 = p.setWidth 14 := by
  constructor
  · simp
  · ext i hi
    interval_cases i <;> simp

/-- The 8051 is selected, and has this memory and this pointer. -/
structure Shows (s : VSC8512) (memory : BitVec 14 → BitVec 8) (pointer : BitVec 14) : Prop where
  page : s.page = VSC_PAGE_GENERAL_PURPOSE
  memory : s.mcu.memory = memory
  pointer : s.mcu.pointer = pointer

section
variable (fw : Firmware) {s : VSC8512} {memory : BitVec 14 → BitVec 8} {pointer : BitVec 14}

theorem shows_prepare (s : VSC8512) :
    Shows (s.PrepareForMCUAccess fw) s.mcu.memory s.mcu.pointer := ⟨rfl, rfl, rfl⟩

theorem Shows.send (h : Shows s memory pointer) (cmd : BitVec 16) :
    s.SendCommandToMCU fw cmd = { s with mcu := fw.exec s.mcu (cmd ||| 0x8000) } := by
  have hexec : (cmd ||| 0x8000).getLsbD 15 = true := by simp
  unfold VSC8512.SendCommandToMCU VSC8512.WriteRegister
  rw [if_neg (by decide), if_pos ⟨h.page, rfl⟩, if_pos hexec]

theorem advance_memory (m : MCU) (postIncrement : Bool) :
    (m.advance postIncrement).memory = m.memory := by
  unfold MCU.advance
  split <;> rfl

theorem advance_register (m : MCU) (postIncrement : Bool) :
    (m.advance postIncrement).register = m.register := by
  unfold MCU.advance
  split <;> rfl

/-- Where the pointer goes. -/
def moved (pointer : BitVec 14) (postIncrement : Bool) : BitVec 14 :=
  if postIncrement then pointer + 1 else pointer

theorem advance_pointer (m : MCU) (postIncrement : Bool) :
    (m.advance postIncrement).pointer = moved m.pointer postIncrement := by
  unfold MCU.advance moved
  split <;> rfl

theorem Shows.setPointer (h : Shows s memory pointer) (ptr : BitVec 16) :
    Shows (s.SetIndirectAccessPointer fw ptr) memory (address ptr) := by
  obtain ⟨hset, hptr⟩ := pointer_fields (if ptr &&& 0x4000 ≠ 0 then ptr ||| 0x1000 else ptr)
  have heq : s.SetIndirectAccessPointer fw ptr = _ := h.send fw _
  rw [heq]
  refine ⟨h.page, ?_, ?_⟩
  · unfold Firmware.exec
    simp only [hset, if_true]
    exact h.memory
  · unfold Firmware.exec
    simp only [hset, if_true]
    exact hptr

/-- The command that peeks at a byte. -/
def peekCommand (postIncrement : Bool) : BitVec 16 := if postIncrement then 0x1007 else 0x0007

theorem peek_fields (postIncrement : Bool) :
    (peekCommand postIncrement ||| 0x8000).getLsbD 14 = false ∧
      (peekCommand postIncrement ||| 0x8000).extractLsb' 0 4 = 7#4 ∧
      (peekCommand postIncrement ||| 0x8000).getLsbD 12 = postIncrement := by
  cases postIncrement <;> decide

/-- The 8051 when it has replied. -/
def Firmware.replied (fw : Firmware) (m : MCU) (cmd : BitVec 16) : MCU :=
  let m := { m with register := cmd &&& 0x7fff }
  { m with register := fw.reply m }

theorem exec_peek (m : MCU) (postIncrement : Bool) :
    fw.exec m (peekCommand postIncrement ||| 0x8000) =
      (fw.replied m (peekCommand postIncrement ||| 0x8000)).advance postIncrement := by
  obtain ⟨hset, hlow, hinc⟩ := peek_fields postIncrement
  unfold Firmware.exec
  simp only [hset, hlow, hinc, if_true, if_false, Bool.false_eq_true]
  rfl

theorem Shows.peek (h : Shows s memory pointer) (postIncrement : Bool) :
    Shows (s.MCUPeekByte fw postIncrement).1 memory (moved pointer postIncrement) ∧
      (s.MCUPeekByte fw postIncrement).2 = memory pointer &&& 0x0f := by
  have hsend := h.send fw (peekCommand postIncrement)
  rw [exec_peek] at hsend
  have heq : (s.MCUPeekByte fw postIncrement).1 = s.SendCommandToMCU fw (peekCommand postIncrement) := by
    cases postIncrement <;> rfl
  have hret : (s.MCUPeekByte fw postIncrement).2 =
      ((((s.MCUPeekByte fw postIncrement).1.ReadRegister REG_VSC_GP_GLOBAL_SERDES).setWidth 8) >>> 4) &&&
        0xff := rfl
  rw [hret, heq, hsend]
  refine ⟨⟨h.page, ?_, ?_⟩, ?_⟩
  · rw [advance_memory]
    exact h.memory
  · rw [advance_pointer]
    exact congrArg (moved · postIncrement) h.pointer
  · unfold VSC8512.ReadRegister
    rw [if_neg (by decide), if_pos ⟨h.page, rfl⟩, advance_register]
    refine peeked_byte ((fw.reply_byte _).trans ?_)
    show s.mcu.memory s.mcu.pointer = memory pointer
    rw [h.memory, h.pointer]

theorem Shows.poke (h : Shows s memory pointer) (bval : BitVec 8) (postIncrement : Bool) :
    Shows (s.MCUPokeByte fw bval postIncrement) (Function.update memory pointer bval)
      (moved pointer postIncrement) := by
  obtain ⟨hset, hlow, hbyte, hinc⟩ := poke_fields bval postIncrement
  have heq : s.MCUPokeByte fw bval postIncrement = _ := h.send fw _
  have hnotPeek : ¬ 6#4 = 7#4 := by decide
  rw [heq]
  refine ⟨h.page, ?_, ?_⟩
  · unfold Firmware.exec
    simp only [hset, hlow, hbyte, hinc, hnotPeek, if_false, if_true, Bool.false_eq_true]
    rw [advance_memory, ← h.memory, ← h.pointer]
  · unfold Firmware.exec
    simp only [hset, hlow, hbyte, hinc, hnotPeek, if_false, if_true, Bool.false_eq_true]
    rw [advance_pointer, ← h.pointer]

theorem Shows.readMCB (h : Shows s memory pointer) :
    Shows (s.ReadMCBToShadowRegisters fw 1 1) (fw.readMCB 0x8113 memory) pointer := by
  have heq : s.ReadMCBToShadowRegisters fw 1 1 = _ := h.send fw _
  rw [heq]
  refine ⟨h.page, ?_, h.pointer⟩
  show fw.readMCB 0x8113 s.mcu.memory = _
  rw [h.memory]

theorem Shows.push (h : Shows s memory pointer) :
    Shows (s.PushShadowRegistersToMCB fw) memory pointer := by
  have heq : s.PushShadowRegistersToMCB fw = _ := h.send fw _
  rw [heq]
  exact ⟨h.page, h.memory, h.pointer⟩

end

/-! ## Reading back what was written -/

/-- Accesses to the memory of the 8051. -/
inductive Access where
  | SetIndirectAccessPointer (ptr : BitVec 16)
  | MCUPeekByte (postIncrement : Bool)
  | MCUPokeByte (bval : BitVec 8) (postIncrement : Bool)

def VSC8512.access (fw : Firmware) (s : VSC8512) : Access → VSC8512
  | .SetIndirectAccessPointer ptr => s.SetIndirectAccessPointer fw ptr
  | .MCUPeekByte postIncrement => (s.MCUPeekByte fw postIncrement).1
  | .MCUPokeByte bval postIncrement => s.MCUPokeByte fw bval postIncrement

/-- The access does not write to this address. -/
def Elsewhere (addr : BitVec 14) (s : VSC8512) : Access → Prop
  | .MCUPokeByte _ _ => s.mcu.pointer ≠ addr
  | _ => True

/-- The byte stays there until it is written again. -/
theorem Shows.accesses {fw : Firmware} {addr : BitVec 14} {b : BitVec 8} {accesses : List Access}
    {s : VSC8512} {memory : BitVec 14 → BitVec 8} {pointer : BitVec 14}
    (h : Shows s memory pointer) (hb : memory addr = b)
    (hc : Complies (VSC8512.access fw) (Elsewhere addr) s accesses) :
    ∃ memory' pointer', Shows (replay (VSC8512.access fw) s accesses) memory' pointer' ∧
      memory' addr = b := by
  induction accesses generalizing s memory pointer with
  | nil => exact ⟨memory, pointer, h, hb⟩
  | cons a accesses ih =>
    obtain ⟨ha, hc⟩ := hc
    cases a with
    | SetIndirectAccessPointer ptr => exact ih (h.setPointer fw ptr) hb hc
    | MCUPeekByte postIncrement => exact ih (h.peek fw postIncrement).1 hb hc
    | MCUPokeByte bval postIncrement =>
      have hne : addr ≠ pointer := fun he => ha (h.pointer.trans he.symm)
      exact ih (h.poke fw bval postIncrement) ((Function.update_of_ne hne _ _).trans hb) hc

theorem upper_digit_iff (b : BitVec 8) : b.extractLsb' 4 4 = 0#4 ↔
    b[4] = false ∧ b[5] = false ∧ b[6] = false ∧ b[7] = false := by
  constructor
  · intro h
    have hbit : ∀ i (hi : i < 4), b[4 + i] = false := by
      intro i hi
      have hi' := congrArg (BitVec.getLsbD · i) h
      rw [← BitVec.getLsbD_eq_getElem]
      simpa [hi] using hi'
    exact ⟨hbit 0 (by decide), hbit 1 (by decide), hbit 2 (by decide), hbit 3 (by decide)⟩
  · rintro ⟨h4, h5, h6, h7⟩
    ext i hi
    interval_cases i <;> simp [h4, h5, h6, h7]

/-- A byte is what is left of it when its upper digit is 0. -/
theorem low_digit_iff (b : BitVec 8) : b &&& 0x0f = b ↔ b.extractLsb' 4 4 = 0#4 := by
  constructor
  · intro h
    rw [← h]
    ext i hi
    interval_cases i <;> simp
  · intro h
    obtain ⟨h4, h5, h6, h7⟩ := (upper_digit_iff b).mp h
    ext i hi
    interval_cases i <;> simp [h4, h5, h6, h7]

/-! ## The tap -/

/-- cfg_buf[9], cfg_buf[10] and addr_vec. -/
def cfgBuf9 : BitVec 14 := address 0x47d8
def cfgBuf10 : BitVec 14 := cfgBuf9 + 1
def addrVec : BitVec 14 := address 0x47ce

theorem cfgBuf10_ne : cfgBuf10 ≠ cfgBuf9 := by decide
theorem addrVec_ne : addrVec ≠ cfgBuf9 ∧ addrVec ≠ cfgBuf10 := by decide

/-- The byte with the low bits of the tap in it. -/
def withLowBits (tap tmp : BitVec 8) : BitVec 8 := (tmp &&& 0x1f) ||| ((tap &&& 7) <<< 5)

/-- The byte with the high bits of the tap in it. -/
def withHighBits (tap tmp : BitVec 8) : BitVec 8 := (tmp &&& 0xf8) ||| ((tap >>> 3) &&& 7)

/-- The memory `t` is the memory `m` with the six bits of the tap put in their places
and the bitmask of the lanes in `addr_vec`. -/
structure TapWritten (m t : BitVec 14 → BitVec 8) (tap : BitVec 8) : Prop where
  low : (t cfgBuf9).extractLsb' 5 3 = tap.extractLsb' 0 3
  lowRest : (t cfgBuf9).extractLsb' 0 5 = (m cfgBuf9).extractLsb' 0 5
  high : (t cfgBuf10).extractLsb' 0 3 = tap.extractLsb' 3 3
  highRest : (t cfgBuf10).extractLsb' 3 5 = (m cfgBuf10).extractLsb' 3 5
  addrVec : t addrVec = 0x0e
  others : ∀ a, a ≠ cfgBuf9 → a ≠ cfgBuf10 → a ≠ Drivers.addrVec → t a = m a

/-- A byte is read and what `f` makes of it is written in its place. -/
def modified (fw : Firmware) (s : VSC8512) (f : BitVec 8 → BitVec 8) (postIncrement : Bool) :
    VSC8512 :=
  (s.MCUPeekByte fw false).1.MCUPokeByte fw (f (s.MCUPeekByte fw false).2) postIncrement

theorem Shows.modify {s : VSC8512} {memory : BitVec 14 → BitVec 8} {pointer : BitVec 14}
    (h : Shows s memory pointer) (fw : Firmware) (f : BitVec 8 → BitVec 8) (postIncrement : Bool) :
    Shows (modified fw s f postIncrement)
      (Function.update memory pointer (f (memory pointer &&& 0x0f)))
      (moved pointer postIncrement) := by
  obtain ⟨hpeek, hbyte⟩ := h.peek fw false
  have hpoke := hpeek.poke fw (f (s.MCUPeekByte fw false).2) postIncrement
  rw [hbyte] at hpoke
  unfold modified
  rw [hbyte]
  exact hpoke

theorem setTap_eq (fw : Firmware) (s : VSC8512) (tap : BitVec 8) :
    s.SetSerdes6GPostCursor0Tap fw tap =
      let s := ((s.PrepareForMCUAccess fw).ReadMCBToShadowRegisters fw 1 1).SetIndirectAccessPointer
        fw 0x47d8
      let s := modified fw (modified fw s (withLowBits tap) true) (withHighBits tap) false
      (((s.SetIndirectAccessPointer fw 0x47ce).MCUPokeByte fw 0x0e false).PushShadowRegistersToMCB
        fw).SelectMainPage fw := rfl

theorem selectMainPage_mcu (fw : Firmware) (s : VSC8512) : (s.SelectMainPage fw).mcu = s.mcu := rfl

theorem setTap_memory (fw : Firmware) (s : VSC8512) (tap : BitVec 8) :
    let m := fw.readMCB 0x8113 s.mcu.memory
    (s.SetSerdes6GPostCursor0Tap fw tap).mcu.memory =
      Function.update (Function.update (Function.update m cfgBuf9
        (withLowBits tap (m cfgBuf9 &&& 0x0f))) cfgBuf10 (withHighBits tap (m cfgBuf10 &&& 0x0f)))
          addrVec 0x0e := by
  intro m
  have hstart : Shows _ m cfgBuf9 := ((shows_prepare fw s).readMCB fw).setPointer fw 0x47d8
  have hlow := hstart.modify fw (withLowBits tap) true
  have hhigh := hlow.modify fw (withHighBits tap) false
  have hbyte : Function.update m cfgBuf9 (withLowBits tap (m cfgBuf9 &&& 0x0f)) cfgBuf10 =
      m cfgBuf10 := Function.update_of_ne cfgBuf10_ne ..
  have hmoved : moved cfgBuf9 true = cfgBuf10 := rfl
  rw [hmoved, hbyte] at hhigh
  have hend := ((hhigh.setPointer fw 0x47ce).poke fw 0x0e false).push fw
  rw [setTap_eq, selectMainPage_mcu]
  exact hend.memory

theorem withLowBits_tap (tap tmp : BitVec 8) :
    (withLowBits tap tmp).extractLsb' 5 3 = tap.extractLsb' 0 3 := by
  unfold withLowBits
  ext i hi
  interval_cases i <;> simp

theorem withHighBits_tap (tap tmp : BitVec 8) :
    (withHighBits tap tmp).extractLsb' 0 3 = tap.extractLsb' 3 3 := by
  unfold withHighBits
  ext i hi
  interval_cases i <;> simp

theorem withLowBits_rest_iff (tap byte : BitVec 8) :
    (withLowBits tap (byte &&& 0x0f)).extractLsb' 0 5 = byte.extractLsb' 0 5 ↔ byte[4] = false := by
  unfold withLowBits
  constructor
  · intro h
    have h4 := congrArg (BitVec.getLsbD · 4) h
    simpa using h4.symm
  · intro h
    ext i hi
    interval_cases i <;> simp [h]

theorem withHighBits_rest_iff (tap byte : BitVec 8) :
    (withHighBits tap (byte &&& 0x0f)).extractLsb' 3 5 = byte.extractLsb' 3 5 ↔ byte.extractLsb' 4 4 = 0#4 := by
  unfold withHighBits
  rw [upper_digit_iff]
  constructor
  · intro h
    have hbit : ∀ i, 1 ≤ i → (hi : i < 5) → byte[3 + i] = false := by
      intro i h1 hi
      have hi' := congrArg (BitVec.getLsbD · i) h
      interval_cases i <;> simpa using hi'.symm
    exact ⟨hbit 1 (by decide) (by decide), hbit 2 (by decide) (by decide),
      hbit 3 (by decide) (by decide), hbit 4 (by decide) (by decide)⟩
  · rintro ⟨h4, h5, h6, h7⟩
    ext i hi
    interval_cases i <;> simp [h4, h5, h6, h7]

/-- The tap is written as it should be when the bits that are not read were 0. -/
theorem tapWritten_iff (fw : Firmware) (s : VSC8512) (tap : BitVec 8) :
    let m := fw.readMCB 0x8113 s.mcu.memory
    TapWritten m (s.SetSerdes6GPostCursor0Tap fw tap).mcu.memory tap ↔
      (m cfgBuf9)[4] = false ∧ (m cfgBuf10).extractLsb' 4 4 = 0#4 := by
  intro m
  rw [setTap_memory]
  have h9 : ∀ x y z, Function.update (Function.update (Function.update m cfgBuf9 x) cfgBuf10 y)
      addrVec z cfgBuf9 = x := by
    intro x y z
    rw [Function.update_of_ne addrVec_ne.1.symm, Function.update_of_ne cfgBuf10_ne.symm,
      Function.update_self]
  have h10 : ∀ x y z, Function.update (Function.update (Function.update m cfgBuf9 x) cfgBuf10 y)
      addrVec z cfgBuf10 = y := by
    intro x y z
    rw [Function.update_of_ne addrVec_ne.2.symm, Function.update_self]
  constructor
  · intro h
    have hlow := h.lowRest
    have hhigh := h.highRest
    rw [h9] at hlow
    rw [h10] at hhigh
    exact ⟨(withLowBits_rest_iff tap _).mp hlow, (withHighBits_rest_iff tap _).mp hhigh⟩
  · rintro ⟨hlow, hhigh⟩
    refine ⟨?_, ?_, ?_, ?_, Function.update_self .., fun a ha9 ha10 hav => ?_⟩
    · rw [h9]
      exact withLowBits_tap tap _
    · rw [h9]
      exact (withLowBits_rest_iff tap _).mpr hlow
    · rw [h10]
      exact withHighBits_tap tap _
    · rw [h10]
      exact (withHighBits_rest_iff tap _).mpr hhigh
    · rw [Function.update_of_ne hav, Function.update_of_ne ha10, Function.update_of_ne ha9]

/-- **Access to the 8051.** A byte is read as it is, and as it was written, exactly
when its upper digit is 0; the tap is put in its place, with nothing else changed,
exactly when bit 4 of the first byte and the upper digit of the second were 0. -/
theorem mcu_access_iff (fw : Firmware) (s : VSC8512) :
    (∀ postIncrement,
      ((s.PrepareForMCUAccess fw).MCUPeekByte fw postIncrement).2 = s.mcu.memory s.mcu.pointer ↔
        (s.mcu.memory s.mcu.pointer).extractLsb' 4 4 = 0#4) ∧
    (∀ ptr bval postIncrement accesses postIncrement',
      let t := ((s.PrepareForMCUAccess fw).SetIndirectAccessPointer fw ptr).MCUPokeByte fw bval
        postIncrement
      Complies (VSC8512.access fw) (Elsewhere (address ptr)) t accesses →
        ((((replay (VSC8512.access fw) t accesses).SetIndirectAccessPointer fw ptr).MCUPeekByte fw
          postIncrement').2 = bval ↔ bval.extractLsb' 4 4 = 0#4)) ∧
    ∀ tap, let m := fw.readMCB 0x8113 s.mcu.memory
      TapWritten m (s.SetSerdes6GPostCursor0Tap fw tap).mcu.memory tap ↔
        (m cfgBuf9)[4] = false ∧ (m cfgBuf10).extractLsb' 4 4 = 0#4 := by
  refine ⟨fun postIncrement => ?_, fun ptr bval postIncrement accesses postIncrement' => ?_,
    tapWritten_iff fw s⟩
  · rw [((shows_prepare fw s).peek fw postIncrement).2]
    exact low_digit_iff _
  · intro t hc
    have ht : Shows t (Function.update s.mcu.memory (address ptr) bval)
        (moved (address ptr) postIncrement) :=
      ((shows_prepare fw s).setPointer fw ptr).poke fw bval postIncrement
    obtain ⟨memory, pointer, hshows, hb⟩ := ht.accesses (Function.update_self ..) hc
    rw [((hshows.setPointer fw ptr).peek fw postIncrement').2, hb]
    exact low_digit_iff bval

/-- A reply of nothing but the byte, and shadow registers left as they are. -/
def plainFirmware : Firmware where
  reply m := (m.memory m.pointer).setWidth 16 <<< 4
  reply_byte m := by
    ext i hi
    interval_cases i <;> simp
  readMCB _ memory := memory

def filled (b : BitVec 8) : VSC8512 := ⟨VSC_PAGE_MAIN, ⟨fun _ => b, 0, 0⟩, fun _ _ => 0⟩

/-- A memory full of ones, in each of the three ways. -/
theorem mcu_access_lossy :
    ¬ (∀ (fw : Firmware) (s : VSC8512) (ptr : BitVec 16) (bval tap : BitVec 8),
      ((s.PrepareForMCUAccess fw).MCUPeekByte fw false).2 = s.mcu.memory s.mcu.pointer ∧
      (((((s.PrepareForMCUAccess fw).SetIndirectAccessPointer fw ptr).MCUPokeByte fw bval
        false).SetIndirectAccessPointer fw ptr).MCUPeekByte fw false).2 = bval ∧
      TapWritten (fw.readMCB 0x8113 s.mcu.memory) (s.SetSerdes6GPostCursor0Tap fw tap).mcu.memory
        tap) := by
  intro h
  obtain ⟨hpeek, -, -⟩ := h plainFirmware (filled 0xff) 0x47d8 0xff 0
  revert hpeek
  decide

/-- With small bytes all three go well. -/
theorem mcu_access_iff_small :
    (((((((filled 5).PrepareForMCUAccess plainFirmware).SetIndirectAccessPointer plainFirmware
      0x47d8).MCUPokeByte plainFirmware 9 false).SetIndirectAccessPointer plainFirmware
        0x47d8).MCUPeekByte plainFirmware true).2 = 9) ∧
    TapWritten (filled 5).mcu.memory
      ((filled 5).SetSerdes6GPostCursor0Tap plainFirmware 0x2a).mcu.memory 0x2a := by
  obtain ⟨-, hpoke, htap⟩ := mcu_access_iff plainFirmware (filled 5)
  refine ⟨(hpoke 0x47d8 9 false [] true trivial).mpr (by decide), (htap 0x2a).mpr ?_⟩
  exact ⟨by decide, by decide⟩

end EmbeddedPlatform.Drivers
