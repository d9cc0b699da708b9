import EmbeddedPlatform.Drivers.RegisterPages

/-! # The driver and the pages

Every function of the driver selects the pages it needs, or relies on the one before it
to have left the main page selected. So over all calls each access meets the page its
register is on, with the LED mode as the one register that the driver and its header
put on different pages. -/
namespace EmbeddedPlatform.Drivers
open EmbeddedPlatform.Lib

/-- A register that the header lists for the page or that is on all of them; on the main
page a standard one, or the LED mode where the driver has it; in the first PHY one that
has no name. -/
def expected (a : MDIOAccess) : Bool :=
  a.regid == REG_VSC8512_PAGESEL || (registersOf a.page).contains a.regid ||
    (a.page == VSC_PAGE_MAIN && (standardRegisters.contains a.regid ||
      a.regid == REG_VSC8512_LED_MODE)) ||
    (a.port == 0 && (unnamedRegisters a.page).contains a.regid)

namespace MDIOBus

def Disciplined (s : MDIOBus) : Prop := ∀ a ∈ s.log, expected a = true

/-- So far in order; one PHY has this page selected, the others have those. -/
structure Selected (s : MDIOBus) (others : Nat → BitVec 16) (port : Nat) (page : BitVec 16) : Prop where
  disciplined : s.Disciplined
  pages : s.pages = Function.update others port page

section
variable {s : MDIOBus} {others : Nat → BitVec 16} {port : Nat} {page : BitVec 16}
  (chip : Chip)

/-! ## Single accesses -/

theorem selected_self (h : s.Disciplined) (port : Nat) : Selected s s.pages port (s.pages port) :=
  ⟨h, (Function.update_eq_self port s.pages).symm⟩

theorem Selected.here (h : Selected s others port page) : s.pages port = page := by
  rw [h.pages]
  exact Function.update_self ..

theorem disciplined_snoc (h : s.Disciplined) {a : MDIOAccess} (ha : expected a = true) :
    ∀ b ∈ s.log ++ [a], expected b = true :=
  List.forall_mem_append.mpr ⟨h, List.forall_mem_singleton.mpr ha⟩

theorem Selected.select (h : Selected s others port page) (new : BitVec 16) :
    Selected (s.WriteRegister port REG_VSC8512_PAGESEL new) others port new := by
  refine ⟨disciplined_snoc h.disciplined rfl, ?_⟩
  unfold WriteRegister
  rw [if_pos rfl, h.pages]
  exact Function.update_idem ..

theorem Selected.write (h : Selected s others port page) (regid : BitVec 8)
    (hsel : regid ≠ REG_VSC8512_PAGESEL) (value : BitVec 16)
    (hreg : expected ⟨port, page, regid, some value⟩ = true) :
    Selected (s.WriteRegister port regid value) others port page := by
  refine ⟨disciplined_snoc h.disciplined ?_, ?_⟩
  · rw [h.here]
    exact hreg
  · unfold WriteRegister
    rw [if_neg hsel]
    exact h.pages

theorem Selected.access (h : Selected s others port page) (regid : BitVec 8)
    (hreg : expected ⟨port, page, regid, none⟩ = true) :
    Selected (s.access port regid) others port page := by
  refine ⟨disciplined_snoc h.disciplined ?_, h.pages⟩
  rw [h.here]
  exact hreg

theorem Selected.masked (h : Selected s others port page) (regid : BitVec 8)
    (hsel : regid ≠ REG_VSC8512_PAGESEL) (value mask : BitVec 16)
    (hreg : expected ⟨port, page, regid, none⟩ = true) :
    Selected (s.WriteMasked chip port regid value mask) others port page := by
  obtain ⟨accesses, hlog, hall⟩ := @MDIODevice.writeMasked_log chip.m_mdioDevices s port regid value
    mask
  refine ⟨fun a ha => ?_, (chip.m_mdioDevices.writeMasked_pages hsel).trans h.pages⟩
  rcases List.mem_append.mp (hlog ▸ ha) with ha | ha
  · exact h.disciplined a ha
  · obtain ⟨hport, hpage, hregid⟩ := hall a ha
    unfold expected at hreg ⊢
    rw [hport, hpage, hregid, h.here]
    exact hreg

/-! ## The 8051 -/

theorem Selected.wait (h : Selected s others 0 VSC_PAGE_GENERAL_PURPOSE) :
    Selected (s.WaitForMCU chip) others 0 VSC_PAGE_GENERAL_PURPOSE := by
  unfold WaitForMCU
  generalize chip.busy s.log + 1 = n
  induction n with
  | zero => exact h
  | succ n ih => exact ih.access _ rfl

theorem Selected.prepare (h : Selected s others 0 page) :
    Selected (s.PrepareForMCUAccess chip) others 0 VSC_PAGE_GENERAL_PURPOSE :=
  (h.select VSC_PAGE_GENERAL_PURPOSE).wait chip

theorem Selected.send (h : Selected s others 0 VSC_PAGE_GENERAL_PURPOSE) (cmd : BitVec 16) :
    Selected (s.SendCommandToMCU chip cmd) others 0 VSC_PAGE_GENERAL_PURPOSE :=
  (h.write _ (by decide) _ rfl).wait chip

theorem Selected.point (h : Selected s others 0 VSC_PAGE_GENERAL_PURPOSE) (ptr : BitVec 16) :
    Selected (s.SetIndirectAccessPointer chip ptr) others 0 VSC_PAGE_GENERAL_PURPOSE :=
  h.send chip _

theorem Selected.poke (h : Selected s others 0 VSC_PAGE_GENERAL_PURPOSE) (bval : BitVec 8)
    (postIncrement : Bool) :
    Selected (s.MCUPokeByte chip bval postIncrement) others 0 VSC_PAGE_GENERAL_PURPOSE :=
  h.send chip _

theorem Selected.peek (h : Selected s others 0 VSC_PAGE_GENERAL_PURPOSE) (postIncrement : Bool) :
    Selected (s.MCUPeekByte chip postIncrement).2 others 0 VSC_PAGE_GENERAL_PURPOSE := by
  cases postIncrement with
  | false => exact (h.send chip 0x0007).access _ rfl
  | true => exact (h.send chip 0x1007).access _ rfl

/-! ## The functions -/

theorem idCheck_selected (h : Selected s others 0 VSC_PAGE_MAIN) :
    Selected (s.IDCheck chip).2 others 0 VSC_PAGE_MAIN := by
  have hread := (h.access REG_PHY_ID_1 rfl).access REG_PHY_ID_2 rfl
  unfold IDCheck
  dsimp only
  split
  · split
    · exact hread
    · exact hread
  · exact hread

/-- The rows all go to the token ring page. -/
theorem tokenRing_selected (rows : List (BitVec 16 × BitVec 16 × BitVec 16))
    (h : Selected s others 0 VSC_PAGE_TR) :
    Selected (rows.foldl (fun s row =>
      ((s.WriteRegister 0 18 row.1).WriteRegister 0 17 row.2.1).WriteRegister 0 16 row.2.2) s)
      others 0 VSC_PAGE_TR := by
  induction rows generalizing s with
  | nil => exact h
  | cons row rows ih =>
    have h18 := h.write 18 (by decide) row.1 rfl
    have h17 := h18.write 17 (by decide) row.2.1 rfl
    exact ih (h17.write _ (by decide) row.2.2 rfl)

theorem magicInitScript_selected (h : Selected s others 0 page) :
    Selected (s.MagicInitScript chip).2 others 0 VSC_PAGE_MAIN := by
  have hmain := (h.select VSC_PAGE_MAIN).masked chip REG_VSC8512_EXT_CTRL_STAT
    (by decide) 0x0001 0x0001 rfl
  have hedge := hmain.write REG_VSC8512_EXT_PHY_CTRL_2 (by decide) 0x0040 rfl
  have htrim := (hedge.select VSC_PAGE_EXT2).write VSC_CU_PMD_TX (by decide) 0x02be rfl
  have h20 := (htrim.select VSC_PAGE_TEST).write 20 (by decide) 0x4420 rfl
  have h24 := h20.write 24 (by decide) 0x0c00 rfl
  have h9 := h24.write 9 (by decide) 0x18c8 rfl
  have h8 := h9.masked chip 8 (by decide) 0x8000 0x8000 rfl
  have h5 := h8.write 5 (by decide) 0x1320 rfl
  have hring := tokenRing_selected magicTokenRingBlock (h5.select VSC_PAGE_TR)
  have htest := (hring.select VSC_PAGE_TEST).masked chip 8 (by decide) 0x0000 0x8000 rfl
  exact (htest.select VSC_PAGE_MAIN).masked chip _ (by decide) 0x0000 0x0001 rfl

theorem selectQSGMII_selected (h : Selected s others 0 page) :
    Selected (s.SelectQSGMIIToBaseTMode chip).2 others 0 VSC_PAGE_GENERAL_PURPOSE :=
  ((h.prepare chip).send chip 0x80a0).masked chip _ (by decide) _ _ rfl

/-- The LED mode is the last write. -/
theorem defaultPortInit_selected (h : Selected s others port page) :
    Selected (s.DefaultPortInit port).2 others port VSC_PAGE_MAIN := by
  have htrim := (h.select VSC_PAGE_EXT2).write VSC_CU_PMD_TX (by decide) 0x02be rfl
  have hmac := (htrim.select VSC_PAGE_EXT3).write VSC_MAC_PCS_CTL (by decide) 0x4180 rfl
  have hgig := (hmac.select VSC_PAGE_MAIN).write REG_GIG_CONTROL (by decide) 0x600 rfl
  have hadvert := hgig.write REG_AN_ADVERT (by decide) 0x141 rfl
  exact (hadvert.select VSC_PAGE_MAIN).write _ (by decide) 0x80e0 rfl

theorem getTemperature_selected (h : Selected s others 0 page) :
    Selected (s.GetTemperature chip).2 others 0 VSC_PAGE_MAIN := by
  have hstop := (h.select VSC_PAGE_GENERAL_PURPOSE).masked chip REG_VSC_TEMP_CONF
    (by decide) 0x00 0x40 rfl
  have hstart := hstop.masked chip REG_VSC_TEMP_CONF (by decide) 0x40 0x40 rfl
  exact (hstart.access REG_VSC_TEMP_VAL rfl).select VSC_PAGE_MAIN

theorem initTempSensor_selected (h : Selected s others 0 page) :
    Selected (s.InitTempSensor chip).2 others 0 VSC_PAGE_MAIN :=
  getTemperature_selected chip
    ((h.select VSC_PAGE_GENERAL_PURPOSE).masked chip _ (by decide) 0xc0 0xc0 rfl)

theorem setTap_selected (h : Selected s others 0 page) (tap : BitVec 8) :
    Selected (s.SetSerdes6GPostCursor0Tap chip tap) others 0 VSC_PAGE_MAIN := by
  have hread : Selected ((s.PrepareForMCUAccess chip).ReadMCBToShadowRegisters chip 1 1) others 0
      VSC_PAGE_GENERAL_PURPOSE := (h.prepare chip).send chip _
  have hlow := fun b => ((hread.point chip 0x47d8).peek chip false).poke chip b true
  have hhigh := fun a b => ((hlow a).peek chip false).poke chip b false
  have hmask := fun a b => ((hhigh a b).point chip 0x47ce).poke chip 0x0e false
  exact ((hmask _ _).send chip 0x9cc0).select VSC_PAGE_MAIN

end

/-! ## Between the calls -/

/-- In order, and all PHYs on the main page. -/
structure AtRest (s : MDIOBus) : Prop where
  disciplined : s.Disciplined
  main : ∀ port, s.pages port = VSC_PAGE_MAIN

section
variable {s t : MDIOBus} {chip : Chip}

theorem AtRest.selected (h : AtRest s) (port : Nat) : Selected s s.pages port VSC_PAGE_MAIN := by
  have hself := selected_self h.disciplined port
  rwa [h.main port] at hself

/-- Back on the main page. -/
theorem Selected.atRest {others : Nat → BitVec 16} {port : Nat}
    (h : Selected s others port VSC_PAGE_MAIN)
    (hothers : ∀ q, q ≠ port → others q = VSC_PAGE_MAIN) : AtRest s := by
  refine ⟨h.disciplined, fun q => ?_⟩
  rw [h.pages]
  by_cases hq : q = port
  · rw [hq]
    exact Function.update_self ..
  · rw [Function.update_of_ne hq]
    exact hothers q hq

theorem AtRest.of_selected (h : AtRest s) {port : Nat} (ht : Selected t s.pages port VSC_PAGE_MAIN) :
    AtRest t := ht.atRest fun q _ => h.main q

/-- The loop brings every port of it to the main page. -/
theorem forPorts_default (ports : List Nat) (h : s.Disciplined)
    (hmain : ∀ port, port ∈ ports ∨ s.pages port = VSC_PAGE_MAIN) :
    (forPorts DefaultPortInit ports s).1 = true ∧ AtRest (forPorts DefaultPortInit ports s).2 := by
  induction ports generalizing s with
  | nil => exact ⟨rfl, h, fun port => (hmain port).resolve_left List.not_mem_nil⟩
  | cons port ports ih =>
    have hport := defaultPortInit_selected (selected_self h port)
    refine ih hport.disciplined fun q => ?_
    by_cases hq : q = port
    · exact .inr (by rw [hq]; exact hport.here)
    · refine (hmain q).imp (fun hmem => (List.mem_cons.mp hmem).resolve_left hq) fun hrest => ?_
      show (s.DefaultPortInit port).2.pages q = _
      rw [hport.pages, Function.update_of_ne hq]
      exact hrest

theorem portHealthCheck_atRest (chip : Chip) (h : AtRest s) (port : Nat) :
    AtRest (s.PortHealthCheck chip port).2 := by
  have hmain := h.of_selected ((h.selected 0).select VSC_PAGE_MAIN)
  have hread := ((hmain.selected port).access REG_PHY_ID_1 rfl).access
    REG_PHY_ID_2 rfl
  have hrest := hmain.of_selected hread
  unfold PortHealthCheck
  dsimp only
  split
  · exact hrest
  · exact hrest

theorem forPorts_health (chip : Chip) (ports : List Nat) (h : AtRest s) :
    AtRest (forPorts (PortHealthCheck chip) ports s).2 := by
  induction ports generalizing s with
  | nil => exact h
  | cons port ports ih =>
    have hport := portHealthCheck_atRest chip h port
    unfold forPorts
    split
    · rename_i heq
      rwa [heq] at hport
    · rename_i heq
      rw [heq] at hport
      exact ih hport

theorem init_atRest (h : AtRest s) : AtRest (s.Init chip).2 := by
  have hid := h.of_selected (idCheck_selected chip (h.selected 0))
  unfold Init
  split
  case h_1 heq => rwa [heq] at hid
  case h_2 s₁ heq =>
    rw [heq] at hid
    have hscript := hid.of_selected (magicInitScript_selected chip (hid.selected 0))
    split
    case h_1 heq => rwa [heq] at hscript
    case h_2 s₂ heq =>
      rw [heq] at hscript
      have hmode := selectQSGMII_selected chip (hscript.selected 0)
      split
      case h_1 heq => exact absurd (congrArg Prod.fst heq).symm Bool.false_ne_true
      case h_2 s₃ heq =>
        rw [heq] at hmode
        obtain ⟨htrue, hports⟩ := forPorts_default (List.range 12) hmode.disciplined
          fun q => by
            by_cases hq : q = 0
            · exact .inl (by rw [hq]; decide)
            · refine .inr ?_
              rw [hmode.pages, Function.update_of_ne hq]
              exact hscript.main q
        split
        case h_1 heq => rwa [heq] at hports
        case h_2 s₄ heq =>
          rw [heq] at hports
          have htemp := hports.of_selected (initTempSensor_selected chip (hports.selected 0))
          have hhealth := forPorts_health chip (List.range 12) htemp
          dsimp only
          split
          case h_1 heq => rwa [heq] at hhealth
          case h_2 s₅ heq =>
            rw [heq] at hhealth
            exact hhealth.of_selected ((hhealth.selected 0).select VSC_PAGE_MAIN)

/-! ## Calls in any order -/

/-- The public functions. -/
inductive PHYCall where
  | Init
  | GetTemperature
  | SetSerdes6GPostCursor0Tap (tap : BitVec 8)

/-- What they return. -/
inductive PHYReturn where
  | initialized (ok : Bool)
  | temperature (value : BitVec 16)

def phyStep (chip : Chip) (s : MDIOBus) : PHYCall → Except Empty (MDIOBus × List PHYReturn)
  | .Init => .ok ((s.Init chip).2, [.initialized (s.Init chip).1])
  | .GetTemperature => .ok ((s.GetTemperature chip).2, [.temperature (s.GetTemperature chip).1])
  | .SetSerdes6GPostCursor0Tap tap => .ok (s.SetSerdes6GPostCursor0Tap chip tap, [])

/-- What a reading of the ADC stands for, as the caller takes what is returned. Above 128
degrees there is no room for it. -/
def Converts (reading value : BitVec 16) : Prop :=
  let tempadc := reading.toNat % 256
  value.toInt = 34636 - 183 * tempadc - if tempadc < 11 then 65536 else 0

/-- The call reads the ADC last, and returns the temperature that its answer stands for. -/
def Sampled (chip : Chip) (s t : MDIOBus) (returns : List PHYReturn) : Prop :=
  ∃ before value, returns = [.temperature value] ∧ s.log <+: before ∧
    t.log = before ++ [⟨0, VSC_PAGE_GENERAL_PURPOSE, REG_VSC_TEMP_VAL, none⟩,
      ⟨0, VSC_PAGE_GENERAL_PURPOSE, REG_VSC8512_PAGESEL, some VSC_PAGE_MAIN⟩] ∧
    Converts (chip.answer before 0 REG_VSC_TEMP_VAL) value

theorem converts (reading : BitVec 16) : Converts reading (34636 - 183 * (reading &&& 0xff)) := by
  have hadc : (reading &&& 0xff).toNat = reading.toNat % 256 := by
    rw [BitVec.toNat_and]
    exact Nat.and_two_pow_sub_one_eq_mod reading.toNat 8
  have hlt : reading.toNat % 256 < 256 := Nat.mod_lt _ (by decide)
  unfold Converts
  rw [← hadc] at hlt ⊢
  generalize reading &&& 0xff = adc at hlt
  have hbits : (34636 - 183 * adc : BitVec 16).toNat =
      (2 ^ 16 - 183 * adc.toNat + 34636) % 2 ^ 16 := by
    have hmul : (183 * adc : BitVec 16).toNat = 183 * adc.toNat := by
      rw [BitVec.toNat_mul]
      exact Nat.mod_eq_of_lt (by show 183 * adc.toNat < 2 ^ 16; omega)
    rw [BitVec.toNat_sub, hmul]
    rfl
  dsimp only
  rw [BitVec.toInt_eq_toNat_cond, hbits]
  split <;> omega

theorem writeMasked_extends (chip : Chip) (s : MDIOBus) (port : Nat) (regid : BitVec 8)
    (value mask : BitVec 16) : s.log <+: (s.WriteMasked chip port regid value mask).log := by
  obtain ⟨accesses, hlog, -⟩ := @MDIODevice.writeMasked_log chip.m_mdioDevices s port regid value
    mask
  exact ⟨accesses, hlog.symm⟩

theorem getTemperature_sampled (chip : Chip) (s : MDIOBus) :
    Sampled chip s (s.GetTemperature chip).2 [.temperature (s.GetTemperature chip).1] := by
  let selected := s.WriteRegister 0 REG_VSC8512_PAGESEL VSC_PAGE_GENERAL_PURPOSE
  let stopped := selected.WriteMasked chip 0 REG_VSC_TEMP_CONF 0x00 0x40
  let started := stopped.WriteMasked chip 0 REG_VSC_TEMP_CONF 0x40 0x40
  have hpage : started.pages 0 = VSC_PAGE_GENERAL_PURPOSE := by
    have hstart : started.pages = stopped.pages :=
      chip.m_mdioDevices.writeMasked_pages (by decide)
    have hstop : stopped.pages = selected.pages :=
      chip.m_mdioDevices.writeMasked_pages (by decide)
    rw [hstart, hstop]
    exact Function.update_self 0 VSC_PAGE_GENERAL_PURPOSE s.pages
  have hlog : s.log <+: started.log :=
    (List.prefix_append s.log _).trans
      ((writeMasked_extends chip selected ..).trans (writeMasked_extends chip stopped ..))
  refine ⟨started.log, _, rfl, hlog, ?_, converts _⟩
  show started.log ++ [⟨0, started.pages 0, REG_VSC_TEMP_VAL, none⟩] ++
    [⟨0, started.pages 0, REG_VSC8512_PAGESEL, some VSC_PAGE_MAIN⟩] = _
  rw [hpage, List.append_assoc]
  rfl

theorem phyStep_atRest (h : AtRest s) {call : PHYCall} {returns : List PHYReturn}
    (hs : phyStep chip s call = .ok (t, returns)) : AtRest t := by
  cases call with
  | Init =>
    cases hs
    exact init_atRest h
  | GetTemperature =>
    cases hs
    exact h.of_selected (getTemperature_selected chip (h.selected 0))
  | SetSerdes6GPostCursor0Tap tap =>
    cases hs
    exact h.of_selected (setTap_selected chip (h.selected 0) tap)

theorem phyRun_atRest {calls : List PHYCall} {returns : List PHYReturn}
    (hr : run (phyStep chip) .reset calls = .ok (s, returns)) : AtRest s :=
  run_invariant (C := fun _ _ => True) (J := AtRest) (fun _ _ _ _ h _ hs => phyStep_atRest h hs)
    ⟨fun _ ha => absurd ha List.not_mem_nil, fun _ => rfl⟩ (allSteps_true _ calls) hr

theorem expected_cases {a : MDIOAccess} (h : expected a = true) :
    a.regid = REG_VSC8512_PAGESEL ∨ a.regid ∈ registersOf a.page ∨
      (a.page = VSC_PAGE_MAIN ∧ (a.regid ∈ standardRegisters ∨ a.regid = REG_VSC8512_LED_MODE)) ∨
      (a.port = 0 ∧ a.regid ∈ unnamedRegisters a.page) := by
  unfold expected at h
  simp only [Bool.or_eq_true, Bool.and_eq_true, beq_iff_eq, List.contains_iff_mem, or_assoc] at h
  exact h

/-- **Registers are accessed on their pages.** Whatever the chip answers and in whatever
order the driver is called: every access is to the page selector, to a register that the
header lists for the page that is selected in that PHY then, on the main page to a
standard register or the LED mode, which the header has on another page, or in the first
PHY to one of the unnamed registers of the test and token ring pages. Between calls all
PHYs are on the main page, also after an initialization that failed. The temperature that
a call returns next is that of the reading it makes, or 256 degrees below it. -/
theorem registers_on_their_pages (chip : Chip) (calls : List PHYCall) (s : MDIOBus)
    (returns : List PHYReturn) (hr : run (phyStep chip) .reset calls = .ok (s, returns)) :
    (∀ a ∈ s.log, a.regid = REG_VSC8512_PAGESEL ∨ a.regid ∈ registersOf a.page ∨
      (a.page = VSC_PAGE_MAIN ∧ (a.regid ∈ standardRegisters ∨ a.regid = REG_VSC8512_LED_MODE)) ∨
      (a.port = 0 ∧ a.regid ∈ unnamedRegisters a.page)) ∧
    (∀ port, s.pages port = VSC_PAGE_MAIN) ∧
    ∀ t more, phyStep chip s .GetTemperature = .ok (t, more) → Sampled chip s t more := by
  have h := phyRun_atRest hr
  refine ⟨fun a ha => expected_cases (h.disciplined a ha), h.main, fun t more ht => ?_⟩
  obtain ⟨rfl, rfl⟩ := ok_eq ht
  exact getTemperature_sampled chip s

end

/-- A library that reads the register and writes it back with the bits replaced. -/
def readModifyWrite (answer : List MDIOAccess → Nat → BitVec 8 → BitVec 16) : MDIODevice where
  WriteMasked s port regid value mask :=
    (s.access port regid).WriteRegister port regid
      ((answer s.log port regid &&& ~~~mask) ||| value)
  writeMasked_pages h := if_neg h
  writeMasked_log := ⟨[_, _], List.append_assoc .., List.forall_mem_cons.mpr
    ⟨⟨rfl, rfl, rfl⟩, List.forall_mem_singleton.mpr ⟨rfl, rfl, rfl⟩⟩⟩

/-- A chip of revision D that is never busy, and reads as 0 but for its id. -/
def quietChip : Chip :=
  let answer (_ : List MDIOAccess) (_ : Nat) (regid : BitVec 8) : BitVec 16 :=
    if regid = REG_PHY_ID_1 then 0x0007 else if regid = REG_PHY_ID_2 then 0x06e3 else 0
  ⟨answer, fun _ => 0, readModifyWrite answer⟩

/-- Initialized, and then as hot as can be. -/
theorem registers_on_their_pages_quiet :
    ∃ s t, run (phyStep quietChip) .reset [.Init] = .ok (s, [.initialized true]) ∧
      (∀ port, s.pages port = VSC_PAGE_MAIN) ∧
      phyStep quietChip s .GetTemperature = .ok (t, [.temperature 34636]) ∧
      Sampled quietChip s t [.temperature 34636] := by
  have hr : ∃ s, run (phyStep quietChip) .reset [.Init] = .ok (s, [.initialized true]) := ⟨_, rfl⟩
  obtain ⟨s, hr⟩ := hr
  have hvalue : (s.GetTemperature quietChip).1 = 34636 := by
    show 34636 - 183 * ((0 : BitVec 16) &&& 0xff) = 34636
    decide
  have ht : phyStep quietChip s .GetTemperature =
      .ok ((s.GetTemperature quietChip).2, [.temperature 34636]) := by
    unfold phyStep
    rw [hvalue]
  obtain ⟨-, hmain, hsample⟩ := registers_on_their_pages quietChip _ s _ hr
  exact ⟨s, _, hr, hmain, ht, hsample _ _ ht⟩

/-! ## The first PHY and its 8051 -/

section
variable (fw : Firmware) (phy : VSC8512) (busy : List MDIOAccess → Nat) (devices : MDIODevice)
  (s : MDIOBus)

/-- What an access does to the first PHY. -/
def act (phy : VSC8512) (a : MDIOAccess) : VSC8512 :=
  match a.written with
  | some value => if a.port = 0 then phy.WriteRegister fw a.regid value else phy
  | none => phy

/-- The chip whose first PHY is the given one. -/
def behind : Chip where
  answer log _ regid := (replay (act fw) phy log).ReadRegister regid
  busy := busy
  m_mdioDevices := devices

theorem replay_write (regid : BitVec 8) (value : BitVec 16) :
    replay (act fw) phy (s.WriteRegister 0 regid value).log =
      (replay (act fw) phy s.log).WriteRegister fw regid value := replay_append ..

theorem replay_access (port : Nat) (regid : BitVec 8) :
    replay (act fw) phy (s.access port regid).log = replay (act fw) phy s.log := replay_append ..

/-- Waits only look. -/
theorem replay_wait (chip : Chip) :
    replay (act fw) phy (s.WaitForMCU chip).log = replay (act fw) phy s.log := by
  unfold WaitForMCU
  generalize chip.busy s.log + 1 = n
  induction n with
  | zero => rfl
  | succ n ih => exact (replay_access ..).trans ih

theorem replay_prepare (chip : Chip) :
    replay (act fw) phy (s.PrepareForMCUAccess chip).log =
      (replay (act fw) phy s.log).PrepareForMCUAccess fw :=
  (replay_wait ..).trans (replay_write ..)

theorem replay_send (chip : Chip) (cmd : BitVec 16) :
    replay (act fw) phy (s.SendCommandToMCU chip cmd).log =
      (replay (act fw) phy s.log).SendCommandToMCU fw cmd :=
  (replay_wait ..).trans (replay_write ..)

theorem replay_peek (postIncrement : Bool) :
    ((s.MCUPeekByte (behind fw phy busy devices) postIncrement).1,
        replay (act fw) phy (s.MCUPeekByte (behind fw phy busy devices) postIncrement).2.log) =
      ((replay (act fw) phy s.log).MCUPeekByte fw postIncrement).swap := by
  have hreply : ∀ (t : MDIOBus) (u : VSC8512), replay (act fw) phy t.log = u →
      ((((replay (act fw) phy t.log).ReadRegister REG_VSC_GP_GLOBAL_SERDES).setWidth 8 >>> 4) &&&
          0xff#8, replay (act fw) phy (t.access 0 REG_VSC_GP_GLOBAL_SERDES).log) =
        (((u.ReadRegister REG_VSC_GP_GLOBAL_SERDES).setWidth 8 >>> 4) &&& 0xff#8, u) := by
    rintro t u rfl
    rw [replay_access]
  cases postIncrement with
  | false => exact hreply _ _ (replay_send ..)
  | true => exact hreply _ _ (replay_send ..)

/-- **The accesses of a tap setting are the tap setting.** -/
theorem replay_setTap (tap : BitVec 8) :
    replay (act fw) phy (s.SetSerdes6GPostCursor0Tap (behind fw phy busy devices) tap).log =
      (replay (act fw) phy s.log).SetSerdes6GPostCursor0Tap fw tap := by
  have hpeek := fun t : MDIOBus => Prod.mk.inj (replay_peek fw phy busy devices t false)
  unfold SetSerdes6GPostCursor0Tap VSC8512.SetSerdes6GPostCursor0Tap
  unfold SelectMainPage PushShadowRegistersToMCB MCUPokeByte SetIndirectAccessPointer
    ReadMCBToShadowRegisters VSC8512.SelectMainPage VSC8512.PushShadowRegistersToMCB
    VSC8512.MCUPokeByte VSC8512.SetIndirectAccessPointer VSC8512.ReadMCBToShadowRegisters
  simp only [replay_write, replay_send, replay_prepare, (hpeek _).1, (hpeek _).2]

end

end MDIOBus

end EmbeddedPlatform.Drivers
