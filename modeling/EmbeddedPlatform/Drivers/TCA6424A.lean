import Mathlib.Data.Fin.Tuple.Basic
import EmbeddedPlatform.Lib.Run

/-! # An I/O expander with 24 pins

The driver keeps a copy of the expander's output and configuration registers and
writes a whole register whenever a bit of it changes. The I2C bus delivers every
write; what the expander does with one is what its register map says. A channel
is one of the 24 pins: any other number indexes past the driver's arrays. -/
namespace EmbeddedPlatform.Drivers
open EmbeddedPlatform.Lib

/-! ## The driver -/

/-- A write of two bytes, a register number and its value. -/
structure BlockingWrite where
  address : UInt8
  regid : BitVec 8
  value : BitVec 8
deriving DecidableEq

structure TCA6424A where
  m_address : UInt8
  m_dirmask : Fin 3 → BitVec 8
  m_outvals : Fin 3 → BitVec 8

/-- Byte group of a channel within the expander. -/
def group (chan : Fin 24) : Fin 3 := ⟨chan / 8, by omega⟩

/-- Bit lane of a channel within the byte. -/
def lane (chan : Fin 24) : Nat := chan % 8

/-- The byte with one lane set or cleared. -/
def setLane (mask : BitVec 8) (lane : Nat) (value : Bool) : BitVec 8 :=
  if value then mask ||| 1#8 <<< lane else mask &&& ~~~(1#8 <<< lane)

namespace TCA6424A

def construct (addr : UInt8) : TCA6424A := ⟨addr, fun _ => 0xff, fun _ => 0xff⟩

def SetDirection (d : TCA6424A) (chan : Fin 24) (input : Bool) : TCA6424A × List BlockingWrite :=
  let g := group chan
  let mask := setLane (d.m_dirmask g) (lane chan) input
  ({ d with m_dirmask := Function.update d.m_dirmask g mask },
    [⟨d.m_address, 0x0c#8 + .ofNat 8 g, mask⟩])

def SetOutputValue (d : TCA6424A) (chan : Fin 24) (value : Bool) :
    TCA6424A × List BlockingWrite :=
  let g := group chan
  let vals := setLane (d.m_outvals g) (lane chan) value
  ({ d with m_outvals := Function.update d.m_outvals g vals },
    [⟨d.m_address, 0x04#8 + .ofNat 8 g, vals⟩])

def BatchUpdateValue (d : TCA6424A) (block : Fin 3) (value : BitVec 8) : TCA6424A :=
  { d with m_outvals := Function.update d.m_outvals block value }

def BatchCommitValue (d : TCA6424A) : List BlockingWrite :=
  (List.finRange 3).map fun block =>
    ⟨d.m_address, 0x04#8 + .ofNat 8 block, d.m_outvals block⟩

end TCA6424A

/-! ## The expander -/

/-- An expander answers to its address and has its registers by number. -/
structure Expander where
  address : UInt8
  regs : BitVec 8 → BitVec 8

namespace Expander

def write (c : Expander) (w : BlockingWrite) : Expander :=
  if w.address = c.address then { c with regs := Function.update c.regs w.regid w.value } else c

/-- The output registers. -/
def output (c : Expander) (block : Fin 3) : BitVec 8 := c.regs (0x04#8 + .ofNat 8 block)

/-- The configuration registers. -/
def config (c : Expander) (block : Fin 3) : BitVec 8 := c.regs (0x0c#8 + .ofNat 8 block)

/-- At power up all pins are inputs and all outputs 1; the other registers do not
matter. -/
def powerUp (address : UInt8) (others : BitVec 8 → BitVec 8) : Expander where
  address := address
  regs r := if r ∈ [0x04#8, 0x05#8, 0x06#8, 0x0c#8, 0x0d#8, 0x0e#8] then 0xff else others r

end Expander

/-- The bit of a channel in three registers. -/
def pinBit (regs : Fin 3 → BitVec 8) (chan : Fin 24) : Bool :=
  (regs (group chan)).getLsbD (lane chan)

/-- The level a pin drives, or would drive as an output. -/
def Expander.level (c : Expander) (chan : Fin 24) : Bool := pinBit c.output chan

def Expander.isInput (c : Expander) (chan : Fin 24) : Bool := pinBit c.config chan

/-! ## Operations -/

/-- A batch is any number of updates and the commit. -/
inductive Operation where
  | SetDirection (chan : Fin 24) (input : Bool)
  | SetOutputValue (chan : Fin 24) (value : Bool)
  | Batch (updates : List (Fin 3 × BitVec 8))

/-- A driver and its expander. -/
structure Bus where
  driver : TCA6424A
  chip : Expander

def TCA6424A.batchUpdate (d : TCA6424A) (u : Fin 3 × BitVec 8) : TCA6424A :=
  d.BatchUpdateValue u.1 u.2

def TCA6424A.batch (d : TCA6424A) (updates : List (Fin 3 × BitVec 8)) :
    TCA6424A × List BlockingWrite :=
  let d := replay batchUpdate d updates
  (d, d.BatchCommitValue)

def TCA6424A.perform (d : TCA6424A) : Operation → TCA6424A × List BlockingWrite
  | .SetDirection chan input => d.SetDirection chan input
  | .SetOutputValue chan value => d.SetOutputValue chan value
  | .Batch updates => d.batch updates

def Bus.step (s : Bus) (op : Operation) : Bus :=
  ⟨(s.driver.perform op).1, replay Expander.write s.chip (s.driver.perform op).2⟩

def Bus.powerUp (address : UInt8) (others : BitVec 8 → BitVec 8) : Bus :=
  ⟨.construct address, .powerUp address others⟩

/-! ## What is requested of a pin -/

/-- The direction an operation requests. -/
def Operation.direction (chan : Fin 24) : Operation → Option Bool
  | .SetDirection c input => if c = chan then some input else none
  | .SetOutputValue _ _ | .Batch _ => none

/-- The level an update of a whole block requests. -/
def updateLevel (chan : Fin 24) (u : Fin 3 × BitVec 8) : Option Bool :=
  if u.1 = group chan then some (u.2.getLsbD (lane chan)) else none

/-- The level an operation requests; in a batch the last update of a block counts. -/
def Operation.level (chan : Fin 24) : Operation → Option Bool
  | .SetDirection _ _ => none
  | .SetOutputValue c value => if c = chan then some value else none
  | .Batch updates => (updates.filterMap (updateLevel chan)).getLast?

/-! ## Bits -/

theorem lane_lt (chan : Fin 24) : lane chan < 8 := Nat.mod_lt _ (by decide)

theorem eq_of_group_lane {c chan : Fin 24} (hg : group c = group chan) (hl : lane c = lane chan) :
    c = chan := by
  have hdiv : c.val / 8 = chan.val / 8 := congrArg Fin.val hg
  have hmod : c.val % 8 = chan.val % 8 := hl
  apply Fin.ext
  omega

theorem getLsbD_setLane (mask : BitVec 8) {l j : Nat} (hl : l < 8) (hj : j < 8) (value : Bool) :
    (setLane mask l value).getLsbD j = if l = j then value else mask.getLsbD j := by
  unfold setLane
  rw [← BitVec.twoPow_eq]
  rw [apply_ite (BitVec.getLsbD · j)]
  simp only [BitVec.getLsbD_or, BitVec.getLsbD_and, BitVec.getLsbD_not, BitVec.getLsbD_twoPow, hl, hj,
    decide_true, Bool.true_and]
  by_cases h : l = j <;> cases value <;> simp [h]

/-- Writing a lane changes the bit of its own channel only. -/
theorem pinBit_update (regs : Fin 3 → BitVec 8) (c chan : Fin 24) (value : Bool) :
    pinBit (Function.update regs (group c) (setLane (regs (group c)) (lane c) value)) chan =
      if c = chan then value else pinBit regs chan := by
  unfold pinBit
  by_cases hg : group chan = group c
  · rw [hg, Function.update_self, getLsbD_setLane _ (lane_lt c) (lane_lt chan)]
    by_cases hl : lane c = lane chan
    · rw [if_pos hl, if_pos (eq_of_group_lane hg.symm hl)]
    · rw [if_neg hl, if_neg (fun h => hl (congrArg lane h))]
  · rw [Function.update_of_ne hg, if_neg (fun h => hg (congrArg group h.symm))]

theorem pinBit_updateBlock (regs : Fin 3 → BitVec 8) (u : Fin 3 × BitVec 8) (chan : Fin 24) :
    pinBit (Function.update regs u.1 u.2) chan = (updateLevel chan u).getD (pinBit regs chan) := by
  unfold pinBit updateLevel
  by_cases hg : u.1 = group chan
  · rw [hg, Function.update_self, if_pos rfl, Option.getD_some]
  · rw [Function.update_of_ne (Ne.symm hg), if_neg hg, Option.getD_none]

/-! ## The driver's copy -/

namespace TCA6424A

variable (d : TCA6424A) (op : Operation) (updates : List (Fin 3 × BitVec 8)) (chan : Fin 24)

theorem batch_address : (d.batch updates).1.m_address = d.m_address :=
  replay_invariant batchUpdate (J := fun e => e.m_address = d.m_address) (fun _ _ h => h) rfl updates

theorem batch_dirmask : (d.batch updates).1.m_dirmask = d.m_dirmask :=
  replay_invariant batchUpdate (J := fun e => e.m_dirmask = d.m_dirmask) (fun _ _ h => h) rfl updates

theorem perform_address : (d.perform op).1.m_address = d.m_address := by
  cases op with
  | SetDirection | SetOutputValue => rfl
  | Batch updates => exact d.batch_address updates

/-- Of the driver's copy an operation changes what it requests. -/
theorem perform_dirmask :
    pinBit (d.perform op).1.m_dirmask chan = (op.direction chan).getD (pinBit d.m_dirmask chan) := by
  cases op with
  | SetDirection c input =>
    refine (pinBit_update d.m_dirmask c chan input).trans ?_
    show _ = (if c = chan then some input else none).getD _
    split <;> rfl
  | SetOutputValue => rfl
  | Batch updates =>
    show pinBit (d.batch updates).1.m_dirmask chan = _
    rw [batch_dirmask]
    rfl

theorem perform_outvals :
    pinBit (d.perform op).1.m_outvals chan = (op.level chan).getD (pinBit d.m_outvals chan) := by
  cases op with
  | SetDirection => rfl
  | SetOutputValue c value =>
    refine (pinBit_update d.m_outvals c chan value).trans ?_
    show _ = (if c = chan then some value else none).getD _
    split <;> rfl
  | Batch updates =>
    have h := replay_last batchUpdate (f := fun e => pinBit e.m_outvals chan)
      (fun e u => pinBit_updateBlock e.m_outvals u chan) d updates
    rw [List.getLastD_eq_getLast?] at h
    exact h

end TCA6424A

/-! ## The expander's registers -/

/-- The expander holds the driver's copy. -/
structure InStep (s : Bus) : Prop where
  address : s.chip.address = s.driver.m_address
  output : s.chip.output = s.driver.m_outvals
  config : s.chip.config = s.driver.m_dirmask

theorem regid_injective : Function.Injective fun b : Fin 3 => 0x04#8 + BitVec.ofNat 8 b := by
  unfold Function.Injective
  decide

theorem configRegid_injective : Function.Injective fun b : Fin 3 => 0x0c#8 + BitVec.ofNat 8 b := by
  unfold Function.Injective
  decide

theorem regid_ne (b b' : Fin 3) : 0x04#8 + BitVec.ofNat 8 b ≠ 0x0c#8 + BitVec.ofNat 8 b' := by
  revert b b'
  decide

section
variable {c : Expander} {address : UInt8} (h : c.address = address) (block : Fin 3) (value : BitVec 8)
include h

theorem Expander.write_regs (r : BitVec 8) :
    (c.write ⟨address, r, value⟩).regs = Function.update c.regs r value := by
  unfold write
  rw [if_pos h.symm]

theorem Expander.output_write :
    (c.write ⟨address, 0x04#8 + .ofNat 8 block, value⟩).output =
      Function.update c.output block value := by
  unfold output
  rw [c.write_regs h]
  exact Function.update_comp_eq_of_injective c.regs regid_injective block value

theorem Expander.config_write_output :
    (c.write ⟨address, 0x04#8 + .ofNat 8 block, value⟩).config = c.config := by
  unfold config
  rw [c.write_regs h]
  exact funext fun b => Function.update_of_ne (regid_ne block b).symm ..

theorem Expander.config_write :
    (c.write ⟨address, 0x0c#8 + .ofNat 8 block, value⟩).config =
      Function.update c.config block value := by
  unfold config
  rw [c.write_regs h]
  exact Function.update_comp_eq_of_injective c.regs configRegid_injective block value

theorem Expander.output_write_config :
    (c.write ⟨address, 0x0c#8 + .ofNat 8 block, value⟩).output = c.output := by
  unfold output
  rw [c.write_regs h]
  exact funext fun b => Function.update_of_ne (regid_ne b block) ..

end

theorem Expander.write_address (c : Expander) (w : BlockingWrite) :
    (c.write w).address = c.address := by
  unfold write
  split <;> rfl

theorem replay_write_address (c : Expander) (ws : List BlockingWrite) :
    (replay Expander.write c ws).address = c.address :=
  replay_invariant Expander.write (J := fun e => e.address = c.address)
    (fun e w h => (e.write_address w).trans h) rfl ws

/-- The commit puts all three output registers right, whatever they were. -/
theorem commit_registers (d : TCA6424A) {c : Expander} (h : c.address = d.m_address) :
    (replay Expander.write c d.BatchCommitValue).output = d.m_outvals ∧
      (replay Expander.write c d.BatchCommitValue).config = c.config := by
  let w (b : Fin 3) : BlockingWrite := ⟨d.m_address, 0x04#8 + .ofNat 8 b, d.m_outvals b⟩
  have h0 : (c.write (w 0)).address = d.m_address := (c.write_address _).trans h
  have h1 : ((c.write (w 0)).write (w 1)).address = d.m_address := (Expander.write_address ..).trans h0
  have hcommit : replay Expander.write c d.BatchCommitValue =
      ((c.write (w 0)).write (w 1)).write (w 2) := rfl
  rw [hcommit]
  constructor
  · rw [Expander.output_write h1, Expander.output_write h0, Expander.output_write h]
    funext b
    match b with
    | 0 | 1 | 2 => rfl
  · rw [Expander.config_write_output h1, Expander.config_write_output h0,
      Expander.config_write_output h]

/-- **Step lemma.** -/
theorem InStep.step {s : Bus} (h : InStep s) (op : Operation) : InStep (s.step op) := by
  have haddr : (s.step op).chip.address = (s.step op).driver.m_address := by
    rw [Bus.step, replay_write_address, TCA6424A.perform_address, h.address]
  cases op with
  | SetDirection chan input =>
    refine ⟨haddr, ?_, ?_⟩
    · exact (Expander.output_write_config h.address _ _).trans h.output
    · refine (Expander.config_write h.address _ _).trans ?_
      rw [h.config]
      rfl
  | SetOutputValue chan value =>
    refine ⟨haddr, ?_, ?_⟩
    · refine (Expander.output_write h.address _ _).trans ?_
      rw [h.output]
      rfl
    · exact (Expander.config_write_output h.address _ _).trans h.config
  | Batch updates =>
    have hbatch : s.chip.address = (s.driver.batch updates).1.m_address :=
      h.address.trans (s.driver.batch_address updates).symm
    obtain ⟨hout, hconfig⟩ := commit_registers (s.driver.batch updates).1 hbatch
    refine ⟨haddr, hout, hconfig.trans (h.config.trans ?_)⟩
    exact (s.driver.batch_dirmask updates).symm

theorem pinBit_construct (chan : Fin 24) : pinBit (fun _ => 0xff#8) chan = true := by
  revert chan
  decide

theorem inStep_powerUp (address : UInt8) (others : BitVec 8 → BitVec 8) :
    InStep (.powerUp address others) := by
  refine ⟨rfl, ?_, ?_⟩
  · funext b
    match b with
    | 0 | 1 | 2 => rfl
  · funext b
    match b with
    | 0 | 1 | 2 => rfl

theorem isInput_powerUp (address : UInt8) (others : BitVec 8 → BitVec 8) (chan : Fin 24) :
    (Expander.powerUp address others).isInput chan = true := by
  unfold Expander.isInput
  rw [show (Expander.powerUp address others).config = fun _ => 0xff from
    (inStep_powerUp address others).config]
  exact pinBit_construct chan

/-- What the expander does with a pin after an operation. -/
theorem InStep.step_level {s : Bus} (h : InStep s) (op : Operation) (chan : Fin 24) :
    (s.step op).chip.level chan = (op.level chan).getD (s.chip.level chan) := by
  unfold Expander.level
  rw [(h.step op).output, h.output]
  exact s.driver.perform_outvals op chan

theorem InStep.step_isInput {s : Bus} (h : InStep s) (op : Operation) (chan : Fin 24) :
    (s.step op).chip.isInput chan = (op.direction chan).getD (s.chip.isInput chan) := by
  unfold Expander.isInput
  rw [(h.step op).config, h.config]
  exact s.driver.perform_dirmask op chan

/-- **Pins are isolated.** After any operations the expander holds the driver's
copy, and each pin has the level and the direction last requested of it. -/
theorem pins_isolated (address : UInt8) (others : BitVec 8 → BitVec 8) (ops : List Operation) :
    let s := replay Bus.step (.powerUp address others) ops
    s.chip.output = s.driver.m_outvals ∧ s.chip.config = s.driver.m_dirmask ∧
      ∀ chan, s.chip.level chan = (ops.filterMap (Operation.level chan)).getLastD true ∧
        s.chip.isInput chan = (ops.filterMap (Operation.direction chan)).getLastD true := by
  have hin := replay_invariant Bus.step (J := InStep) (fun _ op h => h.step op)
    (inStep_powerUp address others) ops
  refine ⟨hin.output, hin.config, fun chan => ⟨?_, ?_⟩⟩
  · unfold Expander.level
    rw [hin.output]
    refine (replay_last Bus.step (f := fun s => pinBit s.driver.m_outvals chan)
      (fun s op => s.driver.perform_outvals op chan) _ ops).trans ?_
    exact congrArg _ (pinBit_construct chan)
  · unfold Expander.isInput
    rw [hin.config]
    refine (replay_last Bus.step (f := fun s => pinBit s.driver.m_dirmask chan)
      (fun s op => s.driver.perform_dirmask op chan) _ ops).trans ?_
    exact congrArg _ (pinBit_construct chan)

end EmbeddedPlatform.Drivers
