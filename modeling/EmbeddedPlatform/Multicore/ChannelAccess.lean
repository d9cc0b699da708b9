import EmbeddedPlatform.Multicore.Delivery
import EmbeddedPlatform.Multicore.MulticoreLogDevice

/-! # What an access to a channel leaves alone

Everything an access changes belongs to the FIFO it is about: the flags of two
FIFOs differ, and of the table no more changes than a buffer and the size of the
message in it. -/
namespace EmbeddedPlatform.Multicore
open EmbeddedPlatform.Lib

variable {n : Nat}

section
variable {s : System n} {f g : FifoId n} {c : IPCC} {fifo : UnidirectionalIPCFifo}

theorem step_act (s : System n) (m : Move n) : step s m = .ok (s.act m) := by
  unfold System.act
  split
  rename_i r h
  exact h

section
variable (hf : f.channel < s.table.m_firstFreeChannel)
include hf

theorem act_Push (buf : Message) : s.act (.Push f buf) = s.callPush f buf :=
  Except.ok.inj ((step_act s (.Push f buf)).symm.trans (if_pos hf))

theorem act_goPush : s.act (.goPush f) = (s.goPush f, []) :=
  Except.ok.inj ((step_act s (.goPush f)).symm.trans (if_pos hf))

theorem act_Pop : s.act (.Pop f) = (s.callPop f, []) :=
  Except.ok.inj ((step_act s (.Pop f)).symm.trans (if_pos hf))

theorem act_goPop : s.act (.goPop f) = s.goPop f :=
  Except.ok.inj ((step_act s (.goPop f)).symm.trans (if_pos hf))

end

theorem act_of_not_allocated {m : Move n} (hm : ¬ m.fifo.channel < s.table.m_firstFreeChannel) :
    s.act m = (s, []) :=
  Except.ok.inj ((step_act s m).symm.trans (if_neg hm))

theorem getLsbD_shift_of_ne {c j : Nat} (h : j ≠ c) : (1#32 <<< c).getLsbD j = false := by
  show (BitVec.twoPow 32 c).getLsbD j = false
  rw [BitVec.getLsbD_twoPow]
  simp [Ne.symm h]

theorem markBusy_of_ne {c j : Nat} (h : j ≠ c) (flags : BitVec 32) :
    (markBusy flags (1#32 <<< (16 + c))).getLsbD j = flags.getLsbD j := by
  unfold markBusy
  rw [BitVec.getLsbD_or, BitVec.getLsbD_ushiftRight,
    getLsbD_shift_of_ne (fun he => h (Nat.add_left_cancel he)), Bool.or_false]

theorem markFree_of_ne {c j : Nat} (h : j ≠ c) (flags : BitVec 32) :
    (markFree flags (1#32 <<< c)).getLsbD j = flags.getLsbD j := by
  unfold markFree
  rw [BitVec.getLsbD_and, BitVec.getLsbD_not, getLsbD_shift_of_ne h]
  by_cases hj : j < 32
  · simp [hj]
  · rw [BitVec.getLsbD_of_ge flags j (Nat.le_of_not_lt hj), Bool.false_and]

/-- Also for a channel that the controller has no flag for. -/
theorem WiredTo.setBusy_of_ne (h : WiredTo fifo f) (hg : g ≠ f) :
    (fifo.setBusy c).flag g = c.flag g := by
  obtain ⟨gc, gp⟩ := g
  obtain ⟨fc, fp⟩ := f
  unfold UnidirectionalIPCFifo.setBusy IPCC.flag IPCC.word
  rw [h.primaryTx, h.setmask]
  cases fp <;> cases gp <;>
    simp [IPCC.SetPrimaryToSecondaryChannelBusy, IPCC.SetSecondaryToPrimaryChannelBusy] at hg ⊢
  · exact markBusy_of_ne (fun he => hg (Fin.ext he)) _
  · exact markBusy_of_ne (fun he => hg (Fin.ext he)) _

theorem WiredTo.setFree_of_ne (h : WiredTo fifo f) (hg : g ≠ f) :
    (fifo.setFree c).flag g = c.flag g := by
  obtain ⟨gc, gp⟩ := g
  obtain ⟨fc, fp⟩ := f
  unfold UnidirectionalIPCFifo.setFree IPCC.flag IPCC.word
  rw [h.primaryTx, h.clearmask]
  cases fp <;> cases gp <;>
    simp [IPCC.SetPrimaryToSecondaryChannelFree, IPCC.SetSecondaryToPrimaryChannelFree] at hg ⊢
  · exact markFree_of_ne (fun he => hg (Fin.ext he)) _
  · exact markFree_of_ne (fun he => hg (Fin.ext he)) _

theorem view_setPush_of_ne (hg : g ≠ f) (p : PushPhase) : (s.setPush f p).view g = s.view g :=
  (changed_setPush s f p g).trans (if_neg hg)

theorem view_setPop_of_ne (hg : g ≠ f) (p : PopPhase) : (s.setPop f p).view g = s.view g :=
  (changed_setPop s f p g).trans (if_neg hg)

theorem view_setFifo_of_ne (hg : g ≠ f) (fifo : UnidirectionalIPCFifo) :
    System.view { s with table := s.table.setFifo f fifo } g = s.view g :=
  (changed_setFifo s f fifo g).trans (if_neg hg)

theorem goPush_view_of_ne (hw : WiredTo (s.table.fifo f) f) (hg : g ≠ f) :
    (s.goPush f).view g = s.view g := by
  unfold System.goPush
  cases hp : s.push f with
  | idle => rfl
  | wait buf =>
    dsimp only
    split
    · exact view_setPush_of_ne hg _
    · rfl
  | copy buf i =>
    dsimp only
    split
    · exact (view_setPush_of_ne hg _).trans (view_setFifo_of_ne hg _)
    · exact view_setPush_of_ne hg _
  | publish buf => exact (view_setPush_of_ne hg _).trans (view_setFifo_of_ne hg _)
  | mark buf =>
    refine (view_setPush_of_ne hg _).trans ?_
    unfold System.view
    rw [hw.setBusy_of_ne hg]

theorem goPop_view_of_ne (hw : WiredTo (s.table.fifo f) f) (hg : g ≠ f) :
    (s.goPop f).1.view g = s.view g := by
  unfold System.goPop
  cases hp : s.pop f with
  | idle => rfl
  | peek =>
    dsimp only
    split
    · exact view_setPop_of_ne hg _
    · exact view_setPop_of_ne hg _
  | readSize => exact view_setPop_of_ne hg _
  | copy p rxbuf =>
    dsimp only
    split
    · exact view_setPop_of_ne hg _
    · exact view_setPop_of_ne hg _
  | release rxbuf =>
    refine (view_setPop_of_ne hg _).trans ?_
    unfold System.view
    rw [hw.setFree_of_ne hg]

theorem callPush_view_of_ne (hg : g ≠ f) (buf : Message) :
    (s.callPush f buf).1.view g = s.view g := by
  unfold System.callPush
  cases s.push f with
  | idle =>
    dsimp only
    split
    · rfl
    · exact view_setPush_of_ne hg _
  | _ => rfl

theorem callPop_view_of_ne (hg : g ≠ f) : (s.callPop f).view g = s.view g := by
  unfold System.callPop
  cases s.pop f with
  | idle => exact view_setPop_of_ne hg _
  | _ => rfl

/-- **Channels are separate.** An access to one FIFO changes no other. -/
theorem act_view_of_ne (hw : s.table.Wired) {m : Move n} (hg : g ≠ m.fifo) :
    (s.act m).1.view g = s.view g := by
  by_cases hm : m.fifo.channel < s.table.m_firstFreeChannel
  · have hf := hw m.fifo hm
    cases m with
    | Push f buf =>
      rw [act_Push (f := f) hm]
      exact callPush_view_of_ne hg buf
    | goPush f =>
      rw [act_goPush (f := f) hm]
      exact goPush_view_of_ne hf hg
    | Pop f =>
      rw [act_Pop (f := f) hm]
      exact callPop_view_of_ne hg
    | goPop f =>
      rw [act_goPop (f := f) hm]
      exact goPop_view_of_ne hf hg
  · rw [act_of_not_allocated hm]

/-- What an access leaves of a FIFO: its size and its masks. -/
structure SameShape (fifo fifo' : UnidirectionalIPCFifo) : Prop where
  size : fifo'.m_size = fifo.m_size
  setmask : fifo'.m_setmask = fifo.m_setmask
  clearmask : fifo'.m_clearmask = fifo.m_clearmask
  primaryTx : fifo'.m_primaryTx = fifo.m_primaryTx

theorem goPush_table (s : System n) (f : FifoId n) : (s.goPush f).table = s.table ∨
    ∃ fifo, SameShape (s.table.fifo f) fifo ∧ (s.goPush f).table = s.table.setFifo f fifo := by
  unfold System.goPush
  cases s.push f with
  | idle => exact .inl rfl
  | wait buf =>
    dsimp only
    split <;> exact .inl rfl
  | copy buf i =>
    dsimp only
    split
    · refine .inr ⟨_, ?_, rfl⟩
      exact ⟨rfl, rfl, rfl, rfl⟩
    · exact .inl rfl
  | publish buf =>
    refine .inr ⟨_, ?_, rfl⟩
    exact ⟨rfl, rfl, rfl, rfl⟩
  | mark buf => exact .inl rfl

theorem goPop_table (s : System n) (f : FifoId n) : (s.goPop f).1.table = s.table := by
  simp only [System.goPop]
  repeat' split
  all_goals rfl

theorem callPush_table (s : System n) (f : FifoId n) (buf : Message) :
    (s.callPush f buf).1.table = s.table := by
  unfold System.callPush
  repeat' split
  all_goals rfl

theorem callPop_table (s : System n) (f : FifoId n) : (s.callPop f).table = s.table := by
  unfold System.callPop
  split <;> rfl

/-- An access changes of the table at most the buffer and the size of one message. -/
theorem act_table (s : System n) (m : Move n) : (s.act m).1.table = s.table ∨
    ∃ fifo, SameShape (s.table.fifo m.fifo) fifo ∧
      (s.act m).1.table = s.table.setFifo m.fifo fifo := by
  by_cases hm : m.fifo.channel < s.table.m_firstFreeChannel
  · cases m with
    | Push f buf =>
      rw [act_Push (f := f) hm]
      exact .inl (callPush_table s f buf)
    | goPush f =>
      rw [act_goPush (f := f) hm]
      exact goPush_table s f
    | Pop f =>
      rw [act_Pop (f := f) hm]
      exact .inl (callPop_table s f)
    | goPop f =>
      rw [act_goPop (f := f) hm]
      exact .inl (goPop_table s f)
  · rw [act_of_not_allocated hm]
    exact .inl rfl

theorem act_sameShape (s : System n) (m : Move n) (g : FifoId n) :
    SameShape (s.table.fifo g) ((s.act m).1.table.fifo g) := by
  rcases act_table s m with htable | ⟨fifo, hshape, htable⟩
  · rw [htable]
    exact ⟨rfl, rfl, rfl, rfl⟩
  · rw [htable, IPCDescriptorTable.fifo_setFifo]
    split
    · rename_i hg
      rwa [hg]
    · exact ⟨rfl, rfl, rfl, rfl⟩

theorem act_firstFree (s : System n) (m : Move n) :
    (s.act m).1.table.m_firstFreeChannel = s.table.m_firstFreeChannel :=
  step_firstFree (step_act s m)

theorem act_wired (hw : s.table.Wired) (m : Move n) : (s.act m).1.table.Wired := by
  intro g hg
  rw [act_firstFree] at hg
  obtain ⟨-, hset, hclear, hprimary⟩ := act_sameShape s m g
  have h := hw g hg
  exact ⟨hset.trans h.setmask, hclear.trans h.clearmask, hprimary.trans h.primaryTx⟩

/-- The move is one of a call of `Push` of the FIFO. -/
def Move.Pushes (g : FifoId n) : Move n → Prop
  | .Push f _ | .goPush f => f = g
  | .Pop _ | .goPop _ => False

theorem act_push_of_not_pushes (hw : s.table.Wired) {m : Move n} (hm : ¬ m.Pushes f) :
    (s.act m).1.push f = s.push f := by
  by_cases hf : f = m.fifo
  · by_cases ha : m.fifo.channel < s.table.m_firstFreeChannel
    · cases m with
      | Push g buf => exact absurd hf.symm hm
      | goPush g => exact absurd hf.symm hm
      | Pop g =>
        rw [act_Pop (f := g) ha]
        unfold System.callPop
        split <;> rfl
      | goPop g =>
        rw [act_goPop (f := g) ha]
        simp only [System.goPop]
        repeat' split
        all_goals rfl
    · rw [act_of_not_allocated ha]
  · exact congrArg View.push (act_view_of_ne hw hf)

/-- Messages are given by calls of `Push` only. -/
theorem act_givenTo {m : Move n} (hm : ∀ buf, m ≠ .Push f buf) : givenTo f (s.act m).2 = [] := by
  by_cases ha : m.fifo.channel < s.table.m_firstFreeChannel
  · cases m with
    | Push g buf =>
      have hne : g ≠ f := fun h => hm buf (h ▸ rfl)
      rw [act_Push (f := g) ha]
      unfold System.callPush
      repeat' split
      all_goals first | exact (givenTo_given g f buf).trans (if_neg hne) | rfl
    | goPush g => rw [act_goPush (f := g) ha]; rfl
    | Pop g => rw [act_Pop (f := g) ha]; rfl
    | goPop g =>
      rw [act_goPop (f := g) ha]
      simp only [System.goPop]
      repeat' split
      all_goals rfl
  · rw [act_of_not_allocated ha]
    rfl

/-- A message that fits is taken when the last `Push` has returned. -/
theorem act_Push_idle (hf : f.channel < s.table.m_firstFreeChannel) (hp : s.push f = .idle)
    {buf : Message} (hfits : buf.length ≤ (s.table.fifo f).m_size.toNat) :
    s.act (.Push f buf) = (s.setPush f (.wait buf), [.given f buf]) := by
  rw [act_Push hf]
  unfold System.callPush
  rw [hp]
  exact if_neg (Nat.not_lt.mpr hfits)

end

end EmbeddedPlatform.Multicore
