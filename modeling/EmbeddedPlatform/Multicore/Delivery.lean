import EmbeddedPlatform.Lib.Mailbox
import EmbeddedPlatform.Multicore.IPCDescriptorTable

/-! # Messages between two cores arrive

Whoever the flag of a FIFO gives the buffer to may use it: while it is clear the
pusher writes, while it is set the popper reads. So each FIFO is a mailbox with
one slot, and the FIFOs do not disturb each other because each has a flag and a
buffer of its own. -/
namespace EmbeddedPlatform.Multicore
open EmbeddedPlatform.Lib

variable {n : Nat}

/-! ## Flags -/

theorem getLsbD_shift_one (c j : Nat) (hc : c < 32) :
    (1#32 <<< c).getLsbD j = decide (j = c) := by
  show (BitVec.twoPow 32 c).getLsbD j = decide (j = c)
  rw [BitVec.getLsbD_twoPow]
  by_cases hj : j = c
  · simp [hj, hc]
  · simp [hj, Ne.symm hj]

theorem channelFree_flag {c : Nat} (hc : c < 16) (flags : BitVec 32) :
    channelFree flags (1#32 <<< c) = !flags.getLsbD c := by
  have hbit := getLsbD_shift_one c c (Nat.lt_trans hc (by decide))
  have hne : 1#32 <<< c ≠ 0#32 := by
    intro h
    rw [h] at hbit
    simp at hbit
  have hand : flags &&& 1#32 <<< c = if flags.getLsbD c then 1#32 <<< c else 0#32 :=
    BitVec.and_twoPow flags c
  unfold channelFree
  rw [hand]
  cases flags.getLsbD c with
  | true => simpa using hne
  | false => rfl

theorem markBusy_flag {c j : Nat} (hc : c < 16) (flags : BitVec 32) :
    (markBusy flags (1#32 <<< (16 + c))).getLsbD j = (flags.getLsbD j || decide (j = c)) := by
  unfold markBusy
  rw [BitVec.getLsbD_or, BitVec.getLsbD_ushiftRight,
    getLsbD_shift_one (16 + c) (16 + j) (Nat.add_lt_add_left hc 16)]
  simp only [Nat.add_left_cancel_iff]

theorem markFree_flag {c j : Nat} (hc : c < 16) (flags : BitVec 32) :
    (markFree flags (1#32 <<< c)).getLsbD j = (flags.getLsbD j && !decide (j = c)) := by
  unfold markFree
  rw [BitVec.getLsbD_and, BitVec.getLsbD_not,
    getLsbD_shift_one c j (Nat.lt_trans hc (by decide))]
  by_cases hj : j < 32
  · simp [hj]
  · have hflag : flags.getLsbD j = false := BitVec.getLsbD_of_ge flags j (Nat.le_of_not_lt hj)
    simp [hflag]

/-- The word a FIFO's flag is in. -/
def IPCC.word (c : IPCC) (primary : Bool) : BitVec 32 :=
  if primary then c.primaryToSecondary else c.secondaryToPrimary

def IPCC.flag (c : IPCC) (f : FifoId n) : Bool := (c.word f.primary).getLsbD f.channel

/-- The FIFO's masks are those of its own flag. -/
structure WiredTo (fifo : UnidirectionalIPCFifo) (f : FifoId n) : Prop where
  setmask : fifo.m_setmask = 1#32 <<< (16 + f.channel.val)
  clearmask : fifo.m_clearmask = 1#32 <<< f.channel.val
  primaryTx : fifo.m_primaryTx = f.primary

section
variable {fifo : UnidirectionalIPCFifo} {f : FifoId n} {c : IPCC}

theorem WiredTo.isFree (h : WiredTo fifo f) (hf : f.channel.val < 16) :
    fifo.isFree c = !c.flag f := by
  unfold UnidirectionalIPCFifo.isFree IPCC.flag IPCC.word
  rw [h.primaryTx, h.clearmask]
  cases f.primary with
  | true => exact channelFree_flag hf _
  | false => exact channelFree_flag hf _

theorem WiredTo.setBusy (h : WiredTo fifo f) (hf : f.channel.val < 16) (g : FifoId n) :
    (fifo.setBusy c).flag g = (c.flag g || decide (g = f)) := by
  obtain ⟨gc, gp⟩ := g
  obtain ⟨fc, fp⟩ := f
  unfold UnidirectionalIPCFifo.setBusy IPCC.flag IPCC.word
  rw [h.primaryTx, h.setmask]
  cases fp <;> cases gp <;>
    simp [IPCC.SetPrimaryToSecondaryChannelBusy, IPCC.SetSecondaryToPrimaryChannelBusy,
      markBusy_flag hf, Fin.val_inj]

theorem WiredTo.setFree (h : WiredTo fifo f) (hf : f.channel.val < 16) (g : FifoId n) :
    (fifo.setFree c).flag g = (c.flag g && !decide (g = f)) := by
  obtain ⟨gc, gp⟩ := g
  obtain ⟨fc, fp⟩ := f
  unfold UnidirectionalIPCFifo.setFree IPCC.flag IPCC.word
  rw [h.primaryTx, h.clearmask]
  cases fp <;> cases gp <;>
    simp [IPCC.SetPrimaryToSecondaryChannelFree, IPCC.SetSecondaryToPrimaryChannelFree,
      markFree_flag hf, Fin.val_inj]

end

/-! ## Tables -/

namespace IPCDescriptorTable

variable {t : IPCDescriptorTable n} {f g : FifoId n} {fifo : UnidirectionalIPCFifo}

theorem fifo_setFifo : (t.setFifo f fifo).fifo g = if g = f then fifo else t.fifo g := by
  obtain ⟨gc, gp⟩ := g
  obtain ⟨fc, fp⟩ := f
  unfold IPCDescriptorTable.fifo setFifo setChannel
  by_cases hc : gc = fc
  · subst hc
    cases fp <;> cases gp <;> simp
  · cases gp <;> simp [hc]

/-- Every allocated FIFO has the masks of its own flag. -/
def Wired (t : IPCDescriptorTable n) : Prop :=
  ∀ f : FifoId n, f.channel.val < t.m_firstFreeChannel → WiredTo (t.fifo f) f

theorem wired_empty : (empty n).Wired := by
  intro f hf
  exact absurd hf (Nat.not_lt_zero _)

theorem Wired.allocateChannel (h : t.Wired) (b : Buffers) : (t.AllocateChannel b).Wired := by
  unfold AllocateChannel
  split
  · rename_i hlt
    intro f hf
    obtain ⟨c, p⟩ := f
    by_cases hc : c = ⟨t.m_firstFreeChannel, hlt⟩
    · subst hc
      cases p <;> constructor <;> simp [IPCDescriptorTable.fifo, setChannel,
        UnidirectionalIPCFifo.Initialize]
    · have hold : c.val < t.m_firstFreeChannel := by
        have hne : c.val ≠ t.m_firstFreeChannel := fun hv => hc (Fin.ext hv)
        exact Nat.lt_of_le_of_ne (Nat.le_of_lt_succ hf) hne
      have hw := h ⟨c, p⟩ hold
      simpa [IPCDescriptorTable.fifo, setChannel, hc] using hw
  · exact h

theorem Wired.allocated (h : t.Wired) (buffers : List Buffers) :
    (buffers.foldl AllocateChannel t).Wired := by
  induction buffers generalizing t with
  | nil => exact h
  | cons b bs ih => exact ih (h.allocateChannel b)

theorem allocateChannel_firstFree (t : IPCDescriptorTable n) (b : Buffers)
    (ht : t.m_firstFreeChannel ≤ n) :
    (t.AllocateChannel b).m_firstFreeChannel = min n (t.m_firstFreeChannel + 1) := by
  unfold AllocateChannel
  split
  · rename_i hlt
    exact (Nat.min_eq_right hlt).symm
  · rename_i hge
    rw [Nat.min_eq_left (Nat.le_succ_of_le (Nat.le_of_not_lt hge))]
    exact Nat.le_antisymm ht (Nat.le_of_not_lt hge)

theorem allocated_firstFree (buffers : List Buffers) (ht : t.m_firstFreeChannel ≤ n) :
    (buffers.foldl AllocateChannel t).m_firstFreeChannel =
      min n (t.m_firstFreeChannel + buffers.length) := by
  induction buffers generalizing t with
  | nil => exact (Nat.min_eq_right ht).symm
  | cons b bs ih =>
    have hb := allocateChannel_firstFree t b ht
    show (bs.foldl AllocateChannel (t.AllocateChannel b)).m_firstFreeChannel = _
    rw [ih (by rw [hb]; exact Nat.min_le_left _ _), hb, List.length_cons]
    omega

end IPCDescriptorTable

/-! ## One FIFO -/

abbrev Message := List UInt8

/-- What a FIFO's two users see of the system. -/
structure View where
  fifo : UnidirectionalIPCFifo
  busy : Bool
  push : PushPhase
  pop : PopPhase

def System.view (s : System n) (f : FifoId n) : View :=
  ⟨s.table.fifo f, s.ipcc.flag f, s.push f, s.pop f⟩

/-- What a step can do to one FIFO, the messages given and those returned. -/
inductive Turn : View → List Message → List Message → View → Prop where
  | skip (v : View) : Turn v [] [] v
  | refuse {v : View} {buf : Message} : v.push = .idle → v.fifo.m_size.toNat < buf.length →
    Turn v [buf] [] v
  | call {v : View} {buf : Message} : v.push = .idle → buf.length ≤ v.fifo.m_size.toNat →
    Turn v [buf] [] { v with push := .wait buf }
  | enter {v : View} {buf : Message} : v.push = .wait buf → v.busy = false →
    Turn v [] [] { v with push := .copy buf 0 }
  | store {v : View} {buf : Message} {i : Nat} (h : i < buf.length) : v.push = .copy buf i →
    Turn v [] [] { v with
      fifo := { v.fifo with m_buffer := Function.update v.fifo.m_buffer i buf[i] }
      push := .copy buf (i + 1) }
  | stored {v : View} {buf : Message} {i : Nat} : v.push = .copy buf i → buf.length ≤ i →
    Turn v [] [] { v with push := .publish buf }
  | publish {v : View} {buf : Message} : v.push = .publish buf →
    Turn v [] [] { v with
      fifo := { v.fifo with m_writePtr := .ofNat buf.length }
      push := .mark buf }
  | mark {v : View} {buf : Message} : v.push = .mark buf →
    Turn v [] [] { v with busy := true, push := .idle }
  | ask {v : View} : v.pop = .idle → Turn v [] [] { v with pop := .peek }
  | nothing {v : View} : v.pop = .peek → Turn v [] [[]] { v with pop := .idle }
  | ready {v : View} : v.pop = .peek → v.busy = true → Turn v [] [] { v with pop := .readSize }
  | readSize {v : View} : v.pop = .readSize →
    Turn v [] [] { v with pop := .copy v.fifo.m_writePtr [] }
  | load {v : View} {p : UInt32} {rxbuf : Message} : v.pop = .copy p rxbuf →
    rxbuf.length < p.toNat →
    Turn v [] [] { v with pop := .copy p (rxbuf ++ [v.fifo.m_buffer rxbuf.length]) }
  | loaded {v : View} {p : UInt32} {rxbuf : Message} : v.pop = .copy p rxbuf →
    p.toNat ≤ rxbuf.length → Turn v [] [] { v with pop := .release rxbuf }
  | release {v : View} {rxbuf : Message} : v.pop = .release rxbuf →
    Turn v [] [rxbuf] { v with busy := false, pop := .idle }

/-- The messages given to `Push` of a FIFO. -/
def givenTo (f : FifoId n) (log : List (Event n)) : List Message :=
  log.filterMap fun e =>
    match e with
    | .given g buf => if g = f then some buf else none
    | .returned _ _ => none

/-- The messages returned by `Pop` of a FIFO. -/
def returnedBy (f : FifoId n) (log : List (Event n)) : List Message :=
  log.filterMap fun e =>
    match e with
    | .given _ _ => none
    | .returned g rxbuf => if g = f then some rxbuf else none

/-! ## Steps are turns -/

/-- The systems differ at one FIFO only, which is now seen as `w`. -/
def Changed (s : System n) (f : FifoId n) (w : View) (t : System n) : Prop :=
  ∀ g, t.view g = if g = f then w else s.view g

section
variable {s t : System n} {f : FifoId n} {w : View}

theorem Changed.refl (s : System n) (f : FifoId n) : Changed s f (s.view f) s := by
  intro g
  split
  · rename_i h
    rw [h]
  · rfl

theorem Changed.view (h : Changed s f w t) : t.view f = w := (h f).trans (if_pos rfl)

/-- Two changes at the same FIFO. -/
theorem Changed.trans {u : System n} {w' : View} (h : Changed s f w t) (h' : Changed t f w' u) :
    Changed s f w' u := by
  intro g
  rw [h' g]
  split
  · rfl
  · rename_i hne
    exact (h g).trans (if_neg hne)

theorem changed_setPush (t : System n) (f : FifoId n) (p : PushPhase) :
    Changed t f { t.view f with push := p } (t.setPush f p) := by
  intro g
  by_cases h : g = f <;> simp [System.view, System.setPush, h]

theorem changed_setPop (t : System n) (f : FifoId n) (p : PopPhase) :
    Changed t f { t.view f with pop := p } (t.setPop f p) := by
  intro g
  by_cases h : g = f <;> simp [System.view, System.setPop, h]

theorem Changed.setPush (h : Changed s f w t) (p : PushPhase) :
    Changed s f { w with push := p } (t.setPush f p) := by
  rw [← h.view]
  exact h.trans (changed_setPush t f p)

theorem Changed.setPop (h : Changed s f w t) (p : PopPhase) :
    Changed s f { w with pop := p } (t.setPop f p) := by
  rw [← h.view]
  exact h.trans (changed_setPop t f p)

theorem changed_setFifo (s : System n) (f : FifoId n) (fifo : UnidirectionalIPCFifo) :
    Changed s f { s.view f with fifo := fifo } { s with table := s.table.setFifo f fifo } := by
  intro g
  unfold System.view
  rw [IPCDescriptorTable.fifo_setFifo]
  split
  · rename_i h
    rw [h]
  · rfl

theorem changed_setBusy (hw : WiredTo (s.table.fifo f) f) (hf : f.channel.val < 16) :
    Changed s f { s.view f with busy := true }
      { s with ipcc := (s.table.fifo f).setBusy s.ipcc } := by
  intro g
  unfold System.view
  rw [hw.setBusy hf]
  by_cases h : g = f <;> simp [h]

theorem changed_setFree (hw : WiredTo (s.table.fifo f) f) (hf : f.channel.val < 16) :
    Changed s f { s.view f with busy := false }
      { s with ipcc := (s.table.fifo f).setFree s.ipcc } := by
  intro g
  unfold System.view
  rw [hw.setFree hf]
  by_cases h : g = f <;> simp [h]

end

@[simp] theorem givenTo_given (f g : FifoId n) (buf : Message) :
    givenTo g [.given f buf] = if f = g then [buf] else [] := by
  unfold givenTo
  split <;> simp_all

@[simp] theorem givenTo_returned (f g : FifoId n) (buf : Message) :
    givenTo g [.returned f buf] = [] := rfl

@[simp] theorem returnedBy_returned (f g : FifoId n) (buf : Message) :
    returnedBy g [.returned f buf] = if f = g then [buf] else [] := by
  unfold returnedBy
  split <;> simp_all

@[simp] theorem returnedBy_given (f g : FifoId n) (buf : Message) :
    returnedBy g [.given f buf] = [] := rfl

/-- Each FIFO makes a turn, with the events that are its own. -/
def Turns (s : System n) (es : List (Event n)) (t : System n) : Prop :=
  ∀ g, Turn (s.view g) (givenTo g es) (returnedBy g es) (t.view g)

section
variable {s t : System n} {f : FifoId n} {w : View}

theorem Turns.skip (s : System n) : Turns s [] s := fun g => .skip (s.view g)

theorem Turns.silent (hturn : Turn (s.view f) [] [] w) (h : Changed s f w t) : Turns s [] t := by
  intro g
  rw [h g]
  split
  · rename_i hgf
    rw [hgf]
    exact hturn
  · exact .skip (s.view g)

theorem Turns.given {buf : Message} (hturn : Turn (s.view f) [buf] [] w) (h : Changed s f w t) :
    Turns s [.given f buf] t := by
  intro g
  rw [h g, givenTo_given, returnedBy_given]
  by_cases hgf : g = f
  · rw [if_pos hgf, if_pos hgf.symm, hgf]
    exact hturn
  · rw [if_neg hgf, if_neg (Ne.symm hgf)]
    exact .skip (s.view g)

theorem Turns.returned {rxbuf : Message} (hturn : Turn (s.view f) [] [rxbuf] w)
    (h : Changed s f w t) : Turns s [.returned f rxbuf] t := by
  intro g
  rw [h g, returnedBy_returned, givenTo_returned]
  by_cases hgf : g = f
  · rw [if_pos hgf, if_pos hgf.symm, hgf]
    exact hturn
  · rw [if_neg hgf, if_neg (Ne.symm hgf)]
    exact .skip (s.view g)

end

section
variable {s : System n} {f : FifoId n}

theorem callPush_turns (s : System n) (f : FifoId n) (buf : Message) :
    Turns s (s.callPush f buf).2 (s.callPush f buf).1 := by
  unfold System.callPush
  cases hp : s.push f with
  | idle =>
    dsimp only
    split
    · rename_i hbig
      exact .given (.refuse hp hbig) (.refl s f)
    · rename_i hfits
      exact .given (.call hp (Nat.le_of_not_lt hfits)) ((Changed.refl s f).setPush _)
  | wait | copy | publish | mark => exact .skip s

theorem goPush_turns (hw : WiredTo (s.table.fifo f) f) (hf : f.channel.val < 16) :
    Turns s [] (s.goPush f) := by
  unfold System.goPush
  cases hp : s.push f with
  | idle => exact .skip s
  | wait buf =>
    dsimp only
    split
    · rename_i hfree
      have hbusy : s.ipcc.flag f = false := by simpa [hw.isFree hf] using hfree
      exact .silent (.enter hp hbusy) ((Changed.refl s f).setPush _)
    · exact .skip s
  | copy buf i =>
    dsimp only
    split
    · rename_i hi
      exact .silent (.store hi hp) ((changed_setFifo s f _).setPush _)
    · rename_i hi
      exact .silent (.stored hp (Nat.le_of_not_lt hi)) ((Changed.refl s f).setPush _)
  | publish buf => exact .silent (.publish hp) ((changed_setFifo s f _).setPush _)
  | mark buf => exact .silent (.mark hp) ((changed_setBusy hw hf).setPush _)

theorem callPop_turns (s : System n) (f : FifoId n) : Turns s [] (s.callPop f) := by
  unfold System.callPop
  cases hp : s.pop f with
  | idle => exact .silent (.ask hp) ((Changed.refl s f).setPop _)
  | peek | readSize | copy | release => exact .skip s

theorem goPop_turns (hw : WiredTo (s.table.fifo f) f) (hf : f.channel.val < 16) :
    Turns s (s.goPop f).2 (s.goPop f).1 := by
  unfold System.goPop
  cases hp : s.pop f with
  | idle => exact .skip s
  | peek =>
    dsimp only
    split
    · rename_i hpeek
      have hbusy : s.ipcc.flag f = true := by
        simpa [UnidirectionalIPCFifo.Peek, hw.isFree hf] using hpeek
      exact .silent (.ready hp hbusy) ((Changed.refl s f).setPop _)
    · exact .returned (.nothing hp) ((Changed.refl s f).setPop _)
  | readSize => exact .silent (.readSize hp) ((Changed.refl s f).setPop _)
  | copy p rxbuf =>
    dsimp only
    split
    · rename_i hlt
      exact .silent (.load hp hlt) ((Changed.refl s f).setPop _)
    · rename_i hge
      exact .silent (.loaded hp (Nat.le_of_not_lt hge)) ((Changed.refl s f).setPop _)
  | release rxbuf => exact .returned (.release hp) ((changed_setFree hw hf).setPop _)

end

/-- A turn leaves a FIFO its masks. -/
theorem Turn.wiredTo {v w : View} {given returned : List Message} {f : FifoId n}
    (h : Turn v given returned w) (hw : WiredTo v.fifo f) : WiredTo w.fifo f := by
  cases h with
  | store _ _ | publish _ => exact ⟨hw.setmask, hw.clearmask, hw.primaryTx⟩
  | _ => exact hw

/-- The allocated channels have the masks of their flags, and these exist. -/
structure Ready (s : System n) : Prop where
  wired : s.table.Wired
  firstFree_le : s.table.m_firstFreeChannel ≤ 16

theorem step_firstFree {s t : System n} {m : Move n} {es : List (Event n)}
    (h : step s m = .ok (t, es)) : t.table.m_firstFreeChannel = s.table.m_firstFreeChannel := by
  unfold step at h
  split at h
  · cases m with
    | Push f buf =>
      obtain ⟨rfl, -⟩ := ok_eq h
      simp only [System.callPush]
      repeat' split
      all_goals rfl
    | goPush f =>
      obtain ⟨rfl, -⟩ := ok_eq h
      simp only [System.goPush]
      repeat' split
      all_goals rfl
    | Pop f =>
      obtain ⟨rfl, -⟩ := ok_eq h
      unfold System.callPop
      split <;> rfl
    | goPop f =>
      obtain ⟨rfl, -⟩ := ok_eq h
      simp only [System.goPop]
      repeat' split
      all_goals rfl
  · obtain ⟨rfl, -⟩ := ok_eq h
    rfl

theorem step_turns {s t : System n} {m : Move n} {es : List (Event n)} (hs : Ready s)
    (h : step s m = .ok (t, es)) : Turns s es t ∧ Ready t := by
  have hturns : Turns s es t := by
    unfold step at h
    split at h
    · rename_i hlt
      have hw := hs.wired m.fifo hlt
      have hf := Nat.lt_of_lt_of_le hlt hs.firstFree_le
      cases m with
      | Push f buf =>
        obtain ⟨rfl, rfl⟩ := ok_eq h
        exact callPush_turns s f buf
      | goPush f =>
        obtain ⟨rfl, rfl⟩ := ok_eq h
        exact goPush_turns hw hf
      | Pop f =>
        obtain ⟨rfl, rfl⟩ := ok_eq h
        exact callPop_turns s f
      | goPop f =>
        obtain ⟨rfl, rfl⟩ := ok_eq h
        exact goPop_turns hw hf
    · obtain ⟨rfl, rfl⟩ := ok_eq h
      exact .skip _
  have hfirst := step_firstFree h
  refine ⟨hturns, ?_, by rw [hfirst]; exact hs.firstFree_le⟩
  intro f hf
  rw [hfirst] at hf
  exact (hturns f).wiredTo (hs.wired f hf)

/-! ## Handover -/

/-- The first bytes of the buffer. -/
def UnidirectionalIPCFifo.contents (fifo : UnidirectionalIPCFifo) (size : Nat) : Message :=
  (List.range size).map fifo.m_buffer

/-- What `Pop` would return. -/
def UnidirectionalIPCFifo.message (fifo : UnidirectionalIPCFifo) : Message :=
  fifo.contents fifo.m_writePtr.toNat

theorem contents_succ (fifo : UnidirectionalIPCFifo) (size : Nat) :
    fifo.contents (size + 1) = fifo.contents size ++ [fifo.m_buffer size] := by
  unfold UnidirectionalIPCFifo.contents
  rw [List.range_succ, List.map_append]
  rfl

theorem contents_update (fifo : UnidirectionalIPCFifo) (i : Nat) (x : UInt8) :
    { fifo with m_buffer := Function.update fifo.m_buffer i x }.contents i = fifo.contents i := by
  unfold UnidirectionalIPCFifo.contents
  apply List.map_congr_left
  intro j hj
  exact Function.update_of_ne (Nat.ne_of_lt (List.mem_range.mp hj)) _ _

/-- While `Push` is past its wait, the flag is clear and the buffer fills up. -/
def PushPhase.Holds (v : View) : Prop :=
  match v.push with
  | .idle => True
  | .wait buf => buf.length ≤ v.fifo.m_size.toNat
  | .copy buf i =>
    v.busy = false ∧ buf.length ≤ v.fifo.m_size.toNat ∧ i ≤ buf.length ∧
      v.fifo.contents i = buf.take i
  | .publish buf =>
    v.busy = false ∧ buf.length ≤ v.fifo.m_size.toNat ∧ v.fifo.contents buf.length = buf
  | .mark buf => v.busy = false ∧ v.fifo.message = buf

/-- While `Pop` is past its look at the flag, the flag is set and `rxbuf` fills up. -/
def PopPhase.Holds (v : View) : Prop :=
  match v.pop with
  | .idle | .peek => True
  | .readSize => v.busy = true
  | .copy p rxbuf =>
    v.busy = true ∧ p = v.fifo.m_writePtr ∧ rxbuf.length ≤ p.toNat ∧
      v.fifo.contents rxbuf.length = rxbuf
  | .release rxbuf => v.busy = true ∧ rxbuf = v.fifo.message

/-- The message that a call of `Push` has not handed over yet. -/
def PushPhase.offered : PushPhase → Option Message
  | .idle => none
  | .wait buf | .copy buf _ | .publish buf | .mark buf => some buf

def View.mailbox (v : View) : Mailbox Message :=
  ⟨v.push.offered, if v.busy then some v.fifo.message else none⟩

/-- `Push` does nothing with a message that is too big. -/
def fitting (size : UInt32) (given : List Message) : List Message :=
  given.filter fun buf => buf.length ≤ size.toNat

/-- `Pop` returns an empty message also when there is none. -/
def nonEmpty (msgs : List Message) : List Message := msgs.filter fun buf => buf != []

/-- The FIFO has been the mailbox of the messages given and returned. -/
structure Delivering (size : UInt32) (v : View) (given returned : List Message) : Prop where
  size_eq : v.fifo.m_size = size
  push : PushPhase.Holds v
  pop : PopPhase.Holds v
  history : ∃ takes, Mailbox.Reaches (fitting size given) takes v.mailbox ∧
    nonEmpty takes = nonEmpty returned

section
variable {size : UInt32} {v w : View} {given returned given' returned' : List Message}

/-- While the flag is clear, `Pop` does not depend on the buffer. -/
theorem popHolds_of_clear (h : PopPhase.Holds v) (hv : v.busy = false) (hw : w.pop = v.pop) :
    PopPhase.Holds w := by
  unfold PopPhase.Holds at h ⊢
  rw [hw]
  cases hp : v.pop with
  | idle | peek => trivial
  | readSize => simp [hp, hv] at h
  | copy p rxbuf => simp [hp, hv] at h
  | release rxbuf => simp [hp, hv] at h

/-- While the flag is set, `Push` does not depend on it. -/
theorem pushHolds_of_set (h : PushPhase.Holds v) (hv : v.busy = true)
    (hfifo : w.fifo = v.fifo) (hw : w.push = v.push) : PushPhase.Holds w := by
  unfold PushPhase.Holds at h ⊢
  rw [hw, hfifo]
  cases hp : v.push with
  | idle => trivial
  | wait buf => simpa [hp] using h
  | copy buf i => simp [hp, hv] at h
  | publish buf => simp [hp, hv] at h
  | mark buf => simp [hp, hv] at h

theorem nonEmpty_append (xs ys : List Message) :
    nonEmpty (xs ++ ys) = nonEmpty xs ++ nonEmpty ys := List.filter_append _ _

theorem fitting_append (xs ys : List Message) :
    fitting size (xs ++ ys) = fitting size xs ++ fitting size ys := List.filter_append _ _

/-- A turn that no one outside sees and that keeps the mailbox. -/
theorem Delivering.keep (h : Delivering size v given returned) (hsize : w.fifo.m_size = v.fifo.m_size)
    (hpush : PushPhase.Holds w) (hpop : PopPhase.Holds w) (hmail : w.mailbox = v.mailbox) :
    Delivering size w (given ++ []) (returned ++ []) := by
  rw [List.append_nil, List.append_nil]
  exact ⟨hsize.trans h.size_eq, hpush, hpop, by rw [hmail]; exact h.history⟩

/-- A message that does not fit is not offered. -/
theorem Delivering.refuse {buf : Message} (h : Delivering size v given returned)
    (hbig : v.fifo.m_size.toNat < buf.length) : Delivering size v (given ++ [buf]) returned := by
  obtain ⟨takes, hr, htakes⟩ := h.history
  rw [h.size_eq] at hbig
  have hfit : fitting size (given ++ [buf]) = fitting size given := by
    rw [fitting_append]
    simp [fitting, hbig]
  exact ⟨h.size_eq, h.push, h.pop, takes, by rw [hfit]; exact hr, htakes⟩

/-- One that fits is. -/
theorem Delivering.call {buf : Message} (h : Delivering size v given returned) (hp : v.push = .idle)
    (hfits : buf.length ≤ v.fifo.m_size.toNat) :
    Delivering size { v with push := .wait buf } (given ++ [buf]) returned := by
  obtain ⟨takes, hr, htakes⟩ := h.history
  have hfit : fitting size (given ++ [buf]) = fitting size given ++ [buf] := by
    rw [h.size_eq] at hfits
    rw [fitting_append]
    simp [fitting, hfits]
  have hmail : v.mailbox = ⟨none, v.mailbox.slot⟩ := by simp [View.mailbox, hp, PushPhase.offered]
  rw [hmail] at hr
  exact ⟨h.size_eq, hfits, h.pop, takes, by rw [hfit]; exact hr.offer buf, htakes⟩

/-- The flag puts the message into the slot. -/
theorem Delivering.mark {buf : Message} (h : Delivering size v given returned)
    (hp : v.push = .mark buf) :
    Delivering size { v with busy := true, push := .idle } given returned := by
  obtain ⟨takes, hr, htakes⟩ := h.history
  have hpush := h.push
  unfold PushPhase.Holds at hpush
  simp only [hp] at hpush
  obtain ⟨hfree, hmsg⟩ := hpush
  have hmail : v.mailbox = ⟨some buf, none⟩ := by
    simp [View.mailbox, hp, hfree, PushPhase.offered]
  rw [hmail] at hr
  refine ⟨h.size_eq, trivial, popHolds_of_clear h.pop hfree rfl, takes, ?_, htakes⟩
  show Mailbox.Reaches _ _ ⟨none, some v.fifo.message⟩
  rw [hmsg]
  exact hr.put

/-- Clearing the flag takes it out. -/
theorem Delivering.release {rxbuf : Message} (h : Delivering size v given returned)
    (hp : v.pop = .release rxbuf) :
    Delivering size { v with busy := false, pop := .idle } given (returned ++ [rxbuf]) := by
  obtain ⟨takes, hr, htakes⟩ := h.history
  have hpop := h.pop
  unfold PopPhase.Holds at hpop
  simp only [hp] at hpop
  obtain ⟨hbusy, hmsg⟩ := hpop
  have hmail : v.mailbox = ⟨v.push.offered, some rxbuf⟩ := by
    simp [View.mailbox, hbusy, hmsg]
  rw [hmail] at hr
  refine ⟨h.size_eq, pushHolds_of_set h.push hbusy rfl rfl, trivial, takes ++ [rxbuf], hr.take, ?_⟩
  rw [nonEmpty_append, nonEmpty_append, htakes]

/-- A `Pop` that found nothing returns a message without content. -/
theorem Delivering.nothing (h : Delivering size v given returned) :
    Delivering size { v with pop := .idle } given (returned ++ [[]]) := by
  obtain ⟨takes, hr, htakes⟩ := h.history
  refine ⟨h.size_eq, h.push, trivial, takes, hr, ?_⟩
  rw [nonEmpty_append, htakes]
  exact (List.append_nil _).symm

/-- **Step lemma.** Each turn keeps to the mailbox. -/
theorem Delivering.turn (h : Delivering size v given returned) (ht : Turn v given' returned' w) :
    Delivering size w (given ++ given') (returned ++ returned') := by
  have hpush := h.push
  have hpop := h.pop
  unfold PushPhase.Holds at hpush
  cases ht with
  | skip => exact h.keep rfl h.push h.pop rfl
  | refuse hp hbig =>
    rw [List.append_nil]
    exact h.refuse hbig
  | call hp hfits =>
    rw [List.append_nil]
    exact h.call hp hfits
  | @enter buf hp hfree =>
    simp only [hp] at hpush
    have hmail : View.mailbox { v with push := .copy buf 0 } = v.mailbox := by
      simp [View.mailbox, hp, PushPhase.offered]
    exact h.keep rfl ⟨hfree, hpush, Nat.zero_le _, rfl⟩ hpop hmail
  | @store buf i hi hp =>
    simp only [hp] at hpush
    obtain ⟨hfree, hfits, -, hcopied⟩ := hpush
    refine h.keep rfl ⟨hfree, hfits, hi, ?_⟩ (popHolds_of_clear hpop hfree rfl) ?_
    · rw [contents_succ, contents_update, hcopied]
      simp
    · simp [View.mailbox, hp, hfree, PushPhase.offered]
  | @stored buf i hp hi =>
    simp only [hp] at hpush
    obtain ⟨hfree, hfits, hle, hcopied⟩ := hpush
    have hall : i = buf.length := Nat.le_antisymm hle hi
    refine h.keep rfl ⟨hfree, hfits, ?_⟩ hpop ?_
    · show v.fifo.contents buf.length = buf
      rw [← hall, hcopied, hall, List.take_length]
    · simp [View.mailbox, hp, PushPhase.offered]
  | @publish buf hp =>
    simp only [hp] at hpush
    obtain ⟨hfree, hfits, hcopied⟩ := hpush
    refine h.keep rfl ⟨hfree, ?_⟩ (popHolds_of_clear hpop hfree rfl) ?_
    · have hlt : buf.length < 2 ^ 32 := Nat.lt_of_le_of_lt hfits (UInt32.toNat_lt _)
      show v.fifo.contents (UInt32.ofNat buf.length).toNat = buf
      rw [UInt32.toNat_ofNat_of_lt' hlt, hcopied]
    · simp [View.mailbox, hp, hfree, PushPhase.offered]
  | mark hp =>
    rw [List.append_nil, List.append_nil]
    exact h.mark hp
  | ask hp => exact h.keep rfl h.push trivial rfl
  | nothing hp =>
    rw [List.append_nil]
    exact h.nothing
  | ready hp hbusy => exact h.keep rfl h.push hbusy rfl
  | readSize hp =>
    unfold PopPhase.Holds at hpop
    simp only [hp] at hpop
    exact h.keep rfl h.push ⟨hpop, rfl, Nat.zero_le _, rfl⟩ rfl
  | @load p rxbuf hp hlt =>
    unfold PopPhase.Holds at hpop
    simp only [hp] at hpop
    obtain ⟨hbusy, hsize, -, hcopied⟩ := hpop
    refine h.keep rfl h.push ⟨hbusy, hsize, ?_, ?_⟩ rfl
    · rw [List.length_append]
      exact hlt
    · rw [List.length_append]
      show v.fifo.contents (rxbuf.length + 1) = _
      rw [contents_succ, hcopied]
  | @loaded p rxbuf hp hge =>
    unfold PopPhase.Holds at hpop
    simp only [hp] at hpop
    obtain ⟨hbusy, hsize, hle, hcopied⟩ := hpop
    refine h.keep rfl h.push ⟨hbusy, ?_⟩ rfl
    have hall : rxbuf.length = v.fifo.m_writePtr.toNat := by
      rw [← hsize]
      exact Nat.le_antisymm hle hge
    show rxbuf = v.fifo.contents v.fifo.m_writePtr.toNat
    rw [← hall, hcopied]
  | release hp =>
    rw [List.append_nil]
    exact h.release hp

end

/-! ## Runs -/

theorem ready_boot {buffers : List Buffers} (hn : min n buffers.length ≤ 16) :
    Ready (.boot n buffers) := by
  refine ⟨IPCDescriptorTable.wired_empty.allocated buffers, ?_⟩
  have h := IPCDescriptorTable.allocated_firstFree (t := .empty n) buffers (Nat.zero_le n)
  show (buffers.foldl IPCDescriptorTable.AllocateChannel (.empty n)).m_firstFreeChannel ≤ 16
  rw [h]
  show min n (0 + buffers.length) ≤ 16
  rwa [Nat.zero_add]

theorem delivering_boot (buffers : List Buffers) (f : FifoId n) :
    Delivering ((System.boot n buffers).table.fifo f).m_size ((System.boot n buffers).view f)
      [] [] := by
  have hflag : (System.boot n buffers).ipcc.flag f = false := by
    unfold IPCC.flag IPCC.word System.boot
    cases f.primary <;> exact BitVec.getLsbD_zero
  refine ⟨rfl, trivial, trivial, [], ?_, rfl⟩
  have hmail : ((System.boot n buffers).view f).mailbox = .empty := by
    unfold View.mailbox System.view
    rw [hflag]
    rfl
  rw [hmail]
  exact .start

/-- The messages handed over or on offer, oldest first. -/
def System.underWay (s : System n) (f : FifoId n) : List Message :=
  (s.view f).mailbox.slot.toList ++ (s.view f).mailbox.offered.toList

/-- **Messages arrive.** Whatever the order of the cores' accesses, what a FIFO's
`Pop` has returned, and then what is under way, is what was given to its `Push`. -/
theorem push_delivered {buffers : List Buffers} (hn : min n buffers.length ≤ 16)
    {moves : List (Move n)} {s : System n} {log : List (Event n)}
    (hr : run step (.boot n buffers) moves = .ok (s, log)) (f : FifoId n) :
    nonEmpty (returnedBy f log) <+:
        nonEmpty (fitting ((System.boot n buffers).table.fifo f).m_size (givenTo f log)) ∧
      nonEmpty (fitting ((System.boot n buffers).table.fifo f).m_size (givenTo f log)) =
        nonEmpty (returnedBy f log) ++ nonEmpty (s.underWay f) := by
  let size := ((System.boot n buffers).table.fifo f).m_size
  have hJ := run_rule (C := fun _ _ => True)
    (J := fun t log _ => Ready t ∧ Delivering size (t.view f) (givenTo f log) (returnedBy f log))
    (l := []) (b := [])
    (fun t log as m u es h _ hu => by
      obtain ⟨hturns, hready⟩ := step_turns h.1 hu
      have hd := h.2.turn (hturns f)
      refine ⟨hready, ?_⟩
      simpa [givenTo, returnedBy] using hd)
    ⟨ready_boot hn, delivering_boot buffers f⟩ (allSteps_true _ moves) hr
  obtain ⟨takes, hreach, htakes⟩ := hJ.2.history
  have heq := congrArg nonEmpty hreach.offers_eq
  rw [nonEmpty_append, htakes] at heq
  refine ⟨?_, heq⟩
  show nonEmpty (returnedBy f log) <+: nonEmpty (fitting size (givenTo f log))
  exact ⟨_, heq.symm⟩

/-- A message each way, the cores taking turns, and one that is too big. -/
def talk : List (Move 2) :=
  let a : FifoId 2 := ⟨0, true⟩
  let b : FifoId 2 := ⟨1, false⟩
  [.Push a [7, 8], .Push b [9], .Push b [1, 2, 3], .Pop a, .goPush a, .goPop a, .goPush b, .goPush a,
    .goPush b, .goPush a, .goPush a, .Pop b, .goPush b, .goPush a, .goPush b, .Pop a, .goPush a,
    .goPush b, .goPop a, .goPop b, .goPop b, .Push a [5], .goPop a, .goPush a, .goPop a, .goPop b,
    .goPop a, .goPop b, .goPop a, .goPop b, .goPop a, .goPush a]

def talkBuffers : List Buffers := [⟨fun _ => 0, 4, fun _ => 0, 4⟩, ⟨fun _ => 0, 2, fun _ => 0, 2⟩]

theorem push_delivered_talk : ∃ s log, run step (.boot 2 talkBuffers) talk = .ok (s, log) ∧
    returnedBy ⟨0, true⟩ log = [[], [7, 8]] ∧
      nonEmpty (fitting ((System.boot 2 talkBuffers).table.fifo ⟨0, true⟩).m_size
        (givenTo ⟨0, true⟩ log)) = [[7, 8]] ++ nonEmpty (s.underWay ⟨0, true⟩) := by
  obtain ⟨⟨s, log⟩, hr, hp⟩ := exists_of_returns
    (P := fun r => returnedBy ⟨0, true⟩ r.2 == [[], [7, 8]])
    (r := run step (.boot 2 talkBuffers) talk) (by decide +kernel)
  have hret : returnedBy ⟨0, true⟩ log = [[], [7, 8]] := by simpa using hp
  have h := (push_delivered (by decide) hr ⟨0, true⟩).2
  rw [hret] at h
  exact ⟨s, log, hr, hret, h⟩

end EmbeddedPlatform.Multicore
