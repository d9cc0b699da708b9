import EmbeddedPlatform.Lib.Liveness
import EmbeddedPlatform.Multicore.Delivery

/-! # Messages between two cores arrive in time

`Delivery` says that what is returned is what was given. Here it is shown that it is
returned: if the pusher goes on, and the popper asks and goes on, neither waits for
ever, whatever else the cores do in between. -/
namespace EmbeddedPlatform.Multicore
open EmbeddedPlatform.Lib

variable {n : Nat} {s t : System n} {f : FifoId n} {v w : View}

/-! ## What a move does to its FIFO -/

namespace View

def callPush (v : View) (buf : List UInt8) : View :=
  match v.push with
  | .idle => if v.fifo.m_size.toNat < buf.length then v else { v with push := .wait buf }
  | _ => v

def goPush (v : View) : View :=
  match v.push with
  | .idle => v
  | .wait buf => if v.busy then v else { v with push := .copy buf 0 }
  | .copy buf i =>
    if h : i < buf.length then
      { v with
        fifo := { v.fifo with m_buffer := Function.update v.fifo.m_buffer i buf[i] }
        push := .copy buf (i + 1) }
    else { v with push := .publish buf }
  | .publish buf =>
    { v with fifo := { v.fifo with m_writePtr := .ofNat buf.length }, push := .mark buf }
  | .mark _ => { v with busy := true, push := .idle }

def callPop (v : View) : View :=
  match v.pop with
  | .idle => { v with pop := .peek }
  | _ => v

def goPop (v : View) : View :=
  match v.pop with
  | .idle => v
  | .peek => if v.busy then { v with pop := .readSize } else { v with pop := .idle }
  | .readSize => { v with pop := .copy v.fifo.m_writePtr [] }
  | .copy p rxbuf =>
    if rxbuf.length < p.toNat then
      { v with pop := .copy p (rxbuf ++ [v.fifo.m_buffer rxbuf.length]) }
    else { v with pop := .release rxbuf }
  | .release _ => { v with busy := false, pop := .idle }

def move (v : View) : Move n → View
  | .Push _ buf => v.callPush buf
  | .goPush _ => v.goPush
  | .Pop _ => v.callPop
  | .goPop _ => v.goPop

end View

theorem callPush_changed (s : System n) (f : FifoId n) (buf : List UInt8) :
    Changed s f ((s.view f).callPush buf) (s.callPush f buf).1 := by
  unfold System.callPush View.callPush
  show Changed s f (match s.push f with | .idle => _ | _ => _) _
  cases hp : s.push f with
  | idle =>
    show Changed s f (if (s.table.fifo f).m_size.toNat < buf.length then _ else _) _
    dsimp only
    split
    · exact .refl s f
    · exact changed_setPush s f _
  | wait | copy | publish | mark => exact .refl s f

theorem goPush_changed (hw : WiredTo (s.table.fifo f) f) (hf : f.channel.val < 16) :
    Changed s f (s.view f).goPush (s.goPush f) := by
  unfold System.goPush View.goPush
  show Changed s f (match s.push f with
    | .idle => _ | .wait _ => _ | .copy _ _ => _ | .publish _ => _ | .mark _ => _) _
  cases hp : s.push f with
  | idle => exact .refl s f
  | wait buf =>
    show Changed s f (if s.ipcc.flag f = true then _ else _) (if _ then _ else _)
    rw [hw.isFree hf]
    cases s.ipcc.flag f with
    | true => exact .refl s f
    | false => exact changed_setPush s f _
  | copy buf i =>
    dsimp only
    split
    · exact (changed_setFifo s f _).setPush _
    · exact changed_setPush s f _
  | publish buf => exact (changed_setFifo s f _).setPush _
  | mark buf => exact (changed_setBusy hw hf).setPush _

theorem callPop_changed (s : System n) (f : FifoId n) :
    Changed s f (s.view f).callPop (s.callPop f) := by
  unfold System.callPop View.callPop
  show Changed s f (match s.pop f with | .idle => _ | _ => _) _
  cases hp : s.pop f with
  | idle => exact changed_setPop s f _
  | peek | readSize | copy | release => exact .refl s f

theorem goPop_changed (hw : WiredTo (s.table.fifo f) f) (hf : f.channel.val < 16) :
    Changed s f (s.view f).goPop (s.goPop f).1 := by
  unfold System.goPop View.goPop
  show Changed s f (match s.pop f with
    | .idle => _ | .peek => _ | .readSize => _ | .copy _ _ => _ | .release _ => _) _
  cases hp : s.pop f with
  | idle => exact .refl s f
  | peek =>
    show Changed s f (if s.ipcc.flag f = true then _ else _)
      (if (s.table.fifo f).Peek s.ipcc = true then (_, _) else (_, _) : System n × List (Event n)).1
    unfold UnidirectionalIPCFifo.Peek
    rw [hw.isFree hf, Bool.not_not]
    cases s.ipcc.flag f with
    | true => exact changed_setPop s f _
    | false => exact changed_setPop s f _
  | readSize => exact changed_setPop s f _
  | copy p rxbuf =>
    dsimp only
    split
    · exact changed_setPop s f _
    · exact changed_setPop s f _
  | release rxbuf => exact (changed_setFree hw hf).setPop _

/-- A move is made at its own FIFO and nowhere else. -/
theorem step_view {m : Move n} {es : List (Event n)} (hs : Ready s)
    (hf : f.channel.val < s.table.m_firstFreeChannel) (h : step s m = .ok (t, es)) :
    t.view f = if f = m.fifo then (s.view f).move m else s.view f := by
  unfold step at h
  split at h
  · rename_i hlt
    have hw := hs.wired m.fifo hlt
    have hf := Nat.lt_of_lt_of_le hlt hs.firstFree_le
    have hchanged : Changed s m.fifo ((s.view m.fifo).move m) t := by
      cases m with
      | Push g buf =>
        obtain ⟨rfl, -⟩ := ok_eq h
        exact callPush_changed s g buf
      | goPush g =>
        obtain ⟨rfl, -⟩ := ok_eq h
        exact goPush_changed hw hf
      | Pop g =>
        obtain ⟨rfl, -⟩ := ok_eq h
        exact callPop_changed s g
      | goPop g =>
        obtain ⟨rfl, -⟩ := ok_eq h
        exact goPop_changed hw hf
    rw [hchanged f]
    split
    · rename_i heq
      rw [heq]
    · rfl
  · rename_i hge
    obtain ⟨rfl, -⟩ := ok_eq h
    have hne : f ≠ m.fifo := by
      intro heq
      rw [← heq] at hge
      exact hge hf
    rw [if_neg hne]

/-! ## How much is left -/

/-- Steps of `Pop` until the flag is cleared, with `size` bytes in the buffer. -/
def PopPhase.left (size : Nat) : PopPhase → Nat
  | .idle => size + 5
  | .peek => size + 4
  | .readSize => size + 3
  | .copy p rxbuf => p.toNat - rxbuf.length + 2
  | .release _ => 1

/-- Steps of `Push` until the flag is set, and then those of `Pop`. -/
def PushPhase.left : PushPhase → Nat
  | .idle => 0
  | .wait buf => buf.length + buf.length + 9
  | .copy buf i => buf.length - i + buf.length + 8
  | .publish buf => buf.length + 7
  | .mark buf => buf.length + 6

/-- How much is left until a message is taken out. -/
def View.left (v : View) : Nat :=
  if v.busy then v.pop.left v.fifo.m_writePtr.toNat else v.push.left

/-- The move that goes on with it. -/
def View.needs (v : View) (f : FifoId n) : Move n :=
  if v.busy then
    match v.pop with
    | .idle => .Pop f
    | _ => .goPop f
  else .goPush f

/-- Messages that are in the buffer or on offer. -/
def View.pending (v : View) : Nat :=
  (if v.busy then 1 else 0) + if v.push.offered.isSome then 1 else 0

theorem pending_eq (s : System n) (f : FifoId n) : (s.underWay f).length = (s.view f).pending := by
  unfold System.underWay View.pending View.mailbox
  rw [List.length_append]
  cases (s.view f).busy <;> cases (s.view f).push <;> rfl

/-- A turn takes a message out or leaves the balance as it is. -/
theorem Turn.balance {given returned : List Message} (h : Turn v given returned w)
    (hpush : PushPhase.Holds v) (hpop : PopPhase.Holds v) :
    (fitting v.fifo.m_size given).length + v.pending = w.pending ∨
      (fitting v.fifo.m_size given).length + v.pending = w.pending + 1 := by
  unfold PushPhase.Holds at hpush
  unfold PopPhase.Holds at hpop
  cases h with
  | skip => exact .inl (Nat.zero_add _)
  | @refuse buf hp hbig =>
    have hfit : fitting v.fifo.m_size [buf] = [] := by
      simp [fitting, hbig]
    rw [hfit]
    exact .inl (Nat.zero_add _)
  | @call buf hp hfits =>
    have hfit : fitting v.fifo.m_size [buf] = [buf] := by
      simp [fitting, hfits]
    rw [hfit]
    refine .inl ?_
    simp only [View.pending, hp, PushPhase.offered, List.length_singleton]
    simp [Nat.add_comm]
  | enter hp | store hi hp | stored hp | publish hp =>
    refine .inl ?_
    simp [View.pending, hp, PushPhase.offered, fitting]
  | mark hp =>
    rw [hp] at hpush
    refine .inl ?_
    simp [View.pending, hp, hpush.1, PushPhase.offered, fitting]
  | ask | nothing | ready | readSize | load | loaded => exact .inl (Nat.zero_add _)
  | release hp =>
    rw [hp] at hpop
    refine .inr ?_
    simp [View.pending, hpop.1, fitting, Nat.add_comm]

/-- Nothing is given to a `Push` that is under way. -/
theorem Turn.given_nil {given returned : List Message} (h : Turn v given returned w)
    (hp : v.push ≠ .idle) : given = [] := by
  cases h with
  | refuse hidle _ | call hidle _ => exact absurd hidle hp
  | _ => rfl

/-! ## Progress at one FIFO -/

/-- A message in the buffer is taken out step by step. -/
theorem pop_progress (hbusy : v.busy = true) :
    (v.move (v.needs f)).left < v.left ∨ (v.move (v.needs f)).pending < v.pending := by
  unfold View.needs
  rw [hbusy, if_pos rfl]
  cases hp : v.pop with
  | idle =>
    refine .inl ?_
    simp [View.move, View.callPop, View.left, hp, hbusy, PopPhase.left]
  | peek | readSize =>
    refine .inl ?_
    simp [View.move, View.goPop, View.left, hp, hbusy, PopPhase.left]
  | copy p rxbuf =>
    refine .inl ?_
    simp only [View.move, View.goPop, View.left, hp, hbusy, if_true, PopPhase.left]
    split
    · rename_i hlt
      simp only [if_true, List.length_append, List.length_singleton]
      omega
    · simp only [if_true]
      omega
  | release rxbuf =>
    refine .inr ?_
    simp [View.move, View.goPop, View.pending, hp, hbusy]

/-- A message on offer is put into the buffer step by step. -/
theorem push_progress (hpush : PushPhase.Holds v) (hpop : PopPhase.Holds v)
    (hbusy : v.busy = false) (hoffer : v.push ≠ .idle) :
    (v.move (v.needs f)).left < v.left := by
  unfold PushPhase.Holds at hpush
  unfold PopPhase.Holds at hpop
  unfold View.needs
  rw [hbusy, if_neg Bool.false_ne_true]
  cases hp : v.push with
  | idle => exact absurd hp hoffer
  | wait buf =>
    simp only [View.move, View.goPush, View.left, hp, hbusy, Bool.false_eq_true, if_false,
      PushPhase.left]
    omega
  | copy buf i =>
    simp only [View.move, View.goPush, View.left, hp, hbusy, Bool.false_eq_true, if_false,
      PushPhase.left]
    split
    · simp only [Bool.false_eq_true, if_false]
      omega
    · simp only [Bool.false_eq_true, if_false]
      omega
  | publish buf =>
    simp only [View.move, View.goPush, View.left, hp, hbusy, Bool.false_eq_true, if_false,
      PushPhase.left]
    omega
  | mark buf =>
    -- from here on it is `Pop` that has something to do
    rw [hp] at hpush
    have hsize : v.fifo.m_writePtr.toNat = buf.length := by
      have hlength := congrArg List.length hpush.2
      unfold UnidirectionalIPCFifo.message UnidirectionalIPCFifo.contents at hlength
      rwa [List.length_map, List.length_range] at hlength
    simp only [View.move, View.goPush, View.left, hp, hbusy, Bool.false_eq_true, if_false, if_true,
      PushPhase.left, hsize]
    cases hpp : v.pop with
    | idle | peek =>
      simp only [PopPhase.left]
      omega
    | readSize | copy | release =>
      rw [hpp, hbusy] at hpop
      simp at hpop

theorem offering_of_pending (hbusy : v.busy = false) (hpending : v.pending ≠ 0) :
    v.push ≠ .idle := by
  intro hp
  simp [View.pending, hbusy, hp, PushPhase.offered] at hpending

/-- With something pending, the move that is needed takes a message out or leaves less
to do. -/
theorem needs_progress (hpush : PushPhase.Holds v) (hpop : PopPhase.Holds v)
    (hpending : v.pending ≠ 0) :
    (v.move (v.needs f)).left < v.left ∨ (v.move (v.needs f)).pending < v.pending := by
  cases hbusy : v.busy with
  | true => exact pop_progress hbusy
  | false => exact .inl (push_progress hpush hpop hbusy (offering_of_pending hbusy hpending))

/-! ## Moves that have to wait -/

theorem callPush_underWay (hp : v.push ≠ .idle) (buf : List UInt8) : v.callPush buf = v := by
  unfold View.callPush
  split
  · rename_i hidle
    exact absurd hidle hp
  · rfl

theorem goPush_full (hpush : PushPhase.Holds v) (hbusy : v.busy = true) : v.goPush = v := by
  unfold PushPhase.Holds at hpush
  unfold View.goPush
  cases hp : v.push with
  | idle => rfl
  | wait buf => exact if_pos hbusy
  | copy buf i | publish buf | mark buf =>
    rw [hp, hbusy] at hpush
    simp at hpush

theorem callPop_underWay (hp : v.pop ≠ .idle) : v.callPop = v := by
  unfold View.callPop
  split
  · rename_i hidle
    exact absurd hidle hp
  · rfl

theorem goPop_idle (hp : v.pop = .idle) : v.goPop = v := by
  unfold View.goPop
  rw [hp]

/-- Another move than `goPop` or `Pop`, whichever is needed, takes nothing out. -/
theorem pop_keeps {m : Move n} (hm : m.fifo = f) (hne : m ≠ v.needs f)
    (hpush : PushPhase.Holds v) (hbusy : v.busy = true) :
    (v.move m).left = v.left ∧ (v.move m).needs f = v.needs f := by
  unfold View.needs at hne
  rw [hbusy, if_pos rfl] at hne
  cases m with
  | Push g buf =>
    simp only [View.move, View.callPush]
    split
    · split <;> simp [View.left, View.needs, hbusy]
    · exact ⟨rfl, rfl⟩
  | goPush g =>
    show v.goPush.left = v.left ∧ v.goPush.needs f = v.needs f
    rw [goPush_full hpush hbusy]
    exact ⟨rfl, rfl⟩
  | Pop g =>
    obtain rfl : g = f := hm
    have hunderWay : v.pop ≠ .idle := by
      intro hp
      rw [hp] at hne
      exact hne rfl
    show v.callPop.left = v.left ∧ v.callPop.needs g = v.needs g
    rw [callPop_underWay hunderWay]
    exact ⟨rfl, rfl⟩
  | goPop g =>
    obtain rfl : g = f := hm
    have hidle : v.pop = .idle := by
      by_contra hp
      refine hne ?_
      split
      · rename_i hpop
        exact absurd hpop hp
      · rfl
    show v.goPop.left = v.left ∧ v.goPop.needs g = v.needs g
    rw [goPop_idle hidle]
    exact ⟨rfl, rfl⟩

/-- Another move than `goPush` puts nothing in. -/
theorem push_keeps {m : Move n} (hm : m.fifo = f) (hne : m ≠ v.needs f)
    (hpop : PopPhase.Holds v) (hbusy : v.busy = false) (hoffer : v.push ≠ .idle) :
    (v.move m).left = v.left ∧ (v.move m).needs f = v.needs f := by
  unfold PopPhase.Holds at hpop
  unfold View.needs at hne
  rw [hbusy, if_neg Bool.false_ne_true] at hne
  cases m with
  | Push g buf =>
    show (v.callPush buf).left = v.left ∧ (v.callPush buf).needs f = v.needs f
    rw [callPush_underWay hoffer]
    exact ⟨rfl, rfl⟩
  | goPush g =>
    obtain rfl : g = f := hm
    exact absurd rfl hne
  | Pop g =>
    simp only [View.move, View.callPop]
    split <;> simp [View.left, View.needs, hbusy]
  | goPop g =>
    simp only [View.move, View.goPop]
    cases hp : v.pop with
    | idle => exact ⟨rfl, rfl⟩
    | peek => simp [View.left, View.needs, hbusy]
    | readSize | copy | release =>
      rw [hp, hbusy] at hpop
      simp at hpop

/-- Any other move leaves what is to do, and what is needed for it. -/
theorem other_keeps {m : Move n} (hm : m.fifo = f) (hne : m ≠ v.needs f) (hpush : PushPhase.Holds v)
    (hpop : PopPhase.Holds v) (hpending : v.pending ≠ 0) :
    (v.move m).left = v.left ∧ (v.move m).needs f = v.needs f := by
  cases hbusy : v.busy with
  | true => exact pop_keeps hm hne hpush hbusy
  | false => exact push_keeps hm hne hpop hbusy (offering_of_pending hbusy hpending)

/-! ## Endless runs -/

theorem step_total (s : System n) (m : Move n) : ∃ t es, step s m = .ok (t, es) := by
  cases h : step s m with
  | ok r => exact ⟨r.1, r.2, rfl⟩
  | error e => exact e.elim

/-- A FIFO in use, with the events so far. -/
structure Flowing (size : UInt32) (f : FifoId n) (p : System n × List (Event n)) : Prop where
  ready : Ready p.1
  allocated : f.channel.val < p.1.table.m_firstFreeChannel
  delivering : Delivering size (p.1.view f) (givenTo f p.2) (returnedBy f p.2)

/-- The messages that were given and fit. -/
def offers (size : UInt32) (f : FifoId n) (p : System n × List (Event n)) : List Message :=
  fitting size (givenTo f p.2)

/-- How many of them have been taken out. -/
def arrived (size : UInt32) (f : FifoId n) (p : System n × List (Event n)) : Nat :=
  (offers size f p).length - (p.1.view f).pending

section
variable {size : UInt32} {p : System n × List (Event n)} {c : Nat}

/-- Those that have been taken out come first. -/
theorem Flowing.taken (h : Flowing size f p) : ∃ takes, takes <+: offers size f p ∧
    nonEmpty takes = nonEmpty (returnedBy f p.2) ∧ takes.length = arrived size f p ∧
    takes.length + (p.1.view f).pending = (offers size f p).length := by
  obtain ⟨takes, hreach, htakes⟩ := h.delivering.history
  have heq : offers size f p = takes ++ p.1.underWay f := hreach.offers_eq
  have hlength := congrArg List.length heq
  rw [List.length_append, pending_eq] at hlength
  refine ⟨takes, ⟨_, heq.symm⟩, htakes, ?_, hlength.symm⟩
  unfold arrived
  omega

/-- **Step lemma.** A FIFO stays in use, and at most one message is taken out. -/
theorem Flowing.proceed (h : Flowing size f p) (m : Move n) :
    Flowing size f (proceed step p m) ∧
      ((proceed step p m).1.view f = if f = m.fifo then (p.1.view f).move m else p.1.view f) ∧
      p.2 <+: (proceed step p m).2 ∧
      (arrived size f (proceed step p m) = arrived size f p ∧
          (p.1.view f).pending ≤ ((proceed step p m).1.view f).pending ∨
        arrived size f (proceed step p m) = arrived size f p + 1) := by
  obtain ⟨t, es, hstep⟩ := step_total p.1 m
  obtain ⟨hturns, hready⟩ := step_turns h.ready hstep
  have hdelivering := h.delivering.turn (hturns f)
  have hbalance := (hturns f).balance h.delivering.push h.delivering.pop
  obtain ⟨takes, -, -, -, hcount⟩ := h.taken
  rw [proceed_ok hstep]
  have hgiven : givenTo f (p.2 ++ es) = givenTo f p.2 ++ givenTo f es := List.filterMap_append
  have hreturned : returnedBy f (p.2 ++ es) = returnedBy f p.2 ++ returnedBy f es :=
    List.filterMap_append
  refine ⟨⟨hready, ?_, ?_⟩, step_view h.ready h.allocated hstep, ⟨es, rfl⟩, ?_⟩
  · show f.channel.val < t.table.m_firstFreeChannel
    rw [step_firstFree hstep]
    exact h.allocated
  · show Delivering size (t.view f) (givenTo f (p.2 ++ es)) (returnedBy f (p.2 ++ es))
    rw [hgiven, hreturned]
    exact hdelivering
  · have hoffers : (offers size f (t, p.2 ++ es)).length =
        (offers size f p).length + (fitting size (givenTo f es)).length := by
      unfold offers
      rw [hgiven, fitting_append, List.length_append]
    rw [h.delivering.size_eq] at hbalance
    unfold arrived
    rw [hoffers]
    show _ - (t.view f).pending = _ ∧ _ ≤ (t.view f).pending ∨ _ - (t.view f).pending = _
    omega

/-- With more given than taken out, something is pending. -/
theorem Flowing.pending_ne (h : Flowing size f p) (hgiven : c < (offers size f p).length)
    (hgoal : ¬ c < arrived size f p) : (p.1.view f).pending ≠ 0 := by
  obtain ⟨takes, -, -, hlength, hcount⟩ := h.taken
  omega

/-- The popper and the pusher go on, again and again. -/
structure Fair (f : FifoId n) (schedule : Nat → Move n) : Prop where
  goPush : ∀ k, ∃ j, k ≤ j ∧ schedule j = .goPush f
  Pop : ∀ k, ∃ j, k ≤ j ∧ schedule j = .Pop f
  goPop : ∀ k, ∃ j, k ≤ j ∧ schedule j = .goPop f

theorem Fair.needs {schedule : Nat → Move n} (h : Fair f schedule) (v : View) (k : Nat) :
    ∃ j, k ≤ j ∧ schedule j = v.needs f := by
  unfold View.needs
  split
  · split
    · exact h.Pop k
    · exact h.goPop k
  · exact h.goPush k

/-- With more than `c` messages given, more than `c` are taken out in the end. -/
theorem flowing_progress (size : UInt32) (f : FifoId n) (c : Nat) :
    Progress (proceed step)
      (fun p => Flowing size f p ∧ c < (offers size f p).length ∧ c ≤ arrived size f p)
      (fun p => c < arrived size f p) (fun p m => m = (p.1.view f).needs f)
      (fun p => (p.1.view f).left) where
  keeps p m := by
    rintro ⟨hflow, hgiven, harrived⟩
    obtain ⟨hflow', -, ⟨es, hlog⟩, hbalance⟩ := hflow.proceed m
    refine ⟨hflow', ?_, by omega⟩
    unfold offers at hgiven ⊢
    rw [← hlog]
    have hsplit : givenTo f (p.2 ++ es) = givenTo f p.2 ++ givenTo f es := List.filterMap_append
    rw [hsplit, fitting_append, List.length_append]
    omega
  helped p m := by
    rintro ⟨hflow, hgiven, harrived⟩ hgoal rfl
    obtain ⟨-, hview, -, hbalance⟩ := hflow.proceed ((p.1.view f).needs f)
    have hfifo : f = ((p.1.view f).needs f).fifo := by
      unfold View.needs
      split
      · split <;> rfl
      · rfl
    rw [if_pos hfifo] at hview
    have hpending := hflow.pending_ne hgiven hgoal
    rcases needs_progress (f := f) hflow.delivering.push hflow.delivering.pop hpending with hl | hl
    · rw [← hview] at hl
      exact .inr hl
    · rw [← hview] at hl
      omega
  other p m := by
    rintro ⟨hflow, hgiven, harrived⟩ hgoal hne
    obtain ⟨-, hview, -, -⟩ := hflow.proceed m
    have hpending := hflow.pending_ne hgiven hgoal
    refine .inr (.inr ?_)
    rw [hview]
    split
    · rename_i hfifo
      obtain ⟨hleft, hneeds⟩ := other_keeps hfifo.symm hne hflow.delivering.push
        hflow.delivering.pop hpending
      exact ⟨hleft, fun b hb => hb.trans hneeds.symm⟩
    · exact ⟨rfl, fun b hb => hb⟩

end

theorem offers_mono (size : UInt32) {p p' : System n × List (Event n)} (h : p.2 <+: p'.2) :
    offers size f p <+: offers size f p' :=
  (h.filterMap _).filter _

/-- An endless run, at the channels: at each time one access or none. -/
structure Course (size : UInt32) (f : FifoId n) (x : Nat → System n × List (Event n)) : Prop where
  start : Flowing size f (x 0)
  moves : ∀ k, x (k + 1) = x k ∨ ∃ m, x (k + 1) = proceed step (x k) m

/-- If there is a message to take out, one is in the end. -/
def Served (size : UInt32) (f : FifoId n) (x : Nat → System n × List (Event n)) : Prop :=
  ∀ c k, c < (offers size f (x k)).length → c ≤ arrived size f (x k) →
    ∃ j, k ≤ j ∧ c < arrived size f (x j)

section
variable {size : UInt32} {x : Nat → System n × List (Event n)} {k j c : Nat}

theorem Course.flowing (h : Course size f x) (k : Nat) : Flowing size f (x k) := by
  induction k with
  | zero => exact h.start
  | succ k ih =>
    obtain heq | ⟨m, heq⟩ := h.moves k
    · rwa [heq]
    · rw [heq]
      exact (ih.proceed m).1

theorem Course.mono (h : Course size f x) (hj : k ≤ j) : (x k).2 <+: (x j).2 := by
  induction hj with
  | refl => exact List.prefix_refl _
  | @step j _ ih =>
    obtain heq | ⟨m, heq⟩ := h.moves j
    · rwa [heq]
    · rw [heq]
      exact ih.trans ((h.flowing j).proceed m).2.2.1

/-- As many messages as are given are taken out in the end. -/
theorem Course.arrived_eventually (h : Course size f x) (hserved : Served size f x)
    (hc : c ≤ (offers size f (x k)).length) : ∃ j, k ≤ j ∧ c ≤ arrived size f (x j) := by
  induction c with
  | zero => exact ⟨k, Nat.le_refl k, Nat.zero_le _⟩
  | succ c ih =>
    obtain ⟨i, hi, hgot⟩ := ih (Nat.le_of_succ_le hc)
    have hmore := (offers_mono size (f := f) (h.mono hi)).length_le
    obtain ⟨j, hj, hgoal⟩ := hserved c i (Nat.lt_of_lt_of_le hc hmore) hgot
    exact ⟨j, Nat.le_trans hi hj, hgoal⟩

/-- What has been given is returned in the end. -/
theorem Course.delivered (h : Course size f x) (hserved : Served size f x) (k : Nat) : ∃ j, k ≤ j ∧
    nonEmpty (offers size f (x k)) <+: nonEmpty (returnedBy f (x j).2) := by
  obtain ⟨j, hj, harrived⟩ := h.arrived_eventually hserved (Nat.le_refl (offers size f (x k)).length)
  obtain ⟨takes, hprefix, htakes, hlength, -⟩ := (h.flowing j).taken
  refine ⟨j, hj, ?_⟩
  rw [← htakes]
  rw [← hlength] at harrived
  exact (List.prefix_of_prefix_length_le (offers_mono size (h.mono hj)) hprefix harrived).filter _

/-- A call of `Push` that is under way keeps others from being made. -/
theorem Course.given_of_pushing (h : Course size f x) (hj : k ≤ j)
    (hbusy : ∀ i, k ≤ i → i ≤ j → (x i).1.push f ≠ .idle) :
    givenTo f (x j).2 = givenTo f (x k).2 := by
  induction hj with
  | refl => rfl
  | @step j hj ih =>
    have hsame := ih fun i hi hle => hbusy i hi (Nat.le_succ_of_le hle)
    obtain heq | ⟨m, heq⟩ := h.moves j
    · rw [heq]
      exact hsame
    · obtain ⟨t, es, hstep⟩ := step_total (x j).1 m
      have hturn := (step_turns (h.flowing j).ready hstep).1 f
      have hpush := hbusy j hj (Nat.le_succ j)
      have hnone : givenTo f es = [] := hturn.given_nil hpush
      rw [heq, proceed_ok hstep]
      show givenTo f ((x j).2 ++ es) = _
      have hsplit : givenTo f ((x j).2 ++ es) = givenTo f (x j).2 ++ givenTo f es :=
        List.filterMap_append
      rw [hsplit, hnone, List.append_nil]
      exact hsame

/-- A call of `Push` returns: what it offers is taken out, and it can offer nothing else. -/
theorem Course.push_returns (h : Course size f x) (hserved : Served size f x) (k : Nat) :
    ∃ j, k ≤ j ∧ (x j).1.push f = .idle := by
  by_contra hnone
  have hpushing (i : Nat) (hi : k ≤ i) : (x i).1.push f ≠ .idle := fun hidle => hnone ⟨i, hi, hidle⟩
  obtain ⟨j, hj, harrived⟩ := h.arrived_eventually hserved (Nat.le_refl (offers size f (x k)).length)
  obtain ⟨takes, -, -, hlength, hcount⟩ := (h.flowing j).taken
  have hoffers : offers size f (x j) = offers size f (x k) :=
    congrArg (fitting size) (h.given_of_pushing hj fun i hi _ => hpushing i hi)
  rw [hoffers] at hcount
  have hpending : ((x j).1.view f).pending = 0 := by omega
  refine hpushing j hj ?_
  cases hp : (x j).1.push f with
  | idle => rfl
  | wait | copy | publish | mark =>
    have hview : ((x j).1.view f).push = _ := hp
    simp [View.pending, hview, PushPhase.offered] at hpending

end

/-- The size of a buffer. -/
def sizeOf (n : Nat) (buffers : List Buffers) (f : FifoId n) : UInt32 :=
  ((System.boot n buffers).table.fifo f).m_size

theorem flowing_boot {buffers : List Buffers} (hn : min n buffers.length ≤ 16)
    (hf : f.channel.val < min n buffers.length) :
    Flowing (sizeOf n buffers f) f (.boot n buffers, []) := by
  have hfirst := IPCDescriptorTable.allocated_firstFree (t := .empty n) buffers (Nat.zero_le n)
  refine ⟨ready_boot hn, ?_, delivering_boot buffers f⟩
  show f.channel.val <
    (buffers.foldl IPCDescriptorTable.AllocateChannel (.empty n)).m_firstFreeChannel
  rw [hfirst]
  show f.channel.val < min n (0 + buffers.length)
  rwa [Nat.zero_add]

/-- The states of an endless run from the start, with their events. -/
def played (buffers : List Buffers) (schedule : Nat → Move n) (k : Nat) :
    System n × List (Event n) :=
  trajectory (proceed step) (.boot n buffers, []) schedule k

theorem played_course {buffers : List Buffers} (hn : min n buffers.length ≤ 16)
    (hf : f.channel.val < min n buffers.length) (schedule : Nat → Move n) :
    Course (sizeOf n buffers f) f (played buffers schedule) where
  start := flowing_boot hn hf
  moves k := .inr ⟨schedule k, rfl⟩

theorem played_served {buffers : List Buffers} {schedule : Nat → Move n}
    (hcourse : Course (sizeOf n buffers f) f (played buffers schedule)) (hfair : Fair f schedule) :
    Served (sizeOf n buffers f) f (played buffers schedule) := fun c k hgiven hgot =>
  (flowing_progress (sizeOf n buffers f) f c).eventually
    (fun p _ _ k => hfair.needs (p.1.view f) k) ⟨hcourse.flowing k, hgiven, hgot⟩

/-- **No message waits for ever.** In every order of the accesses in which the two
users of a FIFO go on again and again: what has been given to `Push` at some time has
at some later time been returned by `Pop`, and a call of `Push` returns. -/
theorem messages_arrive {buffers : List Buffers} (hn : min n buffers.length ≤ 16) (f : FifoId n)
    (hf : f.channel.val < min n buffers.length) (schedule : Nat → Move n) (hfair : Fair f schedule)
    (k : Nat) (s : System n) (log : List (Event n))
    (hr : run step (.boot n buffers) ((List.range k).map schedule) = .ok (s, log)) :
    (∃ j t log', k ≤ j ∧ run step (.boot n buffers) ((List.range j).map schedule) = .ok (t, log') ∧
      nonEmpty (fitting ((System.boot n buffers).table.fifo f).m_size (givenTo f log)) <+:
        nonEmpty (returnedBy f log')) ∧
    ∃ j t log', k ≤ j ∧ run step (.boot n buffers) ((List.range j).map schedule) = .ok (t, log') ∧
      t.push f = .idle := by
  have hplayed (j : Nat) : run step (.boot n buffers) ((List.range j).map schedule) =
      .ok ((played buffers schedule j).1, (played buffers schedule j).2) :=
    run_trajectory (fun k => step_total _ (schedule k)) j
  obtain ⟨rfl, rfl⟩ := ok_eq ((hplayed k).symm.trans hr)
  have hcourse := played_course hn hf schedule
  have hserved := played_served hcourse hfair
  obtain ⟨j, hj, hdelivered⟩ := hcourse.delivered hserved k
  obtain ⟨i, hi, hidle⟩ := hcourse.push_returns hserved k
  exact ⟨⟨j, _, _, hj, hplayed j, hdelivered⟩, i, _, _, hi, hplayed i, hidle⟩

/-- The two users taking turns. -/
def turns (k : Nat) : Move 1 :=
  let f : FifoId 1 := ⟨0, true⟩
  if k % 4 = 0 then .Push f [7] else if k % 4 = 1 then .goPush f else
    if k % 4 = 2 then .Pop f else .goPop f

theorem turns_fair : Fair ⟨0, true⟩ turns where
  goPush k := ⟨4 * k + 1, by omega, by simp [turns, show (4 * k + 1) % 4 = 1 by omega]⟩
  Pop k := ⟨4 * k + 2, by omega, by simp [turns, show (4 * k + 2) % 4 = 2 by omega]⟩
  goPop k := ⟨4 * k + 3, by omega, by simp [turns, show (4 * k + 3) % 4 = 3 by omega]⟩

def oneChannel : List Buffers := [⟨fun _ => 0, 4, fun _ => 0, 4⟩]

/-- The first move gives a message, which is returned later. -/
theorem messages_arrive_turns :
    (∃ j t log', 1 ≤ j ∧ run step (.boot 1 oneChannel) ((List.range j).map turns) = .ok (t, log') ∧
      nonEmpty [[7]] <+: nonEmpty (returnedBy ⟨0, true⟩ log')) ∧
    ∃ j t log', 1 ≤ j ∧ run step (.boot 1 oneChannel) ((List.range j).map turns) = .ok (t, log') ∧
      t.push ⟨0, true⟩ = .idle :=
  messages_arrive (show min 1 oneChannel.length ≤ 16 by decide) ⟨0, true⟩ (by decide) turns
    turns_fair 1 _ _ rfl

end EmbeddedPlatform.Multicore
