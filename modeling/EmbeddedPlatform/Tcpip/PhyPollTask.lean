import Mathlib.Data.List.Chain
import EmbeddedPlatform.Lib.Run

/-! # Polling the PHY

`PhyPollTask` reads two registers of the PHY at every turn of its timer, and announces
the changes of the link that it sees to the network stack and to a hook of the
application. The hook is called while `g_basetLinkUp` still has the old state. -/
namespace EmbeddedPlatform.Tcpip
open EmbeddedPlatform.Lib

/-! ## Changes of a signal -/

/-- The values a signal changes to. -/
def edges : Bool → List Bool → List Bool
  | _, [] => []
  | old, new :: rest => if new = old then edges old rest else new :: edges new rest

/-- They alternate. -/
theorem edges_alternate (old : Bool) (samples : List Bool) :
    List.IsChain (· ≠ ·) (old :: edges old samples) := by
  induction samples generalizing old with
  | nil => exact .singleton old
  | cons new rest ih =>
    unfold edges
    split
    · exact ih old
    · rename_i hne
      exact .cons_cons (Ne.symm hne) (ih new)

/-! ## The task -/

/-- Indices into the names of the speeds. -/
abbrev linkspeed_t := UInt8

def LINK_SPEED_10M : linkspeed_t := 0

def g_linkSpeedNamesLong : List String :=
  ["10 Mbps", "100 Mbps", "1000 Mbps", "10 Gbps", "25 Gbps", "40 Gbps", "100 Gbps"]

/-- What the registers read as. -/
structure PhyRegisters where
  REG_BASIC_CONTROL : UInt16
  REG_BASIC_STATUS : UInt16

/-- The globals. -/
structure Link where
  g_basetLinkUp : Bool
  g_basetLinkSpeed : linkspeed_t

/-- What a poll does, with what the hook sees in the globals. -/
inductive LinkEvent where
  | up (speedName : Option String)
  | down
  | OnEthernetLinkStateChanged (seen : Link)
  | OnLinkUp
  | OnLinkDown

def Link.init : Link := ⟨false, LINK_SPEED_10M⟩

def PhyRegisters.bup (r : PhyRegisters) : Bool := r.REG_BASIC_STATUS &&& 4 == 4

def PhyRegisters.speed (r : PhyRegisters) : linkspeed_t :=
  let speed : UInt8 := 0
  let speed := if r.REG_BASIC_CONTROL &&& 0x40 = 0x40 then speed ||| 2 else speed
  if r.REG_BASIC_CONTROL &&& 0x2000 = 0x2000 then speed ||| 1 else speed

def PollPHYs (s : Link) (r : PhyRegisters) : Except Empty (Link × List LinkEvent) :=
  if r.bup && !s.g_basetLinkUp then
    let s := { s with g_basetLinkSpeed := r.speed }
    .ok ({ s with g_basetLinkUp := r.bup },
      [.up g_linkSpeedNamesLong[s.g_basetLinkSpeed.toNat]?, .OnEthernetLinkStateChanged s, .OnLinkUp])
  else if !r.bup && s.g_basetLinkUp then
    let s := { s with g_basetLinkSpeed := LINK_SPEED_10M }
    .ok ({ s with g_basetLinkUp := r.bup }, [.down, .OnEthernetLinkStateChanged s, .OnLinkDown])
  else .ok ({ s with g_basetLinkUp := r.bup }, [])

/-! ## What is announced -/

/-- What the network stack is told. -/
def LinkEvent.announced : LinkEvent → Option Bool
  | .OnLinkUp => some true
  | .OnLinkDown => some false
  | _ => none

/-- The link as a poll finds it. -/
def PhyRegisters.link (r : PhyRegisters) : Link :=
  ⟨r.bup, if r.bup then r.speed else LINK_SPEED_10M⟩

/-- The link after each change. -/
def changes : Bool → List PhyRegisters → List Link
  | _, [] => []
  | old, r :: rest => if r.bup = old then changes old rest else r.link :: changes r.bup rest

/-- What is said of a change. The hook comes right before the announcement, and sees the
state before the change, but the speed after it. -/
def Link.told (new : Link) : List LinkEvent :=
  [if new.g_basetLinkUp then .up g_linkSpeedNamesLong[new.g_basetLinkSpeed.toNat]? else .down,
    .OnEthernetLinkStateChanged ⟨!new.g_basetLinkUp, new.g_basetLinkSpeed⟩,
    if new.g_basetLinkUp then .OnLinkUp else .OnLinkDown]

theorem changes_snoc (old : Bool) (polls : List PhyRegisters) (r : PhyRegisters) :
    changes old (polls ++ [r]) = changes old polls ++
      if r.bup = (polls.map PhyRegisters.bup).getLastD old then [] else [r.link] := by
  induction polls generalizing old with
  | nil => rfl
  | cons head rest ih =>
    rw [List.cons_append, List.map_cons, List.getLastD_cons]
    unfold changes
    split
    · rename_i heq
      rw [ih, heq]
    · rw [ih, List.cons_append]

theorem map_changes (old : Bool) (polls : List PhyRegisters) :
    (changes old polls).map Link.g_basetLinkUp = edges old (polls.map PhyRegisters.bup) := by
  induction polls generalizing old with
  | nil => rfl
  | cons r rest ih =>
    rw [List.map_cons]
    unfold changes edges
    split
    · exact ih old
    · exact congrArg (r.bup :: ·) (ih r.bup)

theorem announced_told (new : Link) :
    new.told.filterMap LinkEvent.announced = [new.g_basetLinkUp] := by
  unfold Link.told
  cases new.g_basetLinkUp <;> rfl

theorem announced_changes (links : List Link) :
    (links.flatMap Link.told).filterMap LinkEvent.announced = links.map Link.g_basetLinkUp := by
  induction links with
  | nil => rfl
  | cons new links ih =>
    rw [List.flatMap_cons, List.filterMap_append, announced_told, ih]
    rfl

/-- The speed is that of the poll that found the link up. -/
def SpeedOf (polls : List PhyRegisters) (s : Link) : Prop :=
  if s.g_basetLinkUp then
    ∃ before r after, polls = before ++ r :: after ∧
      (before.map PhyRegisters.bup).getLastD false = false ∧ (∀ q ∈ r :: after, q.bup = true) ∧
      s.g_basetLinkSpeed = r.speed
  else s.g_basetLinkSpeed = LINK_SPEED_10M

section
variable {s t : Link} {r : PhyRegisters} {polls : List PhyRegisters} {log es : List LinkEvent}

theorem PhyRegisters.speed_lt (r : PhyRegisters) : r.speed.toNat < g_linkSpeedNamesLong.length := by
  unfold PhyRegisters.speed
  dsimp only
  split
  · split <;> decide
  · split <;> decide

/-- What a poll can be: the link has come up, has gone down, or is as it was. -/
theorem pollPHYs_cases (hs : PollPHYs s r = .ok (t, es)) :
    (r.bup = true ∧ s.g_basetLinkUp = false ∧ t = ⟨true, r.speed⟩ ∧
      es = Link.told ⟨true, r.speed⟩) ∨
    (r.bup = false ∧ s.g_basetLinkUp = true ∧ t = ⟨false, LINK_SPEED_10M⟩ ∧
      es = Link.told ⟨false, LINK_SPEED_10M⟩) ∨
    (r.bup = s.g_basetLinkUp ∧ t = s ∧ es = []) := by
  obtain ⟨up, speed⟩ := s
  unfold PollPHYs at hs
  cases hr : r.bup with
  | true =>
    rw [hr] at hs
    cases up with
    | false =>
      cases hs
      exact .inl ⟨rfl, rfl, rfl, rfl⟩
    | true =>
      cases hs
      exact .inr (.inr ⟨rfl, rfl, rfl⟩)
  | false =>
    rw [hr] at hs
    cases up with
    | false =>
      cases hs
      exact .inr (.inr ⟨rfl, rfl, rfl⟩)
    | true =>
      cases hs
      exact .inr (.inl ⟨rfl, rfl, rfl, rfl⟩)

/-- So far announced, and what is in the globals. -/
structure Polled (polls : List PhyRegisters) (s : Link) (log : List LinkEvent) : Prop where
  up : s.g_basetLinkUp = (polls.map PhyRegisters.bup).getLastD false
  told : log = (changes false polls).flatMap Link.told
  speed : SpeedOf polls s
  name : ∀ speedName, .up speedName ∈ log → speedName.isSome = true

theorem polled_init : Polled [] .init [] where
  up := rfl
  told := rfl
  speed := rfl
  name _ h := absurd h List.not_mem_nil

theorem speedOf_poll (hup : s.g_basetLinkUp = (polls.map PhyRegisters.bup).getLastD false)
    (h : SpeedOf polls s) (hs : PollPHYs s r = .ok (t, es)) : SpeedOf (polls ++ [r]) t := by
  unfold SpeedOf at h ⊢
  obtain ⟨hr, hdown, rfl, -⟩ | ⟨-, -, rfl, -⟩ | ⟨hr, rfl, -⟩ := pollPHYs_cases hs
  · rw [hdown] at hup
    rw [if_pos rfl]
    exact ⟨polls, r, [], rfl, hup.symm, by simpa using hr, rfl⟩
  · exact rfl
  · split at h
    · rename_i hlink
      rw [if_pos hlink]
      obtain ⟨before, first, after, rfl, hbefore, hafter, hspeed⟩ := h
      refine ⟨before, first, after ++ [r], by simp, hbefore, ?_, hspeed⟩
      intro q hq
      rw [← List.cons_append, List.mem_append, List.mem_singleton] at hq
      rcases hq with hq | rfl
      · exact hafter q hq
      · exact hr.trans hlink
    · rename_i hlink
      rw [if_neg hlink]
      exact h

theorem Polled.poll (h : Polled polls s log) (hs : PollPHYs s r = .ok (t, es)) :
    Polled (polls ++ [r]) t (log ++ es) where
  up := by
    rw [List.map_append, List.map_singleton, List.getLastD_concat]
    obtain ⟨hr, -, rfl, -⟩ | ⟨hr, -, rfl, -⟩ | ⟨hr, rfl, -⟩ := pollPHYs_cases hs
    all_goals exact hr.symm
  told := by
    rw [changes_snoc, List.flatMap_append, ← h.told, ← h.up]
    congr 1
    unfold PhyRegisters.link
    obtain ⟨hr, hdown, -, rfl⟩ | ⟨hr, hup, -, rfl⟩ | ⟨hr, -, rfl⟩ := pollPHYs_cases hs
    · rw [hr, hdown]
      rfl
    · rw [hr, hup]
      rfl
    · rw [hr, if_pos rfl]
      rfl
  speed := speedOf_poll h.up h.speed hs
  name speedName hname := by
    rcases List.mem_append.mp hname with hname | hname
    · exact h.name speedName hname
    · obtain ⟨-, -, -, rfl⟩ | ⟨-, -, -, rfl⟩ | ⟨-, -, rfl⟩ := pollPHYs_cases hs
      · obtain rfl : speedName = g_linkSpeedNamesLong[r.speed.toNat]? := by
          simpa [Link.told] using hname
        rw [List.getElem?_eq_getElem r.speed_lt]
        rfl
      · simp [Link.told] at hname
      · exact absurd hname List.not_mem_nil

/-- No poll fails. -/
theorem pollPHYs_total (s : Link) (r : PhyRegisters) : ∃ t es, PollPHYs s r = .ok (t, es) := by
  cases h : PollPHYs s r with
  | ok out => exact ⟨out.1, out.2, rfl⟩
  | error e => exact e.elim

end

theorem polled_run (polls : List PhyRegisters) :
    ∃ s log, run PollPHYs .init polls = .ok (s, log) ∧ Polled polls s log := by
  obtain ⟨s, log, hr⟩ := run_total (J := fun _ => True)
    (fun s r _ => (pollPHYs_total s r).imp fun _ h => h.imp fun _ h => ⟨h, trivial⟩)
    (s := Link.init) trivial polls
  refine ⟨s, log, hr, ?_⟩
  have h := run_rule (C := fun _ _ => True) (J := fun s log polls => Polled polls s log)
    (fun _ _ _ _ _ _ h _ hs => h.poll hs) polled_init (allSteps_true _ _) hr
  exact h

/-- **What is announced of the link**, over any polls. The network stack hears the changes
of the sampled status bit and no others, up and down by turns. Right before each
announcement the hook is called, and finds the flag as it was and the new speed: that of
the poll, or that of a link that is down. After the polls the flag is the last sample, and
the speed is the one read by the poll that found the link up, not a later one, or that of a
link that is down. The speed that is logged has a name. -/
theorem link_announced (polls : List PhyRegisters) :
    ∃ s log, run PollPHYs .init polls = .ok (s, log) ∧
      log = (changes false polls).flatMap Link.told ∧
      log.filterMap LinkEvent.announced = edges false (polls.map PhyRegisters.bup) ∧
      List.IsChain (· ≠ ·) (false :: log.filterMap LinkEvent.announced) ∧
      s.g_basetLinkUp = (polls.map PhyRegisters.bup).getLastD false ∧ SpeedOf polls s ∧
      ∀ speedName, .up speedName ∈ log → speedName.isSome = true := by
  obtain ⟨s, log, hr, h⟩ := polled_run polls
  have hannounced : log.filterMap LinkEvent.announced = edges false (polls.map PhyRegisters.bup) := by
    rw [h.told, announced_changes, map_changes]
  refine ⟨s, log, hr, h.told, hannounced, ?_, h.up, h.speed, h.name⟩
  rw [hannounced]
  exact edges_alternate false _

end EmbeddedPlatform.Tcpip
