import EmbeddedPlatform.Supervisor.RailDescriptor

/-! # No rail before its predecessors

`PowerSequence` has it that the rails that are on are the first few. Here the same is
seen at the enable lines, and what has been seen or waited for on the way: a rail is
turned on only once every rail before it is known to be up. -/
namespace EmbeddedPlatform.Supervisor
open EmbeddedPlatform.Lib

variable {q : Sequences} {rail : Nat → RailDescriptor} {s : PowerResetSupervisor}
  {p : RailPins} {b : Board} {d : RailDescriptor} {r : RailState}

/-! ## One descriptor -/

/-- The enable is told something. -/
def RailEvent.drives : RailEvent → Bool
  | .enable _ => true
  | .pgood _ | .Sleep _ => false

def RailEvent.ticks : RailEvent → Nat
  | .Sleep n => n
  | .enable _ | .pgood _ => 0

/-- The ticks slept. -/
def slept (es : List RailEvent) : Nat := es.foldr (fun e n => e.ticks + n) 0

theorem waitForPGood_iff (pgood : Nat → Bool) (i n : Nat) :
    (waitForPGood pgood i n).1 = true ↔ ∃ k ≤ n, pgood (i + k) = true := by
  induction n generalizing i with
  | zero => simp [waitForPGood]
  | succ n ih =>
    unfold waitForPGood
    by_cases hi : pgood i = true
    · rw [if_pos hi]
      exact ⟨fun _ => ⟨0, Nat.zero_le _, hi⟩, fun _ => rfl⟩
    · rw [if_neg hi]
      refine (ih (i + 1)).trans ⟨?_, ?_⟩
      · rintro ⟨k, hk, hg⟩
        exact ⟨k + 1, by omega, by rwa [show i + (k + 1) = i + 1 + k by omega]⟩
      · rintro ⟨k, hk, hg⟩
        cases k with
        | zero => exact absurd hg hi
        | succ k => exact ⟨k, by omega, by rwa [show i + 1 + k = i + (k + 1) by omega]⟩

theorem waitForPGood_quiet (pgood : Nat → Bool) (i n : Nat) :
    ∀ e ∈ (waitForPGood pgood i n).2, e.drives = false := by
  induction n generalizing i with
  | zero => exact List.forall_mem_singleton.mpr rfl
  | succ n ih =>
    unfold waitForPGood
    split
    · exact List.forall_mem_singleton.mpr rfl
    · exact List.forall_mem_cons.mpr ⟨rfl, List.forall_mem_cons.mpr ⟨rfl, ih (i + 1)⟩⟩

theorem waitForPGood_slept (pgood : Nat → Bool) (i n : Nat) :
    slept (waitForPGood pgood i n).2 ≤ n := by
  induction n generalizing i with
  | zero => exact Nat.le_refl 0
  | succ n ih =>
    unfold waitForPGood
    split
    · exact Nat.zero_le _
    · have := ih (i + 1)
      simp only [slept, List.foldr_cons, RailEvent.ticks] at this ⊢
      omega

/-- When the loop says yes it has seen PGOOD. -/
theorem waitForPGood_seen {pgood : Nat → Bool} {i n : Nat}
    (h : (waitForPGood pgood i n).1 = true) (r : RailState) :
    (replay RailState.act r (waitForPGood pgood i n).2).seen = true := by
  induction n generalizing i r with
  | zero =>
    show (r.seen || pgood i) = true
    rw [show pgood i = true from h, Bool.or_true]
  | succ n ih =>
    unfold waitForPGood at h ⊢
    by_cases hi : pgood i = true
    · rw [if_pos hi]
      exact Bool.or_true _
    · rw [if_neg hi] at h ⊢
      exact ih h _

/-- `TurnOn` drives the enable and then only looks and waits. If it says yes the rail
is confirmed. -/
theorem turnOn_spec (d : RailDescriptor) (pgood : Nat → Bool) :
    ∃ es, (d.TurnOn pgood).2 = .enable d.onLevel :: es ∧ (∀ e ∈ es, e.drives = false) ∧
      slept es ≤ d.m_delay.toNat ∧ ((d.TurnOn pgood).1 = true →
        d.Confirmed (replay RailState.act ⟨d.onLevel, false, 0⟩ es)) := by
  cases d with
  | WithEnable b n =>
    refine ⟨[.Sleep n.toNat], rfl, List.forall_mem_singleton.mpr rfl, Nat.le_refl _, fun _ => ?_⟩
    show n.toNat ≤ 0 + n.toNat
    omega
  | WithEnableAndPGood b n | WithActiveLowEnableAndPGood b n =>
    exact ⟨(waitForPGood pgood 0 n.toNat).2, rfl, waitForPGood_quiet pgood 0 _,
      waitForPGood_slept pgood 0 _, fun h => waitForPGood_seen h _⟩

/-- A rail comes up if it has no PGOOD, or shows it in time. -/
def RailDescriptor.ComesUp (d : RailDescriptor) (pgood : Nat → Bool) : Prop :=
  d.hasPGood = true → ∃ i ≤ d.m_delay.toNat, pgood i = true

theorem turnOn_iff (d : RailDescriptor) (pgood : Nat → Bool) :
    (d.TurnOn pgood).1 = true ↔ d.ComesUp pgood := by
  cases d with
  | WithEnable b n => exact ⟨fun _ h => (nomatch h), fun _ => rfl⟩
  | WithEnableAndPGood b n | WithActiveLowEnableAndPGood b n =>
    refine (waitForPGood_iff pgood 0 n.toNat).trans ?_
    simp only [Nat.zero_add]
    exact ⟨fun h _ => h, fun h => h rfl⟩

theorem turnOff_eq (d : RailDescriptor) : d.TurnOff = [.enable (!d.onLevel)] := by
  cases d <;> rfl

/-- A descriptor that is constructed turns its rail off, if it does anything at all. -/
theorem construct_eq (d : RailDescriptor) :
    d.construct = [] ∧ d.onLevel = true ∨ ∃ es, d.construct = es ++ [.enable (!d.onLevel)] := by
  cases d with
  | WithEnable b n =>
    cases b with
    | false => exact .inl ⟨rfl, rfl⟩
    | true => exact .inr ⟨[], rfl⟩
  | WithEnableAndPGood b n | WithActiveLowEnableAndPGood b n => exact .inr ⟨_, rfl⟩

theorem confirmed_pass (e : RailEvent) (h : d.Confirmed r) : d.Confirmed (r.pass e) := by
  cases e with
  | enable level | pgood good => exact h
  | Sleep n =>
    unfold RailDescriptor.Confirmed at h ⊢
    split
    · rename_i hgood
      exact (if_pos hgood).mp h
    · rename_i hgood
      exact Nat.le_trans ((if_neg hgood).mp h) (Nat.le_add_right _ _)

theorem up_pass (e : RailEvent) (h : d.Up r) : d.Up (r.pass e) := by
  refine ⟨?_, confirmed_pass e h.confirmed⟩
  cases e <;> exact h.on

/-! ## The pins of all rails -/

theorem isOn_quiet {e : Nat × RailEvent} (he : e.2.drives = false) (i : Nat) :
    (p.act e i).level = (p i).level := by
  unfold RailPins.act
  obtain ⟨j, e⟩ := e
  split <;> cases e <;> first | rfl | cases he

theorem act_enable (j : Nat) (level : Bool) (i : Nat) :
    (p.act (j, .enable level) i).level = if i = j then level else (p i).level := by
  unfold RailPins.act
  split <;> rfl

theorem replay_ofRail_self (p : RailPins) (j : Nat) (es : List RailEvent) :
    replay RailPins.act p (ofRail j es) j = replay RailState.act (p j) es := by
  induction es generalizing p with
  | nil => rfl
  | cons e es ih =>
    refine (ih _).trans ?_
    rw [replay_cons, RailPins.act, if_pos rfl]

/-- What is done at one rail leaves another one up. -/
theorem up_ofRail {i j : Nat} (hij : i ≠ j) (es : List RailEvent) (h : d.Up (p i)) :
    d.Up (replay RailPins.act p (ofRail j es) i) := by
  induction es generalizing p with
  | nil => exact h
  | cons e es ih =>
    refine ih (p := p.act (j, e)) ?_
    rw [RailPins.act, if_neg hij]
    exact up_pass e h

/-- `TurnOn` complies if the rails before are up, and itself is up if it says yes. -/
theorem turnOn_gated (rail : Nat → RailDescriptor) (pgood : Nat → Nat → Bool) {j : Nat}
    (hup : ∀ i < j, (rail i).Up (p i)) :
    Complies RailPins.act (Gated rail) p (drive rail pgood (.TurnOn j)) ∧
      (((rail j).TurnOn (pgood j)).1 = true → ∀ i < j + 1,
        (rail i).Up (replay RailPins.act p (drive rail pgood (.TurnOn j)) i)) := by
  obtain ⟨es, he, hquiet, -, hconf⟩ := turnOn_spec (rail j) (pgood j)
  rw [drive, he]
  refine ⟨⟨fun _ => hup, complies_of_forall (fun e hmem p heq => ?_) _⟩, fun hok i hi => ?_⟩
  · obtain ⟨e', he', rfl⟩ := List.mem_map.mp hmem
    have := hquiet e' he'
    rw [show e' = .enable (rail j).onLevel from heq] at this
    cases this
  · rcases Nat.lt_or_ge i j with hlt | hge
    · exact up_ofRail (Nat.ne_of_lt hlt) _ (hup i hlt)
    · obtain rfl : i = j := by omega
      rw [replay_ofRail_self]
      refine ⟨?_, hconf hok⟩
      have hlevel : ∀ e ∈ es, ∀ r : RailState, (rail i).IsOn r → (rail i).IsOn (r.act e) := by
        intro e he r hr
        have := hquiet e he
        cases e with
        | enable level => cases this
        | pgood good | Sleep n => exact hr
      have hon : (rail i).IsOn ((p i).act (.enable (rail i).onLevel)) := rfl
      exact (along_of_kept hlevel hon).1

/-- The loop of `PowerOn`, as far as the rails come up. -/
theorem turnOns_gated (rail : Nat → RailDescriptor) (p : RailPins) {c : Nat}
    {pgood : Nat → Nat → Bool}
    (hok : ∀ i < c, ((rail i).TurnOn (pgood i)).1 = true) :
    Complies RailPins.act (Gated rail) p
        (((List.range c).map .TurnOn).flatMap (drive rail pgood)) ∧
      ∀ i < c, (rail i).Up
        (replay RailPins.act p (((List.range c).map .TurnOn).flatMap (drive rail pgood)) i) := by
  induction c with
  | zero => exact ⟨trivial, fun i hi => absurd hi (Nat.not_lt_zero i)⟩
  | succ c ih =>
    obtain ⟨hc, hup⟩ := ih fun i hi => hok i (by omega)
    rw [List.range_succ, List.map_append, List.flatMap_append, replay_append]
    obtain ⟨hc', hup'⟩ := turnOn_gated rail pgood hup
    simp only [List.map_singleton, List.flatMap_singleton]
    exact ⟨complies_append.mpr ⟨hc, hc'⟩, hup' (hok c (Nat.lt_succ_self c))⟩

/-! ## The rails that are on -/

/-- The board as the enable lines show it. -/
def Shows (q : Sequences) (rail : Nat → RailDescriptor) (p : RailPins) (b : Board) : Prop :=
  ∀ i < q.m_railSequence, (rail i).IsOn (p i) ↔ b.railOn i = true

theorem shows_quiet {e : Nat × RailEvent} (he : e.2.drives = false) (h : Shows q rail p b) :
    Shows q rail (p.act e) b := by
  intro i hi
  rw [RailDescriptor.IsOn, isOn_quiet he i]
  exact h i hi

theorem shows_turnOn (j : Nat) (h : Shows q rail p b) :
    Shows q rail (p.act (j, .enable (rail j).onLevel)) (b.act (.TurnOn j)) := by
  intro i hi
  rw [RailDescriptor.IsOn, act_enable]
  by_cases hij : i = j
  · simp [Board.act, hij]
  · simp only [Board.act, if_neg hij]
    exact h i hi

theorem shows_turnOff (j : Nat) (h : Shows q rail p b) :
    Shows q rail (p.act (j, .enable (!(rail j).onLevel))) (b.act (.TurnOff j)) := by
  intro i hi
  rw [RailDescriptor.IsOn, act_enable]
  by_cases hij : i = j
  · simp [Board.act, hij]
  · simp only [Board.act, if_neg hij]
    exact h i hi

theorem drive_keepsRails {e : Event} (he : e.keepsRails = true) (pgood : Nat → Nat → Bool) :
    drive rail pgood e = [] := by
  cases e <;> first | rfl | cases he

/-- The pins follow the board, call by call. -/
theorem drive_expands (q : Sequences) (rail : Nat → RailDescriptor) (pgood : Nat → Nat → Bool) :
    Expands Board.act RailPins.act (drive rail pgood) (Shows q rail) := by
  have hall : ∀ p b e, Shows q rail p b →
      Shows q rail (replay RailPins.act p (drive rail pgood e)) (b.act e) ∧
        Along RailPins.act (fun p => Shows q rail p b ∨ Shows q rail p (b.act e)) p
          (drive rail pgood e) := by
    intro p b e h
    by_cases hkeep : e.keepsRails = true
    · rw [drive_keepsRails hkeep]
      have hsame : Shows q rail p (b.act e) := by
        cases e <;> first | exact h | cases hkeep
      exact ⟨hsame, .inl h⟩
    cases e with
    | TurnOn j =>
      obtain ⟨es, he, hquiet, -, -⟩ := turnOn_spec (rail j) (pgood j)
      rw [drive, he]
      have hkept : ∀ e ∈ ofRail j es, ∀ p, Shows q rail p (b.act (.TurnOn j)) →
          Shows q rail (p.act e) (b.act (.TurnOn j)) := by
        intro e hmem p hp
        obtain ⟨e', he', rfl⟩ := List.mem_map.mp hmem
        exact shows_quiet (hquiet e' he') hp
      obtain ⟨hend, halong⟩ := along_of_kept hkept (shows_turnOn j h)
      exact ⟨hend, .inl h, halong.imp fun _ => .inr⟩
    | TurnOff j =>
      rw [drive, turnOff_eq]
      exact ⟨shows_turnOff j h, .inl h, .inr (shows_turnOff j h)⟩
    | Assert | Deassert | OnPowerOn | OnResetDone | OnPowerOff | OnFault | OnPowerLost =>
      exact absurd rfl hkeep
  exact ⟨fun p b e h => (hall p b e h).2, fun p b e h => (hall p b e h).1⟩

/-! ## Operations -/

/-- `PowerOn` goes as far as the rails come up. -/
theorem turnOnRails_spec (turnOn : Nat → Bool) (j c : Nat) :
    ((∀ i < c, turnOn (j + i) = true) ∧
      turnOnRails turnOn (List.range' j c) = (true, (List.range' j c).map .TurnOn)) ∨
    ∃ k < c, (∀ i < k, turnOn (j + i) = true) ∧ turnOn (j + k) = false ∧
      turnOnRails turnOn (List.range' j c) = (false, (List.range' j (k + 1)).map .TurnOn) := by
  induction c generalizing j with
  | zero => exact .inl ⟨fun i hi => absurd hi (Nat.not_lt_zero i), rfl⟩
  | succ c ih =>
    rw [List.range'_succ]
    cases hj : turnOn j with
    | false =>
      exact .inr ⟨0, Nat.succ_pos c, fun i hi => absurd hi (Nat.not_lt_zero i), hj,
        by simp [turnOnRails, hj]⟩
    | true =>
      have hnext : ∀ m, (∀ i < m, turnOn (j + 1 + i) = true) →
          ∀ i < m + 1, turnOn (j + i) = true := by
        intro m hm i hi
        cases i with
        | zero => exact hj
        | succ i =>
          rw [show j + (i + 1) = j + 1 + i by omega]
          exact hm i (by omega)
      rcases ih (j + 1) with ⟨hall, he⟩ | ⟨k, hk, hfront, hfail, he⟩
      · exact .inl ⟨hnext c hall, by simp [turnOnRails, hj, he]⟩
      · refine .inr ⟨k + 1, by omega, hnext k hfront, ?_, ?_⟩
        · rwa [show j + (k + 1) = j + 1 + k by omega]
        · simp [turnOnRails, hj, he, List.range'_succ (n := k + 1)]

theorem powerOn_spec (q : Sequences) (turnOn : Nat → Bool) (s : PowerResetSupervisor) :
    ((∀ i < q.m_railSequence, turnOn i = true) ∧ PowerOn q turnOn s =
      (restarted s true, (List.range q.m_railSequence).map .TurnOn ++ releaseFirst q)) ∨
    ∃ k < q.m_railSequence, (∀ i < k, turnOn i = true) ∧ turnOn k = false ∧ PowerOn q turnOn s =
      (restarted s false, (List.range (k + 1)).map .TurnOn ++ (PanicShutdown q s).2) := by
  unfold PowerOn
  simp only [List.range_eq_range']
  rcases turnOnRails_spec turnOn 0 q.m_railSequence with ⟨hall, he⟩ | ⟨k, hk, hfront, hfail, he⟩
  · simp only [Nat.zero_add] at hall
    exact .inl ⟨hall, by simp [he, restarted, releaseFirst]⟩
  · simp only [Nat.zero_add] at hfront hfail
    refine .inr ⟨k, hk, hfront, hfail, ?_⟩
    simp [he, PanicShutdown, restarted]

/-- Any other operation turns nothing on, and if power is on behind it, it was
before and the rails were left alone. -/
theorem step_no_turnOn {op : Op} (hop : ∀ turnOn, op ≠ .PowerOn turnOn) (h : s.Indexed q)
    {t : PowerResetSupervisor} {es : List Event} (hs : step q s op = .ok (t, es)) :
    (∀ j, .TurnOn j ∉ es) ∧
      (t.m_powerOn = true → s.m_powerOn = true ∧ ∀ e ∈ es, e.keepsRails = true) := by
  have hquiet : ∀ {es : List Event}, (∀ e ∈ es, e.keepsRails = true) → ∀ j, .TurnOn j ∉ es :=
    fun hes j hj => absurd (hes _ hj) Bool.false_ne_true
  have hpanic : ∀ s j, .TurnOn j ∉ (PanicShutdown q s).2 := by
    simp [PanicShutdown]
  have hoff : ∀ s j, .TurnOn j ∉ (PowerOff q s).2 := by
    simp [PowerOff]
  cases op with
  | PowerOn turnOn => exact absurd rfl (hop turnOn)
  | PowerOff =>
    cases hs
    exact ⟨hoff s, fun hon => absurd hon Bool.false_ne_true⟩
  | PanicShutdown =>
    cases hs
    exact ⟨hpanic s, fun hon => absurd hon Bool.false_ne_true⟩
  | Iteration a =>
    cases hon : s.m_powerOn with
    | false =>
      rw [step, iteration_off a hon] at hs
      cases hs
      exact ⟨fun _ => List.not_mem_nil, fun hp => absurd (hon.symm.trans hp) (by decide)⟩
    | true =>
      obtain ⟨u, fs, v, gs, hu, hv, rfl, rfl⟩ := iteration_ok hon hs
      have hfs := updateResets_keepsRails h hu
      simp only [List.mem_append, not_or]
      rcases checkRail_cases q a u.m_monitorRailIndex u with he | ⟨-, -, he⟩ | ⟨-, -, -, he⟩ <;>
        rw [he] at hv <;> cases hv
      · refine ⟨fun j => ⟨hquiet hfs j, List.not_mem_nil⟩, fun _ => ⟨trivial, fun e he => ?_⟩⟩
        exact hfs e (he.resolve_right List.not_mem_nil)
      · exact ⟨fun j => ⟨hquiet hfs j, hpanic u j⟩, fun hp => absurd hp Bool.false_ne_true⟩
      · refine ⟨fun j => ⟨hquiet hfs j, ?_⟩, fun hp => absurd hp Bool.false_ne_true⟩
        rw [List.mem_cons, not_or]
        exact ⟨Event.noConfusion, hoff u j⟩

/-- A rail is turned on by its own `TurnOn` only. -/
theorem eq_turnOn_of_mem_drive {pgood : Nat → Nat → Bool} {f : Event} {e : Nat × RailEvent}
    (h : e ∈ drive rail pgood f) (he : e.2 = .enable (rail e.1).onLevel) : f = .TurnOn e.1 := by
  by_cases hkeep : f.keepsRails = true
  · rw [drive_keepsRails hkeep] at h
    cases h
  cases f with
  | TurnOn j =>
    obtain ⟨_, -, rfl⟩ := List.mem_map.mp h
    rfl
  | TurnOff j =>
    rw [drive, turnOff_eq] at h
    obtain rfl := List.mem_singleton.mp h
    have := RailEvent.enable.inj he
    cases hlevel : (rail j).onLevel <;> simp [hlevel] at this
  | Assert | Deassert | OnPowerOn | OnResetDone | OnPowerOff | OnFault | OnPowerLost =>
    exact absurd rfl hkeep

/-- Where nothing is turned on, nothing is refused. -/
theorem gated_of_no_turnOn {es : List Event} (h : ∀ j, .TurnOn j ∉ es)
    (pgood : Nat → Nat → Bool) (p : RailPins) :
    Complies RailPins.act (Gated rail) p (es.flatMap (drive rail pgood)) := by
  refine complies_of_forall (fun e he p heq => ?_) p
  obtain ⟨f, hf, hmem⟩ := List.mem_flatMap.mp he
  obtain rfl := eq_turnOn_of_mem_drive hmem heq
  exact absurd hf (h e.1)

theorem flatMap_keepsRails {es : List Event} (h : ∀ e ∈ es, e.keepsRails = true)
    (pgood : Nat → Nat → Bool) : es.flatMap (drive rail pgood) = [] :=
  List.flatMap_eq_nil_iff.mpr fun e he => drive_keepsRails (h e he) pgood

theorem releaseFirst_drive (pgood : Nat → Nat → Bool) :
    (releaseFirst q).flatMap (drive rail pgood) = [] := by
  unfold releaseFirst
  split <;> rfl

theorem powerOn_gated (pgood : Nat → Nat → Bool) (p : RailPins) :
    ((PowerOn q (fun j => ((rail j).TurnOn (pgood j)).1) s).1.m_powerOn = true →
      ∀ i < q.m_railSequence, (rail i).Up (replay RailPins.act p
        ((PowerOn q (fun j => ((rail j).TurnOn (pgood j)).1) s).2.flatMap (drive rail pgood)) i)) ∧
      Complies RailPins.act (Gated rail) p
        ((PowerOn q (fun j => ((rail j).TurnOn (pgood j)).1) s).2.flatMap (drive rail pgood)) := by
  rcases powerOn_spec q (fun j => ((rail j).TurnOn (pgood j)).1) s with
    ⟨hall, he⟩ | ⟨k, hk, hfront, -, he⟩
  · obtain ⟨hc, hup⟩ := turnOns_gated rail p hall
    rw [he, List.flatMap_append, releaseFirst_drive, List.append_nil]
    exact ⟨fun _ => hup, hc⟩
  · -- the rails before the one that fails have come up
    obtain ⟨hc, hup⟩ := turnOns_gated rail p hfront
    obtain ⟨hlast, -⟩ := turnOn_gated rail pgood hup
    have hpanic : ∀ j, .TurnOn j ∉ (PanicShutdown q s).2 := by
      simp [PanicShutdown]
    rw [he]
    refine ⟨fun hp => absurd hp Bool.false_ne_true, ?_⟩
    rw [List.flatMap_append, List.range_succ, List.map_append, List.flatMap_append]
    refine complies_append.mpr ⟨complies_append.mpr ⟨hc, ?_⟩, gated_of_no_turnOn hpanic pgood _⟩
    rwa [List.map_singleton, List.flatMap_singleton]

/-! ## Runs -/

/-- Between operations the pins show a board at a boundary, and while power is on all
rails are up. -/
structure PinBoundary (q : Sequences) (rail : Nat → RailDescriptor) (s : PowerResetSupervisor)
    (p : RailPins) : Prop where
  shown : ∃ b, Boundary q s b ∧ Shows q rail p b
  up : s.m_powerOn = true → ∀ i < q.m_railSequence, (rail i).Up (p i)

/-- The rails that are on are the first few. -/
def OnPrefix (q : Sequences) (rail : Nat → RailDescriptor) (p : RailPins) : Prop :=
  ∃ k ≤ q.m_railSequence, ∀ i < q.m_railSequence, (rail i).IsOn (p i) ↔ i < k

theorem onPrefix_of_shows (h : ∃ b, Shows q rail p b ∧ RailPrefix q b) : OnPrefix q rail p := by
  obtain ⟨b, hb, k, hk, hup⟩ := h
  refine ⟨k, hk, fun i hi => (hb i hi).trans ?_⟩
  rw [hup i]
  exact decide_eq_true_iff

theorem PinBoundary.onPrefix (h : PinBoundary q rail s p) : OnPrefix q rail p := by
  obtain ⟨b, hb, hshows⟩ := h.shown
  exact onPrefix_of_shows ⟨b, hshows, hb.upTo⟩

theorem stepPins_ok {op : BoardOp} {t : PowerResetSupervisor} {log : List (Nat × RailEvent)}
    (h : stepPins q rail s op = .ok (t, log)) :
    ∃ es, step q s (op.toOp rail) = .ok (t, es) ∧ log = es.flatMap (drive rail op.looks) := by
  unfold stepPins at h
  split at h
  · cases h
  · rename_i u es hu
    cases h
    exact ⟨es, hu, rfl⟩

/-- What an operation does keeps the sequence, and leaves the board at a boundary. -/
theorem stepPins_boundary (hn : 0 < q.m_resetSequence) {op : BoardOp} {t : PowerResetSupervisor}
    {log : List (Nat × RailEvent)} (h : PinBoundary q rail s p)
    (hs : stepPins q rail s op = .ok (t, log)) :
    PinBoundary q rail t (replay RailPins.act p log) ∧
      Along RailPins.act (OnPrefix q rail) p log ∧ Complies RailPins.act (Gated rail) p log := by
  obtain ⟨es, hstep, rfl⟩ := stepPins_ok hs
  obtain ⟨b, hb, hshows⟩ := h.shown
  obtain ⟨hb', halong⟩ := step_boundary hn hb hstep
  obtain ⟨hend, hprefix⟩ := (drive_expands q rail op.looks).along hshows halong
  have hon := hprefix.imp fun _ => onPrefix_of_shows
  suffices hrest : (t.m_powerOn = true → ∀ i < q.m_railSequence,
      (rail i).Up (replay RailPins.act p (es.flatMap (drive rail op.looks)) i)) ∧
      Complies RailPins.act (Gated rail) p (es.flatMap (drive rail op.looks)) from
    ⟨⟨⟨_, hb', hend⟩, hrest.1⟩, hon, hrest.2⟩
  by_cases hop : ∀ turnOn, op.toOp rail ≠ .PowerOn turnOn
  · obtain ⟨hno, hkeep⟩ := step_no_turnOn hop hb.indexed hstep
    refine ⟨fun ht => ?_, gated_of_no_turnOn hno op.looks p⟩
    obtain ⟨hs', hes⟩ := hkeep ht
    rw [flatMap_keepsRails hes]
    exact h.up hs'
  · cases op with
    | PowerOff | PanicShutdown | Iteration => exact absurd (fun _ h => nomatch h) hop
    | PowerOn pgood =>
      obtain ⟨rfl, rfl⟩ := ok_eq hstep
      exact powerOn_gated pgood p

/-- Construction leaves all rails off. -/
theorem constructed_off (p : RailPins)
    (hp : ∀ i < q.m_railSequence, (rail i).construct = [] → (p i).level = false) {c : Nat} :
    ∀ i < q.m_railSequence, (i < c ∨ (rail i).construct = []) →
      (replay RailPins.act p ((List.range c).flatMap fun j => ofRail j (rail j).construct) i).level =
        !(rail i).onLevel := by
  induction c with
  | zero =>
    rintro i hi (h | h)
    · exact absurd h (Nat.not_lt_zero i)
    · rcases construct_eq (rail i) with ⟨-, hlevel⟩ | ⟨es, he⟩
      · rw [hlevel]
        exact hp i hi h
      · rw [h] at he
        simp at he
  | succ c ih =>
    intro i hi h
    have hother : ∀ (p : RailPins) es, i ≠ c →
        (replay RailPins.act p (ofRail c es) i).level = (p i).level := by
      intro p es hne
      induction es generalizing p with
      | nil => rfl
      | cons e es ih =>
        refine (ih (p.act (c, e))).trans ?_
        rw [RailPins.act, if_neg hne]
        cases e <;> rfl
    rw [List.range_succ, List.flatMap_append, replay_append, List.flatMap_singleton]
    by_cases hic : i = c
    · subst hic
      rcases construct_eq (rail i) with ⟨hnil, -⟩ | ⟨es, he⟩
      · rw [hnil]
        exact ih i hi (.inr hnil)
      · rw [replay_ofRail_self, he, replay_append]
        rfl
    · rw [hother _ _ hic]
      exact ih i hi (h.imp_left fun hlt => by omega)

theorem constructed_boundary (hn : 0 < q.m_resetSequence)
    (hp : ∀ i < q.m_railSequence, (rail i).construct = [] → (p i).level = false) :
    PinBoundary q rail .init (constructed q rail p) := by
  refine ⟨⟨Board.off, init_boundary hn, fun i hi => ?_⟩, fun hon => nomatch hon⟩
  rw [RailDescriptor.IsOn, constructed, constructed_off p hp i hi (.inl hi)]
  cases (rail i).onLevel <;> simp [Board.off]

/-- **Gated rails.** Whatever the PGOOD lines show and whatever the operations are,
every one completes. At every point the rails whose enable is at its active level are
the first few, and an enable goes there only when each rail before it is on and has
since shown its PGOOD, or has been given its delay. While power is on this holds of
all rails, and while it is off all are off. -/
theorem rails_gated (q : Sequences) (hm : 0 < q.m_railSequence) (hn : 0 < q.m_resetSequence)
    (rail : Nat → RailDescriptor) (p : RailPins)
    (hp : ∀ i < q.m_railSequence, (rail i).construct = [] → (p i).level = false)
    (ops : List BoardOp) :
    ∃ s log, run (stepPins q rail) .init ops = .ok (s, log) ∧
      (∀ pre, pre <+: log → ∃ k ≤ q.m_railSequence, ∀ i < q.m_railSequence,
        (rail i).IsOn (replay RailPins.act (constructed q rail p) pre i) ↔ i < k) ∧
      Complies RailPins.act (Gated rail) (constructed q rail p) log ∧
      (s.m_powerOn = true → ∀ i < q.m_railSequence,
        (rail i).Up (replay RailPins.act (constructed q rail p) log i)) ∧
      (s.m_powerOn = false → ∀ i < q.m_railSequence,
        ¬ (rail i).IsOn (replay RailPins.act (constructed q rail p) log i)) := by
  have htotal : ∀ s (op : BoardOp), s.InBounds q →
      ∃ t log, stepPins q rail s op = .ok (t, log) ∧ t.InBounds q := by
    intro s op h
    obtain ⟨t, es, hs, ht⟩ := step_inBounds hn (op.toOp rail) h
    exact ⟨t, es.flatMap (drive rail op.looks), by rw [stepPins, hs], ht⟩
  obtain ⟨s, log, hr⟩ := run_total htotal (init_inBounds hm hn) ops
  have h₀ := constructed_boundary hn hp
  obtain ⟨hend, halong, hgated⟩ := run_rule (C := fun _ _ => True) (l := []) (b := [])
    (J := fun s log _ => PinBoundary q rail s (replay RailPins.act (constructed q rail p) log) ∧
      Along RailPins.act (OnPrefix q rail) (constructed q rail p) log ∧
      Complies RailPins.act (Gated rail) (constructed q rail p) log)
    (fun s log _ op t es h _ hs => by
      obtain ⟨h₁, h₂, h₃⟩ := stepPins_boundary hn h.1 hs
      rw [replay_append]
      exact ⟨h₁, along_append.mpr ⟨h.2.1, h₂⟩, complies_append.mpr ⟨h.2.2, h₃⟩⟩)
    ⟨h₀, h₀.onPrefix, trivial⟩ (allSteps_true _ _) hr
  rw [List.nil_append] at hend halong hgated
  refine ⟨s, log, hr, along_iff_prefix.mp halong, hgated, hend.up, fun hoff i hi hon => ?_⟩
  obtain ⟨b, hb, hshows⟩ := hend.shown
  have := (hshows i hi).mp hon
  rw [(hb.off hoff).1 i] at this
  cases this

/-- An active high rail that shows its PGOOD at the third look, and an active low one
that never does. -/
theorem rails_gated_second_fails :
    let rail : Nat → RailDescriptor := fun i =>
      if i = 0 then .WithEnableAndPGood true 5 else .WithActiveLowEnableAndPGood true 2
    let p : RailPins := fun _ => ⟨false, false, 0⟩
    ∃ s log, run (stepPins ⟨2, 1⟩ rail) .init [.PowerOn fun j i => j == 0 && i == 2] =
        .ok (s, log) ∧
      (∀ pre, pre <+: log → ∃ k ≤ 2, ∀ i < 2,
        (rail i).IsOn (replay RailPins.act (constructed ⟨2, 1⟩ rail p) pre i) ↔ i < k) ∧
      Complies RailPins.act (Gated rail) (constructed ⟨2, 1⟩ rail p) log ∧
      (s.m_powerOn = true → ∀ i < 2,
        (rail i).Up (replay RailPins.act (constructed ⟨2, 1⟩ rail p) log i)) ∧
      (s.m_powerOn = false → ∀ i < 2,
        ¬ (rail i).IsOn (replay RailPins.act (constructed ⟨2, 1⟩ rail p) log i)) :=
  rails_gated ⟨2, 1⟩ (by decide) (by decide) _ _ (fun _ _ _ => rfl) _

/-! ## What becomes of a `PowerOn` -/

theorem slept_append (es fs : List RailEvent) : slept (es ++ fs) = slept es + slept fs := by
  induction es with
  | nil => exact (Nat.zero_add _).symm
  | cons e es ih =>
    show e.ticks + slept (es ++ fs) = e.ticks + slept es + slept fs
    rw [ih, Nat.add_assoc]

/-- The delays of the first rails. -/
def delays (rail : Nat → RailDescriptor) : Nat → Nat
  | 0 => 0
  | c + 1 => delays rail c + (rail c).m_delay.toNat

theorem delays_le (rail : Nat → RailDescriptor) {c n : Nat} (h : c ≤ n) :
    delays rail c ≤ delays rail n := by
  induction h with
  | refl => exact Nat.le_refl _
  | step _ ih => exact Nat.le_trans ih (Nat.le_add_right _ _)

theorem turnOns_slept (rail : Nat → RailDescriptor) (pgood : Nat → Nat → Bool) (c : Nat) :
    slept ((((List.range c).map .TurnOn).flatMap (drive rail pgood)).map Prod.snd) ≤
      delays rail c := by
  induction c with
  | zero => exact Nat.le_refl 0
  | succ c ih =>
    obtain ⟨es, he, -, hslept, -⟩ := turnOn_spec (rail c) (pgood c)
    rw [List.range_succ, List.map_append, List.flatMap_append, List.map_append, slept_append]
    refine Nat.add_le_add ih ?_
    rw [List.map_singleton, List.flatMap_singleton, drive, he, ofRail, List.map_map]
    show 0 + slept (es.map (Prod.snd ∘ (c, ·))) ≤ _
    rw [show (Prod.snd ∘ fun e : RailEvent => (c, e)) = id from rfl, List.map_id, Nat.zero_add]
    exact hslept

theorem panicShutdown_slept (rail : Nat → RailDescriptor) (pgood : Nat → Nat → Bool)
    (s : PowerResetSupervisor) :
    slept (((PanicShutdown q s).2.flatMap (drive rail pgood)).map Prod.snd) = 0 := by
  have hzero : ∀ es : List RailEvent, (∀ e ∈ es, e.ticks = 0) → slept es = 0 := by
    intro es h
    induction es with
    | nil => rfl
    | cons e es ih =>
      obtain ⟨he, hes⟩ := List.forall_mem_cons.mp h
      show e.ticks + slept es = 0
      rw [he, ih hes]
  refine hzero _ fun e he => ?_
  obtain ⟨⟨j, e⟩, hmem, rfl⟩ := List.mem_map.mp he
  obtain ⟨f, hf, hmem⟩ := List.mem_flatMap.mp hmem
  by_cases hkeep : f.keepsRails = true
  · rw [drive_keepsRails hkeep] at hmem
    cases hmem
  · cases f with
    | TurnOn j => simp [PanicShutdown] at hf
    | TurnOff j =>
      rw [drive, turnOff_eq] at hmem
      obtain ⟨rfl, rfl⟩ := Prod.mk.inj (List.mem_singleton.mp hmem)
      rfl
    | Assert | Deassert | OnPowerOn | OnResetDone | OnPowerOff | OnFault | OnPowerLost =>
      exact absurd rfl hkeep

/-- Whatever the pins were, a panic leaves every rail off. -/
theorem panicShutdown_rails_off (rail : Nat → RailDescriptor) (pgood : Nat → Nat → Bool)
    (s : PowerResetSupervisor) (p : RailPins) :
    ∀ i < q.m_railSequence, ¬ (rail i).IsOn
      (replay RailPins.act p ((PanicShutdown q s).2.flatMap (drive rail pgood)) i) := by
  intro i hi hon
  let b : Board := ⟨fun i => (p i).level == (rail i).onLevel, fun _ => false⟩
  have hshows : Shows q rail p b := fun i _ => beq_iff_eq.symm
  obtain ⟨hend, -⟩ := (drive_expands q rail pgood).along (I := fun _ => True) hshows
    (along_of_kept (J := fun _ => True) (fun _ _ _ h => h) trivial).2
  have hoff := (hend i hi).mp hon
  rw [PanicShutdown, List.append_assoc, replay_append, replay_turnOff, replay_append,
    replay_assert] at hoff
  simp [Board.act, hi] at hoff

/-- **Outcome of `PowerOn`.** It sleeps no longer than all delays together. Either
every rail comes up, and all of them are; or there is a first one that does not show
its PGOOD at any of its looks, none behind it is turned on, and all end up off. -/
theorem powerOn_outcome (q : Sequences) (rail : Nat → RailDescriptor) (s : PowerResetSupervisor)
    (pgood : Nat → Nat → Bool) (p : RailPins) :
    ∃ t es, stepPins q rail s (.PowerOn pgood) = .ok (t, es) ∧
      slept (es.map Prod.snd) ≤ delays rail q.m_railSequence ∧
      ((t.m_powerOn = true ∧ (∀ j < q.m_railSequence, (rail j).ComesUp (pgood j)) ∧
          ∀ j < q.m_railSequence, (rail j).Up (replay RailPins.act p es j)) ∨
        (t.m_powerOn = false ∧ ∃ k < q.m_railSequence,
          (∀ j < k, (rail j).ComesUp (pgood j)) ∧ ¬ (rail k).ComesUp (pgood k) ∧
          (∀ j, k < j → (j, .enable (rail j).onLevel) ∉ es) ∧
          ∀ j < q.m_railSequence, ¬ (rail j).IsOn (replay RailPins.act p es j))) := by
  have hstep : stepPins q rail s (.PowerOn pgood) =
      .ok ((PowerOn q (fun j => ((rail j).TurnOn (pgood j)).1) s).1,
        (PowerOn q (fun j => ((rail j).TurnOn (pgood j)).1) s).2.flatMap (drive rail pgood)) := rfl
  obtain ⟨hup, -⟩ := powerOn_gated (q := q) (s := s) pgood p
  rcases powerOn_spec q (fun j => ((rail j).TurnOn (pgood j)).1) s with
    ⟨hall, he⟩ | ⟨k, hk, hfront, hfail, he⟩ <;> rw [he] at hstep hup
  · refine ⟨_, _, hstep, ?_, .inl ⟨rfl, fun j hj => (turnOn_iff _ _).mp (hall j hj), hup rfl⟩⟩
    rw [List.flatMap_append, releaseFirst_drive, List.append_nil]
    exact turnOns_slept rail pgood _
  · refine ⟨_, _, hstep, ?_, .inr ⟨rfl, k, hk, fun j hj => (turnOn_iff _ _).mp (hfront j hj),
      fun h => ?_, fun j hj hmem => ?_, ?_⟩⟩
    · rw [List.flatMap_append, List.map_append, slept_append, panicShutdown_slept, Nat.add_zero]
      exact Nat.le_trans (turnOns_slept rail pgood _) (delays_le rail hk)
    · rw [(turnOn_iff _ _).mpr h] at hfail
      cases hfail
    · obtain ⟨f, hf, hmem⟩ := List.mem_flatMap.mp hmem
      obtain rfl := eq_turnOn_of_mem_drive hmem rfl
      rcases List.mem_append.mp hf with hf | hf
      · obtain ⟨i, hi, heq⟩ := List.mem_map.mp hf
        have := List.mem_range.mp hi
        have := Event.TurnOn.inj heq
        omega
      · simp [PanicShutdown] at hf
    · rw [List.flatMap_append]
      intro j hj
      rw [replay_append]
      exact panicShutdown_rails_off rail pgood s _ j hj

end EmbeddedPlatform.Supervisor
