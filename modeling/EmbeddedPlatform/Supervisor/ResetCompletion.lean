import EmbeddedPlatform.Supervisor.IndexSafety
import EmbeddedPlatform.Supervisor.ResetTiming

/-! # The reset sequence comes to its end

Waiting is not all a supervisor does. While the rails are good and the done lines show
their devices done, every iteration brings the sequence closer to its end, if it comes
at least a tick after the last and early enough to see a timer wrap. A delay takes as
many iterations as it has ticks, at most. -/
namespace EmbeddedPlatform.Supervisor
open EmbeddedPlatform.Lib

/-! ## Iterations in which nothing goes wrong -/

/-- The level of the done line of a device that is up. -/
def ResetDescriptor.Done : ResetDescriptor → Bool → Prop
  | activeLowWithActiveHighDone, m_done => m_done = true
  | activeLowWithActiveLowDone, m_done => m_done = false
  | plain _, _ | withDelay .., _ => True

/-- The rails and devices are well, and each call comes within `v` ticks of the last. -/
structure Looks.Healthy (d : Nat → ResetDescriptor) (v : Nat) (a : Looks) : Prop where
  current_done : ∀ i, (d i).Done (a.current i).m_done
  earlier_done : ∀ i, (d i).Done (a.earlier i).m_done
  progress : ∀ i, 1 ≤ (a.current i).ticks i
  current_ticks : ∀ i j, (a.current i).ticks j ≤ v
  earlier_ticks : ∀ i j, (a.earlier i).ticks j ≤ v
  isPowerGood : ∀ i, a.isPowerGood i = true

/-- Iterations for `m` resets from the `i`-th on. -/
def budget (d : Nat → ResetDescriptor) : Nat → Nat → Nat
  | _, 0 => 0
  | i, m + 1 => (d i).m_delay.toNat + 1 + budget d (i + 1) m

/-- The count is the one at the release and the ticks since. -/
structure Exact (timer : Timer) (count : UInt32) (s : SinceDeassert) : Prop where
  lt : s.count.toNat < timer.modulus
  count : count.toNat = (s.count.toNat + s.elapsed) % timer.modulus

/-! ## One device -/

theorem toNat_after (timer : Timer) (count : UInt32) (n : Nat) :
    (timer.after count n).toNat = (count.toNat + n) % timer.modulus := by
  have hlt := Nat.mod_lt (count.toNat + n) timer.modulus_pos
  exact UInt32.toNat_ofNat_of_lt' (Nat.lt_of_lt_of_le hlt timer.modulus_le)

theorem Exact.elapse {timer : Timer} {count : UInt32} {l : Released}
    (h : Exact timer count l.since) (n : Nat) :
    Exact timer (timer.after count n) (l.elapse n).since where
  lt := h.lt
  count := by
    show (timer.after count n).toNat = (l.since.count.toNat + (l.since.elapsed + n)) % _
    rw [toNat_after, h.count, Nat.mod_add_mod, Nat.add_assoc]

section
variable {d : ResetDescriptor} {t : TimedReset} {l : Released} {m_done : Bool}

/-- A device that was found ready is ready. -/
theorem Device.ready (h : Device d t (some l)) (hready : l.ready = true) (hdone : d.Done m_done) :
    (d.IsReady t.count m_done t.reset).2 = true := by
  cases d with
  | withDelay polarity delay =>
    show (t.reset.IsReady t.count).2 = true
    rw [TimedReset.isReady_eq, (h.tracks l rfl polarity delay rfl).2 hready]
    rfl
  | plain polarity => rfl
  | activeLowWithActiveHighDone => exact hdone
  | activeLowWithActiveLowDone =>
    rw [show m_done = false from hdone]
    rfl

/-- A device is ready as soon as its delay is over, if its timer has not been around. -/
theorem Device.ready_or {timer : Timer} (h : Device d t (some l)) (hexact : Exact timer t.count l.since)
    (helapsed : l.since.elapsed < timer.modulus) (hdone : d.Done m_done) :
    (d.IsReady t.count m_done t.reset).2 = true ∨ l.since.elapsed ≤ d.m_delay.toNat := by
  cases d with
  | withDelay polarity delay =>
    refine or_iff_not_imp_right.mpr fun hover => ?_
    have hover : delay.toNat < l.since.elapsed := Nat.lt_of_not_le hover
    show (t.reset.IsReady t.count).2 = true
    rw [TimedReset.isReady_eq, show t.reset.m_delay = delay from h.delay,
      (h.tracks l rfl polarity delay rfl).1.start]
    simp only [Bool.or_eq_true, decide_eq_true_eq, UInt32.lt_iff_toNat_lt, UInt32.toNat_add,
      UInt16.toNat_toUInt32]
    have hcount := hexact.count
    have hlt := hexact.lt
    have hsum := Nat.mod_le (l.since.count.toNat + delay.toNat) 4294967296
    by_cases haround : l.since.count.toNat + l.since.elapsed < timer.modulus
    · rw [Nat.mod_eq_of_lt haround] at hcount
      right
      omega
    · rw [Nat.mod_eq_sub_mod (Nat.le_of_not_lt haround), Nat.mod_eq_of_lt (by omega)] at hcount
      left
      right
      omega
  | plain polarity => exact .inl rfl
  | activeLowWithActiveHighDone => exact .inl hdone
  | activeLowWithActiveLowDone =>
    rw [show m_done = false from hdone]
    exact .inl rfl

end

/-! ## Looks -/

/-- The timer of a released device goes on for at most `n` ticks. -/
def Clocked (timer : Nat → Timer) (n : Nat) (r : Resets) (p : Lines) (r' : Resets) (p' : Lines) :
    Prop :=
  ∀ j l, p j = some l → Exact (timer j) (r j).count l.since →
    ∃ l', p' j = some l' ∧ Exact (timer j) (r' j).count l'.since ∧
      l.since.elapsed ≤ l'.since.elapsed ∧ l'.since.elapsed ≤ l.since.elapsed + n

section
variable {q : Sequences} {timer : Nat → Timer} {d : Nat → ResetDescriptor} {v : Nat} {a : Looks}
  {r t u : Resets} {p : Lines} {cs : List ResetCall} {i : Nat}

theorem Clocked.trans {m n : Nat} {p' p'' : Lines} (h : Clocked timer m r p t p')
    (h' : Clocked timer n t p' u p'') : Clocked timer (m + n) r p u p'' := by
  intro j l hl hexact
  obtain ⟨l', hl', hexact', hge, hle⟩ := h j l hl hexact
  obtain ⟨l'', hl'', hexact'', hge', hle'⟩ := h' j l' hl' hexact'
  exact ⟨l'', hl'', hexact'', by omega, by omega⟩

/-- A look at one device leaves the timers of all of them exact. -/
theorem isReady_exact {ready : Bool} {look : Look}
    (hlook : r.IsReady timer d i look = (ready, t, cs)) {j : Nat} {l : Released}
    (hl : p j = some l) (hexact : Exact (timer j) (r j).count l.since) :
    ∃ l', replay Lines.act p cs j = some l' ∧ Exact (timer j) (t j).count l'.since ∧
      l'.since.elapsed = l.since.elapsed + look.ticks j := by
  cases hlook
  have hticks : p.act (.ticks look.ticks) j = some (l.elapse (look.ticks j)) :=
    congrArg (Option.map (Released.elapse (look.ticks j))) hl
  have helapsed := hexact.elapse (look.ticks j)
  by_cases hj : j = i
  · subst hj
    refine ⟨_, Lines.isReady_self hticks _ _, ?_, rfl⟩
    rw [Function.update_self]
    exact ⟨helapsed.lt, helapsed.count⟩
  · refine ⟨l.elapse (look.ticks j), ?_, ?_, rfl⟩
    · exact (Function.update_of_ne hj _ _).trans hticks
    · rw [Function.update_of_ne hj]
      exact helapsed

theorem isReady_clocked {ready : Bool} {look : Look}
    (hlook : r.IsReady timer d i look = (ready, t, cs)) (hv : ∀ j, look.ticks j ≤ v) :
    Clocked timer v r p t (replay Lines.act p cs) := by
  intro j l hl hexact
  obtain ⟨l', hl', hexact', helapsed⟩ := isReady_exact hlook hl hexact
  have := hv j
  exact ⟨l', hl', hexact', by omega, by omega⟩

/-- The second half of `UpdateResets` finds all well. -/
theorem backUp_healthy (timer : Nat → Timer) (ha : a.Healthy d v) (s : PowerResetSupervisor) {is : List Nat}
    (his : ∀ i ∈ is, i < q.m_resetSequence ∧ p.Found i) (h : Devices d r p) :
    ∃ t cs, ResetBoard.backUp q timer d a ⟨s, r⟩ is = .ok (⟨s, t⟩, cs) ∧
      Devices d t (replay Lines.act p cs) ∧ p.After (replay Lines.act p cs) ∧
      Clocked timer (is.length * v) r p t (replay Lines.act p cs) := by
  induction is generalizing r p with
  | nil =>
    refine ⟨r, [], rfl, h, ⟨fun _ => id, fun _ => id⟩, fun j l hl hexact => ?_⟩
    exact ⟨l, hl, hexact, Nat.le_refl _, Nat.le_add_right _ _⟩
  | cons i is ih =>
    obtain ⟨⟨hlt, l, hl, hready⟩, hrest⟩ := List.forall_mem_cons.mp his
    have helapsed : Devices d (r.elapse timer (a.earlier i).ticks) (p.act (.ticks _)) :=
      h.elapse _
    have hdevice := helapsed i
    rw [show p.act (.ticks (a.earlier i).ticks) i = some (l.elapse ((a.earlier i).ticks i)) from
      congrArg (Option.map _) hl] at hdevice
    have hyes := hdevice.ready hready (ha.earlier_done i)
    obtain ⟨r', es, hlook⟩ : ∃ r' es, r.IsReady timer d i (a.earlier i) = (true, r', es) :=
      ⟨_, _, Prod.ext hyes rfl⟩
    obtain ⟨-, hdevices, hafter, -⟩ := isReady_lines (q := q) h hlook
    have hclocked := isReady_clocked (p := p) hlook (ha.earlier_ticks i)
    obtain ⟨t, ds, hback, hdevices', hafter', hclocked'⟩ :=
      ih (fun k hk => ⟨(hrest k hk).1, hafter.found k (hrest k hk).2⟩) hdevices
    refine ⟨t, es ++ ds, ?_, ?_⟩
    · unfold ResetBoard.backUp
      rw [if_pos hlt]
      dsimp only
      rw [hlook]
      dsimp only
      rw [if_pos rfl, hback]
    · rw [replay_append, List.length_cons, Nat.succ_mul, Nat.add_comm]
      exact ⟨hdevices', hafter.trans hafter', hclocked.trans hclocked'⟩

end

/-! ## Iterations -/

/-- The current reset is released, at most `slack` ticks longer than its delay, and the
sequence is done in `left` iterations. -/
def Pending (q : Sequences) (timer : Nat → Timer) (d : Nat → ResetDescriptor) (b : ResetBoard)
    (p : Lines) (slack left : Nat) : Prop :=
  let i := b.supervisor.m_resetSequenceIndex
  ∃ l, p i = some l ∧ Exact (timer i) (b.reset i).count l.since ∧
    l.since.elapsed ≤ (d i).m_delay.toNat + slack ∧
    max 1 ((d i).m_delay.toNat + 1 - l.since.elapsed) +
      budget d (i + 1) (q.m_resetSequence - (i + 1)) ≤ left

/-- Power is on, and the sequence is done or will be. -/
structure Running (q : Sequences) (timer : Nat → Timer) (d : Nat → ResetDescriptor) (v : Nat)
    (b : ResetBoard) (p : Lines) (left : Nat) : Prop where
  sequenced : Sequenced q d b p
  inBounds : b.supervisor.InBounds q
  on : b.supervisor.m_powerOn = true
  pending : b.supervisor.m_resetsDone = true ∨
    Pending q timer d b p (q.m_resetSequence * v) left

section
variable {q : Sequences} {timer : Nat → Timer} {d : Nat → ResetDescriptor} {v left : Nat}
  {a : Looks} {b : ResetBoard} {p : Lines}

theorem budget_succ {i n : Nat} (hi : i < n) :
    budget d i (n - i) = (d i).m_delay.toNat + 1 + budget d (i + 1) (n - (i + 1)) := by
  obtain ⟨m, hm⟩ : ∃ m, n - i = m + 1 := ⟨n - i - 1, by omega⟩
  rw [hm, show n - (i + 1) = m by omega]
  rfl

/-- A reset that has just been released. -/
theorem deassert_exact {r t : Resets} {i : Nat} {n : Nat → Nat} {cs : List ResetCall}
    (h : r.Deassert timer d i n = (t, cs)) :
    ∃ l, replay Lines.act p cs i = some l ∧ Exact (timer i) (t i).count l.since ∧
      l.since.elapsed = 0 := by
  cases h
  have hlt : ((timer i).after (r i).count (n i)).toNat < (timer i).modulus := by
    rw [toNat_after]
    exact Nat.mod_lt _ (timer i).modulus_pos
  refine ⟨_, Function.update_self .., ⟨hlt, ?_⟩, rfl⟩
  rw [Function.update_self]
  exact (Nat.mod_eq_of_lt hlt).symm

theorem advance_total (timer : Nat → Timer) (d : Nat → ResetDescriptor) (a : Looks)
    (h : b.supervisor.Indexed q) :
    ∃ c cs, ResetBoard.advance q timer d a b = .ok (c, cs) := by
  unfold ResetBoard.advance
  dsimp only
  split
  · exact ⟨_, _, rfl⟩
  · rename_i hdone
    rw [if_pos (h.lt (Bool.not_eq_true _ ▸ hdone))]
    split
    · split
      · exact ⟨_, _, rfl⟩
      · exact ⟨_, _, rfl⟩
    · exact ⟨_, _, rfl⟩

/-- The current device is ready, or its delay goes on. -/
theorem current_ready_or {r t : Resets} {i : Nat} {look : Look} {ready : Bool}
    {cs : List ResetCall} {l : Released} (h : Devices d r p)
    (hlook : r.IsReady timer d i look = (ready, t, cs)) (hl : p i = some l)
    (hexact : Exact (timer i) (r i).count l.since)
    (helapsed : l.since.elapsed + look.ticks i < (timer i).modulus)
    (hdone : (d i).Done look.m_done) :
    ready = true ∨ l.since.elapsed + look.ticks i ≤ (d i).m_delay.toNat := by
  cases hlook
  have hdevice : Device (d i) (r.elapse timer look.ticks i) (p.act (.ticks look.ticks) i) :=
    h.elapse look.ticks i
  rw [show p.act (.ticks look.ticks) i = some (l.elapse (look.ticks i)) from
    congrArg (Option.map _) hl] at hdevice
  exact hdevice.ready_or (hexact.elapse (look.ticks i)) helapsed hdone

/-- The first half of `UpdateResets` brings the end closer. -/
theorem advance_healthy {c : ResetBoard} {cs : List ResetCall}
    (h : Running q timer d v b p (left + 1)) (ha : a.Healthy d v)
    (hmod : ∀ i < q.m_resetSequence,
      (d i).m_delay.toNat + (q.m_resetSequence + 1) * v < (timer i).modulus)
    (hs : ResetBoard.advance q timer d a b = .ok (c, cs)) :
    c.supervisor.m_resetsDone = true ∨ Pending q timer d c (replay Lines.act p cs) 0 left := by
  obtain ⟨hdone, rfl, rfl⟩ | ⟨hdone, hlt, ready, r, es, hlook, hcases⟩ := ResetBoard.advance_cases hs
  · exact .inl hdone
  · obtain ⟨l, hl, hexact, hslack, hleft⟩ :=
      h.pending.resolve_left fun hd => absurd (hdone.symm.trans hd) Bool.false_ne_true
    obtain ⟨l', hl', hexact', helapsed⟩ := isReady_exact hlook hl hexact
    have hprogress := ha.progress b.supervisor.m_resetSequenceIndex
    have hticks := ha.current_ticks b.supervisor.m_resetSequenceIndex
      b.supervisor.m_resetSequenceIndex
    have hroom := hmod _ hlt
    rw [Nat.succ_mul] at hroom
    have hready := current_ready_or h.sequenced.devices hlook hl hexact (by omega)
      (ha.current_done _)
    obtain ⟨rfl, rfl, rfl⟩ | ⟨-, -, hsup, -, -⟩ | ⟨-, hmore, hsup, ds, hds, rfl⟩ := hcases
    · right
      obtain hfalse | hdelay := hready
      · exact absurd hfalse Bool.false_ne_true
      · refine ⟨l', hl', hexact', Nat.le_trans (Nat.le_of_eq helapsed) hdelay, ?_⟩
        dsimp only
        omega
    · left
      rw [hsup]
    · right
      obtain ⟨fresh, hfresh, hexact'', hzero⟩ :=
        deassert_exact (p := replay Lines.act p es) hds
      unfold Pending
      rw [hsup, replay_append]
      refine ⟨fresh, hfresh, hexact'', by omega, ?_⟩
      have := budget_succ (d := d) hmore
      dsimp only
      omega

theorem Pending.clocked {c : ResetBoard} {r : Resets} {p' : Lines} {n m : Nat}
    (h : Pending q timer d c p 0 left) (hclocked : Clocked timer n c.reset p r p') (hn : n ≤ m) :
    Pending q timer d ⟨c.supervisor, r⟩ p' m left := by
  obtain ⟨l, hl, hexact, hslack, hleft⟩ := h
  obtain ⟨l', hl', hexact', hge, hle⟩ := hclocked _ l hl hexact
  exact ⟨l', hl', hexact', by dsimp only at hslack ⊢; omega, by dsimp only at hleft ⊢; omega⟩

/-- In `UpdateResets` nothing goes wrong. -/
theorem updateResets_healthy (h : Running q timer d v b p (left + 1)) (ha : a.Healthy d v)
    (hmod : ∀ i < q.m_resetSequence,
      (d i).m_delay.toNat + (q.m_resetSequence + 1) * v < (timer i).modulus) :
    ∃ c cs, ResetBoard.UpdateResets q timer d a b = .ok (c, cs) ∧
      c.supervisor.m_powerOn = true ∧ (c.supervisor.m_resetsDone = true ∨
        Pending q timer d c (replay Lines.act p cs) (q.m_resetSequence * v) left) := by
  obtain ⟨c, es, hadvance⟩ := advance_total timer d a h.inBounds.resets
  obtain ⟨-, hc, honc⟩ := advance_sequenced h.sequenced h.on hadvance
  have hle := (ResetBoard.advance_indexed h.inBounds.resets hadvance).le
  obtain ⟨t, ds, hback, -, -, hclocked⟩ := backUp_healthy (q := q) timer ha c.supervisor
    (fun i hi => ⟨Nat.lt_of_lt_of_le (List.mem_range.mp hi) hle,
      hc.passed i (List.mem_range.mp hi)⟩) hc.devices
  rw [List.length_range] at hclocked
  refine ⟨⟨c.supervisor, t⟩, es ++ ds, ?_, honc, ?_⟩
  · unfold ResetBoard.UpdateResets
    rw [hadvance]
    dsimp only
    rw [hback]
  · rw [replay_append]
    exact (advance_healthy h ha hmod hadvance).imp_right fun hpending =>
      hpending.clocked hclocked (Nat.mul_le_mul_right v hle)

/-- **Step lemma.** An iteration in which nothing goes wrong brings the end closer. -/
theorem iteration_healthy (h : Running q timer d v b p (left + 1)) (ha : a.Healthy d v)
    (hmod : ∀ i < q.m_resetSequence,
      (d i).m_delay.toNat + (q.m_resetSequence + 1) * v < (timer i).modulus) :
    ∃ b' cs, ResetBoard.step q timer d b (.Iteration a) = .ok (b', cs) ∧
      Running q timer d v b' (replay Lines.act p cs) left := by
  obtain ⟨c, cs, hupdate, hon, hpending⟩ := updateResets_healthy h ha hmod
  obtain ⟨isReady, stillReady, hs⟩ := ResetBoard.updateResets_simulates h.inBounds.resets hupdate
  obtain ⟨u, fs, hu, hindexed, -, hmonitor⟩ :=
    updateResets_ok isReady stillReady h.inBounds.resets
  obtain ⟨rfl, -⟩ : u = c.supervisor ∧ _ = _ := Prod.mk.inj (Except.ok.inj (hu.symm.trans hs))
  have hin : c.supervisor.InBounds q := ⟨hindexed, hmonitor ▸ h.inBounds.rails⟩
  have hstep : ResetBoard.step q timer d b (.Iteration a) =
      .ok (⟨nextRail q c.supervisor, c.reset⟩, cs) := by
    show ResetBoard.Iteration q timer d a b = _
    unfold ResetBoard.Iteration
    rw [if_pos h.on, hupdate]
    dsimp only
    rw [monitorRails_eq _ hin.rails]
    have hgood : checkRail q ⟨fun _ => true, fun _ => true, a.isPowerGood, a.isCritical,
        a.isInputSupply⟩ c.supervisor.m_monitorRailIndex c.supervisor = (c.supervisor, []) :=
      if_pos (ha.isPowerGood _)
    rw [hgood]
    dsimp only [ResetBoard.perform, Resets.drive]
    rw [List.append_nil]
  obtain ⟨-, hsequenced⟩ := step_sequenced h.sequenced hstep
  exact ⟨_, cs, hstep, hsequenced, nextRail_inBounds hin, hon, hpending⟩

theorem Running.mono {m : Nat} (h : Running q timer d v b p left) (hm : left ≤ m) :
    Running q timer d v b p m := by
  refine ⟨h.sequenced, h.inBounds, h.on, h.pending.imp_right ?_⟩
  intro ⟨l, hl, hexact, hslack, hleft⟩
  exact ⟨l, hl, hexact, hslack, Nat.le_trans hleft hm⟩

/-- No iterations left to wait for. -/
theorem Running.done (h : Running q timer d v b p 0) : b.supervisor.m_resetsDone = true := by
  refine h.pending.resolve_right ?_
  rintro ⟨l, -, -, -, hleft⟩
  omega

theorem run_healthy {as : List Looks} (h : Running q timer d v b p left)
    (has : ∀ a ∈ as, a.Healthy d v)
    (hmod : ∀ i < q.m_resetSequence,
      (d i).m_delay.toNat + (q.m_resetSequence + 1) * v < (timer i).modulus)
    (hlen : left ≤ as.length) :
    ∃ b' log, run (ResetBoard.step q timer d) b (as.map .Iteration) = .ok (b', log) ∧
      Running q timer d v b' (replay Lines.act p log) 0 := by
  induction as generalizing b p left with
  | nil => exact ⟨b, [], rfl, h.mono hlen⟩
  | cons a as ih =>
    obtain ⟨ha, hrest⟩ := List.forall_mem_cons.mp has
    obtain ⟨c, cs, hstep, hc⟩ := iteration_healthy (h.mono (show left ≤ left - 1 + 1 by omega))
      ha hmod
    obtain ⟨b', log, hrun, hdone⟩ := ih hc hrest (by rw [List.length_cons] at hlen; omega)
    refine ⟨b', cs ++ log, run_cons_of_ok hstep hrun, ?_⟩
    rw [replay_append]
    exact hdone

theorem drive_turnOn (n : Nat → Nat) (r : Resets) (is : List Nat) :
    r.drive timer d n (is.map .TurnOn) = (r, is.map fun i => .other (.TurnOn i)) := by
  induction is with
  | nil => rfl
  | cons i is ih => simp only [List.map_cons, Resets.drive, ih]

theorem replay_turnOns (p : Lines) (is : List Nat) :
    replay Lines.act p (is.map fun i => .other (.TurnOn i)) = p := by
  refine replay_of_idle (fun e he p => ?_) p
  obtain ⟨i, -, rfl⟩ := List.mem_map.mp he
  rfl

theorem turnOnRails_up {turnOn : Nat → Bool} {is : List Nat} (h : ∀ i ∈ is, turnOn i = true) :
    turnOnRails turnOn is = (true, is.map .TurnOn) := by
  induction is with
  | nil => rfl
  | cons i is ih =>
    obtain ⟨hi, his⟩ := List.forall_mem_cons.mp h
    unfold turnOnRails
    rw [if_pos hi, ih his]
    rfl

theorem powerOn_up {turnOn : Nat → Bool} (hup : ∀ i < q.m_railSequence, turnOn i = true)
    (s : PowerResetSupervisor) : PowerOn q turnOn s =
      (restarted s true, (List.range q.m_railSequence).map .TurnOn ++ releaseFirst q) := by
  unfold PowerOn
  rw [turnOnRails_up fun i hi => hup i (List.mem_range.mp hi)]
  exact congrArg (Prod.mk _) (List.append_assoc ..)

/-- Power on with all rails up. -/
theorem powerOn_running (timer : Nat → Timer) (v : Nat) (h : Sequenced q d b p)
    (hin : b.supervisor.InBounds q) (hn : 0 < q.m_resetSequence) {turnOn : Nat → Bool}
    (hup : ∀ i < q.m_railSequence, turnOn i = true) (released : Nat → Nat) :
    ∃ b' cs, ResetBoard.step q timer d b (.PowerOn turnOn released) = .ok (b', cs) ∧
      Running q timer d v b' (replay Lines.act p cs) (budget d 0 q.m_resetSequence) := by
  obtain ⟨t, ds, hrelease⟩ : ∃ t ds, b.reset.Deassert timer d 0 released = (t, ds) := ⟨_, _, rfl⟩
  have hfirst : releaseFirst q = [.Deassert 0, .OnPowerOn] := by
    unfold releaseFirst
    rw [if_pos (Nat.ne_of_gt hn)]
    rfl
  have hstep : ResetBoard.step q timer d b (.PowerOn turnOn released) =
      .ok (⟨restarted b.supervisor true, t⟩,
        (List.range q.m_railSequence).map (fun i => .other (.TurnOn i)) ++
          (ds ++ [.other .OnPowerOn])) := by
    show Except.ok (ResetBoard.perform _ _ _ _ (PowerOn q turnOn b.supervisor)) = _
    rw [powerOn_up hup]
    unfold ResetBoard.perform
    rw [drive_append, drive_turnOn, hfirst]
    dsimp only [Resets.drive]
    rw [hrelease]
  obtain ⟨-, hsequenced⟩ := step_sequenced h hstep
  refine ⟨_, _, hstep, hsequenced, restarted_inBounds hn true hin.rails, rfl, .inr ?_⟩
  rw [replay_append, replay_turnOns, replay_append]
  obtain ⟨l, hl, hexact, hzero⟩ := deassert_exact (p := p) hrelease
  refine ⟨l, hl, hexact, by omega, ?_⟩
  have hbudget := budget_succ (d := d) hn
  rw [Nat.sub_zero] at hbudget
  dsimp only [restarted]
  omega

end

end EmbeddedPlatform.Supervisor
