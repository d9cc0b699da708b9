import EmbeddedPlatform.Supervisor.ResetBoard

/-! # When resets are released, and what has been waited for

Behind the devices of a sequence stand their timers and done lines. A reset is released
only when each one before it is released too, has been found ready since, and if it has
a delay, has been given its time. The supervisor does not ask for more: a device that
is down again when a later one is released had come up before. -/
namespace EmbeddedPlatform.Supervisor
open EmbeddedPlatform.Lib

/-! ## Released resets -/

/-- What has happened since a reset was released: to its timer, and whether it has been
found ready. -/
structure Released where
  since : SinceDeassert
  ready : Bool

def Released.elapse (n : Nat) (l : Released) : Released :=
  { l with since := { l.since with elapsed := l.since.elapsed + n } }

def Released.found (count : UInt32) (ready : Bool) (l : Released) : Released :=
  ⟨{ l.since with below := l.since.below || decide (count < l.since.count) }, l.ready || ready⟩

/-- The resets that are released. -/
abbrev Lines := Nat → Option Released

def Lines.act (p : Lines) : ResetCall → Lines
  | .Assert i => Function.update p i none
  | .Deassert i count => Function.update p i (some ⟨⟨count, 0, false⟩, false⟩)
  | .IsReady i count ready => Function.update p i ((p i).map (Released.found count ready))
  | .ticks n => fun i => (p i).map (Released.elapse (n i))
  | .other _ => p

namespace ResetDescriptor

/-- The delay has passed, or the timer has been seen to go back. Nothing is said where
the end of the delay does not fit into 32 bits. -/
def Waited : ResetDescriptor → SinceDeassert → Prop
  | withDelay _ delay, s => s.count.toNat + delay.toNat < 4294967296 →
      delay.toNat ≤ s.elapsed ∨ s.below = true
  | plain _, _ | activeLowWithActiveHighDone, _ | activeLowWithActiveLowDone, _ => True

/-- Released, found ready, and in time. -/
def Up (d : ResetDescriptor) (l : Option Released) : Prop :=
  ∃ r, l = some r ∧ r.ready = true ∧ d.Waited r.since

end ResetDescriptor

/-- A reset is released, and the sequence said to be done, only when all resets before
are up. -/
def InSequence (q : Sequences) (d : Nat → ResetDescriptor) (p : Lines) : ResetCall → Prop
  | .Deassert j _ => ∀ i < j, (d i).Up (p i)
  | .other .OnResetDone => ∀ i < q.m_resetSequence, (d i).Up (p i)
  | _ => True

/-! ## One device -/

/-- What a descriptor remembers of it. -/
structure Device (d : ResetDescriptor) (t : TimedReset) (l : Option Released) : Prop where
  delay : t.reset.m_delay = d.m_delay
  pin : ∀ r, l = some r → t.reset.m_pin = d.released
  tracks : ∀ r, l = some r → ∀ polarity delay, d = .withDelay polarity delay →
    TimedReset.Tracks delay t r.since ∧ (r.ready = true → t.reset.m_done = true)

namespace Device
variable {d : ResetDescriptor} {t : TimedReset} {l : Option Released}

theorem up {r : Released} (h : Device d t (some r)) (hready : r.ready = true) : d.Up (some r) := by
  refine ⟨r, rfl, hready, ?_⟩
  cases d with
  | withDelay polarity delay =>
    obtain ⟨htracks, hdone⟩ := h.tracks r rfl polarity delay rfl
    exact htracks.done (hdone hready)
  | plain polarity => trivial
  | activeLowWithActiveHighDone => trivial
  | activeLowWithActiveLowDone => trivial

theorem elapse (h : Device d t l) (timer : Timer) (n : Nat) :
    Device d { t with count := timer.after t.count n } (l.map (Released.elapse n)) := by
  refine ⟨h.delay, ?_, ?_⟩
  · intro r hr
    obtain ⟨r', hl, rfl⟩ := Option.map_eq_some_iff.mp hr
    exact h.pin r' hl
  · intro r hr polarity delay hd
    obtain ⟨r', hl, rfl⟩ := Option.map_eq_some_iff.mp hr
    obtain ⟨htracks, hdone⟩ := h.tracks r' hl polarity delay hd
    have hdelay : t.reset.m_delay = delay := by
      rw [h.delay, hd]
      rfl
    have hs : t.step timer polarity (.elapse n) =
        .ok ({ t with count := timer.after t.count n }, [.ticks n]) := rfl
    obtain ⟨-, -, hafter⟩ := TimedReset.step_tracks (p := some r'.since) hdelay
      (fun s hs => Option.some.inj hs ▸ htracks) hs
    exact ⟨hafter _ rfl, hdone⟩

theorem moveBack (h : Device d t l) :
    Device d { t with count := (Core.UpdateOffset t.count Core.logTimerMax).1 } l := by
  refine ⟨h.delay, h.pin, fun r hr polarity delay hd => ?_⟩
  obtain ⟨htracks, hdone⟩ := h.tracks r hr polarity delay hd
  exact ⟨⟨htracks.start, Nat.le_trans (TimedReset.toNat_updateOffset_le _ _) htracks.count_le,
    htracks.done⟩, hdone⟩

theorem isReady (h : Device d t l) (m_done : Bool) :
    Device d { t with reset := (d.IsReady t.count m_done t.reset).1 }
      (l.map (Released.found t.count (d.IsReady t.count m_done t.reset).2)) := by
  cases d with
  | withDelay polarity delay =>
    show Device _ { t with reset := (t.reset.IsReady t.count).1 }
      (l.map (Released.found t.count (t.reset.IsReady t.count).2))
    refine ⟨?_, ?_, ?_⟩
    · rw [TimedReset.isReady_eq]
      exact h.delay
    · intro r hr
      obtain ⟨r', hl, rfl⟩ := Option.map_eq_some_iff.mp hr
      rw [TimedReset.isReady_eq]
      exact h.pin r' hl
    · intro r hr polarity' delay' hd
      cases hd
      obtain ⟨r', hl, rfl⟩ := Option.map_eq_some_iff.mp hr
      obtain ⟨htracks, hdone⟩ := h.tracks r' hl polarity delay rfl
      refine ⟨(htracks.isReady h.delay).2, fun hready => ?_⟩
      rw [TimedReset.isReady_eq] at hready ⊢
      rcases Bool.or_eq_true_iff.mp hready with hbefore | hnow
      · show (t.reset.m_done || _ || _) = true
        rw [hdone hbefore]
        rfl
      · exact hnow
  | plain polarity =>
    refine ⟨h.delay, fun r hr => ?_, fun _ _ _ _ hd => ResetDescriptor.noConfusion hd⟩
    obtain ⟨r', hl, rfl⟩ := Option.map_eq_some_iff.mp hr
    exact h.pin r' hl
  | activeLowWithActiveHighDone =>
    refine ⟨h.delay, fun r hr => ?_, fun _ _ _ _ hd => ResetDescriptor.noConfusion hd⟩
    obtain ⟨r', hl, rfl⟩ := Option.map_eq_some_iff.mp hr
    exact h.pin r' hl
  | activeLowWithActiveLowDone =>
    refine ⟨h.delay, fun r hr => ?_, fun _ _ _ _ hd => ResetDescriptor.noConfusion hd⟩
    obtain ⟨r', hl, rfl⟩ := Option.map_eq_some_iff.mp hr
    exact h.pin r' hl

theorem deassert (h : Device d t l) :
    Device d { t with reset := d.Deassert t.count t.reset } (some ⟨⟨t.count, 0, false⟩, false⟩) := by
  have hdelay : (d.Deassert t.count t.reset).m_delay = d.m_delay := by
    rw [← h.delay]
    cases d with
    | plain polarity => cases polarity <;> rfl
    | withDelay polarity delay => cases polarity <;> rfl
    | activeLowWithActiveHighDone => rfl
    | activeLowWithActiveLowDone => rfl
  refine ⟨hdelay, fun r hr => ?_, fun r hr polarity delay hd => ?_⟩
  · cases d with
    | plain polarity => cases polarity <;> rfl
    | withDelay polarity delay => cases polarity <;> rfl
    | activeLowWithActiveHighDone => rfl
    | activeLowWithActiveLowDone => rfl
  · cases hr
    refine ⟨?_, fun hfalse => absurd hfalse Bool.false_ne_true⟩
    rw [hd]
    obtain ⟨level, hlevel⟩ := TimedReset.deassert_eq polarity t.count t.reset
    show TimedReset.Tracks delay { t with reset := polarity.Deassert t.count t.reset } _
    rw [hlevel]
    exact ⟨rfl, Nat.le_refl _, fun hfalse => absurd hfalse Bool.false_ne_true⟩

theorem hold (h : Device d t l) : Device d { t with reset := d.Assert t.reset } none := by
  have hdelay : (d.Assert t.reset).m_delay = d.m_delay := by
    rw [← h.delay]
    cases d with
    | plain polarity => cases polarity <;> rfl
    | withDelay polarity delay => cases polarity <;> rfl
    | activeLowWithActiveHighDone => rfl
    | activeLowWithActiveLowDone => rfl
  exact ⟨hdelay, fun r hr => absurd hr.symm (Option.some_ne_none r),
    fun r hr => absurd hr.symm (Option.some_ne_none r)⟩

end Device

/-! ## Calls -/

def Devices (d : Nat → ResetDescriptor) (r : Resets) (p : Lines) : Prop :=
  ∀ i, Device (d i) (r i) (p i)

/-- Released and found ready. -/
def Lines.Found (p : Lines) (i : Nat) : Prop := ∃ r, p i = some r ∧ r.ready = true

section
variable {q : Sequences} {timer : Nat → Timer} {d : Nat → ResetDescriptor} {r t : Resets}
  {p : Lines} {cs : List ResetCall} {i j : Nat}

theorem Devices.up (h : Devices d r p) (hi : p.Found i) : (d i).Up (p i) := by
  obtain ⟨l, hl, hready⟩ := hi
  have hdevice := h i
  rw [hl] at hdevice ⊢
  exact hdevice.up hready

theorem Devices.update (h : Devices d r p) {device : TimedReset} {l : Option Released}
    (hi : Device (d i) device l) :
    Devices d (Function.update r i device) (Function.update p i l) := by
  intro j
  by_cases hj : j = i
  · subst hj
    rw [Function.update_self, Function.update_self]
    exact hi
  · rw [Function.update_of_ne hj, Function.update_of_ne hj]
    exact h j

theorem Devices.elapse (h : Devices d r p) (n : Nat → Nat) :
    Devices d (r.elapse timer n) (p.act (.ticks n)) := fun i => (h i).elapse (timer i) (n i)

/-- Lines that are released stay so, and those found ready. -/
structure Lines.After (p t : Lines) : Prop where
  isSome : ∀ i, (p i).isSome = true → (t i).isSome = true
  found : ∀ i, p.Found i → t.Found i

theorem Lines.After.trans {p t u : Lines} (h : p.After t) (h' : t.After u) : p.After u :=
  ⟨fun i hi => h'.isSome i (h.isSome i hi), fun i hi => h'.found i (h.found i hi)⟩

theorem Lines.after_ticks (p : Lines) (n : Nat → Nat) : p.After (p.act (.ticks n)) where
  isSome i hi := by
    rw [Option.isSome_iff_exists] at hi ⊢
    obtain ⟨l, hl⟩ := hi
    exact ⟨l.elapse (n i), congrArg (Option.map (Released.elapse (n i))) hl⟩
  found i hi := by
    obtain ⟨l, hl, hready⟩ := hi
    exact ⟨l.elapse (n i), congrArg (Option.map (Released.elapse (n i))) hl, hready⟩

theorem Lines.after_isReady (p : Lines) (i : Nat) (count : UInt32) (ready : Bool) :
    p.After (p.act (.IsReady i count ready)) := by
  have hmap : ∀ j l, p j = some l → ∃ l', p.act (.IsReady i count ready) j = some l' ∧
      (l.ready = true → l'.ready = true) := by
    intro j l hl
    show ∃ l', Function.update p i ((p i).map (Released.found count ready)) j = some l' ∧ _
    by_cases hj : j = i
    · subst hj
      rw [Function.update_self, hl]
      exact ⟨l.found count ready, rfl, fun hready => Bool.or_eq_true_iff.mpr (.inl hready)⟩
    · rw [Function.update_of_ne hj]
      exact ⟨l, hl, id⟩
  refine ⟨fun j hj => ?_, fun j hj => ?_⟩
  · obtain ⟨l, hl⟩ := Option.isSome_iff_exists.mp hj
    obtain ⟨l', hl', -⟩ := hmap j l hl
    exact Option.isSome_iff_exists.mpr ⟨l', hl'⟩
  · obtain ⟨l, hl, hready⟩ := hj
    obtain ⟨l', hl', hready'⟩ := hmap j l hl
    exact ⟨l', hl', hready' hready⟩

theorem Lines.isReady_self {l : Released} (hi : p i = some l) (count : UInt32) (ready : Bool) :
    p.act (.IsReady i count ready) i = some (l.found count ready) := by
  show Function.update p i ((p i).map _) i = _
  rw [Function.update_self, hi]
  rfl

theorem Lines.found_isReady (hi : (p i).isSome = true) (count : UInt32) :
    (p.act (.IsReady i count true)).Found i := by
  obtain ⟨l, hl⟩ := Option.isSome_iff_exists.mp hi
  exact ⟨l.found count true, Lines.isReady_self hl count true, Bool.or_true _⟩

/-- One look. -/
theorem isReady_lines {ready : Bool} {l : Look} (h : Devices d r p)
    (hlook : r.IsReady timer d i l = (ready, t, cs)) :
    Complies Lines.act (InSequence q d) p cs ∧ Devices d t (replay Lines.act p cs) ∧
      p.After (replay Lines.act p cs) ∧
      (ready = true → (p i).isSome = true → (replay Lines.act p cs).Found i) := by
  cases hlook
  have helapsed : Devices d (r.elapse timer l.ticks) (p.act (.ticks l.ticks)) := h.elapse l.ticks
  refine ⟨⟨trivial, trivial, trivial⟩, ?_, ?_, fun hready hsome => ?_⟩
  · exact helapsed.update ((helapsed i).isReady l.m_done)
  · exact (p.after_ticks l.ticks).trans (Lines.after_isReady _ i _ _)
  · show (Lines.act _ (.IsReady i _ _)).Found i
    rw [hready]
    exact Lines.found_isReady ((p.after_ticks l.ticks).isSome i hsome) _

theorem onlyLooks_lines (h : Devices d r p) (hlooks : OnlyLooks timer d r t cs) :
    Complies Lines.act (InSequence q d) p cs ∧ Devices d t (replay Lines.act p cs) ∧
      p.After (replay Lines.act p cs) := by
  induction hlooks generalizing p with
  | none r => exact ⟨trivial, h, fun _ => id, fun _ => id⟩
  | more i l look rest ih =>
    obtain ⟨hcomplies, hdevices, hafter, -⟩ := isReady_lines (q := q) h look
    obtain ⟨hcomplies', hdevices', hafter'⟩ := ih hdevices
    rw [complies_append, replay_append]
    exact ⟨⟨hcomplies, hcomplies'⟩, hdevices', hafter.trans hafter'⟩

/-- The line of a reset alone is touched. -/
structure Lines.Apart (i : Nat) (p t : Lines) : Prop where
  isSome : ∀ k ≠ i, (p k).isSome = true → (t k).isSome = true
  found : ∀ k ≠ i, p.Found k → t.Found k

theorem Lines.apart_update (p : Lines) (i : Nat) (l : Option Released) :
    p.Apart i (Function.update p i l) where
  isSome k hk hsome := by
    rw [Function.update_of_ne hk]
    exact hsome
  found k hk hfound := by
    obtain ⟨line, hline, hready⟩ := hfound
    exact ⟨line, (Function.update_of_ne hk _ _).trans hline, hready⟩

/-- One release, in its turn. -/
theorem deassert_lines {n : Nat → Nat} (h : Devices d r p) (hbefore : ∀ k < i, p.Found k)
    (hrelease : r.Deassert timer d i n = (t, cs)) :
    Complies Lines.act (InSequence q d) p cs ∧ Devices d t (replay Lines.act p cs) ∧
      p.Apart i (replay Lines.act p cs) ∧ (replay Lines.act p cs i).isSome = true := by
  cases hrelease
  have helapsed : Devices d (r.elapse timer n) (p.act (.ticks n)) := h.elapse n
  have hafter := p.after_ticks n
  have hapart := (p.act (.ticks n)).apart_update i
    (some ⟨⟨(r.elapse timer n i).count, 0, false⟩, false⟩)
  refine ⟨⟨trivial, fun k hk => helapsed.up (hafter.found k (hbefore k hk)), trivial⟩,
    helapsed.update (helapsed i).deassert, ?_, ?_⟩
  · exact ⟨fun k hk hsome => hapart.isSome k hk (hafter.isSome k hsome),
      fun k hk hfound => hapart.found k hk (hafter.found k hfound)⟩
  · show (Function.update (p.act (.ticks n)) i _ i).isSome = true
    rw [Function.update_self]
    rfl

/-- Events of which none releases a reset behind others or ends the sequence. -/
def Harmless (e : Event) : Prop := e ≠ .OnResetDone ∧ ∀ i, e = .Deassert i → i = 0

/-- What an event does to lines that it is not about. -/
def Lines.Spared (es : List Event) (p t : Lines) : Prop :=
  ∀ k, .Assert k ∉ es → .Deassert k ∉ es →
    ((p k).isSome = true → (t k).isSome = true) ∧ (p.Found k → t.Found k)

theorem Lines.Apart.spared {e : Event} {es : List Event} {u : Lines} (h : p.Apart i u)
    (he : e = .Assert i ∨ e = .Deassert i) {t : Lines} (hrest : Lines.Spared es u t) :
    Lines.Spared (e :: es) p t := by
  intro k hassert hdeassert
  have hk : k ≠ i := by
    rintro rfl
    rcases he with rfl | rfl
    · exact hassert List.mem_cons_self
    · exact hdeassert List.mem_cons_self
  obtain ⟨hsome, hfound⟩ := hrest k (fun hmem => hassert (List.mem_cons_of_mem e hmem))
    fun hmem => hdeassert (List.mem_cons_of_mem e hmem)
  exact ⟨fun hp => hsome (h.isSome k hk hp), fun hp => hfound (h.found k hk hp)⟩

theorem drive_lines {n : Nat → Nat} {es : List Event} (h : Devices d r p)
    (hes : ∀ e ∈ es, Harmless e) (hdrive : r.drive timer d n es = (t, cs)) :
    Complies Lines.act (InSequence q d) p cs ∧ Devices d t (replay Lines.act p cs) ∧
      p.Spared es (replay Lines.act p cs) := by
  induction es generalizing r p cs with
  | nil =>
    cases hdrive
    exact ⟨trivial, h, fun _ _ _ => ⟨id, id⟩⟩
  | cons e es ih =>
    obtain ⟨he, hall⟩ := List.forall_mem_cons.mp hes
    cases e with
    | Assert i =>
      cases hdrive
      obtain ⟨hcomplies, hdevices, hspared⟩ := ih (h.update (h i).hold) hall rfl
      exact ⟨⟨trivial, hcomplies⟩, hdevices, (p.apart_update i none).spared (.inl rfl) hspared⟩
    | Deassert i =>
      cases hdrive
      obtain rfl : i = 0 := he.2 i rfl
      obtain ⟨hcomplies, hdevices, hapart, -⟩ :=
        deassert_lines (q := q) h (fun k hk => absurd hk (Nat.not_lt_zero k)) rfl
      obtain ⟨hcomplies', hdevices', hspared⟩ := ih hdevices hall rfl
      rw [complies_append, replay_append]
      exact ⟨⟨hcomplies, hcomplies'⟩, hdevices', hapart.spared (.inr rfl) hspared⟩
    | OnResetDone => exact absurd rfl he.1
    | TurnOn i | TurnOff i | OnPowerOn | OnPowerOff | OnFault | OnPowerLost =>
      cases hdrive
      obtain ⟨hcomplies, hdevices, hspared⟩ := ih h hall rfl
      refine ⟨⟨trivial, hcomplies⟩, hdevices, fun k hassert hdeassert => ?_⟩
      exact hspared k (fun hmem => hassert (List.mem_cons_of_mem _ hmem))
        fun hmem => hdeassert (List.mem_cons_of_mem _ hmem)

end

/-! ## Operations -/

/-- The resets before the current one are released and have been found ready; the
current one is released while power is on. -/
structure Sequenced (q : Sequences) (d : Nat → ResetDescriptor) (b : ResetBoard) (p : Lines) :
    Prop where
  devices : Devices d b.reset p
  passed : ∀ i < b.supervisor.m_resetSequenceIndex, p.Found i
  current : b.supervisor.m_powerOn = true →
    b.supervisor.m_resetSequenceIndex < q.m_resetSequence →
    (p b.supervisor.m_resetSequenceIndex).isSome = true

section
variable {q : Sequences} {timer : Nat → Timer} {d : Nat → ResetDescriptor} {a : Looks}
  {b b' : ResetBoard} {p : Lines} {cs : List ResetCall}

/-- The sequence is at rest. -/
theorem sequenced_of_first (hdevices : Devices d b.reset p)
    (hfirst : b.supervisor.m_resetSequenceIndex = 0)
    (hcurrent : b.supervisor.m_powerOn = true → 0 < q.m_resetSequence → (p 0).isSome = true) :
    Sequenced q d b p := by
  refine ⟨hdevices, fun i hi => ?_, ?_⟩
  · rw [hfirst] at hi
    exact absurd hi (Nat.not_lt_zero i)
  · rw [hfirst]
    exact hcurrent

theorem advance_sequenced (h : Sequenced q d b p) (hon : b.supervisor.m_powerOn = true)
    (hs : ResetBoard.advance q timer d a b = .ok (b', cs)) :
    Complies Lines.act (InSequence q d) p cs ∧ Sequenced q d b' (replay Lines.act p cs) ∧
      b'.supervisor.m_powerOn = true := by
  obtain ⟨-, rfl, rfl⟩ | ⟨-, hlt, ready, r, es, hlook, hcases⟩ := ResetBoard.advance_cases hs
  · exact ⟨trivial, h, hon⟩
  · obtain ⟨hcomplies, hdevices, hafter, hself⟩ := isReady_lines (q := q) h.devices hlook
    have hpassed : ∀ i < b.supervisor.m_resetSequenceIndex, (replay Lines.act p es).Found i :=
      fun i hi => hafter.found i (h.passed i hi)
    have hall : ready = true → ∀ i < b.supervisor.m_resetSequenceIndex + 1,
        (replay Lines.act p es).Found i := by
      intro hready i hi
      rcases Nat.lt_succ_iff_lt_or_eq.mp hi with hi | rfl
      · exact hpassed i hi
      · exact hself hready (h.current hon hlt)
    obtain ⟨-, rfl, rfl⟩ | ⟨hready, hend, hsup, rfl, rfl⟩ | ⟨hready, hmore, hsup, ds, hds, rfl⟩ :=
      hcases
    · exact ⟨hcomplies, ⟨hdevices, hpassed, fun _ hi => hafter.isSome _ (h.current hon hi)⟩, hon⟩
    · rw [complies_append, replay_append]
      refine ⟨⟨hcomplies, fun i hi => ?_, trivial⟩, ⟨hdevices, ?_, ?_⟩, ?_⟩
      · exact hdevices.up (hall hready i (Nat.lt_of_lt_of_le hi hend))
      · rw [hsup]
        exact hall hready
      · rw [hsup]
        exact fun _ hi => absurd hi (Nat.not_lt_of_le hend)
      · rw [hsup]
        exact hon
    · obtain ⟨hcomplies', hdevices', hapart, hsome⟩ :=
        deassert_lines (q := q) hdevices (hall hready) hds
      rw [complies_append, replay_append]
      refine ⟨⟨hcomplies, hcomplies'⟩, ⟨hdevices', ?_, ?_⟩, ?_⟩
      · rw [hsup]
        exact fun i hi => hapart.found i (Nat.ne_of_lt hi) (hall hready i hi)
      · rw [hsup]
        exact fun _ _ => hsome
      · rw [hsup]
        exact hon

theorem harmless_assertBehind (q : Sequences) (i : Nat) : ∀ e ∈ assertBehind q i, Harmless e := by
  intro e he
  obtain ⟨k, -, rfl⟩ := List.mem_map.mp he
  exact ⟨fun h => Event.noConfusion h, fun j h => Event.noConfusion h⟩

/-- Those before and the one that is down are not held. -/
theorem spared_assertBehind {i k : Nat} (hk : k ≤ i) :
    .Assert k ∉ assertBehind q i ∧ .Deassert k ∉ assertBehind q i := by
  constructor
  · intro hmem
    obtain ⟨j, hj, he⟩ := List.mem_map.mp hmem
    cases he
    have := (List.mem_range'_1.mp hj).1
    omega
  · intro hmem
    obtain ⟨j, -, he⟩ := List.mem_map.mp hmem
    exact Event.noConfusion he

theorem backUp_sequenced (h : Sequenced q d b p) (hon : b.supervisor.m_powerOn = true)
    (hs : ResetBoard.backUp q timer d a b (List.range b.supervisor.m_resetSequenceIndex) =
      .ok (b', cs)) :
    Complies Lines.act (InSequence q d) p cs ∧ Sequenced q d b' (replay Lines.act p cs) := by
  obtain ⟨r, es, hlooks, hcases⟩ := ResetBoard.backUp_looks hs
  obtain ⟨hcomplies, hdevices, hafter⟩ := onlyLooks_lines (q := q) h.devices hlooks
  obtain ⟨rfl, rfl⟩ | ⟨i, hi, hsup, ds, hdrive, rfl⟩ := hcases
  · exact ⟨hcomplies, hdevices, fun i hi => hafter.found i (h.passed i hi),
      fun _ hi => hafter.isSome _ (h.current hon hi)⟩
  · rw [List.mem_range] at hi
    obtain ⟨hcomplies', hdevices', hspared⟩ :=
      drive_lines (q := q) hdevices (harmless_assertBehind q i) hdrive
    have hkept : ∀ k ≤ i, (replay Lines.act (replay Lines.act p es) ds).Found k := by
      intro k hk
      obtain ⟨hassert, hdeassert⟩ := spared_assertBehind (q := q) hk
      exact (hspared k hassert hdeassert).2
        (hafter.found k (h.passed k (Nat.lt_of_le_of_lt hk hi)))
    rw [complies_append, replay_append]
    refine ⟨⟨hcomplies, hcomplies'⟩, hdevices', ?_, ?_⟩
    · rw [hsup]
      exact fun k hk => hkept k (Nat.le_of_lt hk)
    · rw [hsup]
      intro _ _
      obtain ⟨l, hl, -⟩ := hkept i (Nat.le_refl i)
      exact Option.isSome_iff_exists.mpr ⟨l, hl⟩

theorem updateResets_sequenced (h : Sequenced q d b p) (hon : b.supervisor.m_powerOn = true)
    (hs : ResetBoard.UpdateResets q timer d a b = .ok (b', cs)) :
    Complies Lines.act (InSequence q d) p cs ∧ Sequenced q d b' (replay Lines.act p cs) := by
  unfold ResetBoard.UpdateResets at hs
  split at hs
  · cases hs
  · rename_i c es hadvance
    obtain ⟨hcomplies, hc, honc⟩ := advance_sequenced h hon hadvance
    split at hs
    · cases hs
    · rename_i c' ds hback
      cases hs
      obtain ⟨hcomplies', hc'⟩ := backUp_sequenced hc honc hback
      rw [complies_append, replay_append]
      exact ⟨⟨hcomplies, hcomplies'⟩, hc'⟩

theorem harmless_shutdown (q : Sequences) (s : PowerResetSupervisor) :
    (∀ e ∈ (PanicShutdown q s).2, Harmless e) ∧ ∀ e ∈ (PowerOff q s).2, Harmless e := by
  constructor
  · intro e he
    simp only [PanicShutdown, List.mem_append, List.mem_map, List.mem_singleton] at he
    obtain (⟨i, -, rfl⟩ | ⟨i, -, rfl⟩) | rfl := he
    all_goals exact ⟨fun h => Event.noConfusion h, fun j h => Event.noConfusion h⟩
  · intro e he
    simp only [PowerOff, List.mem_append, List.mem_map, List.mem_singleton] at he
    obtain (⟨i, -, rfl⟩ | ⟨i, -, rfl⟩) | rfl := he
    all_goals exact ⟨fun h => Event.noConfusion h, fun j h => Event.noConfusion h⟩

theorem harmless_turnOn (is : List Nat) : ∀ e ∈ is.map Event.TurnOn, Harmless e := by
  intro e he
  obtain ⟨i, -, rfl⟩ := List.mem_map.mp he
  exact ⟨fun h => Event.noConfusion h, fun j h => Event.noConfusion h⟩

/-- An operation after which power is off. -/
theorem perform_sequenced {r : Resets} {n : Nat → Nat} {s : PowerResetSupervisor} {es : List Event}
    (h : Devices d r p) (hes : ∀ e ∈ es, Harmless e)
    (hs : ResetBoard.perform timer d n r (restarted s false, es) = (b', cs)) :
    Complies Lines.act (InSequence q d) p cs ∧ Sequenced q d b' (replay Lines.act p cs) := by
  cases hs
  obtain ⟨hcomplies, hdevices, -⟩ := drive_lines (q := q) h hes rfl
  exact ⟨hcomplies, sequenced_of_first hdevices rfl fun hon => absurd hon Bool.false_ne_true⟩

theorem drive_append (n : Nat → Nat) (r : Resets) (es fs : List Event) :
    r.drive timer d n (es ++ fs) = (((r.drive timer d n es).1.drive timer d n fs).1,
      (r.drive timer d n es).2 ++ ((r.drive timer d n es).1.drive timer d n fs).2) := by
  induction es generalizing r with
  | nil => rfl
  | cons e es ih =>
    cases e
    all_goals simp only [List.cons_append, Resets.drive, ih, List.append_assoc]

theorem releaseFirst_lines {r t : Resets} {n : Nat → Nat} (h : Devices d r p)
    (hs : r.drive timer d n (releaseFirst q) = (t, cs)) :
    Complies Lines.act (InSequence q d) p cs ∧ Devices d t (replay Lines.act p cs) ∧
      (0 < q.m_resetSequence → (replay Lines.act p cs 0).isSome = true) := by
  unfold releaseFirst at hs
  split at hs
  · cases hs
    have hrelease : r.Deassert timer d 0 n = (_, _) := rfl
    obtain ⟨hcomplies, hdevices, -, hsome⟩ :=
      deassert_lines (q := q) h (fun k hk => absurd hk (Nat.not_lt_zero k)) hrelease
    rw [complies_append, replay_append]
    exact ⟨⟨hcomplies, trivial, trivial⟩, hdevices, fun _ => hsome⟩
  · rename_i hnone
    cases hs
    exact ⟨⟨trivial, trivial⟩, h, fun hpos => absurd (Nat.ne_of_gt hpos) hnone⟩

theorem powerOn_sequenced {turnOn : Nat → Bool} {n : Nat → Nat} (h : Devices d b.reset p)
    (hs : ResetBoard.perform timer d n b.reset (PowerOn q turnOn b.supervisor) = (b', cs)) :
    Complies Lines.act (InSequence q d) p cs ∧ Sequenced q d b' (replay Lines.act p cs) := by
  obtain he | ⟨k, -, he⟩ := powerOn_cases q turnOn b.supervisor
  · rw [he] at hs
    cases hs
    rw [drive_append]
    obtain ⟨hcomplies, hdevices, -⟩ := drive_lines (q := q) (r := b.reset) (n := n) h
      (harmless_turnOn (List.range q.m_railSequence)) rfl
    obtain ⟨hcomplies', hdevices', hsome⟩ := releaseFirst_lines (q := q) (n := n) hdevices rfl
    rw [complies_append, replay_append]
    exact ⟨⟨hcomplies, hcomplies'⟩, sequenced_of_first hdevices' rfl fun _ => hsome⟩
  · rw [he] at hs
    refine perform_sequenced h ?_ hs
    exact List.forall_mem_append.mpr ⟨harmless_turnOn _, (harmless_shutdown q b.supervisor).1⟩

theorem monitorRails_sequenced {out : Outcome} {n : Nat → Nat} {answers : Answers}
    (h : Sequenced q d b p) (hm : MonitorRails q answers b.supervisor = .ok out)
    (hs : ResetBoard.perform timer d n b.reset out = (b', cs)) :
    Complies Lines.act (InSequence q d) p cs ∧ Sequenced q d b' (replay Lines.act p cs) := by
  have hout : out = (nextRail q (checkRail q answers b.supervisor.m_monitorRailIndex b.supervisor).1,
      (checkRail q answers b.supervisor.m_monitorRailIndex b.supervisor).2) := by
    by_cases hlt : b.supervisor.m_monitorRailIndex < q.m_railSequence
    · rw [monitorRails_eq answers hlt] at hm
      exact (Except.ok.inj hm).symm
    · simp [MonitorRails, hlt] at hm
  subst hout
  obtain ⟨hpanic, hoff⟩ := harmless_shutdown q b.supervisor
  obtain he | ⟨-, -, he⟩ | ⟨-, -, -, he⟩ :=
    checkRail_cases q answers b.supervisor.m_monitorRailIndex b.supervisor
  · rw [he] at hs
    cases hs
    exact ⟨trivial, h.devices, h.passed, h.current⟩
  · rw [he] at hs
    exact perform_sequenced (s := nextRail q b.supervisor) h.devices hpanic hs
  · rw [he] at hs
    refine perform_sequenced (s := nextRail q b.supervisor) h.devices ?_ hs
    refine List.forall_mem_cons.mpr ⟨?_, hoff⟩
    exact ⟨fun h => Event.noConfusion h, fun j h => Event.noConfusion h⟩

/-- **Step lemma.** -/
theorem step_sequenced {op : ResetBoard.TimedOp} (h : Sequenced q d b p)
    (hs : ResetBoard.step q timer d b op = .ok (b', cs)) :
    Complies Lines.act (InSequence q d) p cs ∧ Sequenced q d b' (replay Lines.act p cs) := by
  cases op with
  | PowerOn turnOn released => exact powerOn_sequenced h.devices (Except.ok.inj hs)
  | PowerOff =>
    exact perform_sequenced h.devices (harmless_shutdown q b.supervisor).2 (Except.ok.inj hs)
  | PanicShutdown =>
    exact perform_sequenced h.devices (harmless_shutdown q b.supervisor).1 (Except.ok.inj hs)
  | Iteration a =>
    replace hs : ResetBoard.Iteration q timer d a b = .ok (b', cs) := hs
    unfold ResetBoard.Iteration at hs
    split at hs
    · rename_i hon
      split at hs
      · cases hs
      · rename_i c es hupdate
        obtain ⟨hcomplies, hc⟩ := updateResets_sequenced h hon hupdate
        split at hs
        · cases hs
        · rename_i out hm
          cases hs
          have hperform : ResetBoard.perform timer d (fun _ => 0) c.reset out = (_, _) := rfl
          obtain ⟨hcomplies', hc'⟩ := monitorRails_sequenced hc hm hperform
          rw [complies_append, replay_append]
          exact ⟨⟨hcomplies, hcomplies'⟩, hc'⟩
    · cases hs
      exact ⟨trivial, h⟩
  | elapse n =>
    cases hs
    have hafter := p.after_ticks n
    exact ⟨⟨trivial, trivial⟩, h.devices.elapse n, fun i hi => hafter.found i (h.passed i hi),
      fun hon hi => hafter.isSome _ (h.current hon hi)⟩
  | UpdateOffset moved =>
    cases hs
    refine ⟨trivial, fun i => ?_, h.passed, h.current⟩
    show Device (d i) (if moved i = true then _ else _) (p i)
    split
    · exact (h.devices i).moveBack
    · exact h.devices i

theorem constructed_sequenced (q : Sequences) (d : Nat → ResetDescriptor) (count : Nat → UInt32)
    (m_pin : Nat → Bool) (m_tstart : Nat → UInt32) :
    Sequenced q d (.constructed d count m_pin m_tstart) fun _ => none := by
  refine sequenced_of_first (fun i => ⟨rfl, fun r hr => ?_, fun r hr => ?_⟩) rfl fun hon => ?_
  · exact absurd hr.symm (Option.some_ne_none r)
  · exact absurd hr.symm (Option.some_ne_none r)
  · exact absurd hon Bool.false_ne_true

/-- **Run lemma.** -/
theorem inSequence_run {count : Nat → UInt32} {m_pin : Nat → Bool} {m_tstart : Nat → UInt32}
    {ops : List ResetBoard.TimedOp} {log : List ResetCall}
    (hr : run (ResetBoard.step q timer d) (.constructed d count m_pin m_tstart) ops =
      .ok (b, log)) :
    Complies Lines.act (InSequence q d) (fun _ => none) log ∧
      Sequenced q d b (replay Lines.act (fun _ => none) log) :=
  run_rule (C := fun _ _ => True) (l := []) (b := [])
    (J := fun c log _ => Complies Lines.act (InSequence q d) (fun _ => none) log ∧
      Sequenced q d c (replay Lines.act (fun _ => none) log))
    (fun c log _ op c' es h _ hs => by
      obtain ⟨hcomplies, hc⟩ := step_sequenced h.2 hs
      rw [complies_append, replay_append]
      exact ⟨⟨h.1, hcomplies⟩, hc⟩)
    ⟨trivial, constructed_sequenced q d count m_pin m_tstart⟩ (allSteps_true _ _) hr

/-- **Resets are released in time.** Whatever the devices answer and however long
anything takes: when a reset is released, all those before it are, each has been found
ready since its own release, and each with a delay has had its time, or its timer was
seen to go back. The same holds of all resets when the sequence is said to be done. A
reset that counts as released has its pin at that level, and the supervisor does
nothing that it does not do for some answers. -/
theorem resets_in_time (q : Sequences) (timer : Nat → Timer) (d : Nat → ResetDescriptor)
    (count : Nat → UInt32) (m_pin : Nat → Bool) (m_tstart : Nat → UInt32)
    (ops : List ResetBoard.TimedOp) (b : ResetBoard) (log : List ResetCall)
    (hr : run (ResetBoard.step q timer d) (.constructed d count m_pin m_tstart) ops =
      .ok (b, log)) :
    Complies Lines.act (InSequence q d) (fun _ => none) log ∧
    (∀ i r, replay Lines.act (fun _ => none) log i = some r →
      (b.reset i).reset.m_pin = (d i).released) ∧
    (0 < q.m_resetSequence → ∃ ops', run (step q) .init ops' =
      .ok (b.supervisor, log.filterMap ResetCall.event)) := by
  have hrun := inSequence_run hr
  refine ⟨hrun.1, fun i r hi => (hrun.2.devices i).pin r hi, fun hn => ?_⟩
  exact ResetBoard.run_simulates hn (init_indexed hn) hr

end

/-- The first reset has a delay of ten ticks. -/
def delayedFirst : Nat → ResetDescriptor
  | 0 => .withDelay .ActiveLow 10
  | _ => .plain .ActiveLow

/-- All is well, and `n` ticks pass before the current reset is looked at. -/
def Looks.after (n : Nat) : Looks :=
  ⟨fun _ => ⟨fun _ => n, true⟩, fun _ => 0, fun _ => ⟨fun _ => 0, true⟩, fun _ => true, fun _ => true,
    fun _ => true⟩

theorem resets_in_time_delayed :
    ∃ b log, run (ResetBoard.step ⟨1, 2⟩ (fun _ => TimedReset.shortTimer) delayedFirst)
        (.constructed delayedFirst (fun _ => 5) (fun _ => false) fun _ => 0)
        [.PowerOn (fun _ => true) (fun _ => 0), .Iteration (.after 10), .Iteration (.after 1)] =
        .ok (b, log) ∧
      log[9]? = some (.Deassert 1 16) ∧
      Complies Lines.act (InSequence ⟨1, 2⟩ delayedFirst) (fun _ => none) log := by
  have hr : ∃ b log, run (ResetBoard.step ⟨1, 2⟩ (fun _ => TimedReset.shortTimer) delayedFirst)
      (.constructed delayedFirst (fun _ => 5) (fun _ => false) fun _ => 0)
      [.PowerOn (fun _ => true) (fun _ => 0), .Iteration (.after 10), .Iteration (.after 1)] =
      .ok (b, log) ∧ log[9]? = some (.Deassert 1 16) := ⟨_, _, rfl, rfl⟩
  obtain ⟨b, log, hr, hlog⟩ := hr
  exact ⟨b, log, hr, hlog, (resets_in_time _ _ _ _ _ _ _ _ _ hr).1⟩

end EmbeddedPlatform.Supervisor
