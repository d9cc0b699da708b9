import EmbeddedPlatform.Multicore.Arrival
import EmbeddedPlatform.Multicore.LogDelivery

/-! # What the cores print arrives in time

`LogDelivery` says that what a core prints gets into its channel. At the other end it
comes out in the same order, and all that was flushed does come out, if the core goes
on and the other end asks again and again. No call of the log waits for ever. The other
cores may do as they like. -/
namespace EmbeddedPlatform.Multicore
open EmbeddedPlatform.Lib

variable {cores n size : Nat}

/-! ## Accesses of the log -/

/-- Moves that go on with what the channels are doing. -/
inductive Causes (chan : Fin cores → Fin n) : LogMove cores n → Move n → Prop
  | go (core : Fin cores) : Causes chan (.go core) (.goPush (secondaryFifo (chan core)))
  | other (m : Move n) : Causes chan (.other m) m

/-- The access `m`, and no other. -/
def Does (s t : LogSystem cores n size) (es : List (LogEvent cores n)) (m : Move n) : Prop :=
  t.system = (s.system.act m).1 ∧ ipcLog es = (s.system.act m).2

/-- Nothing at the channels, the start of a `Push`, or what is caused. -/
def Caused (chan : Fin cores → Fin n) (m : LogMove cores n) (s t : LogSystem cores n size)
    (es : List (LogEvent cores n)) : Prop :=
  (t.system = s.system ∧ ipcLog es = []) ∨
    ∃ m', Does s t es m' ∧ ((∃ g buf, m' = .Push g buf) ∨ Causes chan m m')

section
variable {chan : Fin cores → Fin n} {s t : LogSystem cores n size} {core : Fin cores}
  {m : LogMove cores n} {log es : List (LogEvent cores n)}

theorem does_act (s : LogSystem cores n size) (m : Move n) :
    Does s (s.act m).1 (s.act m).2 m := ⟨rfl, ipcLog_map_ipc _⟩

theorem beginFlush_caused (m : LogMove cores n) (s : LogSystem cores n size) (core : Fin cores)
    (next : Option UInt8) :
    Caused chan m s (s.beginFlush core next).1 (s.beginFlush core next).2 := by
  unfold LogSystem.beginFlush
  cases s.device.m_channels core with
  | none => exact .inl ⟨rfl, rfl⟩
  | some c =>
    dsimp only
    split
    · exact .inr ⟨_, does_act (s.setPhase core _) _, .inl ⟨_, _, rfl⟩⟩
    · exact .inl ⟨rfl, rfl⟩

theorem go_caused (hr : Registered chan s core) :
    Caused chan (.go core) s (s.go core).1 (s.go core).2 := by
  unfold LogSystem.go
  cases s.phase core with
  | idle => exact .inl ⟨rfl, rfl⟩
  | endOfLine ch =>
    dsimp only
    split
    · exact beginFlush_caused _ s core none
    · exact .inl ⟨rfl, rfl⟩
  | flushing next =>
    rw [hr.channel]
    dsimp only
    cases s.system.push (secondaryFifo (chan core)) with
    | idle => exact .inl ⟨rfl, rfl⟩
    | _ => exact .inr ⟨_, does_act s _, .inr (.go core)⟩

theorem printBinary_caused {ch : UInt8} (h : s.PrintBinary core ch = .ok (t, es)) :
    Caused chan m s t es := by
  unfold LogSystem.PrintBinary at h
  split at h
  · rename_i hlt
    obtain ⟨rfl, rfl⟩ := ok_eq h
    dsimp only
    split
    · exact beginFlush_caused m { s with device := s.device.store core ch hlt } core (some ch)
    · exact .inl ⟨rfl, rfl⟩
  · cases h

theorem step_caused (hr : ∀ core, Registered chan s core) (h : s.step m = .ok (t, es)) :
    Caused chan m s t es := by
  unfold LogSystem.step at h
  cases m with
  | PrintBinary core ch =>
    dsimp only at h
    split at h
    · exact printBinary_caused h
    · obtain ⟨rfl, rfl⟩ := ok_eq h
      exact .inl ⟨rfl, rfl⟩
  | Flush core =>
    obtain ⟨rfl, rfl⟩ := ok_eq h
    split
    · exact beginFlush_caused _ s core none
    · exact .inl ⟨rfl, rfl⟩
  | go core =>
    obtain ⟨rfl, rfl⟩ := ok_eq h
    exact go_caused (hr core)
  | other m =>
    obtain ⟨rfl, rfl⟩ := ok_eq h
    exact .inr ⟨m, does_act s m, .inr (.other m)⟩

/-- In a `Push` that has not returned, a core goes on with it. -/
theorem go_pushing (h : Sound chan s log)
    (hpush : s.system.push (secondaryFifo (chan core)) ≠ .idle) :
    (∃ next, s.phase core = .flushing next) ∧
      s.go core = s.act (.goPush (secondaryFifo (chan core))) := by
  have hphase : ∃ next, s.phase core = .flushing next := by
    by_contra hnone
    exact hpush ((h.kept core).idle fun next hn => hnone ⟨next, hn⟩).1
  refine ⟨hphase, ?_⟩
  obtain ⟨next, hnext⟩ := hphase
  unfold LogSystem.go
  rw [hnext]
  dsimp only
  rw [(h.registered core).channel]
  dsimp only
  split
  · rename_i hidle
    exact absurd hidle hpush
  · rfl

/-- After the `Push` it ends the flush. -/
theorem go_pushed (hr : Registered chan s core) {next : Option UInt8}
    (hphase : s.phase core = .flushing next)
    (hpush : s.system.push (secondaryFifo (chan core)) = .idle) :
    s.go core = (s.endFlush core next, []) := by
  unfold LogSystem.go
  rw [hphase]
  dsimp only
  rw [hr.channel]
  dsimp only
  rw [hpush]

/-- At the end of a line it flushes or returns. -/
theorem go_endOfLine (hr : Registered chan s core) {ch : UInt8}
    (hphase : s.phase core = .endOfLine ch) :
    (s.go core).1.phase core = .idle ∨ (s.go core).1.phase core = .flushing none := by
  unfold LogSystem.go
  rw [hphase]
  dsimp only
  split
  · unfold LogSystem.beginFlush
    rw [hr.channel]
    dsimp only
    split
    · exact .inr (Function.update_self ..)
    · exact .inl (Function.update_self ..)
  · exact .inl (Function.update_self ..)

/-- A call waits for its own core. -/
theorem step_waiting (h : Sound chan s log) (hchan : Function.Injective chan)
    (hm : m.Allowed chan) (hne : m ≠ .go core) (hphase : s.phase core ≠ .idle)
    (hstep : s.step m = .ok (t, es)) : t.phase core = s.phase core ∧
      t.system.push (secondaryFifo (chan core)) = s.system.push (secondaryFifo (chan core)) := by
  have hother : ∀ c, m.owner = some c → c ≠ core → t.phase core = s.phase core ∧
      t.system.push (secondaryFifo (chan core)) = s.system.push (secondaryFifo (chan core)) := by
    intro c hc hcore
    have hown := step_onlyOwn h.wired hc hstep
    refine ⟨hown.phase core hcore.symm, congrArg View.push (hown.view _ fun d hd he => ?_)⟩
    have hsame : chan core = d := congrArg FifoId.channel he
    rw [(h.registered c).channel, ← hsame, Option.some.injEq] at hd
    exact hcore (hchan hd)
  cases m with
  | PrintBinary c ch =>
    by_cases hc : c = core
    · subst hc
      obtain ⟨rfl, -⟩ := ok_eq ((if_neg hphase).symm.trans hstep)
      exact ⟨rfl, rfl⟩
    · exact hother c rfl hc
  | Flush c =>
    by_cases hc : c = core
    · subst hc
      obtain ⟨rfl, -⟩ := ok_eq hstep
      rw [if_neg hphase]
      exact ⟨rfl, rfl⟩
    · exact hother c rfl hc
  | go c => exact hother c rfl fun hc => hne (congrArg LogMove.go hc)
  | other m =>
    obtain ⟨rfl, -⟩ := ok_eq hstep
    exact ⟨rfl, act_push_of_not_pushes h.wired (hm core)⟩

/-! ## Progress -/

/-- What the channels have of it. -/
def ipcOf (p : LogSystem cores n size × List (LogEvent cores n)) : System n × List (Event n) :=
  (p.1.system, ipcLog p.2)

theorem Does.ipcOf_eq {m' : Move n} (h : Does s t es m') (log : List (LogEvent cores n)) :
    ipcOf (t, log ++ es) = proceed step (ipcOf (s, log)) m' := by
  rw [proceed_ok (step_act (ipcOf (s, log)).1 m')]
  exact Prod.ext h.1 ((ipcLog_append log es).trans (congrArg (ipcLog log ++ ·) h.2))

theorem Caused.ipcOf_eq (h : Caused chan m s t es) (log : List (LogEvent cores n)) :
    ipcOf (t, log ++ es) = ipcOf (s, log) ∨
      ∃ m', ipcOf (t, log ++ es) = proceed step (ipcOf (s, log)) m' ∧
        ((∃ g buf, m' = .Push g buf) ∨ Causes chan m m') := by
  rcases h with ⟨hsystem, hlog⟩ | ⟨m', hdoes, hcause⟩
  · refine .inl (Prod.ext hsystem ?_)
    exact (ipcLog_append log es).trans (by rw [hlog, List.append_nil]; rfl)
  · exact .inr ⟨m', hdoes.ipcOf_eq log, hcause⟩

/-- What is needed goes on with something. -/
theorem needs_ne_Push (v : View) (f g : FifoId n) (buf : Message) : v.needs f ≠ .Push g buf := by
  unfold View.needs
  split
  · split <;> simp
  · simp

theorem busy_of_needs_goPush {v : View} {f g : FifoId n} (h : .goPush g = v.needs f) :
    g = f ∧ v.busy = false := by
  unfold View.needs at h
  split at h
  · split at h <;> cases h
  · rename_i hbusy
    cases h
    exact ⟨rfl, Bool.not_eq_true _ ▸ hbusy⟩

/-- A move of the log, and what it does to the channels. -/
theorem Sound.next (h : Sound chan s log) (hsize : 0 < size) (hchan : Function.Injective chan)
    (hm : m.Allowed chan) : ∃ t es, s.step m = .ok (t, es) ∧
      proceed LogSystem.step (s, log) m = (t, log ++ es) ∧ Sound chan t (log ++ es) ∧
      Caused chan m s t es := by
  obtain ⟨t, es, hstep, hsound⟩ := h.step hchan hsize hm
  exact ⟨t, es, hstep, proceed_ok (p := (s, log)) hstep, hsound, step_caused h.registered hstep⟩

/-- The moves that are allowed, one after another. -/
def proceedAllowed (chan : Fin cores → Fin n) (p : LogSystem cores n size × List (LogEvent cores n))
    (m : { m : LogMove cores n // m.Allowed chan }) :
    LogSystem cores n size × List (LogEvent cores n) :=
  proceed LogSystem.step p m.val

/-- **Progress at the channels is progress of the log.** -/
theorem logged_progress (hsize : 0 < size) (hchan : Function.Injective chan) (max : UInt32)
    (core : Fin cores) (c : Nat) :
    let f := secondaryFifo (chan core)
    Progress (proceedAllowed chan)
      (fun p : LogSystem cores n size × List (LogEvent cores n) => Sound chan p.1 p.2 ∧ (Flowing max f (ipcOf p) ∧
        c < (offers max f (ipcOf p)).length ∧ c ≤ arrived max f (ipcOf p)))
      (fun p => c < arrived max f (ipcOf p))
      (fun p m => ∃ m', m' = ((ipcOf p).1.view f).needs f ∧ Causes chan m.val m')
      (fun p => ((ipcOf p).1.view f).left) := by
  refine (flowing_progress max (secondaryFifo (chan core)) c).lift ?_ ?_ ?_
  · rintro ⟨s, log⟩ ⟨m, hm⟩ hsound
    obtain ⟨t, es, -, hnext, hsound', -⟩ := Sound.next hsound hsize hchan hm
    rw [proceedAllowed, hnext]
    exact hsound'
  · rintro ⟨s, log⟩ ⟨m, hm⟩ hsound
    obtain ⟨t, es, -, hnext, -, hcaused⟩ := Sound.next hsound hsize hchan hm
    rw [proceedAllowed, hnext]
    obtain hsame | ⟨m', hdoes, ⟨g, buf, rfl⟩ | hcause⟩ := hcaused.ipcOf_eq log
    · exact .inl hsame
    · exact .inr ⟨_, hdoes, fun hneeds => absurd hneeds.symm (needs_ne_Push _ _ _ _)⟩
    · exact .inr ⟨_, hdoes, fun _ => hcause⟩
  · rintro ⟨s, log⟩ ⟨m, hm⟩ m' hsound ⟨hflow, hgiven, -⟩ hgoal hneeds hcause
    have hpending := hflow.pending_ne hgiven hgoal
    cases hcause with
    | go core' =>
      obtain ⟨hf, hbusy⟩ := busy_of_needs_goPush hneeds
      have hpush : s.system.push (secondaryFifo (chan core')) ≠ .idle := by
        rw [hf]
        exact offering_of_pending hbusy hpending
      have hgo := (go_pushing hsound hpush).2
      have hstep : s.step (.go core') = .ok (s.act (.goPush (secondaryFifo (chan core')))) :=
        congrArg Except.ok hgo
      have hnext : proceedAllowed chan (s, log) ⟨.go core', hm⟩ = _ :=
        proceed_ok (p := (s, log)) hstep
      rw [hnext]
      exact (does_act s _).ipcOf_eq log
    | other =>
      have hnext : proceedAllowed chan (s, log) ⟨.other m', hm⟩ = _ :=
        proceed_ok (p := (s, log)) (show s.step (.other m') = .ok (s.act m') from rfl)
      rw [hnext]
      exact (does_act s m').ipcOf_eq log

end

/-! ## Endless runs -/

/-- The core goes on, and the other end asks and goes on, again and again. -/
structure LogFair (chan : Fin cores → Fin n) (core : Fin cores)
    (schedule : Nat → LogMove cores n) : Prop where
  go : ∀ k, ∃ j, k ≤ j ∧ schedule j = .go core
  Pop : ∀ k, ∃ j, k ≤ j ∧ schedule j = .other (.Pop (secondaryFifo (chan core)))
  goPop : ∀ k, ∃ j, k ≤ j ∧ schedule j = .other (.goPop (secondaryFifo (chan core)))

/-- A run that does not end, from a state in which nothing has been lost. -/
structure LogCourse (chan : Fin cores → Fin n) (schedule : Nat → LogMove cores n)
    (x : Nat → LogSystem cores n size × List (LogEvent cores n)) : Prop where
  size_pos : 0 < size
  injective : Function.Injective chan
  allowed : ∀ k, (schedule k).Allowed chan
  start : Sound chan (x 0).1 (x 0).2
  next : ∀ k, x (k + 1) = proceed LogSystem.step (x k) (schedule k)

theorem LogFair.needs {chan : Fin cores → Fin n} {core : Fin cores}
    {schedule : Nat → LogMove cores n} (h : LogFair chan core schedule) (v : View) (k : Nat) :
    ∃ j, k ≤ j ∧ ∃ m, m = v.needs (secondaryFifo (chan core)) ∧ Causes chan (schedule j) m := by
  unfold View.needs
  split
  · split
    · obtain ⟨j, hj, heq⟩ := h.Pop k
      exact ⟨j, hj, _, rfl, heq ▸ .other _⟩
    · obtain ⟨j, hj, heq⟩ := h.goPop k
      exact ⟨j, hj, _, rfl, heq ▸ .other _⟩
  · obtain ⟨j, hj, heq⟩ := h.go k
    exact ⟨j, hj, _, rfl, heq ▸ .go core⟩

section
variable {chan : Fin cores → Fin n} {schedule : Nat → LogMove cores n} {core : Fin cores}
  {x : Nat → LogSystem cores n size × List (LogEvent cores n)} {max : UInt32} {k : Nat}

theorem LogCourse.sound (h : LogCourse chan schedule x) (k : Nat) :
    Sound chan (x k).1 (x k).2 := by
  induction k with
  | zero => exact h.start
  | succ k ih =>
    obtain ⟨t, es, -, hnext, hsound, -⟩ := Sound.next ih h.size_pos h.injective (h.allowed k)
    rw [h.next, hnext]
    exact hsound

/-- What happens at one time. -/
theorem LogCourse.step (h : LogCourse chan schedule x) (k : Nat) : ∃ t es,
    (x k).1.step (schedule k) = .ok (t, es) ∧ x (k + 1) = (t, (x k).2 ++ es) ∧
      Caused chan (schedule k) (x k).1 t es := by
  obtain ⟨t, es, hstep, hnext, -, hcaused⟩ :=
    Sound.next (h.sound k) h.size_pos h.injective (h.allowed k)
  exact ⟨t, es, hstep, (h.next k).trans hnext, hcaused⟩

theorem LogCourse.course (h : LogCourse chan schedule x)
    (hflow : Flowing max (secondaryFifo (chan core)) (ipcOf (x 0))) :
    Course max (secondaryFifo (chan core)) fun k => ipcOf (x k) where
  start := hflow
  moves k := by
    obtain ⟨t, es, -, hnext, hcaused⟩ := h.step k
    rw [hnext]
    exact (hcaused.ipcOf_eq (x k).2).imp_right fun ⟨m', hm', _⟩ => ⟨m', hm'⟩

theorem LogCourse.eq_trajectory (h : LogCourse chan schedule x) (k : Nat) :
    x k = trajectory (proceedAllowed chan) (x 0) (fun k => ⟨schedule k, h.allowed k⟩) k := by
  induction k with
  | zero => rfl
  | succ k ih =>
    rw [h.next, ih]
    rfl

theorem LogCourse.served (h : LogCourse chan schedule x) (hfair : LogFair chan core schedule)
    (hflow : Flowing max (secondaryFifo (chan core)) (ipcOf (x 0))) :
    Served max (secondaryFifo (chan core)) fun k => ipcOf (x k) := by
  intro c k hgiven hgot
  have hsound := h.sound k
  have hflowing := (h.course hflow).flowing k
  dsimp only at hflowing hgiven hgot
  rw [h.eq_trajectory k] at hsound hflowing hgiven hgot
  obtain ⟨j, hj, hgoal⟩ := (logged_progress h.size_pos h.injective max core c).eventually
    (fun p _ _ k => hfair.needs ((ipcOf p).1.view _) k) ⟨hsound, hflowing, hgiven, hgot⟩
  rw [← h.eq_trajectory j] at hgoal
  exact ⟨j, hj, hgoal⟩

/-! ## Calls of the log return -/

/-- A move of another core's, or of none. -/
theorem LogCourse.waiting (h : LogCourse chan schedule x) (hne : schedule k ≠ .go core)
    (hphase : (x k).1.phase core ≠ .idle) :
    (x (k + 1)).1.phase core = (x k).1.phase core ∧
      (x (k + 1)).1.system.push (secondaryFifo (chan core)) =
        (x k).1.system.push (secondaryFifo (chan core)) := by
  obtain ⟨t, es, hstep, hnext, -⟩ := h.step k
  rw [hnext]
  exact step_waiting (h.sound k) h.injective (h.allowed k) hne hphase hstep

theorem LogCourse.goes (h : LogCourse chan schedule x) (hgo : schedule k = .go core) :
    (x (k + 1)).1 = ((x k).1.go core).1 := by
  obtain ⟨t, es, hstep, hnext, -⟩ := h.step k
  rw [hgo] at hstep
  obtain ⟨rfl, -⟩ := ok_eq hstep
  rw [hnext]

/-- A flush ends. -/
theorem LogCourse.flush_ends (h : LogCourse chan schedule x) (hfair : LogFair chan core schedule)
    (hflow : Flowing max (secondaryFifo (chan core)) (ipcOf (x 0))) {next : Option UInt8}
    (hphase : (x k).1.phase core = .flushing next) :
    ∃ j, k ≤ j ∧ (x j).1.phase core =
      match next with
      | some ch => .endOfLine ch
      | none => .idle := by
  have hne : ∀ j, (x j).1.phase core = .flushing next → (x j).1.phase core ≠ .idle := by
    intro j hj
    rw [hj]
    simp
  -- up to the return of `Push`
  obtain ⟨i, hi, hflushing, hpushed⟩ := stays_until (x := x)
    (P := fun p => p.1.phase core = .flushing next)
    (Q := fun j => (x j).1.system.push (secondaryFifo (chan core)) = .idle)
    (fun j hj hpush => by
      by_cases hgo : schedule j = .go core
      · rw [h.goes hgo, (go_pushing (h.sound j) hpush).2]
        exact hj
      · exact (h.waiting hgo (hne j hj)).1.trans hj)
    hphase ((h.course hflow).push_returns (h.served hfair hflow) k)
  -- and then until the core goes on
  obtain ⟨j, hj, ⟨hflushing, hpushed⟩, hgo⟩ := stays_until (x := x) (k := i)
    (P := fun p => p.1.phase core = .flushing next ∧
      p.1.system.push (secondaryFifo (chan core)) = .idle)
    (Q := fun j => schedule j = .go core)
    (fun j hj hgo => by
      obtain ⟨hsame, hpush⟩ := h.waiting hgo (hne j hj.1)
      exact ⟨hsame.trans hj.1, hpush.trans hj.2⟩)
    ⟨hflushing, hpushed⟩ (hfair.go i)
  refine ⟨j + 1, Nat.le_trans hi (Nat.le_succ_of_le hj), ?_⟩
  rw [h.goes hgo, go_pushed ((h.sound j).registered core) hflushing hpushed]
  cases next with
  | none => exact Function.update_self ..
  | some ch => exact Function.update_self ..

/-- The second test of `PrintBinary` is made. -/
theorem LogCourse.line_ends (h : LogCourse chan schedule x) (hfair : LogFair chan core schedule)
    {ch : UInt8} (hphase : (x k).1.phase core = .endOfLine ch) :
    ∃ j, k ≤ j ∧ ((x j).1.phase core = .idle ∨ (x j).1.phase core = .flushing none) := by
  obtain ⟨j, hj, hline, hgo⟩ := stays_until (x := x)
    (P := fun p => p.1.phase core = .endOfLine ch) (Q := fun j => schedule j = .go core)
    (fun j hj hgo => by
      refine (h.waiting hgo ?_).1.trans hj
      rw [hj]
      simp)
    hphase (hfair.go k)
  refine ⟨j + 1, Nat.le_succ_of_le hj, ?_⟩
  rw [h.goes hgo]
  exact go_endOfLine ((h.sound j).registered core) hline

/-- **No call waits for ever.** -/
theorem LogCourse.call_returns (h : LogCourse chan schedule x) (hfair : LogFair chan core schedule)
    (hflow : Flowing max (secondaryFifo (chan core)) (ipcOf (x 0))) (k : Nat) :
    ∃ j, k ≤ j ∧ (x j).1.phase core = .idle := by
  have hline : ∀ i ch, (x i).1.phase core = .endOfLine ch →
      ∃ j, i ≤ j ∧ (x j).1.phase core = .idle := by
    intro i ch hi
    obtain ⟨j, hj, hidle | hflush⟩ := h.line_ends hfair hi
    · exact ⟨j, hj, hidle⟩
    · obtain ⟨l, hl, hidle⟩ := h.flush_ends hfair hflow hflush
      exact ⟨l, Nat.le_trans hj hl, hidle⟩
  cases hphase : (x k).1.phase core with
  | idle => exact ⟨k, Nat.le_refl k, hphase⟩
  | endOfLine ch => exact hline k ch hphase
  | flushing next =>
    obtain ⟨j, hj, hend⟩ := h.flush_ends hfair hflow hphase
    cases next with
    | none => exact ⟨j, hj, hend⟩
    | some ch =>
      obtain ⟨l, hl, hidle⟩ := hline j ch hend
      exact ⟨l, Nat.le_trans hj hl, hidle⟩

/-! ## Up to the other end -/

theorem nonEmpty_flatten (msgs : List Message) : (nonEmpty msgs).flatten = msgs.flatten := by
  induction msgs with
  | nil => rfl
  | cons b bs ih =>
    cases b with
    | nil => exact ih
    | cons x b => exact congrArg ((x :: b) ++ ·) ih

theorem flatten_le {msgs msgs' : List Message} (h : nonEmpty msgs <+: nonEmpty msgs') :
    msgs.flatten <+: msgs'.flatten := by
  obtain ⟨rest, hrest⟩ := h
  rw [← nonEmpty_flatten msgs, ← nonEmpty_flatten msgs', ← hrest, List.flatten_append]
  exact List.prefix_append _ _

/-- What has been returned was given before. -/
theorem Flowing.returned_given {f : FifoId n} {p : System n × List (Event n)}
    (h : Flowing max f p) : nonEmpty (returnedBy f p.2) <+: nonEmpty (offers max f p) := by
  obtain ⟨takes, hprefix, htakes, -⟩ := h.taken
  rw [← htakes]
  exact hprefix.filter _

/-- What a core has sent is returned, in order and in time. -/
theorem LogCourse.sent_returns (h : LogCourse chan schedule x) (hfair : LogFair chan core schedule)
    (hflow : Flowing max (secondaryFifo (chan core)) (ipcOf (x 0))) (hfits : size ≤ max.toNat)
    (hidle : (x k).1.phase core = .idle) :
    ∃ sent, printedBy core (x k).2 = sent ++ (x k).1.device.buffered core ∧
      (returnedBy (secondaryFifo (chan core)) (ipcLog (x k).2)).flatten <+: sent ∧
      ∃ j, k ≤ j ∧ sent <+: (returnedBy (secondaryFifo (chan core)) (ipcLog (x j).2)).flatten := by
  obtain ⟨-, -, hprinted⟩ := ((h.sound k).kept core).idle fun next hn => by
    rw [hidle] at hn
    cases hn
  have hoffers : offers max (secondaryFifo (chan core)) (ipcOf (x k)) =
      givenTo (secondaryFifo (chan core)) (ipcLog (x k).2) := (h.sound k).fitting_all hfits
  have hreturned := ((h.course hflow).flowing k).returned_given
  obtain ⟨j, hj, hdelivered⟩ := (h.course hflow).delivered (h.served hfair hflow) k
  rw [hoffers] at hreturned hdelivered
  exact ⟨_, hprinted.symm, flatten_le hreturned, j, hj, flatten_le hdelivered⟩

/-- The start of an endless run. -/
theorem logCourse_boot {buffers : List Buffers} (hsize : 0 < size)
    (hchan : Function.Injective chan) (halloc : ∀ core, (chan core).val < buffers.length)
    (hfits : ∀ core, size ≤
      ((System.boot n buffers).table.fifo (secondaryFifo (chan core))).m_size.toNat)
    (hallowed : ∀ k, (schedule k).Allowed chan) :
    LogCourse chan schedule (trajectory (proceed LogSystem.step)
      ((.boot chan buffers, []) : LogSystem cores n size × List (LogEvent cores n)) schedule) where
  size_pos := hsize
  injective := hchan
  allowed := hallowed
  start := sound_boot halloc hsize hfits
  next _ := rfl

/-- **What a core prints arrives in time.** Whatever the order of the cores' calls and
of the accesses these are made of, if the core goes on and the other end asks again
and again: the other end returns what the core has printed, in order, and in the end
all of it that was not in the core's buffer. No call of the core waits for ever. -/
theorem log_arrives {buffers : List Buffers} (hsize : 0 < size) (hchan : Function.Injective chan)
    (halloc : ∀ core, (chan core).val < buffers.length)
    (hfits : ∀ core, size ≤
      ((System.boot n buffers).table.fifo (secondaryFifo (chan core))).m_size.toNat)
    (hn : min n buffers.length ≤ 16) (schedule : Nat → LogMove cores n)
    (hallowed : ∀ k, (schedule k).Allowed chan) (core : Fin cores)
    (hfair : LogFair chan core schedule) (k : Nat) :
    ∃ (s : LogSystem cores n size) (log : List (LogEvent cores n)),
      run LogSystem.step (.boot chan buffers) ((List.range k).map schedule) = .ok (s, log) ∧
      (s.phase core = .idle → ∃ sent, printedBy core log = sent ++ s.device.buffered core ∧
        (returnedBy (secondaryFifo (chan core)) (ipcLog log)).flatten <+: sent ∧
        ∃ j, ∃ (t : LogSystem cores n size) (log' : List (LogEvent cores n)), k ≤ j ∧
          run LogSystem.step (.boot chan buffers) ((List.range j).map schedule) = .ok (t, log') ∧
          sent <+: (returnedBy (secondaryFifo (chan core)) (ipcLog log')).flatten) ∧
      ∃ j, ∃ (t : LogSystem cores n size) (log' : List (LogEvent cores n)), k ≤ j ∧
        run LogSystem.step (.boot chan buffers) ((List.range j).map schedule) = .ok (t, log') ∧
        t.phase core = .idle := by
  have h : LogCourse chan schedule (trajectory (proceed LogSystem.step)
      ((.boot chan buffers, []) : LogSystem cores n size × List (LogEvent cores n)) schedule) :=
    logCourse_boot hsize hchan halloc hfits hallowed
  have hrun := run_trajectory fun k =>
    let ⟨t, es, hstep, _⟩ := h.step k
    ⟨t, es, hstep⟩
  have hchannel : (chan core).val < min n buffers.length :=
    Nat.lt_min.mpr ⟨(chan core).isLt, halloc core⟩
  have hflow := flowing_boot (f := secondaryFifo (chan core)) hn hchannel
  refine ⟨_, _, hrun k, fun hidle => ?_, ?_⟩
  · obtain ⟨sent, hprinted, hreturned, j, hj, hsent⟩ :=
      h.sent_returns hfair hflow (hfits core) hidle
    exact ⟨sent, hprinted, hreturned, j, _, _, hj, hrun j, hsent⟩
  · obtain ⟨j, hj, hreturns⟩ := h.call_returns hfair hflow k
    exact ⟨j, _, _, hj, hrun j, hreturns⟩

/-- One core that prints and flushes, and the other end, taking turns. -/
def chatterTurns (k : Nat) : LogMove 1 1 :=
  let a : Fin 1 := ⟨0, Nat.zero_lt_one⟩
  if k % 5 = 0 then .PrintBinary a 104 else if k % 5 = 1 then .go a else if k % 5 = 2 then .Flush a else
    if k % 5 = 3 then .other (.Pop (secondaryFifo a)) else .other (.goPop (secondaryFifo a))

theorem chatterTurns_fair : LogFair (fun core : Fin 1 => core) 0 chatterTurns where
  go k := ⟨5 * k + 1, by omega, by simp [chatterTurns, show (5 * k + 1) % 5 = 1 by omega]⟩
  Pop k := ⟨5 * k + 3, by omega, by simp [chatterTurns, show (5 * k + 3) % 5 = 3 by omega]⟩
  goPop k := ⟨5 * k + 4, by omega, by simp [chatterTurns, show (5 * k + 4) % 5 = 4 by omega]⟩

theorem chatterTurns_allowed (k : Nat) :
    (chatterTurns k).Allowed fun core : Fin 1 => core := by
  unfold chatterTurns
  split
  · trivial
  · split
    · trivial
    · split
      · trivial
      · split <;> exact fun _ => id

/-- What has been flushed is returned later. -/
theorem log_arrives_turns : ∃ j, ∃ (t : LogSystem 1 1 3) (log' : List (LogEvent 1 1)), 32 ≤ j ∧
    run LogSystem.step (.boot (fun core => core) oneChannel) ((List.range j).map chatterTurns) =
      .ok (t, log') ∧
    [104] <+: (returnedBy (secondaryFifo 0) (ipcLog log')).flatten := by
  obtain ⟨⟨s, log⟩, hr, hp⟩ := exists_of_returns
    (P := fun r => r.1.phase 0 == .idle && (printedBy 0 r.2, r.1.device.buffered 0) == ([104], []))
    (r := run LogSystem.step (.boot (fun core => core) oneChannel : LogSystem 1 1 3)
      ((List.range 32).map chatterTurns)) (by decide +kernel)
  obtain ⟨s', log', hr', hsent, -⟩ := @log_arrives 1 1 3 (fun core => core) oneChannel (by decide)
    (fun _ _ h => h) (by decide) (by decide) (by decide) chatterTurns chatterTurns_allowed 0
    chatterTurns_fair 32
  obtain ⟨rfl, rfl⟩ : s = s' ∧ log = log' := by simpa using hr.symm.trans hr'
  obtain ⟨hidle, hprinted, hbuffered⟩ : s.phase 0 = .idle ∧ printedBy 0 log = [104] ∧
    s.device.buffered 0 = [] := by simpa using hp
  obtain ⟨sent, hall, -, j, t, log', hj, hrun, hreturned⟩ := hsent hidle
  rw [hprinted, hbuffered, List.append_nil] at hall
  exact ⟨j, t, log', hj, hrun, hall ▸ hreturned⟩

end

end EmbeddedPlatform.Multicore
