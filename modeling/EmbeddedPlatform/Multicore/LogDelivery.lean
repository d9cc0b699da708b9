import EmbeddedPlatform.Multicore.LogCalls

/-! # What the cores print arrives

The blocks a core has pushed, and then what is in its buffer, are what it has
printed: a block is everything in the buffer, it is pushed into a FIFO that takes
it, and the buffer is emptied when the push has returned. The cores do not
disturb each other because everything they touch is their own. -/
namespace EmbeddedPlatform.Multicore
open EmbeddedPlatform.Lib

variable {cores n size : Nat}

/-- No one else pushes into a channel that is registered for a core. -/
def LogMove.Allowed (chan : Fin cores → Fin n) : LogMove cores n → Prop
  | .other m => ∀ core, ¬ m.Pushes (secondaryFifo (chan core))
  | _ => True

structure Sound (chan : Fin cores → Fin n) (s : LogSystem cores n size)
    (log : List (LogEvent cores n)) : Prop where
  wired : s.system.table.Wired
  registered : ∀ core, Registered chan s core
  kept : ∀ core, Kept chan s core (printedBy core log)
    (givenTo (secondaryFifo (chan core)) (ipcLog log))

section
variable {chan : Fin cores → Fin n} {s t : LogSystem cores n size} {core : Fin cores}
  {log es : List (LogEvent cores n)}

theorem Registered.of_act (h : Registered chan s core)
    (hchannels : t.device.m_channels = s.device.m_channels)
    (hsystem : t.system = s.system ∨ ∃ m, t.system = (s.system.act m).1) :
    Registered chan t core := by
  rcases hsystem with hsystem | ⟨m, hsystem⟩
  · exact ⟨hchannels ▸ h.channel, hsystem ▸ h.allocated, hsystem ▸ h.fits⟩
  · refine ⟨hchannels ▸ h.channel, ?_, ?_⟩
    · rw [hsystem, act_firstFree]
      exact h.allocated
    · rw [hsystem, (act_sameShape s.system m _).size]
      exact h.fits

theorem Accessed.system (h : Accessed s t es) :
    t.system = s.system ∨ ∃ m, t.system = (s.system.act m).1 := by
  rcases h with ⟨h, -⟩ | ⟨m, h, -⟩
  · exact .inl h
  · exact .inr ⟨m, h⟩

theorem step_accessed {m : LogMove cores n} (h : s.step m = .ok (t, es)) :
    ∃ fs, ipcLog es = ipcLog fs ∧ Accessed s t fs := by
  unfold LogSystem.step at h
  cases m with
  | PrintBinary core ch =>
    dsimp only at h
    split at h
    · obtain ⟨fs, rfl, hacc⟩ := printBinary_accessed h
      exact ⟨fs, rfl, hacc⟩
    · obtain ⟨rfl, rfl⟩ := ok_eq h
      exact ⟨[], rfl, .inl ⟨rfl, rfl⟩⟩
  | Flush core =>
    obtain ⟨rfl, rfl⟩ := ok_eq h
    refine ⟨_, rfl, ?_⟩
    split
    · exact beginFlush_accessed s core none
    · exact .inl ⟨rfl, rfl⟩
  | go core =>
    obtain ⟨rfl, rfl⟩ := ok_eq h
    exact ⟨_, rfl, go_accessed s core⟩
  | other m =>
    obtain ⟨rfl, rfl⟩ := ok_eq h
    exact ⟨_, rfl, .inr ⟨m, rfl, rfl⟩⟩

theorem wired_of_act (hw : s.system.table.Wired)
    (hsystem : t.system = s.system ∨ ∃ m, t.system = (s.system.act m).1) :
    t.system.table.Wired := by
  rcases hsystem with hsystem | ⟨m, hsystem⟩
  · rwa [hsystem]
  · rw [hsystem]
    exact act_wired hw m

/-- A move of one core. -/
theorem Sound.step_own (h : Sound chan s log) (hchan : Function.Injective chan) (hsize : 0 < size)
    {m : LogMove cores n} (hm : m.owner = some core) :
    ∃ t es, s.step m = .ok (t, es) ∧ Sound chan t (log ++ es) := by
  obtain ⟨t, es, hok, hkept⟩ := (h.kept core).step (h.registered core) hsize hm
  have hown := step_onlyOwn h.wired hm hok
  obtain ⟨_, -, hacc⟩ := step_accessed hok
  have hsystem := hacc.system
  refine ⟨t, es, hok, wired_of_act h.wired hsystem,
    fun c => (h.registered c).of_act hown.channels hsystem, fun c => ?_⟩
  rw [printedBy_append, ipcLog_append, givenTo_append]
  by_cases hc : c = core
  · rw [hc]
    exact hkept
  · have hfifo : ∀ d, s.device.m_channels core = some d →
        secondaryFifo (chan c) ≠ secondaryFifo d := by
      intro d hd he
      have hcore : chan core = d := Option.some.inj ((h.registered core).channel.symm.trans hd)
      have hsame : chan c = d := congrArg FifoId.channel he
      exact hc (hchan (hsame.trans hcore.symm))
    rw [hown.printed c hc, hown.given _ hfifo, List.append_nil, List.append_nil]
    exact (h.kept c).of_unchanged (hown.buffer c hc) (hown.pointer c hc) (hown.phase c hc)
      (congrArg View.push (hown.view _ hfifo))

/-- **Step lemma.** -/
theorem Sound.step (h : Sound chan s log) (hchan : Function.Injective chan) (hsize : 0 < size)
    {m : LogMove cores n} (hm : m.Allowed chan) :
    ∃ t es, s.step m = .ok (t, es) ∧ Sound chan t (log ++ es) := by
  cases m with
  | PrintBinary core ch => exact h.step_own hchan hsize rfl
  | Flush core => exact h.step_own hchan hsize rfl
  | go core => exact h.step_own hchan hsize rfl
  | other m =>
    have hsystem : (s.act m).1.system = s.system ∨ ∃ m', (s.act m).1.system = (s.system.act m').1 :=
      .inr ⟨m, rfl⟩
    refine ⟨_, _, rfl, wired_of_act h.wired hsystem,
      fun c => (h.registered c).of_act rfl hsystem, fun c => ?_⟩
    have hpush := act_push_of_not_pushes h.wired (hm c)
    have hgiven : givenTo (secondaryFifo (chan c)) (s.system.act m).2 = [] := by
      refine act_givenTo fun buf he => hm c ?_
      rw [he]
      rfl
    show Kept chan _ c (printedBy c (log ++ (s.system.act m).2.map .ipc))
      (givenTo _ (ipcLog (log ++ (s.system.act m).2.map .ipc)))
    rw [printedBy_append, printedBy_map_ipc, ipcLog_append, ipcLog_map_ipc, givenTo_append, hgiven,
      List.append_nil, List.append_nil]
    exact (h.kept c).of_unchanged rfl rfl rfl hpush

theorem lookupChannel_all (l : List (Fin cores)) (d : MulticoreLogDevice cores n size) :
    l.foldl (fun d (core : Fin cores) => d.LookupChannel core (some (chan core))) d =
      { d with m_channels := fun core =>
          if l.any (core == ·) then some (chan core) else d.m_channels core } := by
  induction l generalizing d with
  | nil => rfl
  | cons i l ih =>
    have hi : d.LookupChannel i (some (chan i)) =
        { d with m_channels := Function.update d.m_channels i (some (chan i)) } := dif_pos i.isLt
    rw [List.foldl_cons, ih, hi]
    simp only [List.any_cons]
    congr 1
    funext core
    by_cases hc : core = i
    · rw [hc]
      simp
    · rw [Function.update_of_ne hc]
      simp [hc]

theorem sound_boot {buffers : List Buffers} (halloc : ∀ core, (chan core).val < buffers.length)
    (hsize : 0 < size) (hfits : ∀ core, size ≤
      ((System.boot n buffers).table.fifo (secondaryFifo (chan core))).m_size.toNat) :
    Sound chan (LogSystem.boot chan buffers : LogSystem cores n size) [] := by
  have hdevice : (LogSystem.boot chan buffers : LogSystem cores n size).device =
      ⟨fun core => some (chan core), fun _ _ => 0, fun _ => 0⟩ := by
    refine (lookupChannel_all _ _).trans ?_
    simp [MulticoreLogDevice.construct]
  refine ⟨IPCDescriptorTable.wired_empty.allocated buffers, fun core => ⟨?_, ?_, hfits core⟩,
    fun core => ⟨?_, ?_, fun _ => ⟨rfl, ?_, ?_⟩⟩⟩
  · rw [hdevice]
  · have h := IPCDescriptorTable.allocated_firstFree (t := .empty n) buffers (Nat.zero_le n)
    show (chan core).val < (buffers.foldl IPCDescriptorTable.AllocateChannel (.empty n)).m_firstFreeChannel
    rw [h]
    show _ < min n (0 + buffers.length)
    rw [Nat.zero_add]
    exact Nat.lt_min.mpr ⟨(chan core).isLt, halloc core⟩
  · intro b hb
    cases hb
  · rintro ⟨next, hn⟩
    cases hn
  · rw [hdevice]
    exact hsize
  · rw [buffered_of_zero (by rw [hdevice])]
    rfl

/-- The blocks given are all taken. -/
theorem Sound.fitting_all (h : Sound chan s log) {max : UInt32} (hmax : size ≤ max.toNat) :
    fitting max (givenTo (secondaryFifo (chan core)) (ipcLog log)) =
      givenTo (secondaryFifo (chan core)) (ipcLog log) := by
  refine List.filter_eq_self.mpr fun b hb => decide_eq_true ?_
  exact Nat.le_trans ((h.kept core).blocks b hb).2 hmax

theorem sound_run {buffers : List Buffers} (hsize : 0 < size) (hchan : Function.Injective chan)
    (halloc : ∀ core, (chan core).val < buffers.length)
    (hfits : ∀ core, size ≤
      ((System.boot n buffers).table.fifo (secondaryFifo (chan core))).m_size.toNat)
    {moves : List (LogMove cores n)} (hmoves : ∀ m ∈ moves, m.Allowed chan) :
    ∃ (s : LogSystem cores n size) (log : List (LogEvent cores n)),
      run LogSystem.step (.boot chan buffers) moves = .ok (s, log) ∧ Sound chan s log :=
  run_rule_total (C := LogMove.Allowed chan) (J := Sound chan) (l := [])
    (fun _ _ _ h hm => h.step hchan hsize hm) (sound_boot halloc hsize hfits) hmoves

/-- **What the cores print is kept.** Whatever the order of the cores' calls and of
the accesses these are made of, no store leaves a buffer; and for a core that is
between two calls, the blocks its channel has taken and then its buffer are what it
has printed. What a core does changes nothing of another's. -/
theorem log_kept {buffers : List Buffers} (hsize : 0 < size) (hchan : Function.Injective chan)
    (halloc : ∀ core, (chan core).val < buffers.length)
    (hfits : ∀ core, size ≤
      ((System.boot n buffers).table.fifo (secondaryFifo (chan core))).m_size.toNat)
    {moves : List (LogMove cores n)} (hmoves : ∀ m ∈ moves, m.Allowed chan) :
    ∃ (s : LogSystem cores n size) (log : List (LogEvent cores n)),
      run LogSystem.step (.boot chan buffers) moves = .ok (s, log) ∧
      (∀ core, s.phase core = .idle →
        let f := secondaryFifo (chan core)
        let pushed := fitting (s.system.table.fifo f).m_size (givenTo f (ipcLog log))
        (s.device.m_writePointers core).toNat < size ∧
          pushed.flatten ++ s.device.buffered core = printedBy core log ∧ ∀ b ∈ pushed, b ≠ []) ∧
      ∀ core m t es, m.owner = some core → s.step m = .ok (t, es) → OnlyOwn core s t es := by
  obtain ⟨s, log, hok, hs⟩ := sound_run hsize hchan halloc hfits hmoves
  refine ⟨s, log, hok, fun core hphase => ?_, fun core m t es hm ht => step_onlyOwn hs.wired hm ht⟩
  have hkept := hs.kept core
  obtain ⟨-, hlt, hprinted⟩ := hkept.idle (by simp [hphase])
  dsimp only
  rw [hs.fitting_all (hs.registered core).fits]
  exact ⟨hlt, hprinted, fun b hb => (hkept.blocks b hb).1⟩

end

/-- Two cores with three bytes each; the first fills its buffer while the second prints. -/
def chatter : List (LogMove 2 2) :=
  let a : Fin 2 := ⟨0, Nat.zero_lt_two⟩
  let b : Fin 2 := ⟨1, Nat.one_lt_two⟩
  [.PrintBinary a 104, .PrintBinary b 65, .go a, .PrintBinary a 105, .go b, .go a, .PrintBinary a 33,
    .Flush b, .go a, .go b, .go a, .go a, .go b, .other (.Pop ⟨a, false⟩), .go a, .go a, .go a, .go a,
    .go a, .go a, .PrintBinary a 10, .go a, .go b, .go b, .go b, .go b]

def chatterBuffers : List Buffers := [⟨fun _ => 0, 4, fun _ => 0, 4⟩, ⟨fun _ => 0, 4, fun _ => 0, 3⟩]

theorem log_kept_chatter : ∃ (s : LogSystem 2 2 3) (log : List (LogEvent 2 2)),
    run LogSystem.step (.boot (fun core => core) chatterBuffers) chatter = .ok (s, log) ∧
      givenTo (secondaryFifo 0) (ipcLog log) = [[104, 105, 33]] ∧
        (fitting (s.system.table.fifo (secondaryFifo 0)).m_size
          (givenTo (secondaryFifo 0) (ipcLog log))).flatten ++ s.device.buffered 0 =
            printedBy 0 log := by
  obtain ⟨⟨s, log⟩, hr, hp⟩ := exists_of_returns
    (P := fun r => r.1.phase 0 == .idle && givenTo (secondaryFifo 0) (ipcLog r.2) == [[104, 105, 33]])
    (r := run LogSystem.step (.boot (fun core => core) chatterBuffers : LogSystem 2 2 3) chatter)
    (by decide +kernel)
  obtain ⟨s', log', hr', hkept, -⟩ := @log_kept 2 2 3 (fun core => core)
    chatterBuffers (by decide) (fun _ _ h => h) (by decide) (by decide) chatter
    (by simp [chatter, LogMove.Allowed, Move.Pushes])
  obtain ⟨rfl, rfl⟩ : s = s' ∧ log = log' := by simpa using hr.symm.trans hr'
  have hidle : s.phase 0 = .idle ∧ givenTo (secondaryFifo 0) (ipcLog log) = [[104, 105, 33]] := by
    simpa using hp
  exact ⟨s, log, hr, hidle.2, (hkept 0 hidle.1).2.1⟩

end EmbeddedPlatform.Multicore
