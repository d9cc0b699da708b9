import EmbeddedPlatform.Multicore.ChannelAccess

/-! # What the call of one core does

For the other cores nothing; for the core itself, the blocks it has given to its
channel and then its buffer stay what it has printed. -/
namespace EmbeddedPlatform.Multicore
open EmbeddedPlatform.Lib

variable {cores n size : Nat}

/-! ## What a core's call leaves alone -/

/-- The characters a core has printed. -/
def printedBy (core : Fin cores) (log : List (LogEvent cores n)) : List UInt8 :=
  log.filterMap fun e =>
    match e with
    | .printed c ch => if c = core then some ch else none
    | .ipc _ => none

/-- What the channels have seen. -/
def ipcLog (log : List (LogEvent cores n)) : List (Event n) :=
  log.filterMap fun e =>
    match e with
    | .printed _ _ => none
    | .ipc e => some e

@[simp] theorem ipcLog_map_ipc (es : List (Event n)) :
    ipcLog (es.map (LogEvent.ipc : Event n → LogEvent cores n)) = es := by
  unfold ipcLog
  rw [List.filterMap_map]
  exact List.filterMap_some

@[simp] theorem printedBy_map_ipc (core : Fin cores) (es : List (Event n)) :
    printedBy core (es.map LogEvent.ipc) = [] := by
  unfold printedBy
  rw [List.filterMap_map]
  exact List.filterMap_none es

theorem ipcLog_append (log log' : List (LogEvent cores n)) :
    ipcLog (log ++ log') = ipcLog log ++ ipcLog log' := List.filterMap_append

theorem printedBy_append (core : Fin cores) (log log' : List (LogEvent cores n)) :
    printedBy core (log ++ log') = printedBy core log ++ printedBy core log' :=
  List.filterMap_append

theorem givenTo_append (f : FifoId n) (log log' : List (Event n)) :
    givenTo f (log ++ log') = givenTo f log ++ givenTo f log' := List.filterMap_append

/-- The core a move is of. -/
def LogMove.owner : LogMove cores n → Option (Fin cores)
  | .PrintBinary core _ | .Flush core | .go core => some core
  | .other _ => none

/-- Nothing of another core's is touched: not its buffer, not where its call is, and
no FIFO but the one registered for `core`. -/
structure OnlyOwn (core : Fin cores) (s t : LogSystem cores n size)
    (es : List (LogEvent cores n)) : Prop where
  channels : t.device.m_channels = s.device.m_channels
  buffer : ∀ c, c ≠ core → t.device.m_txBuffers c = s.device.m_txBuffers c
  pointer : ∀ c, c ≠ core → t.device.m_writePointers c = s.device.m_writePointers c
  phase : ∀ c, c ≠ core → t.phase c = s.phase c
  view : ∀ g, (∀ c, s.device.m_channels core = some c → g ≠ secondaryFifo c) →
    t.system.view g = s.system.view g
  printed : ∀ c, c ≠ core → printedBy c es = []
  given : ∀ g, (∀ c, s.device.m_channels core = some c → g ≠ secondaryFifo c) →
    givenTo g (ipcLog es) = []

section
variable {s t u : LogSystem cores n size} {core : Fin cores} {es fs : List (LogEvent cores n)}

theorem OnlyOwn.refl (core : Fin cores) (s : LogSystem cores n size) : OnlyOwn core s s [] :=
  ⟨rfl, fun _ _ => rfl, fun _ _ => rfl, fun _ _ => rfl, fun _ _ => rfl, fun _ _ => rfl,
    fun _ _ => rfl⟩

theorem OnlyOwn.trans (h : OnlyOwn core s t es) (h' : OnlyOwn core t u fs) :
    OnlyOwn core s u (es ++ fs) := by
  refine ⟨h'.channels.trans h.channels, fun c hc => (h'.buffer c hc).trans (h.buffer c hc),
    fun c hc => (h'.pointer c hc).trans (h.pointer c hc),
    fun c hc => (h'.phase c hc).trans (h.phase c hc), fun g hg => ?_, fun c hc => ?_, fun g hg => ?_⟩
  · exact (h'.view g (by rw [h.channels]; exact hg)).trans (h.view g hg)
  · rw [printedBy_append, h.printed c hc, h'.printed c hc]
    rfl
  · rw [ipcLog_append, givenTo_append, h.given g hg, h'.given g (by rw [h.channels]; exact hg)]
    rfl

theorem onlyOwn_setPhase (s : LogSystem cores n size) (core : Fin cores) (phase : LogPhase) :
    OnlyOwn core s (s.setPhase core phase) [] :=
  { OnlyOwn.refl core s with phase := fun _ hc => Function.update_of_ne hc _ _ }

theorem onlyOwn_setWritePointer (s : LogSystem cores n size) (core : Fin cores) (wptr : UInt32) :
    OnlyOwn core s { s with device := s.device.setWritePointer core wptr } [] :=
  { OnlyOwn.refl core s with pointer := fun _ hc => Function.update_of_ne hc _ _ }

theorem onlyOwn_store (s : LogSystem cores n size) (core : Fin cores) (ch : UInt8)
    (h : (s.device.m_writePointers core).toNat < size) :
    OnlyOwn core s { s with device := s.device.store core ch h } [.printed core ch] :=
  { OnlyOwn.refl core s with
    buffer := fun _ hc => Function.update_of_ne hc _ _
    pointer := fun _ hc => Function.update_of_ne hc _ _
    printed := fun _ hc => by simp [printedBy, Ne.symm hc]
    given := fun _ _ => rfl }

theorem onlyOwn_act (hw : s.system.table.Wired) {c : Fin n}
    (hc : s.device.m_channels core = some c) {m : Move n} (hm : m.fifo = secondaryFifo c) :
    OnlyOwn core s (s.act m).1 (s.act m).2 := by
  have hne : ∀ g, (∀ c, s.device.m_channels core = some c → g ≠ secondaryFifo c) → g ≠ m.fifo := by
    intro g hg
    rw [hm]
    exact hg c hc
  refine ⟨rfl, fun _ _ => rfl, fun _ _ => rfl, fun _ _ => rfl, fun g hg => ?_, fun d _ => ?_,
    fun g hg => ?_⟩
  · exact act_view_of_ne hw (hne g hg)
  · exact printedBy_map_ipc d _
  · show givenTo g (ipcLog ((s.system.act m).2.map .ipc)) = []
    rw [ipcLog_map_ipc]
    refine act_givenTo fun buf he => hne g hg ?_
    rw [he]
    rfl

theorem onlyOwn_endFlush (s : LogSystem cores n size) (core : Fin cores) (next : Option UInt8) :
    OnlyOwn core s (s.endFlush core next) [] :=
  (onlyOwn_setWritePointer s core 0).trans (onlyOwn_setPhase _ core _)

theorem onlyOwn_beginFlush (hw : s.system.table.Wired) (core : Fin cores) (next : Option UInt8) :
    OnlyOwn core s (s.beginFlush core next).1 (s.beginFlush core next).2 := by
  unfold LogSystem.beginFlush
  cases hc : s.device.m_channels core with
  | none => exact onlyOwn_endFlush s core next
  | some c =>
    have hpush := onlyOwn_act (s := s.setPhase core (.flushing next)) hw hc
      (m := .Push (secondaryFifo c) (s.device.buffered core)) rfl
    dsimp only
    split
    · exact (onlyOwn_setPhase s core _).trans hpush
    · exact onlyOwn_endFlush s core next

theorem onlyOwn_go (hw : s.system.table.Wired) (core : Fin cores) :
    OnlyOwn core s (s.go core).1 (s.go core).2 := by
  unfold LogSystem.go
  cases s.phase core with
  | idle => exact .refl core s
  | endOfLine ch =>
    dsimp only
    split
    · exact onlyOwn_beginFlush hw core none
    · exact onlyOwn_setPhase s core .idle
  | flushing next =>
    cases hc : s.device.m_channels core with
    | none => exact onlyOwn_endFlush s core next
    | some c =>
      dsimp only
      cases s.system.push (secondaryFifo c) with
      | idle => exact onlyOwn_endFlush s core next
      | _ => exact onlyOwn_act hw hc (m := .goPush (secondaryFifo c)) rfl

theorem onlyOwn_printBinary (hw : s.system.table.Wired) {ch : UInt8}
    (h : s.PrintBinary core ch = .ok (t, es)) : OnlyOwn core s t es := by
  unfold LogSystem.PrintBinary at h
  split at h
  · rename_i hlt
    obtain ⟨rfl, rfl⟩ := ok_eq h
    have hstore := onlyOwn_store s core ch hlt
    have hflush := onlyOwn_beginFlush (s := { s with device := s.device.store core ch hlt }) hw core
      (some ch)
    dsimp only
    split
    · exact hstore.trans hflush
    · exact hstore.trans (onlyOwn_setPhase _ core _)
  · cases h

/-- **Cores are separate.** -/
theorem step_onlyOwn (hw : s.system.table.Wired) {m : LogMove cores n} (hm : m.owner = some core)
    (h : s.step m = .ok (t, es)) : OnlyOwn core s t es := by
  unfold LogSystem.step at h
  cases m with
  | PrintBinary c ch =>
    cases hm
    dsimp only at h
    split at h
    · exact onlyOwn_printBinary hw h
    · obtain ⟨rfl, rfl⟩ := ok_eq h
      exact .refl core _
  | Flush c =>
    cases hm
    obtain ⟨rfl, rfl⟩ := ok_eq h
    split
    · exact onlyOwn_beginFlush hw core none
    · exact .refl core _
  | go c =>
    cases hm
    obtain ⟨rfl, rfl⟩ := ok_eq h
    exact onlyOwn_go hw core
  | other m => cases hm

end

/-! ## What a call does to the channels -/

/-- At most one access. -/
def Accessed (s t : LogSystem cores n size) (es : List (LogEvent cores n)) : Prop :=
  (t.system = s.system ∧ es = []) ∨
    ∃ m, t.system = (s.system.act m).1 ∧ es = (s.system.act m).2.map .ipc

section
variable {s t : LogSystem cores n size} {core : Fin cores} {es : List (LogEvent cores n)}

theorem Accessed.printedBy (h : Accessed s t es) (core : Fin cores) : printedBy core es = [] := by
  rcases h with ⟨-, rfl⟩ | ⟨m, -, rfl⟩
  · rfl
  · exact printedBy_map_ipc core _

theorem beginFlush_accessed (s : LogSystem cores n size) (core : Fin cores) (next : Option UInt8) :
    Accessed s (s.beginFlush core next).1 (s.beginFlush core next).2 := by
  unfold LogSystem.beginFlush
  cases s.device.m_channels core with
  | none => exact .inl ⟨rfl, rfl⟩
  | some c =>
    dsimp only
    split
    · exact .inr ⟨_, rfl, rfl⟩
    · exact .inl ⟨rfl, rfl⟩

theorem go_accessed (s : LogSystem cores n size) (core : Fin cores) :
    Accessed s (s.go core).1 (s.go core).2 := by
  unfold LogSystem.go
  cases s.phase core with
  | idle => exact .inl ⟨rfl, rfl⟩
  | endOfLine ch =>
    dsimp only
    split
    · exact beginFlush_accessed s core none
    · exact .inl ⟨rfl, rfl⟩
  | flushing next =>
    cases s.device.m_channels core with
    | none => exact .inl ⟨rfl, rfl⟩
    | some c =>
      dsimp only
      cases s.system.push (secondaryFifo c) with
      | idle => exact .inl ⟨rfl, rfl⟩
      | _ => exact .inr ⟨_, rfl, rfl⟩

theorem printBinary_accessed {ch : UInt8} (h : s.PrintBinary core ch = .ok (t, es)) :
    ∃ fs, es = .printed core ch :: fs ∧ Accessed s t fs := by
  unfold LogSystem.PrintBinary at h
  split at h
  · rename_i hlt
    obtain ⟨rfl, rfl⟩ := ok_eq h
    refine ⟨_, rfl, ?_⟩
    dsimp only
    split
    · exact beginFlush_accessed { s with device := s.device.store core ch hlt } core (some ch)
    · exact .inl ⟨rfl, rfl⟩
  · cases h

end

/-! ## One core -/

section
variable {d : MulticoreLogDevice cores n size} {core : Fin cores}

theorem buffered_length_le (d : MulticoreLogDevice cores n size) (core : Fin cores) :
    (d.buffered core).length ≤ size := by
  unfold MulticoreLogDevice.buffered
  rw [List.length_take, List.length_ofFn]
  exact Nat.min_le_right _ _

theorem buffered_of_zero (h : d.m_writePointers core = 0) : d.buffered core = [] := by
  unfold MulticoreLogDevice.buffered
  rw [h]
  rfl

theorem buffered_ne_nil (h : d.m_writePointers core ≠ 0) (hsize : 0 < size) :
    d.buffered core ≠ [] := by
  have hpos : 0 < (d.m_writePointers core).toNat :=
    Nat.pos_of_ne_zero fun h0 => h (UInt32.toNat_inj.mp h0)
  apply List.ne_nil_of_length_pos
  unfold MulticoreLogDevice.buffered
  rw [List.length_take, List.length_ofFn]
  exact Nat.lt_min.mpr ⟨hpos, hsize⟩

theorem store_pointer (ch : UInt8) (h : (d.m_writePointers core).toNat < size)
    (hsize : size < 4294967296) :
    ((d.store core ch h).m_writePointers core).toNat = (d.m_writePointers core).toNat + 1 := by
  have hself : (d.store core ch h).m_writePointers core = d.m_writePointers core + 1 :=
    Function.update_self ..
  rw [hself, UInt32.toNat_add]
  exact Nat.mod_eq_of_lt (Nat.lt_of_le_of_lt h hsize)

theorem buffered_store (ch : UInt8) (h : (d.m_writePointers core).toNat < size)
    (hsize : size < 4294967296) : (d.store core ch h).buffered core = d.buffered core ++ [ch] := by
  have hbuf : (d.store core ch h).m_txBuffers core =
      Function.update (d.m_txBuffers core) ⟨(d.m_writePointers core).toNat, h⟩ ch :=
    Function.update_self ..
  unfold MulticoreLogDevice.buffered
  rw [store_pointer ch h hsize, hbuf]
  have hlen : (d.m_writePointers core).toNat < (List.ofFn (Function.update (d.m_txBuffers core)
      ⟨(d.m_writePointers core).toNat, h⟩ ch)).length := by
    rwa [List.length_ofFn]
  rw [List.take_succ_eq_append_getElem hlen, List.getElem_ofFn, Function.update_self]
  congr 1
  apply List.ext_getElem
  · simp
  · intro i hi _
    have hlt : i < (d.m_writePointers core).toNat := by
      rw [List.length_take] at hi
      exact Nat.lt_of_lt_of_le hi (Nat.min_le_left _ _)
    have hne : (⟨i, Nat.lt_trans hlt h⟩ : Fin size) ≠ ⟨(d.m_writePointers core).toNat, h⟩ :=
      fun he => absurd (congrArg Fin.val he) (Nat.ne_of_lt hlt)
    simp [Function.update_of_ne hne]

end

/-- What a core needs of its channel: it is its own, allocated, and takes a whole buffer. -/
structure Registered (chan : Fin cores → Fin n) (s : LogSystem cores n size) (core : Fin cores) :
    Prop where
  channel : s.device.m_channels core = some (chan core)
  allocated : (chan core).val < s.system.table.m_firstFreeChannel
  fits : size ≤ (s.system.table.fifo (secondaryFifo (chan core))).m_size.toNat

/-- Between the calls of `Push` the blocks and the buffer are what was printed; in
one the blocks already are. -/
structure Kept (chan : Fin cores → Fin n) (s : LogSystem cores n size) (core : Fin cores)
    (printed : List UInt8) (given : List Message) : Prop where
  blocks : ∀ b ∈ given, b ≠ [] ∧ b.length ≤ size
  flushing : (∃ next, s.phase core = .flushing next) → given.flatten = printed
  idle : (∀ next, s.phase core ≠ .flushing next) →
    s.system.push (secondaryFifo (chan core)) = .idle ∧
      (s.device.m_writePointers core).toNat < size ∧
      given.flatten ++ s.device.buffered core = printed

section
variable {chan : Fin cores → Fin n} {s t : LogSystem cores n size} {core : Fin cores}
  {printed : List UInt8} {given : List Message}

theorem endFlush_phase_ne (s : LogSystem cores n size) (core : Fin cores) (next next' : Option UInt8) :
    (s.endFlush core next).phase core ≠ .flushing next' := by
  cases next with
  | none =>
    have hself : (s.endFlush core none).phase core = .idle := Function.update_self ..
    rw [hself]
    simp
  | some ch =>
    have hself : (s.endFlush core (some ch)).phase core = .endOfLine ch := Function.update_self ..
    rw [hself]
    simp

theorem Kept.endFlush (hblocks : ∀ b ∈ given, b ≠ [] ∧ b.length ≤ size)
    (hprinted : given.flatten = printed) (hsize : 0 < size)
    (hp : s.system.push (secondaryFifo (chan core)) = .idle) (next : Option UInt8) :
    Kept chan (s.endFlush core next) core printed given := by
  have hzero : (s.endFlush core next).device.m_writePointers core = 0 := Function.update_self ..
  refine ⟨hblocks, fun ⟨next', hn⟩ => absurd hn (endFlush_phase_ne s core next next'),
    fun _ => ⟨hp, ?_, ?_⟩⟩
  · rw [hzero]
    exact hsize
  · rw [buffered_of_zero hzero, List.append_nil]
    exact hprinted

theorem Kept.beginFlush (hr : Registered chan s core)
    (hblocks : ∀ b ∈ given, b ≠ [] ∧ b.length ≤ size)
    (hprinted : given.flatten ++ s.device.buffered core = printed) (hsize : 0 < size)
    (hp : s.system.push (secondaryFifo (chan core)) = .idle) (next : Option UInt8) :
    Kept chan (s.beginFlush core next).1 core printed
      (given ++ givenTo (secondaryFifo (chan core)) (ipcLog (s.beginFlush core next).2)) := by
  unfold LogSystem.beginFlush
  rw [hr.channel]
  dsimp only
  by_cases hw : s.device.m_writePointers core = 0
  · rw [if_neg (fun h => h hw)]
    rw [buffered_of_zero hw, List.append_nil] at hprinted
    show Kept chan _ core printed (given ++ [])
    rw [List.append_nil]
    exact .endFlush hblocks hprinted hsize hp next
  · rw [if_pos hw]
    have hact := act_Push_idle hr.allocated hp
      (Nat.le_trans (buffered_length_le s.device core) hr.fits)
    have hphase : ((s.setPhase core (.flushing next)).act
        (.Push (secondaryFifo (chan core)) (s.device.buffered core))).1.phase core =
          .flushing next := Function.update_self ..
    have hgiven : givenTo (secondaryFifo (chan core)) (ipcLog ((s.setPhase core (.flushing next)).act
        (.Push (secondaryFifo (chan core)) (s.device.buffered core))).2) =
          [s.device.buffered core] := by
      show givenTo _ (ipcLog ((s.system.act _).2.map .ipc)) = _
      rw [ipcLog_map_ipc, hact]
      simp
    rw [hgiven]
    refine ⟨?_, fun _ => ?_, fun h => absurd hphase (h next)⟩
    · intro b hb
      rcases List.mem_append.mp hb with hb | hb
      · exact hblocks b hb
      · rw [List.mem_singleton.mp hb]
        exact ⟨buffered_ne_nil hw hsize, buffered_length_le s.device core⟩
    · rw [List.flatten_append, List.flatten_singleton]
      exact hprinted

theorem Kept.setPhase (h : Kept chan s core printed given)
    (hidle : ∀ next, s.phase core ≠ .flushing next) {phase : LogPhase}
    (hphase : ∀ next, phase ≠ .flushing next) :
    Kept chan (s.setPhase core phase) core printed given := by
  have hself : (s.setPhase core phase).phase core = phase := Function.update_self ..
  exact ⟨h.blocks, fun ⟨next, hn⟩ => absurd (hself.symm.trans hn) (hphase next), fun _ => h.idle hidle⟩

theorem Kept.go (hr : Registered chan s core) (h : Kept chan s core printed given)
    (hsize : 0 < size) : Kept chan (s.go core).1 core printed
      (given ++ givenTo (secondaryFifo (chan core)) (ipcLog (s.go core).2)) := by
  unfold LogSystem.go
  cases hphase : s.phase core with
  | idle =>
    show Kept chan s core printed (given ++ [])
    rwa [List.append_nil]
  | endOfLine ch =>
    have hidle : ∀ next, s.phase core ≠ .flushing next := by simp [hphase]
    obtain ⟨hp, -, hprinted⟩ := h.idle hidle
    dsimp only
    split
    · exact .beginFlush hr h.blocks hprinted hsize hp none
    · show Kept chan _ core printed (given ++ [])
      rw [List.append_nil]
      exact h.setPhase hidle (by simp)
  | flushing next =>
    have hprinted := h.flushing ⟨next, hphase⟩
    dsimp only
    rw [hr.channel]
    dsimp only
    cases hp : s.system.push (secondaryFifo (chan core)) with
    | idle =>
      show Kept chan _ core printed (given ++ [])
      rw [List.append_nil]
      exact .endFlush h.blocks hprinted hsize hp next
    | _ =>
      have hgiven : givenTo (secondaryFifo (chan core))
          (ipcLog (s.act (.goPush (secondaryFifo (chan core)))).2) = [] := by
        show givenTo _ (ipcLog ((s.system.act _).2.map .ipc)) = _
        rw [ipcLog_map_ipc]
        exact act_givenTo (by simp)
      dsimp only
      rw [hgiven, List.append_nil]
      exact ⟨h.blocks, fun _ => hprinted, fun hn => absurd hphase (hn next)⟩

theorem Kept.printBinary (hr : Registered chan s core) (h : Kept chan s core printed given)
    (hsize : 0 < size) (hphase : s.phase core = .idle) (ch : UInt8) :
    ∃ t es, s.PrintBinary core ch = .ok (t, es) ∧ printedBy core es = [ch] ∧
      Kept chan t core (printed ++ [ch])
        (given ++ givenTo (secondaryFifo (chan core)) (ipcLog es)) := by
  obtain ⟨hp, hlt, hprinted⟩ := h.idle (by simp [hphase])
  have hmax : size < 4294967296 := Nat.lt_of_le_of_lt hr.fits (UInt32.toNat_lt _)
  let u : LogSystem cores n size := { s with device := s.device.store core ch hlt }
  have hru : Registered chan u core := ⟨hr.channel, hr.allocated, hr.fits⟩
  have hprinted' : given.flatten ++ u.device.buffered core = printed ++ [ch] := by
    rw [buffered_store ch hlt hmax, ← List.append_assoc, hprinted]
  have hptr := store_pointer ch hlt hmax
  have hok : s.PrintBinary core ch = .ok
      (let r := if u.device.m_writePointers core = .ofNat size then u.beginFlush core (some ch)
        else (u.setPhase core (.endOfLine ch), [])
      (r.1, .printed core ch :: r.2)) := dif_pos hlt
  refine ⟨_, _, hok, ?_, ?_⟩
  · obtain ⟨fs, hfs, hacc⟩ := printBinary_accessed hok
    rw [hfs]
    show printedBy core ([.printed core ch] ++ fs) = [ch]
    rw [printedBy_append, hacc.printedBy core]
    simp [printedBy]
  · by_cases hfull : u.device.m_writePointers core = .ofNat size
    · simp only [if_pos hfull]
      exact Kept.beginFlush hru h.blocks hprinted' hsize hp (some ch)
    · simp only [if_neg hfull]
      have hne : (u.device.m_writePointers core).toNat ≠ size := by
        intro he
        exact hfull (UInt32.ofNat_toNat.symm.trans (congrArg UInt32.ofNat he))
      have hphase' : (u.setPhase core (.endOfLine ch)).phase core = .endOfLine ch :=
        Function.update_self ..
      show Kept chan _ core _ (given ++ [])
      rw [List.append_nil]
      refine ⟨h.blocks, fun ⟨next, hn⟩ => ?_, fun _ => ⟨hp, ?_, hprinted'⟩⟩
      · rw [hphase'] at hn
        cases hn
      · exact Nat.lt_of_le_of_ne (hptr ▸ hlt) hne

/-- What a move of the core does to the core. -/
theorem Kept.step (hr : Registered chan s core) (h : Kept chan s core printed given)
    (hsize : 0 < size) {m : LogMove cores n} (hm : m.owner = some core) :
    ∃ t es, s.step m = .ok (t, es) ∧ Kept chan t core (printed ++ printedBy core es)
      (given ++ givenTo (secondaryFifo (chan core)) (ipcLog es)) := by
  have hskip : Kept chan s core (printed ++ []) (given ++ []) := by
    rwa [List.append_nil, List.append_nil]
  cases m with
  | PrintBinary c ch =>
    cases hm
    by_cases hphase : s.phase core = .idle
    · obtain ⟨t, es, hok, hprinted, hkept⟩ := h.printBinary hr hsize hphase ch
      refine ⟨t, es, (if_pos hphase).trans hok, ?_⟩
      rwa [hprinted]
    · exact ⟨s, [], if_neg hphase, hskip⟩
  | Flush c =>
    cases hm
    by_cases hphase : s.phase core = .idle
    · obtain ⟨hp, -, hprinted⟩ := h.idle (by simp [hphase])
      refine ⟨(s.beginFlush core none).1, (s.beginFlush core none).2,
        congrArg Except.ok (if_pos hphase), ?_⟩
      rw [(beginFlush_accessed s core none).printedBy, List.append_nil]
      exact .beginFlush hr h.blocks hprinted hsize hp none
    · exact ⟨s, [], congrArg Except.ok (if_neg hphase), hskip⟩
  | go c =>
    cases hm
    refine ⟨(s.go core).1, (s.go core).2, rfl, ?_⟩
    rw [(go_accessed s core).printedBy, List.append_nil]
    exact h.go hr hsize
  | other m => cases hm

/-- What leaves a core alone keeps what is known of it. -/
theorem Kept.of_unchanged (h : Kept chan s core printed given)
    (hbuffer : t.device.m_txBuffers core = s.device.m_txBuffers core)
    (hpointer : t.device.m_writePointers core = s.device.m_writePointers core)
    (hphase : t.phase core = s.phase core)
    (hpush : t.system.push (secondaryFifo (chan core)) =
      s.system.push (secondaryFifo (chan core))) : Kept chan t core printed given := by
  have hbuffered : t.device.buffered core = s.device.buffered core := by
    unfold MulticoreLogDevice.buffered
    rw [hbuffer, hpointer]
  refine ⟨h.blocks, ?_, ?_⟩
  · rw [hphase]
    exact h.flushing
  · rw [hphase, hpush, hpointer, hbuffered]
    exact h.idle

end

end EmbeddedPlatform.Multicore
