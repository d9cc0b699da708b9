import EmbeddedPlatform.Fpga.DeviceGate
import EmbeddedPlatform.Fpga.PacketFraming
import EmbeddedPlatform.Fpga.Termination

/-! # From the sync word on

The updater stores what comes before the sync word as it is, and takes what
follows it apart. From there on every call returns. -/
namespace EmbeddedPlatform.Fpga

open Lib FPGAFirmwareUpdater

variable {φ : Type} {F : SpiFlash φ} {c : UpdaterConfig} {fuel : Nat}
  {s t u v : FPGAFirmwareUpdater φ} {es log : List Action} {more : Bool}
  {chunks : List (List UInt8)} {polls : List (Poll φ)}

/-! ## The search -/

/-- The sync word does not begin before the end of `padding`. -/
def FirstSync (padding : List UInt8) : Prop :=
  ∀ i < padding.length, ((padding ++ g_syncword).drop i).take 4 ≠ g_syncword

theorem FirstSync.drop {padding : List UInt8} (h : FirstSync padding) (m : Nat) :
    FirstSync (padding.drop m) := by
  intro i hi
  rw [List.length_drop] at hi
  have hm : m ≤ padding.length := by omega
  have hword := h (m + i) (by omega)
  rwa [← List.drop_drop, List.drop_append_of_le_length hm] at hword

theorem takes_zero (s : FPGAFirmwareUpdater φ) : Takes s s 0 :=
  ⟨Nat.zero_le _, rfl, (List.append_nil _).symm⟩

theorem Takes.trans {m n : Nat} (h : Takes s t m) (h' : Takes t u n) : Takes s u (m + n) := by
  have hle := h'.le
  rw [h.rx, List.length_drop] at hle
  have hm := h.le
  refine ⟨by omega, ?_, ?_⟩
  · rw [h'.rx, h.rx, List.drop_drop]
  · rw [h'.copies, h.copies, h.rx, List.append_assoc, ← List.take_add]

section
variable {padding rest later : List UInt8}

/-- The bytes looked at are the sync word's exactly behind the padding. -/
theorem take_syncword (hleft : s.m_rxBuffer.items ++ later = padding ++ g_syncword ++ rest)
    (hfirst : FirstSync padding) (hlen : 4 < s.m_rxBuffer.items.length) :
    s.m_rxBuffer.items.take 4 = g_syncword ↔ padding = [] := by
  have hfour : s.m_rxBuffer.items.take 4 = (padding ++ g_syncword).take 4 := by
    have htake := congrArg (List.take 4) hleft
    rwa [List.take_append_of_le_length (Nat.le_of_lt hlen),
      List.take_append_of_le_length (by rw [List.length_append]; exact Nat.le_add_left _ _)] at htake
  rw [hfour]
  constructor
  · intro hsync
    cases padding with
    | nil => rfl
    | cons b padding => exact absurd hsync (hfirst 0 (Nat.succ_pos _))
  · rintro rfl
    rfl

theorem syncWait_finds {n : Nat} (hs : s.m_state = .SYNC_WAIT)
    (hn : s.m_rxBuffer.items.length ≤ n)
    (hleft : s.m_rxBuffer.items ++ later = padding ++ g_syncword ++ rest)
    (hfirst : FirstSync padding) (hno : .pushFailed ∉ es) (h : syncWait n s = (more, t, es)) :
    more = true ∧ t.m_state = .BITSTREAM ∧ Takes s t (padding ++ g_syncword).length ∨
      more = false ∧ t.m_state = .SYNC_WAIT ∧ t.m_rxBuffer.items.length ≤ 4 ∧
        ∃ m ≤ padding.length, Takes s t m := by
  induction n generalizing s padding es with
  | zero =>
    cases h
    exact .inr ⟨rfl, hs, by omega, 0, Nat.zero_le _, takes_zero _⟩
  | succ n ih =>
    unfold syncWait at h
    dsimp only at h
    by_cases hlen : 4 < s.m_rxBuffer.items.length
    · rw [if_pos hlen] at h
      have hsync := take_syncword hleft hfirst hlen
      cases padding with
      | nil =>
        rw [if_pos (hsync.mpr rfl)] at h
        cases h
        have htakes := takes_push (s := s) rfl rfl (Nat.le_of_lt hlen)
          (fun he => hno (List.mem_append_left _ he))
        exact .inl ⟨rfl, rfl, htakes.le, htakes.rx, htakes.copies⟩
      | cons b padding =>
        rw [if_neg (mt hsync.mp (List.cons_ne_nil _ _))] at h
        rcases hr : syncWait n ((s.pushWrite (s.m_rxBuffer.items.take 1)).2.1.popRx 1)
          with ⟨more', u, fs⟩
        rw [hr] at h
        cases h
        rw [List.mem_append, not_or] at hno
        have hbyte := takes_push (s := s) rfl rfl (by omega : 1 ≤ _) hno.1
        have hrest : ((s.pushWrite (s.m_rxBuffer.items.take 1)).2.1.popRx 1).m_rxBuffer.items ++
            later = padding ++ g_syncword ++ rest := by
          rw [← (hbyte.shift later).1, hleft]
          rfl
        have hshorter : ((s.pushWrite (s.m_rxBuffer.items.take 1)).2.1.popRx
            1).m_rxBuffer.items.length ≤ n := by
          rw [hbyte.rx, List.length_drop]
          omega
        have hst : ((s.pushWrite (s.m_rxBuffer.items.take 1)).2.1.popRx 1).m_state = .SYNC_WAIT :=
          (pushWrite_m_state _ _).trans hs
        rcases ih hst hshorter hrest (hfirst.drop 1) hno.2 hr
          with ⟨hmore, ht, htakes⟩ | ⟨hmore, ht, hshort, m, hm, htakes⟩
        · refine .inl ⟨hmore, ht, ?_⟩
          have hall := hbyte.trans htakes
          rwa [Nat.add_comm] at hall
        · refine .inr ⟨hmore, ht, hshort, m + 1, Nat.succ_le_succ hm, ?_⟩
          have hall := hbyte.trans htakes
          rwa [Nat.add_comm] at hall
    · rw [if_neg hlen] at h
      cases h
      exact .inr ⟨rfl, hs, Nat.le_of_not_lt hlen, 0, Nat.zero_le _, takes_zero _⟩

theorem past_header_of_sync (hs : s.m_state = .SYNC_WAIT) : ¬ inHeader s := by
  unfold inHeader
  rw [hs]
  decide

/-- What a poll comes to that looks for the sync word. -/
theorem sync_poll (hs : s.m_state = .SYNC_WAIT)
    (hleft : s.m_rxBuffer.items ++ later = padding ++ g_syncword ++ rest)
    (hfirst : FirstSync padding) (hno : .pushFailed ∉ es)
    (h : pollOnce F c fuel s = .ok (more, t, es)) :
    t.m_state = .FAILED ∧ FlashFails F c fuel s ∨
      more = true ∧ Awaits t [] ∧ t.m_rxBuffer.items ++ later = rest ∧
        flashed es ++ t.m_writeBuffer.items = s.m_writeBuffer.items ++ (padding ++ g_syncword) ∨
      more = false ∧ t.m_state = .SYNC_WAIT ∧ t.m_rxBuffer.items.length ≤ 4 ∧
        ∃ m ≤ padding.length,
          t.m_rxBuffer.items ++ later = padding.drop m ++ g_syncword ++ rest ∧
          flashed es ++ t.m_writeBuffer.items = s.m_writeBuffer.items ++ padding.take m := by
  obtain ⟨u, fs, hu, hfs, hpush⟩ := pollOnce_pushes (past_header_of_sync hs) h
  unfold ProcessDataFromBuffer at hu
  rw [hs] at hu
  have hfound := syncWait_finds hs (Nat.le_refl _) hleft hfirst (fun he => hno (hfs _ he))
    (Except.ok.inj hu)
  rcases hpush.result with ⟨hfail, hcause⟩ | ⟨hst, hwb⟩
  · refine .inl ⟨hfail, hcause.resolve_left fun hfailed => ?_⟩
    rcases hfound with ⟨-, hst, -⟩ | ⟨-, hst, -⟩
    · cases hfailed.symm.trans hst
    · cases hfailed.symm.trans hst
  · refine .inr ?_
    rw [hst, hpush.rx, hwb]
    rcases hfound with ⟨hmore, hu, htakes⟩ | ⟨hmore, hu, hshort, m, hm, htakes⟩
    · obtain ⟨hdrop, htake⟩ := htakes.shift later
      rw [hleft] at hdrop htake
      refine .inl ⟨hmore, .inl ⟨hst.trans hu, rfl⟩, ?_, ?_⟩
      · rw [← hdrop, List.drop_left]
      · rw [← htake, List.take_left]
    · obtain ⟨hdrop, htake⟩ := htakes.shift later
      rw [hleft, List.append_assoc] at hdrop htake
      refine .inr ⟨hmore, hu, hshort, m, hm, ?_, ?_⟩
      · rw [← hdrop, List.drop_append_of_le_length hm, List.append_assoc]
      · rw [← htake, List.take_append_of_le_length hm]

/-- What follows the sync word is framed, however the search for it is cut. -/
theorem sync_follows {ps : List Packet} (h : Polling F c fuel s chunks v log polls)
    (hs : s.m_state = .SYNC_WAIT)
    (hleft : s.m_rxBuffer.items ++ chunks.flatten = padding ++ g_syncword ++ rest)
    (hfirst : FirstSync padding) (hrest : rest ≠ []) (hpackets : rest <+: packetBytes ps)
    (hno : .pushFailed ∉ log) :
    Follows [] ps rest (s.m_writeBuffer.items ++ (padding ++ g_syncword)) v log
      (headersRead polls) (∃ p ∈ polls, FlashFails F c fuel p.state) := by
  induction h generalizing padding with
  | @ends s t es hpoll =>
    rw [headersRead_cons, if_neg fun hread => by cases hs.symm.trans hread.1]
    rcases sync_poll hs hleft hfirst hno hpoll with ⟨hfail, hcause⟩ | ⟨hmore, -⟩ |
      ⟨-, -, hshort, m, -, hitems, -⟩
    · exact follows_failed hfail ⟨_, List.mem_cons_self, hcause⟩
    · cases hmore
    · -- the sync word and a byte behind it are there to be found
      have hlen := congrArg List.length hitems
      have hpos := List.length_pos_iff.mpr hrest
      have hword : g_syncword.length = 4 := rfl
      simp only [List.flatten_nil, List.append_nil, List.length_append] at hlen
      omega
  | @again s t v chunks es log polls hpoll hpolls _ =>
    rw [List.mem_append, not_or] at hno
    rw [headersRead_cons, if_neg fun hread => by cases hs.symm.trans hread.1]
    rcases sync_poll hs hleft hfirst hno.1 hpoll with ⟨hfail, hcause⟩ | ⟨-, ht, hitems, hwb⟩ |
      ⟨hmore, -⟩
    · obtain ⟨hheaders, hsettles⟩ := polling_finished hpolls (.inr hfail)
      rw [hheaders]
      exact follows_failed (hsettles.failed hfail) ⟨_, List.mem_cons_self, hcause⟩
    · have hfollows := polling_follows hpolls ht (by rw [hitems]; exact hpackets) hno.2
      rw [hitems] at hfollows
      exact (hfollows.push hwb).mono fun hcause => flashFails_cons (.inr hcause)
    · cases hmore
  | @call s t v data q chunks es log polls hpoll hq hpolls ih =>
    rw [List.mem_append, not_or] at hno
    rw [headersRead_cons, if_neg fun hread => by cases hs.symm.trans hread.1]
    rcases sync_poll hs hleft hfirst hno.1 hpoll with ⟨hfail, hcause⟩ | ⟨hmore, -⟩ |
      ⟨-, ht, -, m, hm, hitems, hwb⟩
    · obtain ⟨hheaders, hsettles⟩ := polling_finished hpolls (.inr hfail)
      rw [hheaders]
      exact follows_failed (hsettles.failed hfail) ⟨_, List.mem_cons_self, hcause⟩
    · cases hmore
    · have hnext : q.items ++ chunks.flatten = padding.drop m ++ g_syncword ++ rest := by
        rw [BoundedQueue.items_of_push hq, List.append_assoc]
        exact hitems
      refine ((ih ht hnext (hfirst.drop m) hno.2).push ?_).mono
        fun hcause => flashFails_cons (.inr hcause)
      rw [← List.append_assoc, hwb, List.append_assoc, ← List.append_assoc, ← List.append_assoc,
        List.append_assoc _ (padding.take m), List.take_append_drop, List.append_assoc]

end

/-! ## The calls return -/

theorem process_total_past_header (hs : ¬ inHeader s) :
    ∃ more t es, ProcessDataFromBuffer F c fuel s = .ok (more, t, es) := by
  unfold ProcessDataFromBuffer
  cases hst : s.m_state with
  | READ_BITHDR => exact absurd (.inl hst) hs
  | READ_BITHDR_RECORDS => exact absurd (.inr hst) hs
  | SYNC_WAIT | BITSTREAM | BIG_WRITE | DONE | FAILED => exact ⟨_, _, _, rfl⟩

theorem pollOnce_total_past_header (hs : ¬ inHeader s) :
    ∃ more t es, pollOnce F c fuel s = .ok (more, t, es) ∧ ¬ inHeader t := by
  obtain ⟨more, u, es, hu⟩ := @process_total_past_header _ F c fuel s hs
  refine ⟨more, _, _, pollOnce_of_process hu, ?_⟩
  rcases (pushWriteData_frame F u).2.2 with hst | hst
  · unfold inHeader
    rw [hst]
    exact process_past_header hs hu
  · exact not_inHeader_of_failed hst

/-- A call that gets past the header returns. -/
theorem onRxData_total_past_header {data : List UInt8} (hu : Polls F c fuel s data u)
    (hpast : ¬ inHeader u) : ∃ t es, OnRxData F c fuel data s = .ok (t, es) ∧ ¬ inHeader t := by
  obtain ⟨q, hq, hvisits⟩ := hu
  unfold OnRxData
  rw [hq]
  exact rounds_total_of_visits (fun s hs => pollOnce_total_past_header hs)
    (fun _ _ _ hb => pollOnce_shrinks hb) hvisits hpast (pollMeasure_lt_pollFuel _)

theorem receive_total_past_header (hs : ¬ inHeader s) (data : List UInt8) :
    ∃ t es, receive F c fuel s data = .ok (t, es) ∧ ¬ inHeader t := by
  unfold receive
  cases hq : s.m_rxBuffer.push data with
  | none =>
    unfold OnRxData
    rw [hq]
    exact ⟨_, _, rfl, hs⟩
  | some q => exact onRxData_total_past_header ⟨q, hq, .start _⟩ hs

/-! ## The packets -/

/-- **Packet framing.** From the poll on that looks for the sync word every call
returns, and the packets behind it are taken apart at their boundaries. -/
theorem packets_framed {data padding rest : List UInt8} {ps : List Packet}
    (hu : Polls F c fuel s data u) (hsync : u.m_state = .SYNC_WAIT)
    (hleft : u.m_rxBuffer.items ++ chunks.flatten = padding ++ g_syncword ++ rest)
    (hfirst : FirstSync padding) (hrest : rest ≠ []) (hpackets : rest <+: packetBytes ps) :
    ∃ t es v log, OnRxData F c fuel data s = .ok (t, es) ∧
      run (receive F c fuel) t chunks = .ok (v, log) ∧
      (.pushFailed ∉ es ++ log → ∃ es' polls, es' <:+ es ∧
        Polling F c fuel u chunks v (es' ++ log) polls ∧
        Follows [] ps rest (u.m_writeBuffer.items ++ (padding ++ g_syncword)) v (es' ++ log)
          (headersRead polls) (∃ p ∈ polls, FlashFails F c fuel p.state)) := by
  obtain ⟨t, es, hcall, ht⟩ := onRxData_total_past_header hu (past_header_of_sync hsync)
  obtain ⟨v, log, hmore⟩ := @run_total _ _ _ _ (receive F c fuel) (fun s => ¬ inHeader s)
    (fun s data hs => receive_total_past_header hs data) t ht chunks
  refine ⟨t, es, v, log, hcall, hmore, fun hno => ?_⟩
  rw [List.mem_append, not_or] at hno
  obtain ⟨es', polls, hsuffix, hpolls⟩ := polling_of_call hcall hu hmore hno.2
  refine ⟨es', polls, hsuffix, hpolls, sync_follows hpolls hsync hleft hfirst hrest hpackets ?_⟩
  rw [List.mem_append, not_or]
  exact ⟨fun he => hno.1 (hsuffix.subset he), hno.2⟩

/-- The packet that ends a bitstream. -/
def desync : Packet := .write 4 [0x0d] (by decide) (by decide)

/-- An updater that has read the header of a bit file and nothing behind it. -/
def searching (g_fpgaFlash : φ) : FPGAFirmwareUpdater φ :=
  { FPGAFirmwareUpdater.init 0 g_fpgaFlash with m_state := .SYNC_WAIT }

theorem searching_polls (F : SpiFlash φ) (c : UpdaterConfig) (fuel : Nat) (f : φ)
    (data : List UInt8) (hfits : data.length ≤ 4096) :
    ∃ q : CircularFIFO, q.items = data ∧
      Polls F c fuel (searching f) data { searching f with m_rxBuffer := q } := by
  obtain ⟨q, hq, hitems⟩ := @BoundedQueue.push_of_fits _ _ (searching f).m_rxBuffer data
    (by rw [show (searching f).m_rxBuffer.items = [] from rfl, List.length_nil, Nat.zero_add]
        exact hfits)
  exact ⟨q, hitems, q, hq, .start _⟩

/-- The sync word comes with the header of the packet, and the data after it. -/
theorem packets_framed_desync :
    ∃ u t es v log, u.m_state = .SYNC_WAIT ∧
      OnRxData sampleFlash sampleConfig 2 (g_syncword ++ desync.bytes.take 4)
        (searching blankChip) = .ok (t, es) ∧
      run (receive sampleFlash sampleConfig 2) t [desync.bytes.drop 4] = .ok (v, log) ∧
      v.m_state = .DONE ∧ ∃ es' polls, es' <:+ es ∧
        Polling sampleFlash sampleConfig 2 u [desync.bytes.drop 4] v (es' ++ log) polls ∧
        Follows [] [desync] desync.bytes (u.m_writeBuffer.items ++ ([] ++ g_syncword)) v
          (es' ++ log) (headersRead polls)
          (∃ p ∈ polls, FlashFails sampleFlash sampleConfig 2 p.state) := by
  obtain ⟨q, hq, hpolls⟩ := searching_polls sampleFlash sampleConfig 2 blankChip
    (g_syncword ++ desync.bytes.take 4) (by decide)
  have hleft : q.items ++ [desync.bytes.drop 4].flatten = [] ++ g_syncword ++ desync.bytes := by
    rw [hq]
    rfl
  have hpackets : desync.bytes <+: packetBytes [desync] := List.prefix_append _ _
  obtain ⟨t, es, v, log, hcall, hmore, hframed⟩ := packets_framed hpolls rfl hleft
    (fun i hi => absurd hi (Nat.not_lt_zero i)) (by decide) hpackets
  obtain ⟨⟨v', log'⟩, hrun, hP⟩ := exists_of_returns
    (P := fun r : FPGAFirmwareUpdater (UInt32 → UInt8) × List Action =>
      decide (r.1.m_state = .DONE ∧ .pushFailed ∉ r.2))
    (r := run (receive sampleFlash sampleConfig 2) (searching blankChip)
      [g_syncword ++ desync.bytes.take 4, desync.bytes.drop 4]) (by decide +kernel)
  have hsame := (run_cons_of_ok hcall hmore).symm.trans hrun
  cases hsame
  obtain ⟨hdone, hno⟩ := of_decide_eq_true hP
  exact ⟨_, t, es, v, log, rfl, hcall, hmore, hdone, hframed hno⟩

/-- A chip that refuses every write. -/
def wornFlash : SpiFlash Unit where
  GetEraseBlockSize := 16
  GetMaxWriteBlockSize := 8
  EraseSector _ f := (true, f)
  WriteData _ _ f := (false, f)
  ReadData _ n f := (.replicate n 0xff, f)
  eraseBlock_pos := Nat.succ_pos 15
  writeBlock_pos := Nat.succ_pos 7

/-- On such a chip the bitstream has ended and the updater has failed. -/
theorem packets_lost_with_flash :
    ∃ q t es, Polls wornFlash sampleConfig 2 (searching ()) (g_syncword ++ desync.bytes)
        { searching () with m_rxBuffer := q } ∧
      q.items ++ ([] : List (List UInt8)).flatten = [] ++ g_syncword ++ desync.bytes ∧
      OnRxData wornFlash sampleConfig 2 (g_syncword ++ desync.bytes) (searching ()) = .ok (t, es) ∧
      .pushFailed ∉ es ∧ t.m_state = .FAILED ∧
      ¬ ∃ (es' : List Action) (polls : List (Poll Unit)),
        Follows [] [desync] desync.bytes ([] ++ g_syncword) t es' (headersRead polls) False := by
  obtain ⟨q, hq, hpolls⟩ := searching_polls wornFlash sampleConfig 2 ()
    (g_syncword ++ desync.bytes) (by decide)
  obtain ⟨⟨t, es⟩, hcall, hP⟩ := exists_of_returns
    (P := fun r : FPGAFirmwareUpdater Unit × List Action =>
      decide (r.1.m_state = .FAILED ∧ .pushFailed ∉ r.2))
    (r := OnRxData wornFlash sampleConfig 2 (g_syncword ++ desync.bytes) (searching ()))
    (by decide +kernel)
  obtain ⟨hfail, hno⟩ : t.m_state = .FAILED ∧ .pushFailed ∉ es := of_decide_eq_true hP
  refine ⟨q, t, es, hpolls, by rw [hq]; rfl, hcall, hno, hfail, ?_⟩
  rintro ⟨es', polls, k, -, -, ⟨-, hfalse⟩ | ⟨copied, -, hframed⟩⟩
  · exact hfalse
  · have hdone := hframed.done.mpr ⟨⟨desync, List.mem_cons_self, rfl⟩, by decide⟩
    cases hfail.symm.trans hdone

end EmbeddedPlatform.Fpga
