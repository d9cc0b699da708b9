import EmbeddedPlatform.Fpga.Containment
import EmbeddedPlatform.Fpga.Delivery

/-! # Loss of received data

Most pushes of the updater go unchecked, and so does a record header that is
popped before it is there. As long as no poll does either, every byte received
behind the header is accounted for or the updater has failed. -/
namespace EmbeddedPlatform.Fpga

open Lib FPGAFirmwareUpdater

variable {φ : Type} {F : SpiFlash φ} {c : UpdaterConfig} {fuel : Nat}
  {s t : FPGAFirmwareUpdater φ} {es log : List Action} {more : Bool}

/-! ## Polls that have room -/

/-- The bytes `STATE_SYNC_WAIT` moves: all up to the sync word and with it, or
all but the last four. -/
def syncSpan : List UInt8 → Nat
  | [] => 0
  | b :: ptr =>
    if 4 < (b :: ptr).length then
      if (b :: ptr).take 4 = g_syncword then 4 else 1 + syncSpan ptr
    else 0

/-- The bytes `STATE_BITSTREAM` moves. -/
def packetSpan (ptr : List UInt8) : Nat :=
  if 4 ≤ ptr.length then
    if packetType ptr = 1 then
      if ptr.length < (packetSize (bswap32 ptr)).toNat then 0 else (packetSize (bswap32 ptr)).toNat
    else if packetType ptr = 2 then 4
    else 0
  else 0

/-- The bytes a poll moves to the write buffer. -/
def bytesTaken (s : FPGAFirmwareUpdater φ) : Nat :=
  match s.m_state with
  | .SYNC_WAIT => syncSpan s.m_rxBuffer.items
  | .BITSTREAM => packetSpan s.m_rxBuffer.items
  | .BIG_WRITE => if 4 ≤ s.m_rxBuffer.items.length then 4 * wordsTaken s else 0
  | _ => 0

/-- The write buffer has room for what a poll moves. -/
def HasRoom (s : FPGAFirmwareUpdater φ) : Prop :=
  s.m_writeBuffer.items.length + bytesTaken s ≤ BIT_RX_BUFFER_SIZE

/-- A poll in this state loses nothing, or says so: an overflow is noticed in
the middle of a type 2 packet only. -/
def Lossless (s : FPGAFirmwareUpdater φ) : Prop :=
  ¬ ShortHeader s ∧
    (HasRoom s ∨ s.m_state = .BIG_WRITE ∧ wordsTaken s < s.m_bigWordLen.toNat)

theorem pushWrite_fits {data : List UInt8}
    (h : s.m_writeBuffer.items.length + data.length ≤ BIT_RX_BUFFER_SIZE) :
    (s.pushWrite data).2.2 = [] ∧
      (s.pushWrite data).2.1.m_writeBuffer.items = s.m_writeBuffer.items ++ data := by
  rcases pushWrite_cases s data with ⟨q, hp, hq⟩ | ⟨-, hfull⟩
  · rw [hp]; exact ⟨rfl, hq⟩
  · omega

theorem syncWait_room {n : Nat} (hs : s.m_state = .SYNC_WAIT)
    (hroom : s.m_writeBuffer.items.length + syncSpan s.m_rxBuffer.items ≤ BIT_RX_BUFFER_SIZE)
    (h : syncWait n s = (more, t, es)) : .pushFailed ∉ es := by
  induction n generalizing s es with
  | zero => cases h; simp
  | succ n ih =>
    unfold syncWait at h
    dsimp only at h
    split at h
    · rename_i hlen
      obtain ⟨b, ptr, hrx⟩ : ∃ b ptr, s.m_rxBuffer.items = b :: ptr := by
        cases hi : s.m_rxBuffer.items with
        | nil => rw [hi] at hlen; cases hlen
        | cons b ptr => exact ⟨b, ptr, rfl⟩
      rw [hrx] at hlen hroom
      rw [syncSpan, if_pos hlen] at hroom
      split at h
      · rename_i hsync
        cases h
        rw [hrx] at hsync
        rw [if_pos hsync] at hroom
        have hfit := @pushWrite_fits _ s (s.m_rxBuffer.items.take 4)
          (by rw [hrx, List.length_take_of_le (by omega)]; exact hroom)
        rw [hfit.1]
        simp [setState]
      · rename_i hsync
        rw [hrx] at hsync
        rw [if_neg hsync] at hroom
        have hfit := @pushWrite_fits _ s (s.m_rxBuffer.items.take 1)
          (by rw [hrx, List.length_take_of_le (by omega)]; omega)
        rcases hr : syncWait n ((s.pushWrite (s.m_rxBuffer.items.take 1)).2.1.popRx 1)
          with ⟨more', u, fs⟩
        rw [hr] at h
        cases h
        rw [hfit.1, List.nil_append]
        refine ih (by simpa [popRx] using hs) ?_ hr
        have hwb := congrArg List.length hfit.2
        rw [List.length_append, hrx, List.length_take_of_le (by omega), ← hrx] at hwb
        simp only [popRx, hwb, pushWrite_m_rxBuffer, BoundedQueue.items_pop]
        simp only [hrx, List.drop_succ_cons, List.drop_zero]
        omega
    · cases h; simp

theorem bitstream_room
    (hroom : s.m_writeBuffer.items.length + packetSpan s.m_rxBuffer.items ≤ BIT_RX_BUFFER_SIZE)
    (h : bitstream s = (more, t, es)) : .pushFailed ∉ es := by
  unfold bitstream at h
  dsimp only at h
  unfold packetSpan at hroom
  split at h
  · rename_i hlen
    rw [if_pos hlen] at hroom
    split at h
    · rename_i htype
      rw [if_pos htype] at hroom
      split at h
      · cases h; simp
      · rename_i hsize
        rw [if_neg hsize] at hroom
        have htake := List.length_take_of_le (Nat.le_of_not_lt hsize)
        cases hd : isDesync s.m_rxBuffer.items with
        | true =>
          simp only [hd, if_true] at h
          cases h
          have hfit := @pushWrite_fits _ (s.setState .DONE).1
            (s.m_rxBuffer.items.take (packetSize (bswap32 s.m_rxBuffer.items)).toNat)
            (by rw [htake]; exact hroom)
          rw [hfit.1]
          simp [setState]
        | false =>
          simp only [hd, Bool.false_eq_true, if_false] at h
          cases h
          have hfit := @pushWrite_fits _ s
            (s.m_rxBuffer.items.take (packetSize (bswap32 s.m_rxBuffer.items)).toNat)
            (by rw [htake]; exact hroom)
          rw [hfit.1]
          simp
    · rename_i h1
      rw [if_neg h1] at hroom
      split at h
      · rename_i h2
        rw [if_pos h2] at hroom
        cases h
        have hfit := @pushWrite_fits _
          ({ s with m_bigWordLen := packetBigLen (bswap32 s.m_rxBuffer.items) }.setState .BIG_WRITE).1
          (s.m_rxBuffer.items.take 4) (by rw [List.length_take_of_le hlen]; exact hroom)
        rw [hfit.1]
        simp [setState]
      · cases h; simp
  · cases h; simp

theorem bigWrite_room (hs : s.m_state = .BIG_WRITE)
    (hroom : HasRoom s ∨ s.m_state = .BIG_WRITE ∧ wordsTaken s < s.m_bigWordLen.toNat)
    (h : bigWrite s = (more, t, es)) : t.m_state = .FAILED ∨ .pushFailed ∉ es := by
  by_cases hlen : 4 ≤ s.m_rxBuffer.items.length
  · obtain ⟨ok, u, fs, hp, -, -, -, -, hcase⟩ := bigWrite_cases hlen h
    cases ok with
    | true =>
      obtain ⟨rfl, -⟩ := pushWrite_true hp
      rcases hcase with ⟨-, -, -, rfl⟩ | ⟨-, -, -, rfl⟩
      · exact .inr (by simp [overflowLog])
      · exact .inr (by simp [overflowLog])
    | false =>
      rcases hcase with ⟨hdone, -⟩ | ⟨-, -, hst, -⟩
      · obtain ⟨-, -, hfull⟩ := pushWrite_false hp
        have htake := List.length_take_le (4 * wordsTaken s) s.m_rxBuffer.items
        rcases hroom with hroom | ⟨-, hlt⟩
        · rw [HasRoom, bytesTaken, hs] at hroom
          dsimp only at hroom
          rw [if_pos hlen] at hroom
          omega
        · omega
      · exact .inl hst
  · unfold bigWrite at h
    dsimp only at h
    rw [if_neg hlen] at h
    cases h
    exact .inr (by simp)

theorem readBitHeader_room (h : readBitHeader s = (more, t, es)) : .pushFailed ∉ es := by
  unfold readBitHeader at h
  split at h
  · split at h
    · cases h; simp
    · cases h; simp
  · cases h; simp

theorem readBitHeaderRecords_room (h : readBitHeaderRecords F c fuel s = .ok (more, t, es)) :
    .pushFailed ∉ es := by
  unfold readBitHeaderRecords at h
  dsimp only at h
  split at h
  · split at h
    · split at h
      · cases h
      · rename_i u fs he
        cases h
        obtain ⟨ok, f, gs, hout, hres⟩ := eraseFlashPartition_ok he
        have hgs : .pushFailed ∉ gs := by
          intro hmem
          obtain ⟨ptr, hptr⟩ := eraseOutcome_log hout _ hmem
          cases hptr
        rcases hres with ⟨-, -, rfl⟩ | ⟨-, -, rfl⟩
        · simpa [setState] using hgs
        · simpa [setState] using hgs
    · split at h
      · split at h
        · cases h; simp [setState]
        · cases h; simp
      · cases h; simp
  · cases h; simp

theorem process_lossless (hs : Lossless s)
    (h : ProcessDataFromBuffer F c fuel s = .ok (more, t, es)) :
    t.m_state = .FAILED ∨ .pushFailed ∉ es := by
  have hroom : s.m_state ≠ .BIG_WRITE → HasRoom s := fun hb => hs.2.resolve_right fun h => hb h.1
  unfold ProcessDataFromBuffer at h
  split at h
  · exact .inr (readBitHeader_room (by simpa using h))
  · exact .inr (readBitHeaderRecords_room h)
  · rename_i hst
    have hfits := hroom (by simp [hst])
    simp only [HasRoom, bytesTaken, hst] at hfits
    exact .inr (syncWait_room hst hfits (by simpa using h))
  · rename_i hst
    have hfits := hroom (by simp [hst])
    simp only [HasRoom, bytesTaken, hst] at hfits
    exact .inr (bitstream_room hfits (by simpa using h))
  · rename_i hst
    exact bigWrite_room hst hs.2 (by simpa using h)
  · cases h; exact .inr (by simp)
  · cases h; exact .inr (by simp)

/-! ## Calls that keep what they receive -/

/-- The call finds room for its data in the receive buffer, unless none is
needed any more, and each of its polls is one that loses nothing. -/
def KeepsAll (F : SpiFlash φ) (c : UpdaterConfig) (fuel : Nat) (s : FPGAFirmwareUpdater φ)
    (data : List UInt8) : Prop :=
  (s.m_state = .DONE ∨ s.m_state = .FAILED ∨
      s.m_rxBuffer.items.length + data.length ≤ BIT_RX_BUFFER_SIZE) ∧
    ∀ t, Polls F c fuel s data t → Lossless t

variable {f : φ} {received data : List UInt8}

/-- What a lossless call keeps between two polls. -/
def FailedOrReady (F : SpiFlash φ) (c : UpdaterConfig) (fuel : Nat) (f : φ) (received : List UInt8)
    (s : FPGAFirmwareUpdater φ) (log : List Action) : Prop :=
  s.m_state = .FAILED ∨ ∃ buf stored, Ready F c fuel f received s log buf stored

theorem pollOnce_failed (hs : s.m_state = .FAILED)
    (h : pollOnce F c fuel s = .ok (more, t, es)) : t.m_state = .FAILED := by
  obtain ⟨u, fs, hu, rfl, -⟩ := pollOnce_ok h
  rw [process_finished (.inr hs)] at hu
  cases hu
  have hfailed : { s with m_rxBuffer := .empty }.m_state = .FAILED := hs
  rw [pushWriteData_failed hfailed]
  exact hfailed

theorem pollOnce_kept (hs : FailedOrReady F c fuel f received s log)
    (hl : Lossless s) (h : pollOnce F c fuel s = .ok (more, t, es)) :
    t.m_state = .FAILED ∨ ∃ buf stored, Ready F c fuel f received t (log ++ es) buf stored ∧
      (more = false → (phase t).read c.m_deviceName (erases F c fuel f) buf = none) := by
  rcases hs with hfail | ⟨buf, stored, hready⟩
  · exact .inl (pollOnce_failed hfail h)
  · obtain ⟨u, fs, hu, rfl, rfl⟩ := pollOnce_ok h
    rcases process_lossless hl hu with hfail | hno
    · exact .inl (by rw [pushWriteData_failed hfail]; exact hfail)
    · -- a write that fails, or is not read back as it was, shows in the state
      obtain ⟨-, -, hst | hfail⟩ := pushWriteData_frame F u
      · exact .inr (poll_ready hready hu hst hl.1 hno)
      · exact .inl hfail

/-- A call whose data finds no room: nothing of it is read. -/
theorem AtRest.refused (h : AtRest F c fuel f received s log) (hs : s.m_state = .DONE) :
    AtRest F c fuel f (received ++ data) s (log ++ [.pushFailed]) := by
  obtain ⟨buf, stored, ⟨hd, hlen⟩, hrest⟩ := h
  have hphase : phase s = .done := by simp [phase, hs]
  have hsettle : (sessionFile F c fuel f).settle .magic (received ++ data) =
      ⟨phase s, buf ++ data, stored⟩ := by
    rw [StreamMachine.settle_append, hrest, hphase]
    simp [sessionFile, Rest.after]
  refine ⟨buf ++ data, stored, ⟨⟨.inr (.inl hs), ?_, ?_, hd.header, hd.words⟩, hlen⟩, hsettle⟩
  · rw [hsettle, hphase]
    simp [sessionFile, Rest.after]
  · obtain ⟨flashed, hstored, hwritten, hrest⟩ := hd.stores
    exact ⟨flashed, hstored, by rw [written_append, hwritten]; exact List.append_nil _, hrest⟩

theorem receive_kept (hs : s.m_state = .FAILED ∨ AtRest F c fuel f received s log)
    (hk : KeepsAll F c fuel s data) (h : receive F c fuel s data = .ok (t, es)) :
    t.m_state = .FAILED ∨ AtRest F c fuel f (received ++ data) t (log ++ es) := by
  unfold receive OnRxData at h
  split at h
  · rename_i hfull
    cases h
    rcases hk.1 with hst | hst | hfits
    · exact hs.imp_right fun hrest => hrest.refused hst
    · exact .inl hst
    · have := BoundedQueue.push_eq_none_iff.mp hfull
      omega
  · rename_i q hq
    have hstart : FailedOrReady F c fuel f (received ++ data) { s with m_rxBuffer := q } log :=
      hs.imp_right fun hrest => hrest.extend hq
    refine rounds_rule (J := FailedOrReady F c fuel f (received ++ data)) (C := Lossless)
      (Q := fun t log => t.m_state = .FAILED ∨ AtRest F c fuel f (received ++ data) t log)
      ?_ ?_ hstart (fun u hu => hk.2 u ⟨q, hq, hu⟩) h
    · intro s log t es hJ hC hb
      exact (pollOnce_kept hJ hC hb).imp_right fun ⟨buf, stored, hready, _⟩ =>
        ⟨buf, stored, hready⟩
    · intro s log t es hJ hC hb
      exact (pollOnce_kept hJ hC hb).imp_right fun ⟨_, _, hready, hwait⟩ =>
        hready.atRest (hwait rfl)

/-! ## Sessions -/

/-- What has been received behind the header is in the flash, in order from the
start of the partition, or waits in the buffers; once the end has been read, all
of it up to and including the packet that says so. -/
def Accounted (c : UpdaterConfig) (received : List UInt8) (s : FPGAFirmwareUpdater φ)
    (log : List Action) : Prop :=
  ∃ rest flashed, afterHeader received = some rest ∧
    written log = place c.m_imageOffset flashed ∧
    s.m_wptr = c.m_imageOffset + .ofNat flashed.length ∧
    (s.m_state ≠ .DONE →
      flashed ++ s.m_writeBuffer.items ++ s.m_rxBuffer.items = rest) ∧
    (s.m_state = .DONE → ∃ pre pkt tail,
      flashed ++ s.m_writeBuffer.items = pre ++ pkt ∧ rest = pre ++ pkt ++ tail ∧
        pkt.length = 8 ∧ isDesync pkt = true ∧
        (bitFile c.m_deviceName true).settle .sync rest = ⟨.done, tail, pre ++ pkt⟩)

theorem inImage_of_past (hin : ¬ inHeader s) (hs : s.m_state ≠ .FAILED) :
    (phase s).inImage = true := by
  cases hst : s.m_state with
  | READ_BITHDR => exact absurd (.inl hst) hin
  | READ_BITHDR_RECORDS => exact absurd (.inr hst) hin
  | SYNC_WAIT => simp [phase, hst, Phase.inImage]
  | BITSTREAM => simp [phase, hst, Phase.inImage]
  | BIG_WRITE => simp [phase, hst, Phase.inImage]
  | DONE => simp [phase, hst, Phase.inImage]
  | FAILED => exact absurd hst hs

theorem AtRest.accounted (h : AtRest F c fuel f received s log) (hin : ¬ inHeader s)
    (hs : s.m_state ≠ .FAILED) : Accounted c received s log := by
  obtain ⟨buf, stored, ⟨hd, -⟩, hrest⟩ := h
  have himage : ((sessionFile F c fuel f).settle .magic received).state.inImage = true := by
    rw [hrest]; exact inImage_of_past hin hs
  obtain ⟨rest, hafter, hsync⟩ := settle_magic himage
  have hsettle : (sessionFile F c fuel f).settle .sync rest = ⟨phase s, buf, stored⟩ :=
    hsync.symm.trans hrest
  have hkeeps := @settle_keeps rest c.m_deviceName (erases F c fuel f) .sync (by decide)
  rw [← sessionFile, hsettle] at hkeeps
  obtain ⟨flashed, hstored, hwritten, hwptr, -⟩ := hd.stores
  refine ⟨rest, flashed, hafter, hwritten, hwptr, fun hdone => ?_, fun hdone => ?_⟩
  · have hbuf := hd.reads.resolve_right (by rintro (h | h); exacts [hdone h, hs h])
    rw [← hstored, ← hbuf]
    exact hkeeps
  · have hend := @settle_desync rest c.m_deviceName (erases F c fuel f) .sync (by decide)
    rw [← sessionFile, hsettle] at hend
    have hphase : phase s = .done := by simp [phase, hdone]
    obtain ⟨pre, pkt, hout, hlen, hdesync⟩ := hend hphase
    dsimp only at hout
    refine ⟨pre, pkt, buf, by rw [← hstored]; exact hout, ?_, hlen, hdesync, ?_⟩
    · rw [← hout]
      exact hkeeps.symm
    · rw [settle_past_header (by decide), ← sessionFile, hsettle, hphase, hout]

/-- **No silent loss.** Whatever the flash does, in every session whose calls all
keep what they receive: once past the header, either the updater has failed or
every byte received is accounted for. -/
theorem no_silent_loss (F : SpiFlash φ) (c : UpdaterConfig) (fuel : Nat)
    (s₀ s : FPGAFirmwareUpdater φ) (chunks : List (List UInt8)) (log : List Action)
    (hkeep : AllSteps (receive F c fuel) (KeepsAll F c fuel) (OnDeviceOpened c s₀).1 chunks)
    (hr : run (receive F c fuel) (OnDeviceOpened c s₀).1 chunks = .ok (s, log))
    (hin : ¬ inHeader s) (hs : s.m_state ≠ .FAILED) :
    Accounted c chunks.flatten s log := by
  have hJ := run_rule (C := KeepsAll F c fuel) (l := []) (b := [])
    (J := fun s log chunks =>
      s.m_state = .FAILED ∨ AtRest F c fuel s₀.g_fpgaFlash chunks.flatten s log)
    (fun s log as data t es hJ hC ht => by
      have hstep := receive_kept hJ hC ht
      rwa [← List.flatten_singleton (l := data), ← List.flatten_append] at hstep)
    (.inr (opened_atRest F c fuel s₀)) hkeep hr
  simp only [List.nil_append] at hJ
  exact (hJ.resolve_left hs).accounted hin hs

/-- The states in which an `OnRxData` call polls the buffer, in order. -/
def polledStates (F : SpiFlash φ) (c : UpdaterConfig) (fuel : Nat) (s : FPGAFirmwareUpdater φ)
    (data : List UInt8) : List (FPGAFirmwareUpdater φ) :=
  match s.m_rxBuffer.push data with
  | none => []
  | some q => visited (pollOnce F c fuel) (pollFuel q.items.length) { s with m_rxBuffer := q }

theorem mem_polledStates {u : FPGAFirmwareUpdater φ} (h : OnRxData F c fuel data s = .ok (t, es))
    (hu : Polls F c fuel s data u) : u ∈ polledStates F c fuel s data := by
  obtain ⟨q, hq, hv⟩ := hu
  unfold polledStates
  unfold OnRxData at h
  rw [hq] at h ⊢
  exact mem_visited h hv

instance (s : FPGAFirmwareUpdater φ) : Decidable (ShortHeader s) :=
  inferInstanceAs (Decidable (_ ∧ _ ∧ _ ∧ _))

instance (s : FPGAFirmwareUpdater φ) : Decidable (HasRoom s) :=
  inferInstanceAs (Decidable (_ ≤ _))

instance (s : FPGAFirmwareUpdater φ) : Decidable (Lossless s) :=
  inferInstanceAs (Decidable (¬ _ ∧ (_ ∨ _ ∧ _)))

theorem no_silent_loss_short :
    ∃ s log, run (receive sampleFlash sampleConfig 2)
        (OnDeviceOpened sampleConfig (.init 0 blankChip)).1 [shortFile] = .ok (s, log) ∧
      s.m_state = .DONE ∧ Accounted sampleConfig shortFile s log := by
  obtain ⟨⟨s, log⟩, hr, hdone⟩ := exists_of_returns
    (P := fun r : FPGAFirmwareUpdater (UInt32 → UInt8) × List Action => decide (r.1.m_state = .DONE))
    (r := run (receive sampleFlash sampleConfig 2)
      (OnDeviceOpened sampleConfig (.init 0 blankChip)).1 [shortFile]) (by decide +kernel)
  have hdone : s.m_state = .DONE := of_decide_eq_true hdone
  have hkeep : KeepsAll sampleFlash sampleConfig 2
      (OnDeviceOpened sampleConfig (.init 0 blankChip)).1 shortFile := by
    refine ⟨.inr (.inr (by decide)), fun u hu => ?_⟩
    obtain ⟨t, es, ht⟩ := onRxData_total sampleFlash sampleConfig_ends
      (OnDeviceOpened sampleConfig (.init 0 blankChip)).1 shortFile
    have hall : ∀ u ∈ polledStates sampleFlash sampleConfig 2
        (OnDeviceOpened sampleConfig (.init 0 blankChip)).1 shortFile, Lossless u := by
      decide +kernel
    exact hall u (mem_polledStates ht hu)
  refine ⟨s, log, hr, hdone, ?_⟩
  have hin : ¬ inHeader s := by rintro (h | h) <;> cases hdone.symm.trans h
  exact no_silent_loss sampleFlash sampleConfig 2 _ s [shortFile] log
    ⟨hkeep, fun _ _ _ => trivial⟩ hr hin (by rw [hdone]; decide)

theorem afterHeader_paddingFile (n : Nat) (more : List UInt8) :
    afterHeader (paddingFile n ++ more) = some (List.replicate n 0xff ++ more) := by
  simp [paddingFile, afterHeader, afterRecords, magic, recordType]

/-- Four bytes of padding stay in the receive buffer, so the 4096 that follow
find no room: they are gone, and the updater waits for the sync word as before. -/
theorem chunk_lost :
    ∃ s log, run (receive sampleFlash sampleConfig 2)
        (OnDeviceOpened sampleConfig (.init 0 blankChip)).1
        [paddingFile 4, List.replicate 4096 0xff] = .ok (s, log) ∧
      ¬ inHeader s ∧ s.m_state ≠ .FAILED ∧
      ¬ Accounted sampleConfig [paddingFile 4, List.replicate 4096 0xff].flatten s log := by
  obtain ⟨⟨s, es⟩, hs, hP⟩ := exists_of_returns
    (P := fun r : FPGAFirmwareUpdater (UInt32 → UInt8) × List Action =>
      decide (r.1.m_state = .SYNC_WAIT ∧ r.1.m_rxBuffer.items.length = 4 ∧
        r.1.m_writeBuffer.items = [] ∧ written r.2 = []))
    (r := receive sampleFlash sampleConfig 2
      (OnDeviceOpened sampleConfig (.init 0 blankChip)).1 (paddingFile 4)) (by decide +kernel)
  obtain ⟨hst, hrx, hwb, hwritten⟩ : s.m_state = .SYNC_WAIT ∧ s.m_rxBuffer.items.length = 4 ∧
      s.m_writeBuffer.items = [] ∧ written es = [] := of_decide_eq_true hP
  have hfull : s.m_rxBuffer.push (List.replicate 4096 0xff) = none := by
    rw [BoundedQueue.push_eq_none_iff, hrx, List.length_replicate]
    decide
  have hlost : receive sampleFlash sampleConfig 2 s (List.replicate 4096 0xff) =
      .ok (s, [.pushFailed]) := by
    rw [receive, OnRxData, hfull]
  refine ⟨s, _, run_cons_of_ok hs (run_cons_of_ok hlost rfl), ?_, by rw [hst]; decide, ?_⟩
  · rintro (h | h) <;> cases hst.symm.trans h
  · rintro ⟨rest, flashed, hafter, hplace, -, hrest, -⟩
    have hflashed : flashed = [] := by
      cases flashed with
      | nil => rfl
      | cons b bs => simp [place, hwritten] at hplace
    rw [List.flatten_cons, List.flatten_cons, afterHeader_paddingFile] at hafter
    cases hafter
    have hlen := congrArg List.length (hrest (by rw [hst]; decide))
    rw [hflashed, hwb, List.nil_append, List.nil_append, hrx] at hlen
    simp only [List.length_append, List.length_replicate] at hlen
    omega

end EmbeddedPlatform.Fpga
