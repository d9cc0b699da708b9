import EmbeddedPlatform.Fpga.Termination

/-! # Writes and the partition

Nothing in the updater compares its write pointer with the end of the
partition. Writes stay inside it as long as what the bit file has for the flash
fits. -/
namespace EmbeddedPlatform.Fpga

open Lib FPGAFirmwareUpdater

variable {φ : Type} {F : SpiFlash φ} {c : UpdaterConfig} {fuel : Nat}
  {s t : FPGAFirmwareUpdater φ} {es : List Action} {more : Bool}

/-- The address belongs to the partition that is erased. -/
def Inside (c : UpdaterConfig) (addr : UInt32) : Prop :=
  c.m_imageOffset.toNat ≤ addr.toNat ∧
    addr.toNat < c.m_imageOffset.toNat + c.m_imageSize.toNat

/-- Every byte written goes to the partition. -/
def Contained (c : UpdaterConfig) (log : List Action) : Prop := ∀ w ∈ written log, Inside c w.1

/-- The bytes from the start of the partition to its end, or to that of the
address space. -/
def room (c : UpdaterConfig) : Nat := min c.m_imageSize.toNat (2 ^ 32 - c.m_imageOffset.toNat)

/-- How far the bytes written and waiting reach into the partition. -/
def used (c : UpdaterConfig) (s : FPGAFirmwareUpdater φ) : Nat :=
  (s.m_wptr - c.m_imageOffset).toNat + s.m_writeBuffer.items.length

/-- How many bytes of `buf` are for the flash when reading goes on from `s`. -/
def imageBytes (c : UpdaterConfig) (s : FPGAFirmwareUpdater φ) (buf : List UInt8) : Nat :=
  ((bitFile c.m_deviceName true).settle (phase s) buf).out.length

/-- What the received data adds to the image still fits into the partition. -/
def FitsPartition (c : UpdaterConfig) (s : FPGAFirmwareUpdater φ) : Op → Prop
  | .OnRxData data => s.m_rxBuffer.items.length + data.length ≤ BIT_RX_BUFFER_SIZE →
      used c s + imageBytes c s (s.m_rxBuffer.items ++ data) ≤ room c
  | .OnDeviceOpened | .OnDeviceClosed => True

/-! ## Writes -/

theorem contained_append {l m : List Action} :
    Contained c (l ++ m) ↔ Contained c l ∧ Contained c m := by
  simp only [Contained, written_append, List.mem_append]
  exact ⟨fun h => ⟨fun w hw => h w (.inl hw), fun w hw => h w (.inr hw)⟩,
    fun h w hw => hw.elim (h.1 w) (h.2 w)⟩

theorem contained_of_no_writes (h : written es = []) : Contained c es := by
  rw [Contained, h]
  exact fun w hw => (nomatch hw)

theorem toNat_sub_eq (a b : UInt32) : (a - b).toNat = (2 ^ 32 - b.toNat + a.toNat) % 2 ^ 32 :=
  UInt32.toNat_sub a b

theorem room_le (c : UpdaterConfig) :
    room c ≤ c.m_imageSize.toNat ∧ room c ≤ 2 ^ 32 - c.m_imageOffset.toNat :=
  ⟨Nat.min_le_left _ _, Nat.min_le_right _ _⟩

theorem place_inside (h : used c s ≤ room c) {n : Nat} :
    ∀ w ∈ place s.m_wptr (s.m_writeBuffer.items.take n), Inside c w.1 := by
  rintro ⟨a, b⟩ hw
  obtain ⟨i, hi, rfl⟩ := mem_place hw
  rw [List.length_take] at hi
  obtain ⟨hsize, hspace⟩ := room_le c
  have hoff := c.m_imageOffset.toNat_lt
  have hwptr := s.m_wptr.toNat_lt
  have hdist := toNat_sub_eq s.m_wptr c.m_imageOffset
  have haddr : (s.m_wptr + .ofNat i).toNat = (s.m_wptr.toNat + i % 2 ^ 32) % 2 ^ 32 := by
    rw [UInt32.toNat_add, UInt32.toNat_ofNat']
  unfold used at h
  unfold Inside
  dsimp only
  rw [haddr]
  omega

theorem contained_write (h : used c s ≤ room c) (n : Nat) (hw : written es = []) :
    Contained c (.WriteData s.m_wptr (s.m_writeBuffer.items.take n) :: es) := by
  rw [Contained, written_cons_WriteData, hw, List.append_nil]
  exact place_inside h

theorem used_afterBlock (h : used c s ≤ room c)
    (hn : F.GetMaxWriteBlockSize.toNat ≤ s.m_writeBuffer.items.length) {f : φ} :
    used c (afterBlock F.GetMaxWriteBlockSize true
      { s with g_fpgaFlash := f, m_writeBuffer := s.m_writeBuffer.pop F.GetMaxWriteBlockSize.toNat }) =
      used c s := by
  obtain ⟨hsize, hspace⟩ := room_le c
  have hoff := c.m_imageOffset.toNat_lt
  have hwptr := s.m_wptr.toNat_lt
  have hdist := toNat_sub_eq s.m_wptr c.m_imageOffset
  have hnext := toNat_sub_eq (s.m_wptr + F.GetMaxWriteBlockSize) c.m_imageOffset
  have hadd := UInt32.toNat_add s.m_wptr F.GetMaxWriteBlockSize
  have himg := c.m_imageSize.toNat_lt
  unfold used at h ⊢
  simp only [afterBlock, if_true, BoundedQueue.items_pop, List.length_drop]
  omega

theorem pushWriteData_contained (h : used c s ≤ room c) :
    used c (PushWriteData F s).1 = used c s ∧ Contained c (PushWriteData F s).2 := by
  have hJ := pushWriteData_rule (F := F) (s := s) (l := [])
    (J := fun t l => used c t = used c s ∧ Contained c l)
    (fun t l ⟨hu, hl⟩ _ _ => ⟨hu, contained_append.mpr ⟨hl, contained_of_no_writes rfl⟩⟩)
    (fun t l ok u es ⟨hu, hl⟩ _ _ hn hv => by
      have hroom : used c t ≤ room c := by rw [hu]; exact h
      obtain ⟨f, ⟨rfl, rfl, rfl⟩ | ⟨rfl, rfl, rfl⟩⟩ := writeVerify_cases hv
      · exact ⟨(used_afterBlock hroom hn).trans hu,
          contained_append.mpr ⟨hl, contained_write hroom _ rfl⟩⟩
      · exact ⟨hu, contained_append.mpr ⟨hl, contained_write hroom _ rfl⟩⟩)
    ⟨rfl, contained_of_no_writes rfl⟩
  simpa using hJ

theorem flushWriteData_contained (h : used c s ≤ room c) :
    used c (FlushWriteData F s).1 ≤ room c ∧ Contained c (FlushWriteData F s).2 := by
  unfold FlushWriteData
  split
  · exact ⟨h, contained_of_no_writes rfl⟩
  · obtain ⟨hu, hl⟩ := pushWriteData_contained (F := F) h
    dsimp only
    rcases hv : writeVerify F (PushWriteData F s).1.m_writeBuffer.items.length (PushWriteData F s).1
      with ⟨ok, t, es⟩
    have hroom : used c (PushWriteData F s).1 ≤ room c := by rw [hu]; exact h
    obtain ⟨f, ⟨rfl, rfl, rfl⟩ | ⟨rfl, rfl, rfl⟩⟩ := writeVerify_cases hv
    · refine ⟨Nat.le_trans ?_ hroom, contained_append.mpr ⟨hl, contained_write hroom _ rfl⟩⟩
      simp [used]
    · exact ⟨hroom, contained_append.mpr ⟨hl, contained_write hroom _ rfl⟩⟩

/-! ## Polls -/

/-- What a poll takes from the buffer for the flash is taken from what there was. -/
theorem process_budget (h : ProcessDataFromBuffer F c fuel s = .ok (more, t, es)) :
    used c t + imageBytes c t t.m_rxBuffer.items ≤ used c s + imageBytes c s s.m_rxBuffer.items ∧
      written es = [] := by
  have hspec : PollSpec F c fuel true s more t es := process_spec (fun _ _ _ _ _ => .inr rfl) h
  rcases hspec.result with ⟨out, hp⟩ | hd
  · have hrest := congrArg (fun r => r.out.length) hp.rest
    have hbound := hp.bound
    simp only [Rest.after_out, List.length_append] at hrest
    refine ⟨?_, hp.writes⟩
    unfold used imageBytes
    rw [hp.wptr, hrest]
    omega
  · refine ⟨?_, hd.writes⟩
    unfold used imageBytes
    rw [hd.wptr, hd.buffer, hd.rest]
    exact Nat.le_add_right _ _

theorem pushWriteData_imageBytes (F : SpiFlash φ) (c : UpdaterConfig) (s : FPGAFirmwareUpdater φ) :
    imageBytes c (PushWriteData F s).1 (PushWriteData F s).1.m_rxBuffer.items ≤
      imageBytes c s s.m_rxBuffer.items := by
  obtain ⟨hrx, hbig, hst | hst⟩ := pushWriteData_frame F s
  · have hphase : phase (PushWriteData F s).1 = phase s := by simp [phase, hst, hbig]
    exact Nat.le_of_eq (by rw [imageBytes, imageBytes, hphase, hrx])
  · simp [imageBytes, phase, hst]

/-- A poll that starts with the image fitting into the partition ends so, and
its writes go there. -/
theorem pollOnce_budget (h : pollOnce F c fuel s = .ok (more, t, es))
    (hroom : used c s + imageBytes c s s.m_rxBuffer.items ≤ room c) :
    used c t + imageBytes c t t.m_rxBuffer.items ≤ room c ∧ Contained c es := by
  obtain ⟨u, fs, hu, rfl, rfl⟩ := pollOnce_ok h
  obtain ⟨hbudget, hw⟩ := process_budget hu
  obtain ⟨hused, hcont⟩ := pushWriteData_contained (F := F) (s := u) (c := c) (by omega)
  have himage := pushWriteData_imageBytes F c u
  exact ⟨by omega, contained_append.mpr ⟨contained_of_no_writes hw, hcont⟩⟩

theorem onRxData_contained {data : List UInt8} (hs : used c s ≤ room c)
    (hfits : FitsPartition c s (.OnRxData data)) (h : OnRxData F c fuel data s = .ok (t, es)) :
    used c t ≤ room c ∧ Contained c es := by
  unfold OnRxData at h
  split at h
  · cases h
    exact ⟨hs, contained_of_no_writes rfl⟩
  · rename_i q hq
    have hitems := BoundedQueue.items_of_push hq
    have hlen := q.items_le
    rw [hitems, List.length_append] at hlen
    have hstart : used c { s with m_rxBuffer := q } +
        imageBytes c { s with m_rxBuffer := q } q.items ≤ room c := by
      rw [hitems]
      exact hfits hlen
    have hJ := @rounds_rule _ _ _ (pollOnce F c fuel) .polling (fun _ => True)
      (fun s log => used c s + imageBytes c s s.m_rxBuffer.items ≤ room c ∧ Contained c log)
      (fun s log => used c s + imageBytes c s s.m_rxBuffer.items ≤ room c ∧ Contained c log)
      (fun s log t es hJ _ hb => by
        obtain ⟨hroom, hcont⟩ := pollOnce_budget hb hJ.1
        exact ⟨hroom, contained_append.mpr ⟨hJ.2, hcont⟩⟩)
      (fun s log t es hJ _ hb => by
        obtain ⟨hroom, hcont⟩ := pollOnce_budget hb hJ.1
        exact ⟨hroom, contained_append.mpr ⟨hJ.2, hcont⟩⟩)
      _ _ _ [] _ ⟨hstart, contained_of_no_writes rfl⟩ (fun _ _ => trivial) h
    exact ⟨Nat.le_trans (Nat.le_add_right _ _) hJ.1, by simpa using hJ.2⟩

/-! ## Runs -/

theorem step_contained {op : Op} (hs : used c s ≤ room c) (hfits : FitsPartition c s op)
    (h : step F c fuel s op = .ok (t, es)) : used c t ≤ room c ∧ Contained c es := by
  cases op with
  | OnDeviceOpened =>
    cases h
    exact ⟨by simp [used], contained_of_no_writes rfl⟩
  | OnRxData data => exact onRxData_contained hs hfits h
  | OnDeviceClosed =>
    obtain ⟨rfl, rfl⟩ := ok_eq h
    exact flushWriteData_contained hs

/-- **Containment.** From `OnDeviceOpened` on, in every run in which each chunk
adds no more to the image than fits into the partition, every byte written goes
to the partition. -/
theorem writes_contained (F : SpiFlash φ) (c : UpdaterConfig) (fuel : Nat)
    (s₀ s : FPGAFirmwareUpdater φ) (ops : List Op) (log : List Action)
    (hfits : AllSteps (step F c fuel) (FitsPartition c) (OnDeviceOpened c s₀).1 ops)
    (hr : run (step F c fuel) s₀ (.OnDeviceOpened :: ops) = .ok (s, log)) :
    ∀ addr b, (addr, b) ∈ written log → Inside c addr := by
  obtain ⟨t, es, fs, ht, hu, rfl⟩ := run_cons_ok hr
  cases ht
  have hJ := run_rule (C := FitsPartition c) (l := []) (b := [])
    (J := fun s log _ => used c s ≤ room c ∧ Contained c log)
    (fun s log as op t es hJ hC hs => by
      obtain ⟨hroom, hcont⟩ := step_contained hJ.1 hC hs
      exact ⟨hroom, contained_append.mpr ⟨hJ.2, hcont⟩⟩)
    ⟨by simp [used, OnDeviceOpened], contained_of_no_writes rfl⟩ hfits hu
  intro addr b hw
  exact hJ.2 (addr, b) (by simpa using hw)

/-- Data that is short enough fits, whatever it says. -/
theorem fitsPartition_of_length {data : List UInt8}
    (h : used c s + s.m_rxBuffer.items.length + data.length ≤ room c) :
    FitsPartition c s (.OnRxData data) := by
  intro _
  have hle := @settle_out_le c.m_deviceName true (phase s) (s.m_rxBuffer.items ++ data)
  rw [List.length_append] at hle
  unfold imageBytes
  omega

/-- A bit file whose image is padding, up to the last four bytes. -/
def paddingFile (n : Nat) : List UInt8 :=
  magic ++ [charE, 0, 0, 0, 0] ++ List.replicate n 0xff

theorem writes_contained_short :
    ∃ s log, run (step sampleFlash sampleConfig 2) (.init 0 blankChip)
        [.OnDeviceOpened, .OnRxData (paddingFile 40), .OnDeviceClosed] = .ok (s, log) ∧
      ∀ addr b, (addr, b) ∈ written log → Inside sampleConfig addr := by
  obtain ⟨s, log, hr⟩ := run_total (J := fun _ => True)
    (fun s op _ => by
      obtain ⟨t, es, ht⟩ := step_total sampleFlash sampleConfig_ends s op
      exact ⟨t, es, ht, trivial⟩)
    (s := FPGAFirmwareUpdater.init 0 blankChip) trivial
    [Op.OnDeviceOpened, Op.OnRxData (paddingFile 40), Op.OnDeviceClosed]
  have hfits : AllSteps (step sampleFlash sampleConfig 2) (FitsPartition sampleConfig)
      (OnDeviceOpened sampleConfig (.init 0 blankChip)).1
      [.OnRxData (paddingFile 40), .OnDeviceClosed] :=
    ⟨fitsPartition_of_length (by decide +kernel), fun _ _ _ => ⟨trivial, fun _ _ _ => trivial⟩⟩
  exact ⟨s, log, hr, writes_contained sampleFlash sampleConfig 2 _ s _ log hfits hr⟩

/-- An image longer than the partition: what is left when the device is closed
is written behind the partition. -/
theorem writes_past_end :
    ∃ s log, run (step sampleFlash sampleConfig 2) (.init 0 blankChip)
        [.OnDeviceOpened, .OnRxData (paddingFile 72), .OnDeviceClosed] = .ok (s, log) ∧
      ((64 : UInt32), (0xff : UInt8)) ∈ written log ∧ ¬ Inside sampleConfig 64 := by
  obtain ⟨⟨s, log⟩, hs, hP⟩ := exists_of_returns
    (P := fun r : FPGAFirmwareUpdater (UInt32 → UInt8) × List Action =>
      decide (((64 : UInt32), (0xff : UInt8)) ∈ written r.2))
    (r := run (step sampleFlash sampleConfig 2) (.init 0 blankChip)
      [.OnDeviceOpened, .OnRxData (paddingFile 72), .OnDeviceClosed]) (by decide +kernel)
  exact ⟨s, log, hs, of_decide_eq_true hP, by unfold Inside; decide⟩

end EmbeddedPlatform.Fpga
