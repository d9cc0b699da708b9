import EmbeddedPlatform.Fpga.Delivery
import EmbeddedPlatform.Fpga.Termination

/-! # What must have been received before the flash is touched

The erase is triggered by the record that starts the image, the device check is
in the branch of another record. Between them stands the parse: until the image
starts, the updater has taken in the magic number and whole records, each of
which passed, and nothing waits to be written. No record is missed if it never
comes: a file without a device record is taken. -/
namespace EmbeddedPlatform.Fpga

open Lib FPGAFirmwareUpdater

variable {φ : Type} {F : SpiFlash φ} {c : UpdaterConfig} {fuel : Nat}
  {s t : FPGAFirmwareUpdater φ} {es : List Action} {more : Bool}

/-! ## The header -/

/-- The records in front of the one that starts the image. -/
def headerRecords (buf : List UInt8) : Option (List (List UInt8)) :=
  if buf.length < 3 then none
  else if recordType buf = charE then some []
  else if buf.length < 3 + recordLen buf then none
  else
    (headerRecords (buf.drop (3 + recordLen buf))).map fun recs =>
      buf.take (3 + recordLen buf) :: recs
termination_by buf.length
decreasing_by rw [List.length_drop]; omega

/-- A whole record that does not start the image. -/
structure IsRecord (r : List UInt8) : Prop where
  length : r.length = 3 + recordLen r
  type : recordType r ≠ charE

/-- The stream begins with the magic number, and none of the records in front
of the image names another device. -/
structure HeaderAccepted (m_deviceName stream : List UInt8) : Prop where
  magic : stream.take 13 = Fpga.magic
  records : ∃ recs, headerRecords (stream.drop 13) = some recs ∧
    ∀ r ∈ recs, recordType r = charB → recordText r = m_deviceName

/-- One of the records in front of the image names the device. -/
def NamesDevice (m_deviceName stream : List UInt8) : Prop :=
  ∃ recs, headerRecords (stream.drop 13) = some recs ∧
    ∃ r ∈ recs, recordType r = charB ∧ recordText r = m_deviceName

/-- A record that is there as a whole says the same when it is cut out. -/
theorem take_record {buf : List UInt8} (hwhole : 3 + recordLen buf ≤ buf.length) :
    recordType (buf.take (3 + recordLen buf)) = recordType buf ∧
      recordLen (buf.take (3 + recordLen buf)) = recordLen buf ∧
      recordText (buf.take (3 + recordLen buf)) = recordText buf := by
  have hlen : (buf.take (3 + recordLen buf)).length = 3 + recordLen buf :=
    List.length_take_of_le hwhole
  have h3 : 3 ≤ (buf.take (3 + recordLen buf)).length := by omega
  have htype := @recordType_append _ (buf.drop (3 + recordLen buf)) h3
  have hsize := @recordLen_append _ (buf.drop (3 + recordLen buf)) h3
  rw [List.take_append_drop] at htype hsize
  have htext := @recordText_append _ (buf.drop (3 + recordLen buf))
    (Nat.le_of_eq (by rw [← hsize, hlen]) : 3 + recordLen (buf.take (3 + recordLen buf)) ≤ _)
  rw [List.take_append_drop] at htext
  exact ⟨htype.symm, hsize.symm, htext.symm⟩

theorem isRecord_take {buf : List UInt8} (hwhole : 3 + recordLen buf ≤ buf.length)
    (htype : recordType buf ≠ charE) : IsRecord (buf.take (3 + recordLen buf)) := by
  obtain ⟨ht, hl, -⟩ := take_record hwhole
  exact ⟨by rw [hl]; exact List.length_take_of_le hwhole, by rw [ht]; exact htype⟩

theorem headerRecords_image {buf : List UInt8} (hlen : 3 ≤ buf.length)
    (htype : recordType buf = charE) : headerRecords buf = some [] := by
  rw [headerRecords, if_neg (Nat.not_lt.mpr hlen), if_pos htype]

theorem headerRecords_cons {r : List UInt8} (hr : IsRecord r) (rest : List UInt8) :
    headerRecords (r ++ rest) = (headerRecords rest).map (r :: ·) := by
  have hlen := hr.length
  have h3 : 3 ≤ r.length := hlen ▸ Nat.le_add_right 3 _
  have htype := @recordType_append r rest h3
  have hsize := @recordLen_append r rest h3
  rw [headerRecords, htype, hsize, if_neg hr.type, ← hlen, List.drop_left, List.take_left,
    if_neg (by rw [List.length_append]; omega), if_neg (by rw [List.length_append]; omega)]

theorem headerRecords_flatten {recs : List (List UInt8)} (hrecs : ∀ r ∈ recs, IsRecord r)
    {rest : List UInt8} (hlen : 3 ≤ rest.length) (htype : recordType rest = charE) :
    headerRecords (recs.flatten ++ rest) = some recs := by
  induction recs with
  | nil => exact headerRecords_image hlen htype
  | cons r recs ih =>
    obtain ⟨hr, hrecs⟩ := List.forall_mem_cons.mp hrecs
    rw [List.flatten_cons, List.append_assoc, headerRecords_cons hr, ih hrecs]
    rfl

theorem headerRecords_append {buf : List UInt8} {recs : List (List UInt8)}
    (h : headerRecords buf = some recs) (more : List UInt8) :
    headerRecords (buf ++ more) = some recs := by
  fun_induction headerRecords buf generalizing recs with
  | case1 buf hlen => cases h
  | case2 buf hlen htype =>
    cases h
    have hlonger : 3 ≤ (buf ++ more).length := by rw [List.length_append]; omega
    exact headerRecords_image hlonger (by rw [recordType_append (by omega), htype])
  | case3 buf hlen htype hshort => cases h
  | case4 buf hlen htype hshort ih =>
    obtain ⟨tail, htail, rfl⟩ := Option.map_eq_some_iff.mp h
    have hwhole : 3 + recordLen buf ≤ buf.length := Nat.le_of_not_lt hshort
    have hr := isRecord_take hwhole htype
    have hsplit : buf ++ more =
        buf.take (3 + recordLen buf) ++ (buf.drop (3 + recordLen buf) ++ more) := by
      rw [← List.append_assoc, List.take_append_drop]
    rw [hsplit, headerRecords_cons hr, ih htail]
    rfl

theorem HeaderAccepted.append {name stream : List UInt8} (h : HeaderAccepted name stream)
    (data : List UInt8) : HeaderAccepted name (stream ++ data) := by
  have hlen : 13 ≤ stream.length := by
    have := congrArg List.length h.magic
    rw [List.length_take] at this
    have hmagic : Fpga.magic.length = 13 := rfl
    omega
  obtain ⟨recs, hrecs, hnames⟩ := h.records
  refine ⟨?_, recs, ?_, hnames⟩
  · rw [List.take_append_of_le_length hlen]
    exact h.magic
  · rw [List.drop_append_of_le_length hlen]
    exact headerRecords_append hrecs data

/-! ## The invariant -/

/-- The action changes the flash. -/
def Touches : Action → Prop
  | .EraseSector _ => True
  | .WriteData _ data => data ≠ []
  | _ => False

/-- The stream is the magic number, whole records that passed, and `rest`. -/
def PassedRecords (m_deviceName stream rest : List UInt8) : Prop :=
  ∃ recs : List (List UInt8), stream = magic ++ (recs.flatten ++ rest) ∧
    (∀ r ∈ recs, IsRecord r) ∧ ∀ r ∈ recs, recordType r = charB → recordText r = m_deviceName

/-- How far the header in `stream` has been checked. -/
def Checked (c : UpdaterConfig) (stream : List UInt8) (s : FPGAFirmwareUpdater φ) : Prop :=
  match s.m_state with
  | .READ_BITHDR => stream = s.m_rxBuffer.items ∧ s.m_writeBuffer.items = []
  | .READ_BITHDR_RECORDS =>
    PassedRecords c.m_deviceName stream s.m_rxBuffer.items ∧ s.m_writeBuffer.items = []
  -- nothing happens any more
  | .FAILED => True
  | _ => HeaderAccepted c.m_deviceName stream

variable {stream : List UInt8}

theorem Checked.of_accepted (h : HeaderAccepted c.m_deviceName stream) (ht : ¬ inHeader t) :
    Checked c stream t := by
  unfold Checked
  split
  · rename_i hs; exact absurd (.inl hs) ht
  · rename_i hs; exact absurd (.inr hs) ht
  · trivial
  · exact h

theorem Checked.accepted (h : Checked c stream s) (hs : ¬ inHeader s) (hfail : s.m_state ≠ .FAILED) :
    HeaderAccepted c.m_deviceName stream := by
  unfold Checked at h
  split at h
  · rename_i hst; exact absurd (.inl hst) hs
  · rename_i hst; exact absurd (.inr hst) hs
  · rename_i hst; exact absurd hst hfail
  · exact h

theorem Checked.records (h : Checked c stream s) (hs : s.m_state = .READ_BITHDR_RECORDS) :
    PassedRecords c.m_deviceName stream s.m_rxBuffer.items ∧ s.m_writeBuffer.items = [] := by
  unfold Checked at h
  rwa [hs] at h

theorem Checked.of_records (hs : t.m_state = .READ_BITHDR_RECORDS)
    (h : PassedRecords c.m_deviceName stream t.m_rxBuffer.items) (hwb : t.m_writeBuffer.items = []) :
    Checked c stream t := by
  unfold Checked
  rw [hs]
  exact ⟨h, hwb⟩

theorem Checked.empty (h : Checked c stream s) (hs : inHeader s) : s.m_writeBuffer.items = [] := by
  unfold Checked at h
  rcases hs with hst | hst
  · rw [hst] at h; exact h.2
  · rw [hst] at h; exact h.2

/-- The buffers and the state are all the invariant speaks of. -/
theorem Checked.transfer (h : Checked c stream s) (hst : t.m_state = s.m_state)
    (hrx : t.m_rxBuffer = s.m_rxBuffer)
    (hwb : inHeader s → t.m_writeBuffer.items = s.m_writeBuffer.items) : Checked c stream t := by
  by_cases hs : inHeader s
  · unfold Checked
    rw [hst, hrx, hwb hs]
    exact h
  · unfold Checked at h ⊢
    rw [hst]
    rcases hst' : s.m_state <;> rw [hst'] at h
    · exact absurd (.inl hst') hs
    · exact absurd (.inr hst') hs
    all_goals exact h

/-! ## Polls -/

/-- What an operation may do, given the stream it has seen. -/
def Allowed (c : UpdaterConfig) (stream : List UInt8) (es : List Action) : Prop :=
  ∀ a ∈ es, Touches a → HeaderAccepted c.m_deviceName stream

theorem Allowed.of_accepted (h : HeaderAccepted c.m_deviceName stream) (es : List Action) :
    Allowed c stream es := fun _ _ _ => h

theorem Allowed.append {fs : List Action} (h : Allowed c stream es) (h' : Allowed c stream fs) :
    Allowed c stream (es ++ fs) := by
  intro a ha
  rcases List.mem_append.mp ha with ha | ha
  · exact h a ha
  · exact h' a ha

theorem Allowed.setState (st : State) : Allowed c stream [.setState st] := by
  intro a ha htouch
  rw [List.mem_singleton.mp ha] at htouch
  exact htouch.elim

theorem Allowed.nil : Allowed c stream [] := fun _ ha => (nomatch ha)

theorem process_past_header (hs : ¬ inHeader s)
    (h : ProcessDataFromBuffer F c fuel s = .ok (more, t, es)) : ¬ inHeader t := by
  have hspec : PollSpec F c fuel true s more t es := process_spec (fun _ _ _ _ _ => .inr rfl) h
  intro ht
  rcases hspec.result with ⟨out, hp⟩ | hd
  · exact hs (hp.flash ht).1
  · rcases hd.cause with hfin | hfin | hshort | ⟨hfail, -⟩
    · rw [process_finished (.inl hfin)] at h
      cases h
      exact hs ht
    · rw [process_finished (.inr hfin)] at h
      cases h
      exact hs ht
    · exact hs (.inr hshort.1)
    · exact not_inHeader_of_failed hfail ht

theorem readBitHeader_checked (hs : s.m_state = .READ_BITHDR) (h : Checked c stream s)
    (hp : readBitHeader s = (more, t, es)) : Checked c stream t ∧ Allowed c stream es := by
  have hstream : stream = s.m_rxBuffer.items ∧ s.m_writeBuffer.items = [] := by
    unfold Checked at h
    rwa [hs] at h
  unfold readBitHeader at hp
  split at hp
  · split at hp
    · cases hp
      exact ⟨trivial, .setState _⟩
    · rename_i hm
      cases hp
      refine ⟨⟨⟨[], ?_, fun r hr => (nomatch hr), fun r hr => (nomatch hr)⟩, hstream.2⟩, .setState _⟩
      show stream = magic ++ s.m_rxBuffer.items.drop 13
      rw [← Decidable.not_not.mp hm, List.take_append_drop]
      exact hstream.1
  · cases hp
    exact ⟨h, .nil⟩

/-- The header is accepted when the image starts. -/
theorem Checked.image_starts (h : Checked c stream s) (hs : s.m_state = .READ_BITHDR_RECORDS)
    (hlen : 3 ≤ s.m_rxBuffer.items.length) (htype : recordType s.m_rxBuffer.items = charE) :
    HeaderAccepted c.m_deviceName stream := by
  obtain ⟨⟨recs, rfl, hrecs, hnames⟩, -⟩ := h.records hs
  refine ⟨rfl, recs, ?_, hnames⟩
  show headerRecords (recs.flatten ++ s.m_rxBuffer.items) = some recs
  exact headerRecords_flatten hrecs hlen htype

theorem readBitHeaderRecords_checked (hs : s.m_state = .READ_BITHDR_RECORDS)
    (h : Checked c stream s) (hp : readBitHeaderRecords F c fuel s = .ok (more, t, es)) :
    Checked c stream t ∧ Allowed c stream es := by
  unfold readBitHeaderRecords at hp
  dsimp only at hp
  split at hp
  · rename_i hlen
    split at hp
    · rename_i htype
      have hok := h.image_starts hs hlen htype
      split at hp
      · cases hp
      · rename_i u fs he
        cases hp
        refine ⟨.of_accepted hok ?_, .of_accepted hok _⟩
        obtain ⟨ok, f, gs, -, ⟨-, rfl, -⟩ | ⟨-, rfl, -⟩⟩ := eraseFlashPartition_ok he
        · exact fun ht => ht.elim (fun h => (nomatch h)) (fun h => (nomatch h))
        · exact fun ht => ht.elim (fun h => (nomatch h)) (fun h => (nomatch h))
    · rename_i htype
      split at hp
      · rename_i hwhole
        split at hp
        · cases hp
          exact ⟨trivial, .setState _⟩
        · rename_i hdevice
          cases hp
          refine ⟨?_, .nil⟩
          obtain ⟨⟨recs, hstream, hrecs, hnames⟩, hwb⟩ := h.records hs
          obtain ⟨htake, -, htext⟩ := take_record hwhole
          refine .of_records hs ⟨recs ++ [s.m_rxBuffer.items.take (3 + recordLen s.m_rxBuffer.items)],
            ?_, ?_, ?_⟩ hwb
          · rw [hstream]
            show _ = magic ++ (_ ++ s.m_rxBuffer.items.drop (3 + recordLen s.m_rxBuffer.items))
            rw [List.flatten_append, List.flatten_singleton, List.append_assoc,
              List.take_append_drop]
          · exact List.forall_mem_append.mpr ⟨hrecs, by simpa using isRecord_take hwhole htype⟩
          · refine List.forall_mem_append.mpr ⟨hnames, ?_⟩
            intro r hr htypeB
            rw [List.mem_singleton.mp hr, htake] at htypeB
            rw [List.mem_singleton.mp hr, htext]
            by_contra hne
            exact hdevice ⟨htypeB, hne⟩
      · cases hp
        exact ⟨h, .nil⟩
  · cases hp
    exact ⟨h, .nil⟩

theorem process_checked (h : Checked c stream s)
    (hp : ProcessDataFromBuffer F c fuel s = .ok (more, t, es)) :
    Checked c stream t ∧ Allowed c stream es := by
  by_cases hs : inHeader s
  · unfold ProcessDataFromBuffer at hp
    rcases hs with hst | hst
    · rw [hst] at hp
      exact readBitHeader_checked hst h (Except.ok.inj hp)
    · rw [hst] at hp
      exact readBitHeaderRecords_checked hst h hp
  · by_cases hfail : s.m_state = .FAILED
    · rw [process_finished (.inr hfail)] at hp
      cases hp
      exact ⟨by unfold Checked; simp only [hfail], .nil⟩
    · have hok := h.accepted hs hfail
      exact ⟨.of_accepted hok (process_past_header hs hp), .of_accepted hok es⟩

/-- A poll that does not end is the blank check behind an erase. -/
theorem process_error {e : Hang} (h : Checked c stream s)
    (hp : ProcessDataFromBuffer F c fuel s = .error e) : HeaderAccepted c.m_deviceName stream := by
  unfold ProcessDataFromBuffer at hp
  rcases hst : s.m_state <;> rw [hst] at hp
  case READ_BITHDR_RECORDS =>
    unfold readBitHeaderRecords at hp
    dsimp only at hp
    split at hp
    · rename_i hlen
      split at hp
      · rename_i htype
        exact h.image_starts hst hlen htype
      · split at hp
        · split at hp <;> cases hp
        · cases hp
    · cases hp
  all_goals cases hp

/-! ## Writing -/

theorem pushWriteData_checked (h : Checked c stream s) :
    Checked c stream (PushWriteData F s).1 ∧ Allowed c stream (PushWriteData F s).2 := by
  obtain ⟨-, -, hst⟩ := pushWriteData_frame F s
  by_cases hs : inHeader s
  · -- nothing waits
    have hempty : s.m_writeBuffer.items.length = 0 := by rw [h.empty hs]; rfl
    by_cases hw : F.GetMaxWriteBlockSize.toNat ≤ 512
    · rw [pushWriteData_short hw (by rw [hempty]; exact F.writeBlock_pos)]
      exact ⟨h, .nil⟩
    · unfold PushWriteData
      split
      · exact ⟨h, .nil⟩
      · rw [if_pos (Nat.lt_of_not_le hw)]
        exact ⟨trivial, .setState _⟩
  · by_cases hfail : s.m_state = .FAILED
    · rw [pushWriteData_failed hfail]
      exact ⟨h, .nil⟩
    · have hok := h.accepted hs hfail
      refine ⟨.of_accepted hok fun ht => ?_, .of_accepted hok _⟩
      rcases hst with hst | hst
      · rw [inHeader, hst] at ht
        exact hs ht
      · exact not_inHeader_of_failed hst ht

theorem pushWriteData_empty (h : s.m_writeBuffer.items = []) :
    (PushWriteData F s).1.m_writeBuffer.items = [] := by
  unfold PushWriteData
  split
  · exact h
  · split
    · exact h
    · rw [h]
      exact h

theorem flushWriteData_checked (h : Checked c stream s) :
    Checked c stream (FlushWriteData F s).1 ∧ Allowed c stream (FlushWriteData F s).2 := by
  unfold FlushWriteData
  split
  · exact ⟨h, .nil⟩
  · rename_i hfail
    obtain ⟨hpush, hlog⟩ := pushWriteData_checked (F := F) h
    obtain ⟨-, -, hst⟩ := pushWriteData_frame F s
    have hempty := fun hs => pushWriteData_empty (F := F) (h.empty hs)
    generalize PushWriteData F s = r at hpush hlog hst hempty ⊢
    obtain ⟨u, fs⟩ := r
    dsimp only at hpush hlog hst hempty ⊢
    rcases hv : writeVerify F u.m_writeBuffer.items.length u with ⟨ok, v, gs⟩
    by_cases hs : inHeader s
    · -- a write of no bytes
      replace hempty := hempty hs
      have hnone : u.m_writeBuffer.items.take u.m_writeBuffer.items.length = [] := by
        rw [hempty]
        rfl
      obtain ⟨f, ⟨-, rfl, rfl⟩ | ⟨-, rfl, rfl⟩⟩ := writeVerify_cases hv
      · refine ⟨hpush.transfer rfl rfl fun _ => by simp [hempty], hlog.append ?_⟩
        intro a ha htouch
        rw [List.mem_singleton.mp ha] at htouch
        exact absurd hnone htouch
      · refine ⟨trivial, hlog.append ?_⟩
        intro a ha htouch
        rcases List.mem_cons.mp ha with rfl | ha
        · exact absurd hnone htouch
        · rw [List.mem_singleton.mp ha] at htouch
          exact htouch.elim
    · have hok := h.accepted hs hfail
      refine ⟨.of_accepted hok ?_, .of_accepted hok _⟩
      have hu : ¬ inHeader u := by
        intro hin
        rcases hst with hst | hst
        · rw [inHeader, hst] at hin
          exact hs hin
        · exact not_inHeader_of_failed hst hin
      obtain ⟨f, ⟨-, rfl, -⟩ | ⟨-, rfl, -⟩⟩ := writeVerify_cases hv
      · exact hu
      · exact not_inHeader_of_failed rfl

/-! ## Calls -/

theorem pollOnce_checked (h : Checked c stream s) (hp : pollOnce F c fuel s = .ok (more, t, es)) :
    Checked c stream t ∧ Allowed c stream es := by
  obtain ⟨u, fs, hu, rfl, rfl⟩ := pollOnce_ok hp
  obtain ⟨hprocess, hlog⟩ := process_checked h hu
  obtain ⟨hpush, hlog'⟩ := pushWriteData_checked (F := F) hprocess
  exact ⟨hpush, hlog.append hlog'⟩

theorem pollOnce_error {e : Hang} (h : Checked c stream s) (hp : pollOnce F c fuel s = .error e) :
    HeaderAccepted c.m_deviceName stream := by
  unfold pollOnce at hp
  rcases hproc : ProcessDataFromBuffer F c fuel s with e' | ⟨more, u, fs⟩
  · exact process_error h hproc
  · rw [hproc] at hp
    cases hp

/-- A chunk that fits into the receive buffer belongs to the stream. -/
theorem Checked.receive (h : Checked c stream s) {data : List UInt8} {q : CircularFIFO}
    (hq : s.m_rxBuffer.push data = some q) :
    Checked c (stream ++ data) { s with m_rxBuffer := q } := by
  have hitems := BoundedQueue.items_of_push hq
  by_cases hs : inHeader s
  · rcases hs with hst | hst
    · unfold Checked at h ⊢
      rw [hst] at h
      simp only [hst]
      exact ⟨by rw [h.1, hitems], h.2⟩
    · obtain ⟨⟨recs, hstream, hrecs⟩, hwb⟩ := h.records hst
      refine .of_records hst ⟨recs, ?_, hrecs⟩ hwb
      show _ = magic ++ (recs.flatten ++ q.items)
      rw [hstream, hitems, List.append_assoc, List.append_assoc]
  · by_cases hfail : s.m_state = .FAILED
    · unfold Checked
      simp only [hfail]
    · exact .of_accepted ((h.accepted hs hfail).append data) hs

/-- The stream a session has received: the chunks for which the receive buffer
had room. -/
def received (s : FPGAFirmwareUpdater φ) (stream : List UInt8) : Op → List UInt8
  | .OnDeviceOpened => []
  | .OnRxData data => if (s.m_rxBuffer.push data).isSome then stream ++ data else stream
  | .OnDeviceClosed => stream

theorem received_of_push {data : List UInt8} {q : CircularFIFO} (hq : s.m_rxBuffer.push data = some q) :
    received s stream (.OnRxData data) = stream ++ data := by simp [received, hq]

theorem received_of_full {data : List UInt8} (hq : s.m_rxBuffer.push data = none) :
    received s stream (.OnRxData data) = stream := by simp [received, hq]

theorem step_checked {op : Op} (h : Checked c stream s) (hp : step F c fuel s op = .ok (t, es)) :
    Checked c (received s stream op) t ∧ Allowed c (received s stream op) es := by
  cases op with
  | OnDeviceOpened =>
    cases hp
    refine ⟨⟨rfl, rfl⟩, ?_⟩
    intro a ha htouch
    rw [List.mem_singleton.mp ha] at htouch
    exact htouch.elim
  | OnDeviceClosed =>
    obtain ⟨rfl, rfl⟩ := ok_eq hp
    exact flushWriteData_checked h
  | OnRxData data =>
    change OnRxData F c fuel data s = _ at hp
    unfold OnRxData at hp
    rcases hq : s.m_rxBuffer.push data with _ | q
    · rw [hq] at hp
      cases hp
      rw [received_of_full hq]
      refine ⟨h, ?_⟩
      intro a ha htouch
      rw [List.mem_singleton.mp ha] at htouch
      exact htouch.elim
    · rw [hq] at hp
      rw [received_of_push hq]
      exact rounds_rule (C := fun _ => True) (l := [])
        (J := fun u log => Checked c (stream ++ data) u ∧ Allowed c (stream ++ data) log)
        (Q := fun u log => Checked c (stream ++ data) u ∧ Allowed c (stream ++ data) log)
        (fun u log v fs hu _ hb =>
          ⟨(pollOnce_checked hu.1 hb).1, hu.2.append (pollOnce_checked hu.1 hb).2⟩)
        (fun u log v fs hu _ hb =>
          ⟨(pollOnce_checked hu.1 hb).1, hu.2.append (pollOnce_checked hu.1 hb).2⟩)
        ⟨h.receive hq, .nil⟩ (fun _ _ => trivial) hp

/-- A call that does not return is in the blank check, and that comes behind
the header. -/
theorem step_error {op : Op} {e : Hang} (h : Checked c stream s)
    (hp : step F c fuel s op = .error e) : HeaderAccepted c.m_deviceName (received s stream op) := by
  cases op with
  | OnDeviceOpened => cases hp
  | OnDeviceClosed => cases hp
  | OnRxData data =>
    change OnRxData F c fuel data s = _ at hp
    unfold OnRxData at hp
    rcases hq : s.m_rxBuffer.push data with _ | q
    · rw [hq] at hp
      cases hp
    · rw [hq] at hp
      rw [received_of_push hq]
      have hfuel : pollMeasure { s with m_rxBuffer := q } < pollFuel q.items.length := by
        unfold pollMeasure pollFuel stateRank
        dsimp only
        split <;> omega
      obtain ⟨u, hu, herr⟩ := rounds_error (J := Checked c (stream ++ data)) (μ := pollMeasure)
        (fun u v fs hu hb => by
          obtain ⟨w, gs, hw, rfl, -⟩ := pollOnce_ok hb
          exact ⟨(pollOnce_checked hu hb).1,
            Nat.lt_of_le_of_lt (pushWriteData_measure F w) (process_shrinks hw)⟩)
        (h.receive hq) hfuel hp
      exact pollOnce_error hu herr

/-! ## Runs -/

/-- A step that logs each action with the stream received up to the end of the
call. -/
def streamStep (F : SpiFlash φ) (c : UpdaterConfig) (fuel : Nat)
    (x : FPGAFirmwareUpdater φ × List UInt8) (op : Op) :
    Except Hang ((FPGAFirmwareUpdater φ × List UInt8) × List (List UInt8 × Action)) :=
  match step F c fuel x.1 op with
  | .error e => .error e
  | .ok (t, es) => .ok ((t, received x.1 x.2 op), es.map fun a => (received x.1 x.2 op, a))

theorem streamStep_checked {x y : FPGAFirmwareUpdater φ × List UInt8} {op : Op}
    {log : List (List UInt8 × Action)} (h : Checked c x.2 x.1)
    (hp : streamStep F c fuel x op = .ok (y, log)) :
    Checked c y.2 y.1 ∧ ∀ p ∈ log, Touches p.2 → HeaderAccepted c.m_deviceName p.1 := by
  unfold streamStep at hp
  rcases hstep : step F c fuel x.1 op with e | ⟨t, es⟩
  · rw [hstep] at hp
    cases hp
  · rw [hstep] at hp
    obtain ⟨rfl, rfl⟩ := ok_eq hp
    obtain ⟨ht, hlog⟩ := step_checked h hstep
    refine ⟨ht, fun p hp htouch => ?_⟩
    obtain ⟨a, ha, rfl⟩ := List.mem_map.mp hp
    exact hlog a ha htouch

theorem init_checked (c : UpdaterConfig) (m_wptr : UInt32) (f : φ) :
    Checked c [] (FPGAFirmwareUpdater.init m_wptr f) := ⟨rfl, rfl⟩

/-- **Device gate.** In every run, a sector is erased or data written only when
the stream received began with the magic number and no record in front of its
image named another device; and so it is in a call that never returns. -/
theorem flash_touched_behind_header (F : SpiFlash φ) (c : UpdaterConfig) (fuel : Nat)
    (m_wptr : UInt32) (f : φ) (ops : List Op) (x : FPGAFirmwareUpdater φ × List UInt8)
    (log : List (List UInt8 × Action))
    (hr : run (streamStep F c fuel) (.init m_wptr f, []) ops = .ok (x, log)) :
    (∀ stream a, (stream, a) ∈ log → Touches a → HeaderAccepted c.m_deviceName stream) ∧
      ∀ op e, step F c fuel x.1 op = .error e →
        HeaderAccepted c.m_deviceName (received x.1 x.2 op) := by
  have hJ := run_rule (C := fun _ _ => True) (l := []) (b := [])
    (J := fun (x : FPGAFirmwareUpdater φ × List UInt8) log _ => Checked c x.2 x.1 ∧
      ∀ p ∈ log, Touches p.2 → HeaderAccepted c.m_deviceName p.1)
    (fun x log _ op y es h _ hs => by
      obtain ⟨hy, hes⟩ := streamStep_checked h.1 hs
      refine ⟨hy, fun p hp => ?_⟩
      rcases List.mem_append.mp hp with hp | hp
      · exact h.2 p hp
      · exact hes p hp)
    ⟨init_checked c m_wptr f, fun _ hp => (nomatch hp)⟩ (allSteps_true _ _) hr
  refine ⟨fun stream a ha htouch => hJ.2 (stream, a) (by simpa using ha) htouch, ?_⟩
  intro op e he
  exact step_error hJ.1 he

/-- `shortFile` with a record that names the device "x". -/
def namedFile : List UInt8 :=
  magic ++ [charB, 0, 2, 0x78, 0] ++ shortFile.drop 13

/-- A session with a file for the device erases the partition. -/
theorem flash_touched_behind_header_named :
    ∃ x log, run (streamStep sampleFlash sampleConfig 2) (.init 0 blankChip, [])
        [.OnDeviceOpened, .OnRxData namedFile] = .ok (x, log) ∧
      (namedFile, .EraseSector 0) ∈ log ∧ HeaderAccepted sampleConfig.m_deviceName namedFile := by
  obtain ⟨⟨x, log⟩, hr, hP⟩ := exists_of_returns
    (P := fun r : (FPGAFirmwareUpdater (UInt32 → UInt8) × List UInt8) × List (List UInt8 × Action) =>
      decide ((namedFile, Action.EraseSector 0) ∈ r.2))
    (r := run (streamStep sampleFlash sampleConfig 2) (.init 0 blankChip, [])
      [.OnDeviceOpened, .OnRxData namedFile]) (by decide +kernel)
  have herase : (namedFile, Action.EraseSector 0) ∈ log := of_decide_eq_true hP
  exact ⟨x, log, hr, herase, (flash_touched_behind_header sampleFlash sampleConfig 2 0 blankChip
    _ x log hr).1 _ _ herase trivial⟩

/-- A file without a device record is programmed as well. -/
theorem unnamed_file_erases :
    ∃ x log, run (streamStep sampleFlash sampleConfig 2) (.init 0 blankChip, [])
        [.OnDeviceOpened, .OnRxData shortFile] = .ok (x, log) ∧
      (shortFile, .EraseSector 0) ∈ log ∧ ¬ NamesDevice sampleConfig.m_deviceName shortFile := by
  obtain ⟨⟨x, log⟩, hr, hP⟩ := exists_of_returns
    (P := fun r : (FPGAFirmwareUpdater (UInt32 → UInt8) × List UInt8) × List (List UInt8 × Action) =>
      decide ((shortFile, Action.EraseSector 0) ∈ r.2))
    (r := run (streamStep sampleFlash sampleConfig 2) (.init 0 blankChip, [])
      [.OnDeviceOpened, .OnRxData shortFile]) (by decide +kernel)
  refine ⟨x, log, hr, of_decide_eq_true hP, fun hnamed => ?_⟩
  obtain ⟨recs, hrecs, r, hmem, -⟩ := hnamed
  rw [headerRecords_image (by decide) (by decide)] at hrecs
  cases hrecs
  cases hmem

end EmbeddedPlatform.Fpga
