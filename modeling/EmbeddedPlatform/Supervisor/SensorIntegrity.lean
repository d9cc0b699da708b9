import Mathlib.Tactic.IntervalCases
import EmbeddedPlatform.Supervisor.SensorPolling

/-! # Readings and their sensors

The readers keep their state across calls while the register to read is passed
to each call. What keeps the readings apart is that the rotation only goes on
when a reader is idle, and that a timeout resets both. -/
namespace EmbeddedPlatform.Supervisor
open EmbeddedPlatform.Lib

/-! ## What the log has to be -/

/-- Where a sensor is on the bus: its address and register. -/
def Sensor.source (b : SensorBuild) : Sensor → Option (UInt8 × UInt8)
  | g_ibcTemp => some (g_tempI2cAddress, 0x00)
  | g_vin48 => some (g_ibcI2cAddress, b.regs.IBC_REG_VIN)
  | g_vout12 => some (g_ibcI2cAddress, b.regs.IBC_REG_VOUT)
  | g_voutsense => some (g_ibcI2cAddress, b.regs.IBC_REG_VSENSE)
  | g_iin => some (g_ibcI2cAddress, b.regs.IBC_REG_IIN)
  | g_iout => some (g_ibcI2cAddress, b.regs.IBC_REG_IOUT)
  | g_ibcMcuTemp => some (g_ibcI2cAddress, b.regs.IBC_REG_MCU_TEMP)
  | g_ibc3v3 => some (g_ibcI2cAddress, b.regs.IBC_REG_3V3_SB)
  | g_mcutemp => none
  | g_3v3Voltage => none

/-- The order of the rotation. -/
def Sensor.order : List Sensor :=
  [g_ibcTemp, g_vin48, g_vout12, g_voutsense, g_iin, g_iout, g_ibcMcuTemp, g_ibc3v3, g_mcutemp,
    g_3v3Voltage]

/-- A read of a register, as the bus sees it. -/
def transaction (source : UInt8 × UInt8) (hi lo : UInt8) : List SensorEvent :=
  [.NonblockingStart 1 source.1 false, .NonblockingWrite source.2,
    .NonblockingStart 2 source.1 true, .GetReadData hi, .GetReadData lo]

/-- The sensors assigned since the last return of true or timeout. -/
def tally (sensors : List Sensor) : SensorEvent → List Sensor
  | .Assign sensor _ => sensors ++ [sensor]
  | .Reset | .ReturnTrue => []
  | _ => sensors

def refreshed (log : List SensorEvent) : List Sensor := replay tally [] log

/-- What an event says about the log before it. -/
def Genuine (b : SensorBuild) (log : List SensorEvent) : SensorEvent → Prop
  | .Assign sensor value => ∀ source, sensor.source b = some source →
    ∃ front hi lo, log = front ++ transaction source hi lo ∧
      value.toNat = 256 * hi.toNat + lo.toNat
  | .ReturnTrue => refreshed log = Sensor.order
  | _ => True

theorem refreshed_append (log es : List SensorEvent) :
    refreshed (log ++ es) = replay tally (refreshed log) es := replay_append ..

/-! ## One reader -/

/-- Calls into the driver only. -/
def SensorEvent.OnBus : SensorEvent → Prop
  | .NonblockingStart .. | .NonblockingWrite _ | .GetReadData _ => True
  | .Reset | .Assign .. | .ReturnTrue => False

namespace Reader

/-- What the bus has seen of the transaction that the reader is in. -/
def underway (source : UInt8 × UInt8) (r : Reader) : List SensorEvent :=
  match r.m_state with
  | .STATE_IDLE => []
  | .STATE_ADDR_START => [.NonblockingStart 1 source.1 false]
  | .STATE_REGID => [.NonblockingStart 1 source.1 false, .NonblockingWrite source.2]
  | .STATE_DATA_LO =>
    [.NonblockingStart 1 source.1 false, .NonblockingWrite source.2,
      .NonblockingStart 2 source.1 true]
  | .STATE_DATA_HI =>
    [.NonblockingStart 1 source.1 false, .NonblockingWrite source.2,
      .NonblockingStart 2 source.1 true, .GetReadData r.m_tmpval]

theorem word_toNat (hi lo : UInt8) :
    (lo.toUInt16 ||| hi.toUInt16 <<< 8).toNat = 256 * hi.toNat + lo.toNat := by
  have hlo : lo.toNat < 2 ^ 8 := lo.toNat_lt
  have hhi : hi.toNat < 2 ^ 8 := hi.toNat_lt
  have hshift : hi.toNat <<< 8 % 2 ^ 16 = hi.toNat <<< 8 := by
    rw [Nat.shiftLeft_eq]
    exact Nat.mod_eq_of_lt (by omega)
  rw [UInt16.toNat_or, UInt16.toNat_shiftLeft, UInt8.toNat_toUInt16, UInt8.toNat_toUInt16]
  show lo.toNat ||| hi.toNat <<< 8 % 2 ^ 16 = _
  rw [hshift, Nat.or_comm, ← Nat.shiftLeft_add_eq_or_of_lt hlo, Nat.shiftLeft_eq, Nat.mul_comm]

/-- A call goes on with the transaction, or ends it with what it has read. -/
inductive Reads (source : UInt8 × UInt8) (r : Reader) :
    Option UInt16 × Reader × List SensorEvent → Prop where
  | waits {r' : Reader} {es : List SensorEvent} : (∀ e ∈ es, e.OnBus) →
    r.underway source ++ es = r'.underway source → Reads source r (none, r', es)
  | ends {x : UInt16} {r' : Reader} {es : List SensorEvent} {hi lo : UInt8} :
    (∀ e ∈ es, e.OnBus) → r'.m_state = .STATE_IDLE →
    r.underway source ++ es = transaction source hi lo →
    x.toNat = 256 * hi.toNat + lo.toNat → Reads source r (some x, r', es)

/-- **Inversion of a call of a reader.** -/
theorem readNonblocking_reads (source : UInt8 × UInt8) (a : SensorAnswers) (r : Reader) :
    r.Reads source (r.ReadNonblocking source.1 source.2 a) := by
  obtain ⟨m_state, m_tmpval⟩ := r
  have hstay : Reads source ⟨m_state, m_tmpval⟩ (none, ⟨m_state, m_tmpval⟩, []) :=
    .waits nofun (List.append_nil _)
  have hone {e : SensorEvent} (he : e.OnBus) : ∀ f ∈ [e], f.OnBus := by
    intro f hf
    rwa [List.mem_singleton.mp hf]
  cases m_state with
  | STATE_IDLE => exact .waits (hone trivial) rfl
  | STATE_ADDR_START =>
    show Reads source _ (if a.IsStartDone then _ else _)
    split
    · exact .waits (hone trivial) rfl
    · exact hstay
  | STATE_REGID =>
    show Reads source _ (if a.IsWriteDone then _ else _)
    split
    · exact .waits (hone trivial) rfl
    · exact hstay
  | STATE_DATA_LO =>
    show Reads source _ (if a.IsReadReady then _ else _)
    split
    · exact .waits (hone trivial) rfl
    · exact hstay
  | STATE_DATA_HI =>
    show Reads source _ (if a.IsReadReady then _ else _)
    split
    · exact .ends (hone trivial) rfl rfl (word_toNat m_tmpval a.GetReadData)
    · exact hstay

theorem underway_of_idle {r : Reader} (h : r.m_state = .STATE_IDLE) (source : UInt8 × UInt8) :
    r.underway source = [] := by
  unfold underway
  rw [h]

end Reader

/-! ## The rotation -/

namespace SensorPolling

/-- The reader of the current state. -/
def reader (s : SensorPolling) : Reader := if s.state = 0 then s.tempreader else s.regreader

def setReader (s : SensorPolling) (r : Reader) : SensorPolling :=
  if s.state = 0 then { s with tempreader := r } else { s with regreader := r }

/-- The sensor of the current state. -/
def sensor (s : SensorPolling) : Option Sensor := Sensor.order[s.state]?

/-- What the bus has seen of its transaction. -/
def underway (b : SensorBuild) (s : SensorPolling) : List SensorEvent :=
  (s.sensor.bind (Sensor.source b)).elim [] s.reader.underway

/-- What a call does after its timeout. -/
inductive Polls (b : SensorBuild) (s : SensorPolling) : Outcome → Prop where
  | waits {sensor : Sensor} {source : UInt8 × UInt8} {r : Reader} {es : List SensorEvent} :
    s.sensor = some sensor → sensor.source b = some source → s.reader.Reads source (none, r, es) →
    Polls b s (false, s.setReader r, es)
  | reads {sensor : Sensor} {source : UInt8 × UInt8} {x : UInt16} {r : Reader}
    {es : List SensorEvent} (iLastUpdate : Nat) :
    s.sensor = some sensor → sensor.source b = some source →
    s.reader.Reads source (some x, r, es) →
    Polls b s (false, { (s.assign sensor x).setReader r with
      iLastUpdate := iLastUpdate
      state := s.state + 1 }, es ++ [.Assign sensor x])
  | stays : s.state = 8 → Polls b s (false, s, [])
  | measures {sensor : Sensor} (x : UInt16) : 8 ≤ s.state → s.sensor = some sensor →
    sensor.source b = none → Polls b s (s.measure sensor x)
  | wraps : s.state = 10 → Polls b s (true, { s with state := 0 }, [])

section
variable {b : SensorBuild} {s : SensorPolling}

theorem readTemp_polls (hs : s.state = 0) (a : SensorAnswers) : s.Polls b (s.readTemp a) := by
  have hreads := s.tempreader.readNonblocking_reads (g_tempI2cAddress, 0x00) a
  have hreader : s.reader = s.tempreader := if_pos hs
  have hset (t : SensorPolling) (ht : t.state = s.state) (r : Reader) :
      t.setReader r = { t with tempreader := r } := if_pos (ht.trans hs)
  have hsensor : s.sensor = some .g_ibcTemp := by
    unfold sensor
    rw [hs]
    rfl
  unfold readTemp Reader.ReadTempNonblocking
  rw [← hreader] at hreads ⊢
  generalize s.reader.ReadNonblocking g_tempI2cAddress 0x00 a = result at hreads
  obtain ⟨x | x, r, es⟩ := result
  · have h : s.Polls b (false, s.setReader r, es) := .waits hsensor rfl hreads
    rwa [hset s rfl] at h
  · have h := Polls.reads (b := b) 0 hsensor rfl hreads
    rwa [hset (s.assign .g_ibcTemp x) rfl] at h

theorem readRegister_polls {regid : UInt8} {sensor : Sensor} (updates : Bool)
    (hs : s.state ≠ 0) (hsensor : s.sensor = some sensor)
    (hsource : sensor.source b = some (g_ibcI2cAddress, regid)) (a : SensorAnswers) :
    s.Polls b (s.readRegister regid sensor updates a) := by
  have hreads := s.regreader.readNonblocking_reads (g_ibcI2cAddress, regid) a
  have hreader : s.reader = s.regreader := if_neg hs
  have hset (t : SensorPolling) (ht : t.state = s.state) (r : Reader) :
      t.setReader r = { t with regreader := r } := if_neg (fun h => hs (ht.symm.trans h))
  unfold readRegister Reader.ReadRegisterNonblocking
  rw [← hreader] at hreads ⊢
  generalize s.reader.ReadNonblocking g_ibcI2cAddress regid a = result at hreads
  obtain ⟨x | x, r, es⟩ := result
  · have h : s.Polls b (false, s.setReader r, es) := .waits hsensor hsource hreads
    rwa [hset s rfl] at h
  · have h := Polls.reads (if updates then 0 else s.iLastUpdate) hsensor hsource hreads
    rwa [hset (s.assign sensor x) rfl] at h

/-- **Inversion of the rotation.** -/
theorem poll_polls (b : SensorBuild) (a : SensorAnswers) (hs : s.state ≤ 10) :
    s.Polls b (s.poll b a) := by
  obtain ⟨regreader, tempreader, state, iLastUpdate, reading⟩ := s
  have hs : state ≤ 10 := hs
  interval_cases state
  · exact readTemp_polls rfl a
  · exact readRegister_polls true (Nat.succ_ne_zero _) rfl rfl a
  · exact readRegister_polls true (Nat.succ_ne_zero _) rfl rfl a
  · exact readRegister_polls true (Nat.succ_ne_zero _) rfl rfl a
  · exact readRegister_polls false (Nat.succ_ne_zero _) rfl rfl a
  · exact readRegister_polls false (Nat.succ_ne_zero _) rfl rfl a
  · exact readRegister_polls false (Nat.succ_ne_zero _) rfl rfl a
  · exact readRegister_polls false (Nat.succ_ne_zero _) rfl rfl a
  · have hmeasure (x : UInt16) : Polls b ⟨regreader, tempreader, 8, iLastUpdate, reading⟩
        (measure .g_mcutemp x ⟨regreader, tempreader, 8, iLastUpdate, reading⟩) :=
      .measures x (Nat.le_refl 8) rfl rfl
    show Polls b _ (if b.STM32L431 then _ else _)
    split
    · cases a.GetTemperatureNonblocking with
      | none => exact .stays rfl
      | some x => exact hmeasure x
    · exact hmeasure _
  · have hmeasure (x : UInt16) : Polls b ⟨regreader, tempreader, 9, iLastUpdate, reading⟩
        (measure .g_3v3Voltage x ⟨regreader, tempreader, 9, iLastUpdate, reading⟩) :=
      .measures x (Nat.le_succ 8) rfl rfl
    exact hmeasure _
  · exact .wraps rfl

end

/-! ## The invariant -/

/-- How the state and the log go together. -/
structure InOrder (b : SensorBuild) (s : SensorPolling) (log : List SensorEvent) : Prop where
  state_le : s.state ≤ 10
  temp_idle : s.state ≠ 0 → s.tempreader.m_state = .STATE_IDLE
  reg_idle : s.state = 0 ∨ 8 ≤ s.state → s.regreader.m_state = .STATE_IDLE
  underway : ∃ front, log = front ++ s.underway b
  refreshed : refreshed log = Sensor.order.take s.state
  genuine : Complies record (Genuine b) [] log

end SensorPolling

/-- Bus traffic changes nothing about the readings. -/
theorem replay_tally_onBus {es : List SensorEvent} (h : ∀ e ∈ es, e.OnBus) (l : List Sensor) :
    replay tally l es = l := by
  refine replay_of_idle (fun e he l => ?_) l
  have hbus := h e he
  cases e with
  | NonblockingStart | NonblockingWrite | GetReadData => rfl
  | Reset | Assign | ReturnTrue => exact hbus.elim

theorem genuine_onBus {b : SensorBuild} {es : List SensorEvent} (h : ∀ e ∈ es, e.OnBus)
    (log : List SensorEvent) : Complies record (Genuine b) log es := by
  refine complies_record_iff.mpr fun front e back hes => ?_
  have he := h e (hes ▸ List.mem_append_right _ List.mem_cons_self)
  cases e with
  | NonblockingStart | NonblockingWrite | GetReadData => trivial
  | Reset | Assign | ReturnTrue => exact he.elim

namespace SensorPolling

variable {b : SensorBuild} {s t : SensorPolling} {log es : List SensorEvent}

theorem inOrder_init (b : SensorBuild) : InOrder b .init [] where
  state_le := Nat.zero_le _
  temp_idle h := absurd rfl h
  reg_idle _ := rfl
  underway := ⟨[], rfl⟩
  refreshed := rfl
  genuine := trivial

/-- The call, counted. -/
def counted (s : SensorPolling) : SensorPolling := { s with iLastUpdate := s.iLastUpdate + 1 }

theorem step_eq (b : SensorBuild) (s : SensorPolling) (a : SensorAnswers) : step b s a =
    .ok ((s.counted.timeout.1.poll b a).2.1,
      s.counted.timeout.2 ++ (s.counted.timeout.1.poll b a).2.2 ++
        if (s.counted.timeout.1.poll b a).1 then [.ReturnTrue] else []) := rfl

theorem InOrder.timeout (h : InOrder b s log) :
    InOrder b s.timeout.1 (log ++ s.timeout.2) := by
  unfold SensorPolling.timeout
  split
  · refine ⟨Nat.zero_le _, fun h => absurd rfl h, fun _ => rfl, ⟨log ++ [.Reset], ?_⟩, ?_, ?_⟩
    · exact (List.append_nil _).symm
    · rw [refreshed_append]
      rfl
    · rw [complies_append]
      exact ⟨h.genuine, trivial, trivial⟩
  · rw [List.append_nil]
    exact h

theorem underway_of_idle (htemp : s.tempreader.m_state = .STATE_IDLE)
    (hreg : s.regreader.m_state = .STATE_IDLE) (b : SensorBuild) : s.underway b = [] := by
  have hreader : s.reader.m_state = .STATE_IDLE := by
    unfold reader
    split
    · exact htemp
    · exact hreg
  unfold SensorPolling.underway
  cases s.sensor.bind (Sensor.source b) with
  | none => rfl
  | some source => exact Reader.underway_of_idle hreader source

theorem setReader_state (s : SensorPolling) (r : Reader) : (s.setReader r).state = s.state := by
  unfold setReader
  split <;> rfl

theorem setReader_reader (s : SensorPolling) (r : Reader) : (s.setReader r).reader = r := by
  unfold reader setReader
  split <;> rfl

/-- The other reader stays as it is. -/
theorem setReader_tempreader (hs : s.state ≠ 0) (r : Reader) :
    (s.setReader r).tempreader = s.tempreader := by
  unfold setReader
  rw [if_neg hs]

theorem setReader_regreader (hs : s.state = 0) (r : Reader) :
    (s.setReader r).regreader = s.regreader := by
  unfold setReader
  rw [if_pos hs]

theorem underway_of_source {sensor : Sensor} {source : UInt8 × UInt8}
    (hsensor : s.sensor = some sensor) (hsource : sensor.source b = some source) :
    s.underway b = s.reader.underway source := by
  unfold SensorPolling.underway
  rw [hsensor, Option.bind_some, hsource]
  rfl

theorem state_lt_of_sensor {sensor : Sensor} (h : s.sensor = some sensor) : s.state < 10 :=
  (List.getElem?_eq_some_iff.mp h).1

/-- The sensors on the bus come first. -/
theorem state_lt_of_source {sensor : Sensor} {source : UInt8 × UInt8}
    (h : s.sensor = some sensor) (hsource : sensor.source b = some source) : s.state < 8 := by
  by_contra hge
  have hlt := state_lt_of_sensor h
  unfold SensorPolling.sensor at h
  have hlast : s.state = 8 ∨ s.state = 9 := by omega
  rcases hlast with hs | hs
  · rw [hs] at h
    cases h
    cases hsource
  · rw [hs] at h
    cases h
    cases hsource

theorem take_succ_of_sensor {sensor : Sensor} (h : s.sensor = some sensor) :
    Sensor.order.take s.state ++ [sensor] = Sensor.order.take (s.state + 1) := by
  unfold SensorPolling.sensor at h
  rw [List.take_add_one, h]
  rfl

/-- The readings and the count of calls are nothing to it. -/
theorem InOrder.assign (h : InOrder b s log) (sensor : Sensor) (x : UInt16) :
    InOrder b (s.assign sensor x) log :=
  ⟨h.state_le, h.temp_idle, h.reg_idle, h.underway, h.refreshed, h.genuine⟩

theorem InOrder.counted (h : InOrder b s log) : InOrder b s.counted log :=
  ⟨h.state_le, h.temp_idle, h.reg_idle, h.underway, h.refreshed, h.genuine⟩

/-- With its reader done, a state is left with both of them idle. -/
theorem InOrder.idle (h : InOrder b s log) {r : Reader} (hr : r.m_state = .STATE_IDLE) :
    (s.setReader r).tempreader.m_state = .STATE_IDLE ∧
      (s.setReader r).regreader.m_state = .STATE_IDLE := by
  by_cases hs : s.state = 0
  · rw [setReader_regreader hs]
    unfold setReader
    rw [if_pos hs]
    exact ⟨hr, h.reg_idle (.inl hs)⟩
  · rw [setReader_tempreader hs]
    unfold setReader
    rw [if_neg hs]
    exact ⟨h.temp_idle hs, hr⟩

/-- The rotation goes on to the next state with both readers idle. -/
theorem InOrder.next (h : InOrder b s log) {sensor : Sensor} (hsensor : s.sensor = some sensor)
    (hes : ∀ e ∈ es, e.OnBus) {x : UInt16} (hx : Genuine b (log ++ es) (.Assign sensor x))
    (ht : t.state = s.state + 1) (htemp : t.tempreader.m_state = .STATE_IDLE)
    (hreg : t.regreader.m_state = .STATE_IDLE) : InOrder b t (log ++ es ++ [.Assign sensor x]) := by
  refine ⟨?_, fun _ => htemp, fun _ => hreg, ⟨log ++ es ++ [.Assign sensor x], ?_⟩, ?_, ?_⟩
  · rw [ht]
    exact state_lt_of_sensor hsensor
  · rw [underway_of_idle htemp hreg, List.append_nil]
  · rw [refreshed_append, refreshed_append, replay_tally_onBus hes, h.refreshed, ht,
      ← take_succ_of_sensor hsensor]
    rfl
  · rw [complies_append, complies_append, replay_record, replay_record]
    exact ⟨⟨h.genuine, genuine_onBus hes log⟩, hx, trivial⟩

/-- A reader goes on with its transaction. -/
theorem InOrder.waits (h : InOrder b s log) {sensor : Sensor} {source : UInt8 × UInt8} {r : Reader}
    (hsensor : s.sensor = some sensor) (hsource : sensor.source b = some source)
    (hes : ∀ e ∈ es, e.OnBus) (hunderway : s.reader.underway source ++ es = r.underway source) :
    InOrder b (s.setReader r) (log ++ es) := by
  have hlt := state_lt_of_source hsensor hsource
  have hstate := s.setReader_state r
  obtain ⟨front, hfront⟩ := h.underway
  rw [underway_of_source hsensor hsource] at hfront
  refine ⟨?_, ?_, ?_, ⟨front, ?_⟩, ?_, ?_⟩
  · rw [hstate]
    exact h.state_le
  · intro hs
    rw [hstate] at hs
    rw [setReader_tempreader hs]
    exact h.temp_idle hs
  · intro hs
    rw [hstate] at hs
    have hs : s.state = 0 := hs.resolve_right (Nat.not_le.mpr hlt)
    rw [setReader_regreader hs]
    exact h.reg_idle (.inl hs)
  · have hsensor' : (s.setReader r).sensor = some sensor := by
      unfold SensorPolling.sensor
      rw [hstate]
      exact hsensor
    rw [underway_of_source hsensor' hsource, setReader_reader, ← hunderway, hfront,
      List.append_assoc]
  · rw [refreshed_append, replay_tally_onBus hes, hstate]
    exact h.refreshed
  · rw [complies_append, replay_record]
    exact ⟨h.genuine, genuine_onBus hes _⟩

/-- The rotation is over, with every sensor read once. -/
theorem InOrder.wraps (h : InOrder b s log) (hs : s.state = 10) :
    InOrder b { s with state := 0 } (log ++ [.ReturnTrue]) := by
  have hall : Supervisor.refreshed log = Sensor.order := by
    rw [h.refreshed, hs]
    rfl
  have htemp := h.temp_idle (by rw [hs]; decide)
  have hreg := h.reg_idle (.inr (by rw [hs]; decide))
  refine ⟨Nat.zero_le _, fun _ => htemp, fun _ => hreg, ⟨log ++ [.ReturnTrue], ?_⟩, ?_, ?_⟩
  · rw [underway_of_idle (s := { s with state := 0 }) htemp hreg, List.append_nil]
  · rw [refreshed_append]
    rfl
  · rw [complies_append, replay_record]
    exact ⟨h.genuine, hall, trivial⟩

/-- **Step lemma.** -/
theorem InOrder.poll (h : InOrder b s log) (a : SensorAnswers) :
    InOrder b (s.poll b a).2.1
      (log ++ (s.poll b a).2.2 ++ if (s.poll b a).1 then [.ReturnTrue] else []) := by
  have hpolls := poll_polls b a h.state_le
  generalize s.poll b a = result at hpolls
  cases hpolls with
  | @waits sensor source r es hsensor hsource hreads =>
    cases hreads with
    | waits hes hunderway =>
      have hnext := h.waits hsensor hsource hes hunderway
      show InOrder b (s.setReader r) (log ++ es ++ [])
      rw [List.append_nil]
      exact hnext
  | @reads sensor source x r es iLastUpdate hsensor hsource hreads =>
    obtain ⟨front, hfront⟩ := h.underway
    rw [underway_of_source hsensor hsource] at hfront
    cases hreads with
    | @ends _ _ _ hi lo hes hidle hunderway hx =>
      obtain ⟨htemp, hreg⟩ := (h.assign sensor x).idle hidle
      show InOrder b _ (log ++ (es ++ [.Assign sensor x]) ++ [])
      rw [List.append_nil, ← List.append_assoc]
      refine h.next hsensor hes ?_ rfl htemp hreg
      intro source' hsource'
      obtain rfl : source = source' := Option.some.inj (hsource.symm.trans hsource')
      exact ⟨front, hi, lo, by rw [hfront, List.append_assoc, hunderway], hx⟩
  | stays hs =>
    show InOrder b s (log ++ [] ++ [])
    rw [List.append_nil, List.append_nil]
    exact h
  | @measures sensor x hs hsensor hsource =>
    have htemp := h.temp_idle (Nat.ne_of_gt (Nat.lt_of_lt_of_le (by decide) hs))
    have hnext : InOrder b (s.measure sensor x).2.1 (log ++ [] ++ [.Assign sensor x]) := by
      refine h.next hsensor (List.forall_mem_nil _) ?_ rfl htemp (h.reg_idle (.inr hs))
      intro source hsource'
      cases hsource.symm.trans hsource'
    rw [List.append_nil] at hnext
    show InOrder b _ (log ++ [.Assign sensor x] ++ [])
    rw [List.append_nil]
    exact hnext
  | wraps hs =>
    have hnext := h.wraps hs
    show InOrder b _ (log ++ [] ++ [.ReturnTrue])
    rw [List.append_nil]
    exact hnext

theorem InOrder.step (h : InOrder b s log) {a : SensorAnswers}
    (ht : step b s a = .ok (t, es)) : InOrder b t (log ++ es) := by
  rw [step_eq] at ht
  obtain ⟨rfl, rfl⟩ := ok_eq ht
  rw [← List.append_assoc, ← List.append_assoc]
  exact h.counted.timeout.poll a

/-- What the log says the readings are. -/
def keep (reading : Sensor → UInt16) : SensorEvent → Sensor → UInt16
  | .Assign sensor value => Function.update reading sensor value
  | _ => reading

theorem replay_keep_onBus (h : ∀ e ∈ es, e.OnBus) (reading : Sensor → UInt16) :
    replay keep reading es = reading := by
  refine replay_of_idle (fun e he reading => ?_) reading
  have hbus := h e he
  cases e with
  | NonblockingStart | NonblockingWrite | GetReadData => rfl
  | Reset | Assign | ReturnTrue => exact hbus.elim

theorem setReader_reading (s : SensorPolling) (r : Reader) : (s.setReader r).reading = s.reading := by
  unfold setReader
  split <;> rfl

theorem Polls.reading {result : Outcome} (h : Polls b s result) :
    result.2.1.reading = replay keep s.reading result.2.2 := by
  cases h with
  | @waits sensor source r es _ _ hreads =>
    cases hreads with
    | waits hes _ =>
      show (s.setReader r).reading = replay keep s.reading es
      rw [setReader_reading, replay_keep_onBus hes]
  | @reads sensor source x r es _ _ _ hreads =>
    cases hreads with
    | ends hes _ _ _ =>
      show ((s.assign sensor x).setReader r).reading = replay keep s.reading (es ++ [.Assign sensor x])
      rw [setReader_reading, replay_append, replay_keep_onBus hes]
      rfl
  | stays _ | measures _ _ _ _ | wraps _ => rfl

theorem timeout_reading (s : SensorPolling) :
    s.timeout.1.reading = replay keep s.reading s.timeout.2 := by
  unfold timeout
  split <;> rfl

theorem reading_step (h : InOrder b s log) {a : SensorAnswers} (ht : step b s a = .ok (t, es)) :
    t.reading = replay keep s.reading es := by
  have hpoll := (poll_polls b a h.counted.timeout.state_le).reading
  rw [timeout_reading] at hpoll
  rw [step_eq] at ht
  obtain ⟨rfl, rfl⟩ := ok_eq ht
  rw [replay_append, replay_append]
  refine hpoll.trans ?_
  split <;> rfl

theorem reading_run {calls : List SensorAnswers} (hr : run (step b) .init calls = .ok (s, log)) :
    InOrder b s log ∧ s.reading = replay keep init.reading log :=
  run_rule (C := fun _ _ => True)
    (J := fun s log _ => InOrder b s log ∧ s.reading = replay keep init.reading log) (l := []) (b := [])
    (fun _ _ _ _ _ _ h _ ht =>
      ⟨h.1.step ht, by rw [replay_append, ← h.2]; exact reading_step h.1 ht⟩)
    ⟨inOrder_init b, rfl⟩ (allSteps_true _ calls) hr

/-- **Sensor polling integrity.** After any number of calls at most one reader is
in a transaction. The readings are those assigned; each value that was ever
assigned to a sensor on the bus is the two bytes of a transaction with its address
and register that had just ended. With each return of true all sensors have been
refreshed once, in order, since the last one or the last timeout. -/
theorem sensor_polling_integrity {calls : List SensorAnswers}
    (hr : run (step b) .init calls = .ok (s, log)) :
    (s.tempreader.m_state = .STATE_IDLE ∨ s.regreader.m_state = .STATE_IDLE) ∧
    s.reading = replay keep init.reading log ∧
    (∀ front sensor value back, log = front ++ .Assign sensor value :: back →
      ∀ source, sensor.source b = some source → ∃ earlier hi lo,
        front = earlier ++ transaction source hi lo ∧
          value.toNat = 256 * hi.toNat + lo.toNat) ∧
    ∀ front back, log = front ++ .ReturnTrue :: back →
      Supervisor.refreshed front = Sensor.order := by
  obtain ⟨h, hreading⟩ := reading_run hr
  have hlog := complies_record_iff.mp h.genuine
  refine ⟨?_, hreading, ?_, ?_⟩
  · by_cases hs : s.state = 0
    · exact .inr (h.reg_idle (.inl hs))
    · exact .inl (h.temp_idle hs)
  · intro front sensor value back heq
    exact hlog front (.Assign sensor value) back heq
  · intro front back heq
    exact hlog front .ReturnTrue back heq

/-- A board that answers every question with yes and with the number of the call. -/
def eagerCall (i : Nat) : SensorAnswers where
  IsStartDone := true
  IsWriteDone := true
  IsReadReady := true
  GetReadData := .ofNat i
  GetTemperatureNonblocking := some 300
  GetTemperature := 300
  GetSupplyVoltage := 3300

def eagerBoard : SensorBuild := ⟨⟨1, 2, 3, 4, 5, 6, 7⟩, true⟩

/-- A rotation, from its start to the return of true. -/
theorem sensor_polling_rotation :
    ∃ s log, run (step eagerBoard) .init ((List.range 43).map eagerCall) =
        .ok (s, log ++ [.ReturnTrue]) ∧ s.reading .g_vin48 = 256 * 8 + 9 ∧
      Supervisor.refreshed log = Sensor.order := by
  obtain ⟨⟨s, log⟩, hr, hp⟩ := exists_of_returns
    (P := fun r => r.2.getLast? == some .ReturnTrue && r.1.reading .g_vin48 == 256 * 8 + 9)
    (r := run (step eagerBoard) .init ((List.range 43).map eagerCall)) (by decide +kernel)
  simp only [Bool.and_eq_true, beq_iff_eq] at hp
  obtain ⟨front, rfl⟩ := List.getLast?_eq_some_iff.mp hp.1
  exact ⟨s, front, hr, hp.2, (sensor_polling_integrity hr).2.2.2 front [] rfl⟩

end SensorPolling

end EmbeddedPlatform.Supervisor
