import Mathlib.Data.List.Induction
import EmbeddedPlatform.Supervisor.SensorIntegrity

/-! # What the host reads

The supervisor answers its host over SPI from the variables that `PollIBCSensors`
keeps, in a build with the converter. The server behind `OnCommand` and the SPI driver
are outside the repository: a command is the byte they hand over, and what is pushed
into the transmit FIFO is the reply. Commands of an application are its own. -/
namespace EmbeddedPlatform.Supervisor
open EmbeddedPlatform.Lib

/-! ## The registers -/

def SUPER_REG_VERSION : UInt8 := 0x00
def SUPER_REG_IBCVERSION : UInt8 := 0x01
def SUPER_REG_IBCHWVERSION : UInt8 := 0x02
def SUPER_REG_IBCVIN : UInt8 := 0x10
def SUPER_REG_IBCIIN : UInt8 := 0x11
def SUPER_REG_IBCTEMP : UInt8 := 0x12
def SUPER_REG_IBCVOUT : UInt8 := 0x13
def SUPER_REG_IBCIOUT : UInt8 := 0x14
def SUPER_REG_IBCVSENSE : UInt8 := 0x15
def SUPER_REG_IBCMCUTEMP : UInt8 := 0x16
def SUPER_REG_IBC3V3 : UInt8 := 0x17
def SUPER_REG_MCUTEMP : UInt8 := 0x18
def SUPER_REG_3V3 : UInt8 := 0x19

/-- The version strings, zero padded. -/
structure Versions where
  g_version : Fin 20 → UInt8
  g_ibcSwVersion : Fin 20 → UInt8
  g_ibcHwVersion : Fin 20 → UInt8

/-- A variable as it lies in memory, on a little-endian processor. -/
def memoryBytes (x : UInt16) : List UInt8 := [x.toUInt8, (x >>> 8).toUInt8]

/-- The calls of `NonblockingWriteFifo` that a command makes. -/
def OnCommand (versions : Versions) (reading : Sensor → UInt16)
    (OnApplicationCommand : UInt8 → List (List UInt8)) (b : UInt8) : List (List UInt8) :=
  let dummy : List UInt8 := [0x00]
  dummy ::
    if b = SUPER_REG_VERSION then [List.ofFn versions.g_version]
    else if b = SUPER_REG_IBCVERSION then [List.ofFn versions.g_ibcSwVersion]
    else if b = SUPER_REG_IBCHWVERSION then [List.ofFn versions.g_ibcHwVersion]
    else if b = SUPER_REG_IBCVIN then [memoryBytes (reading .g_vin48)]
    else if b = SUPER_REG_IBCIIN then [memoryBytes (reading .g_iin)]
    else if b = SUPER_REG_IBCTEMP then [memoryBytes (reading .g_ibcTemp)]
    else if b = SUPER_REG_IBCVOUT then [memoryBytes (reading .g_vout12)]
    else if b = SUPER_REG_IBCIOUT then [memoryBytes (reading .g_iout)]
    else if b = SUPER_REG_IBCVSENSE then [memoryBytes (reading .g_voutsense)]
    else if b = SUPER_REG_IBCMCUTEMP then [memoryBytes (reading .g_ibcMcuTemp)]
    else if b = SUPER_REG_IBC3V3 then [memoryBytes (reading .g_ibc3v3)]
    else if b = SUPER_REG_MCUTEMP then [memoryBytes (reading .g_mcutemp)]
    else if b = SUPER_REG_3V3 then [memoryBytes (reading .g_3v3Voltage)]
    else if 0x80 ≤ b then OnApplicationCommand b
    else []

/-! ## The supervisor and its host -/

/-- The main loop polls the sensors, and commands come in between. -/
inductive HostOp where
  | poll (answers : SensorAnswers)
  | command (b : UInt8)

inductive HostEvent where
  | sensor (e : SensorEvent)
  | reply (b : UInt8) (written : List (List UInt8))
deriving DecidableEq

def hostStep (b : SensorBuild) (versions : Versions)
    (OnApplicationCommand : UInt8 → List (List UInt8)) (s : SensorPolling) :
    HostOp → Except Empty (SensorPolling × List HostEvent)
  | .poll a =>
    match SensorPolling.step b s a with
    | .ok (t, es) => .ok (t, es.map .sensor)
    | .error e => .error e
  | .command c => .ok (s, [.reply c (OnCommand versions s.reading OnApplicationCommand c)])

/-- What the host gets in one transfer. -/
def received (written : List (List UInt8)) : List UInt8 := written.flatten

/-- The register a sensor is read from. -/
def Sensor.register : Sensor → UInt8
  | g_ibcTemp => SUPER_REG_IBCTEMP
  | g_vin48 => SUPER_REG_IBCVIN
  | g_vout12 => SUPER_REG_IBCVOUT
  | g_voutsense => SUPER_REG_IBCVSENSE
  | g_iin => SUPER_REG_IBCIIN
  | g_iout => SUPER_REG_IBCIOUT
  | g_ibcMcuTemp => SUPER_REG_IBCMCUTEMP
  | g_ibc3v3 => SUPER_REG_IBC3V3
  | g_mcutemp => SUPER_REG_MCUTEMP
  | g_3v3Voltage => SUPER_REG_3V3

/-- What the sensors have had to do with the bus and the readings so far. -/
def sensorLog (log : List HostEvent) : List SensorEvent :=
  log.filterMap fun e =>
    match e with
    | .sensor e => some e
    | .reply _ _ => none

/-! ## The last reading -/

/-- What is kept of a sensor is what was assigned last. -/
theorem keep_last (reading : Sensor → UInt16) (log : List SensorEvent) (sensor : Sensor) :
    (replay SensorPolling.keep reading log sensor = reading sensor ∧
      ∀ v, .Assign sensor v ∉ log) ∨
    ∃ before after, log = before ++
        .Assign sensor (replay SensorPolling.keep reading log sensor) :: after ∧
      ∀ v, .Assign sensor v ∉ after := by
  induction log using List.reverseRecOn with
  | nil => exact .inl ⟨rfl, fun _ => List.not_mem_nil⟩
  | append_singleton log e ih =>
    rw [replay_append]
    by_cases he : ∃ v, e = .Assign sensor v
    · obtain ⟨v, rfl⟩ := he
      refine .inr ⟨log, [], ?_, fun _ => List.not_mem_nil⟩
      simp [SensorPolling.keep]
    · have hkept : replay SensorPolling.keep (replay SensorPolling.keep reading log) [e] sensor =
          replay SensorPolling.keep reading log sensor := by
        rw [replay_cons, replay_nil]
        cases e with
        | Assign sensor' v =>
          have hne : sensor ≠ sensor' := fun h => he ⟨v, by rw [h]⟩
          exact Function.update_of_ne hne _ _
        | NonblockingStart | NonblockingWrite | GetReadData | Reset | ReturnTrue => rfl
      rw [hkept]
      rcases ih with ⟨hsame, hno⟩ | ⟨before, after, hlog, hno⟩
      · refine .inl ⟨hsame, fun v hv => ?_⟩
        rcases List.mem_append.mp hv with hv | hv
        · exact hno v hv
        · exact he ⟨v, (List.mem_singleton.mp hv).symm⟩
      · refine .inr ⟨before, after ++ [e], ?_, fun v hv => ?_⟩
        · rw [← List.cons_append, ← List.append_assoc, ← hlog]
        · rcases List.mem_append.mp hv with hv | hv
          · exact hno v hv
          · exact he ⟨v, (List.mem_singleton.mp hv).symm⟩

/-! ## Replies -/

section
variable {b : SensorBuild} {versions : Versions} {app : UInt8 → List (List UInt8)}
  {s t : SensorPolling} {log : List HostEvent}

/-- Each sensor has its own register. -/
theorem onCommand_register (versions : Versions) (reading : Sensor → UInt16)
    (app : UInt8 → List (List UInt8)) (sensor : Sensor) :
    OnCommand versions reading app sensor.register = [[0x00], memoryBytes (reading sensor)] := by
  cases sensor <;> rfl

theorem flatten_length_ite {p : Prop} [Decidable p] {n : Nat} {x y : List (List UInt8)}
    (hx : x.flatten.length ≤ n) (hy : y.flatten.length ≤ n) :
    (if p then x else y).flatten.length ≤ n := by
  split
  · exact hx
  · exact hy

/-- The version strings are the longest replies, and fit into the FIFO. -/
theorem onCommand_length (versions : Versions) (reading : Sensor → UInt16)
    (app : UInt8 → List (List UInt8)) {c : UInt8} (hc : c < 0x80) :
    (received (OnCommand versions reading app c)).length ≤ 21 := by
  have hversion : ∀ version : Fin 20 → UInt8, [List.ofFn version].flatten.length ≤ 20 := by
    intro version
    simp
  have hword : ∀ x : UInt16, [memoryBytes x].flatten.length ≤ 20 := by
    intro x
    simp [memoryBytes]
  unfold received OnCommand
  rw [List.flatten_cons, List.length_append, if_neg (UInt8.not_le.mpr hc), Nat.add_comm]
  refine Nat.succ_le_succ ?_
  iterate 3 refine flatten_length_ite (hversion _) ?_
  iterate 10 refine flatten_length_ite (hword _) ?_
  exact Nat.zero_le 20

/-- What a reply says, by what the sensors had said before it. -/
def Answered (versions : Versions) (app : UInt8 → List (List UInt8)) (front : List HostEvent) :
    HostEvent → Prop
  | .sensor _ => True
  | .reply c written => written = OnCommand versions
      (replay SensorPolling.keep SensorPolling.init.reading (sensorLog front)) app c

/-- The polling goes on as if there were no host, and replies are true. -/
structure Hosted (b : SensorBuild) (versions : Versions) (app : UInt8 → List (List UInt8))
    (s : SensorPolling) (log : List HostEvent) : Prop where
  inOrder : s.InOrder b (sensorLog log)
  reading : s.reading = replay SensorPolling.keep SensorPolling.init.reading (sensorLog log)
  answered : Complies record (Answered versions app) [] log

theorem sensorLog_append (log es : List HostEvent) :
    sensorLog (log ++ es) = sensorLog log ++ sensorLog es := List.filterMap_append

theorem sensorLog_sensors (es : List SensorEvent) : sensorLog (es.map .sensor) = es := by
  unfold sensorLog
  rw [List.filterMap_map]
  exact List.filterMap_some

theorem Hosted.step (h : Hosted b versions app s log) {op : HostOp} {es : List HostEvent}
    (hs : hostStep b versions app s op = .ok (t, es)) : Hosted b versions app t (log ++ es) := by
  cases op with
  | poll a =>
    unfold hostStep at hs
    cases hpoll : SensorPolling.step b s a with
    | error e => exact e.elim
    | ok r =>
      obtain ⟨u, fs⟩ := r
      simp only [hpoll] at hs
      cases hs
      refine ⟨?_, ?_, complies_append.mpr ⟨h.answered, ?_⟩⟩
      · rw [sensorLog_append, sensorLog_sensors]
        exact h.inOrder.step hpoll
      · rw [sensorLog_append, sensorLog_sensors, replay_append, ← h.reading]
        exact SensorPolling.reading_step h.inOrder hpoll
      · rw [complies_record_iff]
        intro front e back heq
        have hmem : e ∈ fs.map HostEvent.sensor := by
          rw [heq]
          exact List.mem_append_right front List.mem_cons_self
        obtain ⟨f, -, rfl⟩ := List.mem_map.mp hmem
        trivial
  | command c =>
    cases hs
    have hsame : sensorLog (log ++ [.reply c (OnCommand versions s.reading app c)]) =
        sensorLog log := by
      rw [sensorLog_append]
      exact List.append_nil _
    refine ⟨by rw [hsame]; exact h.inOrder, by rw [hsame]; exact h.reading, ?_⟩
    refine complies_append.mpr ⟨h.answered, ?_, trivial⟩
    rw [replay_record, List.nil_append]
    show OnCommand versions s.reading app c = _
    rw [h.reading]

theorem hosted_run {ops : List HostOp} (hr : run (hostStep b versions app) .init ops = .ok (s, log)) :
    Hosted b versions app s log := by
  have h := run_rule (C := fun _ _ => True) (l := []) (b := [])
    (J := fun s log _ => Hosted b versions app s log)
    (fun _ _ _ _ _ _ h _ hs => h.step hs)
    ⟨SensorPolling.inOrder_init b, rfl, trivial⟩ (allSteps_true _ ops) hr
  rwa [List.nil_append] at h

theorem memoryBytes_word {value : UInt16} {hi lo : UInt8}
    (h : value.toNat = 256 * hi.toNat + lo.toNat) : memoryBytes value = [lo, hi] := by
  have hlo := lo.toNat_lt
  have hhi := hi.toNat_lt
  have hlow : value.toUInt8 = lo := by
    apply UInt8.toNat_inj.mp
    rw [UInt16.toNat_toUInt8]
    omega
  have hhigh : (value >>> 8).toUInt8 = hi := by
    apply UInt8.toNat_inj.mp
    rw [UInt16.toNat_toUInt8, UInt16.toNat_shiftRight]
    show value.toNat >>> 8 % 2 ^ 8 = hi.toNat
    rw [Nat.shiftRight_eq_div_pow]
    omega
  unfold memoryBytes
  rw [hlow, hhigh]

/-- **What the host reads.** Whatever the devices answer and whenever the host asks: a
sensor's register gives the dummy byte and the reading that was assigned last, or 0
before the first. For a sensor on the bus these are the two bytes of a finished read of
its own register, the other way round. No reply that is not an application's is longer
than 21 bytes. -/
theorem host_reads (ops : List HostOp)
    (hr : run (hostStep b versions app) .init ops = .ok (s, log))
    (front : List HostEvent) (c : UInt8) (written : List (List UInt8)) (back : List HostEvent)
    (hlog : log = front ++ .reply c written :: back) :
    (∀ sensor : Sensor, c = sensor.register →
      (received written = [0, 0, 0] ∧ ∀ v, .Assign sensor v ∉ sensorLog front) ∨
      ∃ before value after, sensorLog front = before ++ .Assign sensor value :: after ∧
        (∀ v, .Assign sensor v ∉ after) ∧ received written = 0 :: memoryBytes value ∧
        ∀ source, sensor.source b = some source → ∃ earlier hi lo,
          before = earlier ++ transaction source hi lo ∧ received written = [0, lo, hi]) ∧
    (c < 0x80 → (received written).length ≤ 21) := by
  have h := hosted_run hr
  have hanswer : written = OnCommand versions
      (replay SensorPolling.keep SensorPolling.init.reading (sensorLog front)) app c :=
    complies_record_iff.mp h.answered front (.reply c written) back hlog
  refine ⟨?_, fun hc => by rw [hanswer]; exact onCommand_length _ _ _ hc⟩
  rintro sensor rfl
  rw [onCommand_register] at hanswer
  have hbytes : received written = 0 :: memoryBytes
      (replay SensorPolling.keep SensorPolling.init.reading (sensorLog front) sensor) := by
    rw [hanswer]
    rfl
  rcases keep_last SensorPolling.init.reading (sensorLog front) sensor with
    ⟨hzero, hno⟩ | ⟨before, after, hfront, hno⟩
  · rw [hzero] at hbytes
    have hnone : memoryBytes (SensorPolling.init.reading sensor) = [0, 0] := by
      show memoryBytes 0 = [0, 0]
      decide
    rw [hnone] at hbytes
    exact .inl ⟨hbytes, hno⟩
  · refine .inr ⟨before, _, after, hfront, hno, hbytes, fun source hsource => ?_⟩
    have hrest : sensorLog log = before ++ .Assign sensor
        (replay SensorPolling.keep SensorPolling.init.reading (sensorLog front) sensor) ::
          (after ++ sensorLog (.reply sensor.register written :: back)) := by
      rw [hlog, sensorLog_append, ← List.cons_append, ← List.append_assoc, ← hfront]
    obtain ⟨earlier, hi, lo, hbefore, hvalue⟩ :=
      complies_record_iff.mp h.inOrder.genuine before _ _ hrest source hsource
    refine ⟨earlier, hi, lo, hbefore, ?_⟩
    rw [hbytes, memoryBytes_word hvalue]

end

/-- The temperature, the input voltage, and then the host asks for the voltage. -/
def askedForVoltage : List HostOp :=
  (List.range 10).map (fun i => .poll (SensorPolling.eagerCall i)) ++
    [.command SUPER_REG_IBCVIN]

def unversioned : Versions := ⟨fun _ => 0, fun _ => 0, fun _ => 0⟩

/-- Bytes 8 and 9 of the bus. -/
theorem host_reads_voltage :
    ∃ s log, run (hostStep SensorPolling.eagerBoard unversioned fun _ => []) .init askedForVoltage =
        .ok (s, log ++ [.reply SUPER_REG_IBCVIN [[0], [9, 8]]]) ∧
      ∃ before value after, sensorLog log = before ++ .Assign .g_vin48 value :: after ∧
        memoryBytes value = [9, 8] := by
  obtain ⟨⟨s, log⟩, hr, hp⟩ := exists_of_returns
    (P := fun r => r.2.getLast? == some (.reply SUPER_REG_IBCVIN [[0], [9, 8]]))
    (r := run (hostStep SensorPolling.eagerBoard unversioned fun _ => []) .init askedForVoltage)
    (by decide +kernel)
  obtain ⟨front, rfl⟩ := List.getLast?_eq_some_iff.mp (beq_iff_eq.mp hp)
  refine ⟨s, front, hr, ?_⟩
  have h := (host_reads askedForVoltage hr front SUPER_REG_IBCVIN [[0], [9, 8]] [] rfl).1 .g_vin48 rfl
  rcases h with ⟨hzero, -⟩ | ⟨before, value, after, hfront, -, hbytes, -⟩
  · exact absurd hzero (by decide)
  · exact ⟨before, value, after, hfront, (List.cons.inj hbytes).2.symm⟩

end EmbeddedPlatform.Supervisor
