import EmbeddedPlatform.Services.Iperf3Server

/-! # What the handlers of a connection can do

The parser touches the parameters only, and what it makes of them depends on
nothing else. A round of `OnRxData` moves the connection in one of six ways, and
what `Iteration` does for a slot is one of three. -/
namespace EmbeddedPlatform.Services
open EmbeddedPlatform.Lib

/-! ## The parser -/

/-- The fields that the parameter blob sets. -/
@[ext] structure Params where
  mode : IperfMode
  time : UInt32
  bandwidth : UInt32
  len : UInt32
  reverseMode : Bool

namespace IperfConnectionState

def params (c : IperfConnectionState) : Params :=
  ⟨c.m_mode, c.m_time, c.m_bandwidth, c.m_len, c.m_reverseMode⟩

def setParams (c : IperfConnectionState) (p : Params) : IperfConnectionState :=
  { c with
    m_mode := p.mode
    m_time := p.time
    m_bandwidth := p.bandwidth
    m_len := p.len
    m_reverseMode := p.reverseMode }

end IperfConnectionState

/-- The same with nothing but parameters in the connection. -/
def blank (p : Params) : IperfConnectionState := IperfConnectionState.Clear.setParams p

theorem onJsonConfigField_eq (c : IperfConnectionState) (name value : List UInt8) :
    OnJsonConfigField c name value =
      c.setParams (OnJsonConfigField (blank c.params) name value).params := by
  unfold OnJsonConfigField
  split_ifs <;> rfl

/-- The connection in what a round comes to, seen through `f`. -/
def JsonStep.map (f : IperfConnectionState → IperfConnectionState) : JsonStep → JsonStep
  | invalid => invalid
  | next q c => next q (f c)
  | done c => done (f c)

theorem round_eq (q : JsonParser) (x : UInt8) (c : IperfConnectionState) :
    q.round x c = (q.round x (blank c.params)).map fun d => c.setParams d.params := by
  unfold JsonParser.round
  cases q.jsonState with
  | STATE_OPEN_QUOTE | STATE_NAME | STATE_COLON =>
    dsimp only
    split_ifs <;> rfl
  | STATE_VALUE =>
    dsimp only
    rw [onJsonConfigField_eq c]
    split_ifs <;> rfl

/-- **The parser sets the parameters only**, and sees nothing else. -/
theorem parse_eq (json : Nat → UInt8) (k i : Nat) (q : JsonParser) (c : IperfConnectionState) :
    parse json k i q c = (parse json k i q (blank c.params)).map fun d => c.setParams d.params := by
  induction k generalizing i q c with
  | zero => rfl
  | succ k ih =>
    unfold parse
    rw [round_eq q (json i) c]
    cases q.round (json i) (blank c.params) with
    | invalid => rfl
    | done d =>
      dsimp only [JsonStep.map]
      split <;> rfl
    | next r d =>
      show parse json k (i + 1) r (c.setParams d.params) =
        (parse json k (i + 1) r d).map fun e => c.setParams e.params
      rw [ih (i + 1) r (c.setParams d.params), ih (i + 1) r d, Option.map_map]
      rfl

/-! ## Rounds of `OnRxData` -/

namespace Session

@[simp] theorem sendState_conn (socket : TCPTableEntry) (σ : Session) :
    (σ.SendState socket).1.conn = σ.conn := by
  unfold SendState GetTxSegment
  cases σ.stack.segment 0 <;> rfl

end Session

/-- What a round of `OnRxData` can do to the connection. -/
inductive Moved (c : IperfConnectionState) : IperfConnectionState → Prop where
  | stay : Moved c c
  | cookie (cookie : List UInt8) : c.m_state = .IPERF_START →
    IPERF_COOKIE_SIZE ≤ c.m_rxBuffer.items.length →
    Moved c { c with
      m_cookie := cookie
      m_rxBuffer := c.m_rxBuffer.pop IPERF_COOKIE_SIZE
      m_state := .PARAM_EXCHANGE }
  | refuse : c.m_state = .PARAM_EXCHANGE → Moved c .Clear
  | accept (json : Nat → UInt8) (len : UInt32) (size : Nat) {d : IperfConnectionState} :
    c.m_state = .PARAM_EXCHANGE → parse json (len.toNat - 1) 1 .start c = some d →
    Session.admits d = true →
    Moved c { d with m_rxBuffer := d.m_rxBuffer.pop size, m_state := .CREATE_STREAMS }
  | ignore : c.m_state = .TEST_RUNNING → Moved c { c with m_rxBuffer := c.m_rxBuffer.pop 1 }
  | finish : c.m_state = .TEST_RUNNING →
    Moved c { c with m_rxBuffer := c.m_rxBuffer.pop 1, m_state := .EXCHANGE_RESULTS }

namespace Session

variable {socket : TCPTableEntry} {behind : Nat → UInt8} {σ : Session}

theorem onRxCookie_moved (h : σ.conn.m_state = .IPERF_START) :
    Moved σ.conn (σ.OnRxCookie socket).2.1.conn := by
  unfold OnRxCookie
  dsimp only
  split
  · exact .stay
  · rename_i hlen
    rw [sendState_conn]
    exact .cookie _ h (Nat.le_of_not_lt hlen)

theorem onRxParamExchange_moved (h : σ.conn.m_state = .PARAM_EXCHANGE) :
    Moved σ.conn (σ.OnRxParamExchange socket behind).2.1.conn := by
  unfold OnRxParamExchange
  dsimp only
  split
  · exact .stay
  split
  · exact .stay
  split
  · exact .stay
  split
  · exact .refuse h
  · rename_i d hparse
    rw [sendState_conn]
    split
    · rename_i hok
      rw [sendState_conn]
      exact .accept _ _ _ h hparse hok
    · exact .refuse h

theorem onRxEnd_moved (h : σ.conn.m_state = .TEST_RUNNING) :
    Moved σ.conn (σ.OnRxEnd socket behind).1.conn := by
  unfold OnRxEnd
  dsimp only
  split
  · exact .ignore h
  · have hconn := sendState_conn socket ((σ.popFifo 1).setState .EXCHANGE_RESULTS)
    generalize ((σ.popFifo 1).setState .EXCHANGE_RESULTS).SendState socket = r at hconn
    unfold GetTxSegment
    have hfinish : Moved σ.conn r.1.conn := by
      rw [hconn]
      exact .finish h
    cases r.1.stack.segment 0 with
    | false => exact hfinish
    | true => exact hfinish

/-- **Inversion of a round.** -/
theorem handle_moved : Moved σ.conn (σ.handle socket behind).2.1.conn := by
  unfold handle
  cases h : σ.conn.m_state with
  | IPERF_START => exact onRxCookie_moved h
  | PARAM_EXCHANGE => exact onRxParamExchange_moved h
  | TEST_RUNNING => exact onRxEnd_moved h
  | CREATE_STREAMS | TEST_START | TEST_END | EXCHANGE_RESULTS | DISPLAY_RESULTS | IPERF_DONE =>
    exact .stay

/-- **Loop rule of `OnRxData`.** What a round keeps, the loop keeps. -/
theorem rounds_handle {J : Session → List Tx → Prop}
    (hround : ∀ σ log, J σ log →
      J (σ.handle socket behind).2.1 (log ++ (σ.handle socket behind).2.2))
    {k : Nat} {τ : Session} {es : List Tx} (h0 : J σ [])
    (h : rounds (fun σ => .ok (σ.handle socket behind)) Fault.stuck k σ = .ok (τ, es)) : J τ es := by
  have hok {b : Bool} {σ τ : Session} {log es : List Tx} (hσ : J σ log)
      (hb : (Except.ok (σ.handle socket behind) : Except Fault _) = .ok (b, τ, es)) :
      J τ (log ++ es) := by
    have hr := hround σ log hσ
    rw [Except.ok.inj hb] at hr
    exact hr
  exact rounds_rule (C := fun _ => True) (J := J) (Q := J) (fun _ _ _ _ hσ _ hb => hok hσ hb)
    (fun _ _ _ _ hσ _ hb => hok hσ hb) h0 (fun _ _ => trivial) h

/-! ## Other events -/

theorem openStream_conn (socket : TCPTableEntry) (sport : UInt16) :
    (σ.openStream socket sport).1.conn = σ.conn ∨
      (σ.openStream socket sport).1.conn =
        { σ.conn with m_clientPort := sport, m_state := .TEST_START } := by
  unfold openStream GetTxPacket
  cases σ.stack.packet 0 with
  | false => exact .inl rfl
  | true =>
    right
    dsimp only
    rw [sendState_conn]
    rfl

theorem sendDataOnStream_conn (socket : TCPTableEntry) (count : UInt32) :
    ∃ seq, (σ.SendDataOnStream socket count).1.conn = { σ.conn with m_sequence := seq } := by
  unfold SendDataOnStream GetTxPacket
  cases σ.stack.packet 0 with
  | false => exact ⟨σ.conn.m_sequence, rfl⟩
  | true => exact ⟨_, rfl⟩

theorem serve_conn (socket : TCPTableEntry) (count : UInt32) :
    ∃ seq, (σ.serve socket count).1.conn = { σ.conn with m_sequence := seq } ∨
      σ.conn.m_state = .TEST_START ∧
        (σ.serve socket count).1.conn =
          { σ.conn with m_sequence := seq, m_state := .TEST_RUNNING } := by
  obtain ⟨seq, hseq⟩ := sendDataOnStream_conn (σ := σ) socket count
  unfold serve
  cases h : σ.conn.m_state with
  | TEST_START =>
    refine ⟨seq, .inr ⟨rfl, ?_⟩⟩
    dsimp only
    rw [sendState_conn]
    unfold setState
    rw [hseq]
  | TEST_RUNNING => exact ⟨seq, .inl hseq⟩
  | IPERF_START | PARAM_EXCHANGE | CREATE_STREAMS | TEST_END | EXCHANGE_RESULTS | DISPLAY_RESULTS
  | IPERF_DONE => exact ⟨σ.conn.m_sequence, .inl rfl⟩

/-- A test that starts is let run. -/
theorem serve_running {count : UInt32} (hs : σ.conn.m_state = .TEST_START) :
    (σ.serve socket count).1.conn.m_state = .TEST_RUNNING := by
  unfold serve
  rw [hs]
  dsimp only
  rw [sendState_conn]
  rfl

end Session

/-! ## Data packets -/

/-- A datagram of the test itself. -/
def Tx.isData : Tx → Bool
  | .SendTxPacket _ _ _ (.words _ _) => true
  | .SendTxPacket _ _ _ (.bytes _) | .SendTxSegment _ _ | .CloseSocket _ => false

/-- Nothing of the test itself is sent. -/
def NoData (es : List Tx) : Prop := ∀ e ∈ es, e.isData = false

theorem noData_nil : NoData [] := fun _ he => nomatch he

theorem NoData.cons {e : Tx} {es : List Tx} (he : e.isData = false) (h : NoData es) :
    NoData (e :: es) := List.forall_mem_cons.mpr ⟨he, h⟩

theorem NoData.append {es fs : List Tx} (hes : NoData es) (hfs : NoData fs) : NoData (es ++ fs) :=
  List.forall_mem_append.mpr ⟨hes, hfs⟩

namespace Session

variable {socket : TCPTableEntry} {behind : Nat → UInt8} {σ : Session}

theorem sendState_noData (socket : TCPTableEntry) (σ : Session) :
    NoData (σ.SendState socket).2 := by
  unfold SendState GetTxSegment
  cases σ.stack.segment 0 with
  | false => exact noData_nil
  | true => exact noData_nil.cons rfl

theorem dropConnection_noData : NoData (σ.DropConnection socket).2 := noData_nil.cons rfl

theorem handle_noData : NoData (σ.handle socket behind).2.2 := by
  unfold handle
  cases σ.conn.m_state with
  | IPERF_START =>
    unfold OnRxCookie
    dsimp only
    split
    · exact noData_nil
    · exact sendState_noData _ _
  | PARAM_EXCHANGE =>
    unfold OnRxParamExchange
    dsimp only
    split
    · exact noData_nil
    split
    · exact noData_nil
    split
    · exact noData_nil
    split
    · exact dropConnection_noData
    · split
      · exact sendState_noData _ _
      · exact (sendState_noData _ _).append dropConnection_noData
  | TEST_RUNNING =>
    unfold OnRxEnd
    dsimp only
    split
    · exact noData_nil
    · have hes := sendState_noData socket ((σ.popFifo 1).setState .EXCHANGE_RESULTS)
      generalize ((σ.popFifo 1).setState .EXCHANGE_RESULTS).SendState socket = r at hes
      unfold GetTxSegment
      cases r.1.stack.segment 0 with
      | false => exact hes
      | true => exact hes.append (noData_nil.cons rfl)
  | CREATE_STREAMS | TEST_START | TEST_END | EXCHANGE_RESULTS | DISPLAY_RESULTS | IPERF_DONE =>
    exact noData_nil

theorem openStream_noData {sport : UInt16} : NoData (σ.openStream socket sport).2 := by
  unfold openStream GetTxPacket
  cases σ.stack.packet 0 with
  | false => exact noData_nil
  | true => exact (sendState_noData _ _).cons rfl

/-- The data packet of a slot. -/
theorem sendDataOnStream_data {count : UInt32} {e : Tx}
    (he : e ∈ (σ.SendDataOnStream socket count).2) :
    ∃ ws, e = .SendTxPacket socket.m_remoteIP IPERF3_PORT σ.conn.m_clientPort
      (.words ws σ.conn.m_len) := by
  unfold SendDataOnStream GetTxPacket at he
  cases h : σ.stack.packet 0 with
  | false =>
    rw [h] at he
    exact nomatch he
  | true =>
    rw [h] at he
    exact ⟨_, List.mem_singleton.mp he⟩

/-- Data is sent while a test starts or runs. -/
theorem serve_data {count : UInt32} {e : Tx} (he : e ∈ (σ.serve socket count).2)
    (hdata : e.isData = true) :
    (σ.conn.m_state = .TEST_START ∨ σ.conn.m_state = .TEST_RUNNING) ∧
      ∃ ws, e = .SendTxPacket socket.m_remoteIP IPERF3_PORT σ.conn.m_clientPort
        (.words ws σ.conn.m_len) := by
  unfold serve at he
  cases h : σ.conn.m_state with
  | TEST_START =>
    rw [h] at he
    refine ⟨.inl rfl, ?_⟩
    rcases List.mem_append.mp he with he | he
    · exact sendDataOnStream_data he
    · exact Bool.noConfusion ((sendState_noData _ _ e he).symm.trans hdata)
  | TEST_RUNNING =>
    rw [h] at he
    exact ⟨.inr rfl, sendDataOnStream_data he⟩
  | IPERF_START | PARAM_EXCHANGE | CREATE_STREAMS | TEST_END | EXCHANGE_RESULTS | DISPLAY_RESULTS
  | IPERF_DONE =>
    rw [h] at he
    exact nomatch he

end Session

/-! ## Steps -/

theorem step_onRxData_iff {n : Nat} {srv : TCPServer n} {s t : Iperf3Server n}
    {socket : TCPTableEntry} {payload : List UInt8} {behind : Nat → UInt8} {es : List (Entry n)} :
    step srv s (.OnRxData socket payload behind) = .ok (t, es) ↔
      ∃ ok, s.OnRxData srv socket payload behind = .ok (ok, t, es) := by
  unfold step
  dsimp only
  cases s.OnRxData srv socket payload behind with
  | error e =>
    constructor
    · intro h
      cases h
    · rintro ⟨ok, h⟩
      cases h
  | ok r =>
    constructor
    · intro h
      cases h
      exact ⟨r.1, rfl⟩
    · rintro ⟨ok, h⟩
      cases h
      rfl

end EmbeddedPlatform.Services
