import EmbeddedPlatform.Services.ParamBlob

/-! # Segments of the control connection

Most states take from the FIFO all that is there to be taken, so that it does not
matter how the stream is cut into segments. While a test runs, though, a segment
is good for one byte, and a byte that is not TEST_END keeps the one behind it
waiting for the next segment. And where the parser reads behind the bytes
received, it matters what was there. -/
namespace EmbeddedPlatform.Services
open EmbeddedPlatform.Lib

/-! ## A segment ends -/

namespace Session

variable {socket : TCPTableEntry} {behind : Nat → UInt8} {σ : Session}

/-- How many rounds may follow. -/
def toGo (c : IperfConnectionState) : Nat :=
  match c.m_state with
  | .IPERF_START => if c.m_rxBuffer.items.length < IPERF_COOKIE_SIZE then 0 else 2
  | .PARAM_EXCHANGE => 1
  | _ => 0

theorem onRxParamExchange_more (h : (σ.OnRxParamExchange socket behind).1 = true) :
    (σ.OnRxParamExchange socket behind).2.1.conn = .Clear ∨
      (σ.OnRxParamExchange socket behind).2.1.conn.m_state = .CREATE_STREAMS := by
  unfold OnRxParamExchange at h ⊢
  dsimp only at h ⊢
  split at h
  · cases h
  split at h
  · cases h
  split at h
  · cases h
  rename_i h₁ h₂ h₃
  rw [if_neg h₁, if_neg h₂, if_neg h₃]
  split
  · exact .inl rfl
  · split
    · right
      rw [sendState_conn]
      rfl
    · exact .inl rfl

/-- **A round that goes on leaves less to do.** -/
theorem handle_toGo (h : (σ.handle socket behind).1 = true) :
    toGo (σ.handle socket behind).2.1.conn < toGo σ.conn := by
  unfold handle at h ⊢
  cases hs : σ.conn.m_state with
  | IPERF_START =>
    simp only [hs] at h ⊢
    unfold OnRxCookie at h ⊢
    dsimp only at h ⊢
    split at h
    · cases h
    · rename_i hlen
      rw [if_neg hlen]
      dsimp only
      rw [sendState_conn]
      simp [toGo, hs, hlen, setState]
  | PARAM_EXCHANGE =>
    simp only [hs] at h ⊢
    have hlow : toGo (σ.OnRxParamExchange socket behind).2.1.conn = 0 := by
      rcases onRxParamExchange_more h with hconn | hconn
      · rw [hconn]
        rfl
      · unfold toGo
        rw [hconn]
    rw [hlow]
    simp [toGo, hs]
  | CREATE_STREAMS | TEST_START | TEST_RUNNING | TEST_END | EXCHANGE_RESULTS | DISPLAY_RESULTS
  | IPERF_DONE =>
    simp only [hs] at h
    cases h

theorem toGo_lt (c : IperfConnectionState) : toGo c < 3 := by
  unfold toGo
  split
  · split <;> decide
  · decide
  · decide

theorem rounds_handle_last {τ : Session} {es : List Tx}
    (h : σ.handle socket behind = (false, τ, es)) (k : Nat) :
    rounds (fun σ => .ok (σ.handle socket behind)) Fault.stuck (k + 1) σ = .ok (τ, es) :=
  rounds_last (congrArg Except.ok h) k

theorem rounds_handle_more {τ υ : Session} {es fs : List Tx} {k : Nat}
    (h : σ.handle socket behind = (true, τ, es))
    (hτ : rounds (fun σ => .ok (σ.handle socket behind)) Fault.stuck k τ = .ok (υ, fs)) :
    rounds (fun σ => .ok (σ.handle socket behind)) Fault.stuck (k + 1) σ = .ok (υ, es ++ fs) :=
  rounds_more (congrArg Except.ok h) hτ

/-- The loop of `OnRxData` ends. -/
theorem rounds_handle_ends (socket : TCPTableEntry) (behind : Nat → UInt8) (σ : Session) :
    ∃ τ es, rounds (fun σ => .ok (σ.handle socket behind)) Fault.stuck 3 σ = .ok (τ, es) := by
  have h : ∃ τ es, rounds (fun σ => .ok (σ.handle socket behind)) Fault.stuck 3 σ = .ok (τ, es) ∧
      True :=
    rounds_total (J := fun _ => True) (μ := fun σ => toGo σ.conn)
      (fun σ _ => ⟨_, _, _, rfl, trivial, handle_toGo⟩) trivial (toGo_lt σ.conn)
  obtain ⟨τ, es, h, -⟩ := h
  exact ⟨τ, es, h⟩

end Session

/-! ## What a segment does -/

namespace IperfConnectionState

/-- Bytes arrive in the FIFO. -/
def append (c : IperfConnectionState) (payload : List UInt8) : IperfConnectionState :=
  { c with m_rxBuffer := c.m_rxBuffer.append payload }

/-- The connection after its cookie. -/
def cookieRead (c : IperfConnectionState) : IperfConnectionState :=
  { c with
    m_cookie := c.m_rxBuffer.items.take IPERF_COOKIE_SIZE ++ c.m_cookie.drop IPERF_COOKIE_SIZE
    m_rxBuffer := c.m_rxBuffer.pop IPERF_COOKIE_SIZE
    m_state := .PARAM_EXCHANGE }

/-- The connection after a blob with the parameters `p`. -/
def accept (c : IperfConnectionState) (p : Params) : IperfConnectionState :=
  { c.setParams p with
    m_rxBuffer := c.m_rxBuffer.pop (4 + prefixLen c.m_rxBuffer.items).toNat
    m_state := .CREATE_STREAMS }

/-- The connection after another byte. -/
def ignored (c : IperfConnectionState) : IperfConnectionState :=
  { c with m_rxBuffer := c.m_rxBuffer.pop 1 }

/-- The connection after TEST_END. -/
def ended (c : IperfConnectionState) : IperfConnectionState :=
  { c with m_rxBuffer := c.m_rxBuffer.pop 1, m_state := .EXCHANGE_RESULTS }

end IperfConnectionState

/-- The segment that announces a state. -/
def announce (socket : TCPTableEntry) (m_state : IperfState) : Tx :=
  .SendTxSegment socket [m_state.code]

/-- What `OnRxParamExchange` comes to, and what it sends. -/
def exchanged (socket : TCPTableEntry) (behind : Nat → UInt8) (c : IperfConnectionState) :
    IperfConnectionState × List Tx :=
  match exchange c.params c.m_rxBuffer.items behind with
  | none => (c, [])
  | some none => (.Clear, [.CloseSocket socket])
  | some (some p) =>
    if Session.admits (blank p) then (c.accept p, [announce socket .CREATE_STREAMS])
    else (.Clear, [announce socket .CREATE_STREAMS, .CloseSocket socket])

/-- What `OnRxData` comes to with a segment in the FIFO, and what it sends. -/
def received (socket : TCPTableEntry) (behind : Nat → UInt8) (c : IperfConnectionState) :
    IperfConnectionState × List Tx :=
  match c.m_state with
  | .IPERF_START =>
    if c.m_rxBuffer.items.length < IPERF_COOKIE_SIZE then (c, [])
    else
      let r := exchanged socket behind c.cookieRead
      (r.1, announce socket .PARAM_EXCHANGE :: r.2)
  | .PARAM_EXCHANGE => exchanged socket behind c
  | .TEST_RUNNING =>
    if window c.m_rxBuffer.items behind 0 != IperfState.TEST_END.code then
      (c.ignored, [])
    else
      (c.ended, [announce socket .EXCHANGE_RESULTS,
        .SendTxSegment socket (Session.resultsPayload c.ended)])
  | _ => (c, [])

section
variable {c : IperfConnectionState} (socket : TCPTableEntry) (m : Nat → UInt8)

theorem received_start (hs : c.m_state = .IPERF_START) :
    received socket m c =
      if c.m_rxBuffer.items.length < IPERF_COOKIE_SIZE then (c, [])
      else ((exchanged socket m c.cookieRead).1,
        announce socket .PARAM_EXCHANGE :: (exchanged socket m c.cookieRead).2) := by
  unfold received
  rw [hs]

theorem received_param (hs : c.m_state = .PARAM_EXCHANGE) :
    received socket m c = exchanged socket m c := by
  unfold received
  rw [hs]

theorem received_created (hs : c.m_state = .CREATE_STREAMS) : received socket m c = (c, []) := by
  unfold received
  rw [hs]

theorem received_running (hs : c.m_state = .TEST_RUNNING) :
    received socket m c =
      if window c.m_rxBuffer.items m 0 != IperfState.TEST_END.code then (c.ignored, [])
      else (c.ended, [announce socket .EXCHANGE_RESULTS,
        .SendTxSegment socket (Session.resultsPayload c.ended)]) := by
  unfold received
  rw [hs]

end

namespace Session

variable {socket : TCPTableEntry} {behind : Nat → UInt8} {σ : Session}

/-- There will always be a segment. -/
def Ready (σ : Session) : Prop := ∀ k, σ.stack.segment k = true

theorem Ready.sendState (h : σ.Ready) (socket : TCPTableEntry) :
    (σ.SendState socket).2 = [announce socket σ.conn.m_state] ∧ (σ.SendState socket).1.Ready := by
  unfold SendState GetTxSegment
  rw [h 0]
  exact ⟨rfl, fun k => h (k + 1)⟩

/-- A handler's outcome. -/
def Comes (r : Session × List Tx) (u : IperfConnectionState × List Tx) : Prop :=
  r.1.conn = u.1 ∧ r.2 = u.2 ∧ r.1.Ready

theorem onRxParamExchange_comes (h : σ.Ready) (socket : TCPTableEntry) (behind : Nat → UInt8) :
    Comes (σ.OnRxParamExchange socket behind).2 (exchanged socket behind σ.conn) := by
  have hw : σ.Rewind behind = window σ.conn.m_rxBuffer.items behind := rfl
  unfold OnRxParamExchange exchanged exchange
  rw [hw]
  dsimp only
  split
  · exact ⟨rfl, rfl, h⟩
  rename_i hmin
  split
  · exact ⟨rfl, rfl, h⟩
  split
  · exact ⟨rfl, rfl, h⟩
  have hlen := blobLen_window (Nat.le_of_not_lt hmin) behind []
  rw [List.append_nil] at hlen
  rw [parse_eq _ _ _ _ σ.conn, hlen]
  cases hp : parse (fun i => window σ.conn.m_rxBuffer.items behind (4 + i))
      ((prefixLen σ.conn.m_rxBuffer.items).toNat - 1) 1 .start (blank σ.conn.params) with
  | none => exact ⟨rfl, rfl, h⟩
  | some d =>
    let τ : Session := { σ with conn := σ.conn.accept d.params }
    have hsend := Ready.sendState (σ := τ) h socket
    show Comes (if admits (τ.SendState socket).1.conn = true then _ else _ : Bool × _).2
      (if admits (blank d.params) = true then _ else _)
    have hadmits : admits (τ.SendState socket).1.conn = admits (blank d.params) := by
      rw [sendState_conn]
      rfl
    rw [hadmits]
    split
    · exact ⟨sendState_conn socket τ, hsend.1, hsend.2⟩
    · refine ⟨rfl, ?_, hsend.2⟩
      show (τ.SendState socket).2 ++ [.CloseSocket socket] = _
      rw [hsend.1]
      rfl

theorem onRxCookie_short (hlen : σ.conn.m_rxBuffer.items.length < IPERF_COOKIE_SIZE) :
    σ.OnRxCookie socket = (false, σ, []) := if_pos hlen

theorem onRxCookie_comes (h : σ.Ready)
    (hlen : ¬ σ.conn.m_rxBuffer.items.length < IPERF_COOKIE_SIZE) (socket : TCPTableEntry) :
    (σ.OnRxCookie socket).1 = true ∧
      Comes (σ.OnRxCookie socket).2 (σ.conn.cookieRead, [announce socket .PARAM_EXCHANGE]) := by
  let τ : Session := { σ with conn := σ.conn.cookieRead }
  have hsend := Ready.sendState (σ := τ) h socket
  have heq : σ.OnRxCookie socket = (true, τ.SendState socket) := if_neg hlen
  rw [heq]
  exact ⟨rfl, sendState_conn socket τ, hsend.1, hsend.2⟩

theorem onRxEnd_comes (h : σ.Ready) (hs : σ.conn.m_state = .TEST_RUNNING) :
    Comes (σ.OnRxEnd socket behind) (received socket behind σ.conn) := by
  have hw : σ.Rewind behind = window σ.conn.m_rxBuffer.items behind := rfl
  unfold OnRxEnd received
  rw [hw, hs]
  dsimp only
  split
  · exact ⟨rfl, rfl, h⟩
  · let τ : Session := { σ with conn := σ.conn.ended }
    have hsend := Ready.sendState (σ := τ) h socket
    have hconn := sendState_conn socket τ
    have hτ : (σ.popFifo 1).setState .EXCHANGE_RESULTS = τ := rfl
    rw [hτ]
    generalize τ.SendState socket = r at hsend hconn
    unfold GetTxSegment
    rw [hsend.2 0]
    refine ⟨hconn, ?_, fun k => hsend.2 (k + 1)⟩
    show r.2 ++ [.SendTxSegment socket (resultsPayload r.1.conn)] = _
    rw [hsend.1, hconn]
    rfl

/-- After the parameter exchange the loop returns, at the latest in its second
round. -/
theorem rounds_exchanged (h : σ.Ready) (hs : σ.conn.m_state = .PARAM_EXCHANGE)
    (socket : TCPTableEntry) (behind : Nat → UInt8) (k : Nat) :
    ∃ τ es, rounds (fun σ => .ok (σ.handle socket behind)) Fault.stuck (k + 2) σ = .ok (τ, es) ∧
      Comes (τ, es) (exchanged socket behind σ.conn) := by
  have hcomes := onRxParamExchange_comes h socket behind
  have hhandle : σ.handle socket behind = σ.OnRxParamExchange socket behind := by
    unfold handle
    rw [hs]
  cases hr : σ.OnRxParamExchange socket behind with
  | mk more r =>
    obtain ⟨τ, es⟩ := r
    rw [hr] at hcomes hhandle
    refine ⟨τ, es, ?_, hcomes⟩
    cases more with
    | false => exact rounds_handle_last hhandle (k + 1)
    | true =>
      have hlast : τ.handle socket behind = (false, τ, []) := by
        have hmore := onRxParamExchange_more (by rw [hr] : (σ.OnRxParamExchange socket behind).1)
        rw [hr] at hmore
        unfold handle
        rcases hmore with hconn | hconn
        · rw [hconn]
          exact onRxCookie_short (by rw [hconn]; decide)
        · rw [hconn]
      have hrounds := rounds_handle_more hhandle (rounds_handle_last hlast k)
      rwa [List.append_nil] at hrounds

/-- **The loop of `OnRxData`.** -/
theorem rounds_received (h : σ.Ready) (socket : TCPTableEntry) (behind : Nat → UInt8) :
    ∃ τ es, rounds (fun σ => .ok (σ.handle socket behind)) Fault.stuck 3 σ = .ok (τ, es) ∧
      Comes (τ, es) (received socket behind σ.conn) := by
  cases hs : σ.conn.m_state with
  | IPERF_START =>
    have hhandle : σ.handle socket behind = σ.OnRxCookie socket := by
      unfold handle
      rw [hs]
    unfold received
    rw [hs]
    dsimp only
    split
    · rename_i hlen
      exact ⟨σ, [], rounds_handle_last (hhandle.trans (onRxCookie_short hlen)) 2, rfl, rfl, h⟩
    · rename_i hlen
      obtain ⟨hmore, hconn, hes, hready⟩ := onRxCookie_comes h hlen socket
      have hbody : σ.handle socket behind =
          (true, (σ.OnRxCookie socket).2.1, (σ.OnRxCookie socket).2.2) := by
        rw [hhandle, ← hmore]
      obtain ⟨τ, es, hrounds, hτ⟩ := rounds_exchanged hready (by rw [hconn]; rfl) socket behind 0
      rw [hconn] at hτ
      refine ⟨τ, (σ.OnRxCookie socket).2.2 ++ es, rounds_handle_more hbody hrounds, hτ.1, ?_,
        hτ.2.2⟩
      show (σ.OnRxCookie socket).2.2 ++ es = _
      rw [hes]
      exact congrArg _ hτ.2.1
  | PARAM_EXCHANGE =>
    unfold received
    rw [hs]
    exact rounds_exchanged h hs socket behind 1
  | TEST_RUNNING =>
    have hhandle : σ.handle socket behind = (false, σ.OnRxEnd socket behind) := by
      unfold handle
      rw [hs]
    exact ⟨_, _, rounds_handle_last hhandle 2, onRxEnd_comes h hs⟩
  | CREATE_STREAMS | EXCHANGE_RESULTS =>
    have hhandle : σ.handle socket behind = (false, σ, []) := by
      unfold handle
      rw [hs]
    unfold received
    rw [hs]
    exact ⟨σ, [], rounds_handle_last hhandle 2, rfl, rfl, h⟩
  | TEST_START | TEST_END | DISPLAY_RESULTS | IPERF_DONE =>
    have hhandle : σ.handle socket behind = (false, { σ with ret := false }, []) := by
      unfold handle
      rw [hs]
    unfold received
    rw [hs]
    exact ⟨_, [], rounds_handle_last hhandle 2, rfl, rfl, h⟩

end Session

/-! ## Two segments of one connection -/

/-- The blob that is waiting, or will be after the cookie. -/
def blobOf (m_state : IperfState) (w : List UInt8) : List UInt8 :=
  match m_state with
  | .IPERF_START => w.drop IPERF_COOKIE_SIZE
  | .PARAM_EXCHANGE => w
  | _ => []

/-- Go on with the next segment, unless the connection has been dropped. -/
def goOn (socket : TCPTableEntry) (behind : Nat → UInt8) (b : List UInt8)
    (u : IperfConnectionState × List Tx) : IperfConnectionState × List Tx :=
  if u.1.boundTo = none then u
  else
    let v := received socket behind (u.1.append b)
    (v.1, u.2 ++ v.2)

section
variable {socket : TCPTableEntry} {behind : Nat → UInt8} {c d : IperfConnectionState}
  {a b : List UInt8} {es : List Tx}

theorem not_overruns_nil : ¬ Overruns [] := fun h => absurd h.complete.min_le (by decide)

theorem goOn_dropped : goOn socket behind b (.Clear, es) = (.Clear, es) := if_pos rfl

theorem goOn_bound (h : d.boundTo ≠ none) :
    goOn socket behind b (d, es) =
      ((received socket behind (d.append b)).1, es ++ (received socket behind (d.append b)).2) :=
  if_neg h

theorem goOn_cons (x : Tx) : goOn socket behind b (d, x :: es) =
    ((goOn socket behind b (d, es)).1, x :: (goOn socket behind b (d, es)).2) := by
  unfold goOn
  dsimp only
  split <;> rfl

theorem items_append (h : c.m_rxBuffer.items.length + b.length ≤ 256) :
    (c.append b).m_rxBuffer.items = c.m_rxBuffer.items ++ b := BoundedQueue.items_append h

theorem append_append
    (h : c.m_rxBuffer.items.length + a.length + b.length ≤ 256) :
    (c.append a).append b = c.append (a ++ b) := by
  unfold IperfConnectionState.append
  dsimp only
  rw [BoundedQueue.append_append h]

theorem cookieRead_append (hlen : ¬ c.m_rxBuffer.items.length < IPERF_COOKIE_SIZE)
    (h : c.m_rxBuffer.items.length + b.length ≤ 256) :
    (c.append b).cookieRead = c.cookieRead.append b := by
  have hle := Nat.le_of_not_lt hlen
  unfold IperfConnectionState.cookieRead
  rw [items_append h, List.take_append_of_le_length hle]
  unfold IperfConnectionState.append
  dsimp only
  rw [BoundedQueue.pop_append hle h]

theorem accept_append (hw : Complete c.m_rxBuffer.items)
    (h : c.m_rxBuffer.items.length + b.length ≤ 256) (p : Params) :
    (c.append b).accept p = (c.accept p).append b := by
  have hlen : prefixLen (c.m_rxBuffer.items ++ b) = prefixLen c.m_rxBuffer.items :=
    blobLen_window hw.min_le _ b
  unfold IperfConnectionState.accept
  rw [items_append h, hlen]
  unfold IperfConnectionState.append
  dsimp only
  rw [BoundedQueue.pop_append hw.len_le h]
  rfl

theorem ended_append (hlen : 1 ≤ c.m_rxBuffer.items.length)
    (h : c.m_rxBuffer.items.length + b.length ≤ 256) :
    (c.append b).ended = c.ended.append b := by
  unfold IperfConnectionState.ended IperfConnectionState.append
  dsimp only
  rw [BoundedQueue.pop_append hlen h]

theorem exchanged_congr (h : ¬ Overruns c.m_rxBuffer.items) (m m' : Nat → UInt8) :
    exchanged socket m c = exchanged socket m' c := by
  unfold exchanged
  rw [exchange_congr h c.params m' m]

/-- The parameter exchange may be cut anywhere if the parser reads received bytes
only. -/
theorem exchanged_append (hs : c.m_state = .PARAM_EXCHANGE) (hbound : c.boundTo ≠ none)
    (hfits : c.m_rxBuffer.items.length + b.length ≤ 256) (ha : ¬ Overruns c.m_rxBuffer.items)
    (hab : ¬ Overruns (c.m_rxBuffer.items ++ b)) (socket : TCPTableEntry)
    (m m₂ m₃ : Nat → UInt8) :
    exchanged socket m (c.append b) = goOn socket m₃ b (exchanged socket m₂ c) := by
  have hitems := items_append (c := c) hfits
  by_cases hw : Complete c.m_rxBuffer.items
  · have hex := exchange_append hw ha c.params m₂ m b
    obtain ⟨r, hr⟩ : ∃ r, exchange c.params c.m_rxBuffer.items m₂ = some r :=
      ⟨_, exchange_of_complete hw c.params m₂⟩
    have hwhole : exchange (c.append b).params (c.append b).m_rxBuffer.items m = some r := by
      rw [hitems]
      exact hex.trans hr
    unfold exchanged
    rw [hwhole, hr]
    cases r with
    | none => exact goOn_dropped.symm
    | some p =>
      dsimp only
      split
      · rw [goOn_bound (d := c.accept p) hbound, ← accept_append hw hfits]
        rfl
      · exact goOn_dropped.symm
  · have hwait : exchanged socket m₂ c = (c, []) := by
      unfold exchanged
      rw [exchange_of_not_complete hw]
    rw [hwait, goOn_bound hbound, received_param (c := c.append b) socket m₃ hs]
    exact exchanged_congr (by rwa [hitems]) m m₃

theorem received_congr (hs : c.m_state ≠ .TEST_RUNNING)
    (h : ¬ Overruns (blobOf c.m_state c.m_rxBuffer.items)) (m m' : Nat → UInt8) :
    received socket m c = received socket m' c := by
  unfold received
  cases hc : c.m_state with
  | IPERF_START =>
    rw [hc] at h
    have hex : exchanged socket m c.cookieRead = exchanged socket m' c.cookieRead :=
      exchanged_congr h m m'
    dsimp only
    rw [hex]
  | PARAM_EXCHANGE =>
    rw [hc] at h
    exact exchanged_congr h m m'
  | TEST_RUNNING => exact absurd hc hs
  | CREATE_STREAMS | TEST_START | TEST_END | EXCHANGE_RESULTS | DISPLAY_RESULTS | IPERF_DONE => rfl

theorem window_head {w : List UInt8} {x : UInt8} (h : w.head? = some x) (m : Nat → UInt8) :
    window w m 0 = x := by
  cases w with
  | nil => cases h
  | cons y ys => exact Option.some.inj h

/-- **Where segments may be cut.** -/
theorem received_append (hbound : c.boundTo ≠ none)
    (hfits : c.m_rxBuffer.items.length + b.length ≤ 256)
    (hrun : c.m_state = .TEST_RUNNING →
      c.m_rxBuffer.items.head? = some IperfState.TEST_END.code)
    (ha : ¬ Overruns (blobOf c.m_state c.m_rxBuffer.items))
    (hab : ¬ Overruns (blobOf c.m_state (c.m_rxBuffer.items ++ b))) (m m₂ m₃ : Nat → UInt8) :
    received socket m (c.append b) = goOn socket m₃ b (received socket m₂ c) := by
  have hitems := items_append (c := c) hfits
  have hs' : (c.append b).m_state = c.m_state := rfl
  have hwait (hc : received socket m₂ c = (c, [])) (hne : c.m_state ≠ .TEST_RUNNING) :
      received socket m (c.append b) = goOn socket m₃ b (received socket m₂ c) := by
    rw [hc, goOn_bound hbound]
    exact received_congr (c := c.append b) hne (by rwa [hs', hitems]) m m₃
  cases hs : c.m_state with
  | IPERF_START =>
    by_cases hlen : c.m_rxBuffer.items.length < IPERF_COOKIE_SIZE
    · exact hwait (by rw [received_start socket m₂ hs, if_pos hlen]) (by rw [hs]; exact nofun)
    · have hlen' : ¬ (c.append b).m_rxBuffer.items.length < IPERF_COOKIE_SIZE := by
        rw [hitems, List.length_append]
        exact fun h => hlen (Nat.lt_of_le_of_lt (Nat.le_add_right _ _) h)
      have hdrop : (c.m_rxBuffer.items ++ b).drop IPERF_COOKIE_SIZE =
          c.cookieRead.m_rxBuffer.items ++ b :=
        List.drop_append_of_le_length (Nat.le_of_not_lt hlen)
      have hfits' : c.cookieRead.m_rxBuffer.items.length + b.length ≤ 256 := by
        show (c.m_rxBuffer.items.drop IPERF_COOKIE_SIZE).length + b.length ≤ 256
        rw [List.length_drop]
        exact Nat.le_trans (Nat.add_le_add_right (Nat.sub_le _ _) _) hfits
      rw [hs] at ha hab
      have hex := exchanged_append (c := c.cookieRead) (b := b) rfl hbound hfits' ha
        (by rw [← hdrop]; exact hab) socket m m₂ m₃
      rw [received_start (c := c.append b) socket m hs, received_start socket m₂ hs, if_neg hlen, if_neg hlen',
        goOn_cons, cookieRead_append hlen hfits, hex]
  | PARAM_EXCHANGE =>
    rw [hs] at ha hab
    rw [received_param (c := c.append b) socket m hs, received_param socket m₂ hs]
    exact exchanged_append hs hbound hfits ha hab socket m m₂ m₃
  | TEST_RUNNING =>
    have hhead := hrun hs
    have hlen : 1 ≤ c.m_rxBuffer.items.length := by
      cases hw : c.m_rxBuffer.items with
      | nil =>
        rw [hw] at hhead
        cases hhead
      | cons x xs => exact Nat.le_add_left 1 xs.length
    have hhead' : (c.append b).m_rxBuffer.items.head? = some IperfState.TEST_END.code := by
      rw [hitems, List.head?_append, hhead]
      rfl
    have hdone : received socket m₃ (c.ended.append b) = (c.ended.append b, []) := rfl
    rw [received_running socket m₂ hs, received_running (c := c.append b) socket m hs, window_head hhead,
      window_head hhead', if_neg (by simp), if_neg (by simp), goOn_bound (d := c.ended) hbound,
      hdone, ended_append hlen hfits]
    rfl
  | CREATE_STREAMS | TEST_START | TEST_END | EXCHANGE_RESULTS | DISPLAY_RESULTS | IPERF_DONE =>
    have hc : received socket m₂ c = (c, []) := by
      unfold received
      rw [hs]
    exact hwait hc (by rw [hs]; exact nofun)

/-! ### Otherwise the cut shows -/

/-- A segment keeps the socket of the connection, or drops it. -/
theorem received_boundTo (socket : TCPTableEntry) (m : Nat → UInt8) (c : IperfConnectionState) :
    (received socket m c).1 = .Clear ∨ (received socket m c).1.boundTo = c.boundTo := by
  have hex (c : IperfConnectionState) :
      (exchanged socket m c).1 = .Clear ∨ (exchanged socket m c).1.boundTo = c.boundTo := by
    unfold exchanged
    split
    · exact .inr rfl
    · exact .inl rfl
    · split
      · exact .inr rfl
      · exact .inl rfl
  unfold received
  split
  · split
    · exact .inr rfl
    · exact hex c.cookieRead
  · exact hex c
  · split <;> exact .inr rfl
  · exact .inr rfl

theorem exchanged_open (h : Overruns c.m_rxBuffer.items) (socket : TCPTableEntry) :
    (∃ m, (exchanged socket m c).1 = .Clear) ∧
      ∃ m p, (exchanged socket m c).1 = c.accept p := by
  obtain ⟨⟨m, hm⟩, m', p, hm', hp⟩ := overruns_open h c.m_rxBuffer.items_le c.params
  constructor
  · refine ⟨m, ?_⟩
    unfold exchanged
    rw [hm]
  · refine ⟨m', p, ?_⟩
    unfold exchanged
    rw [hm']
    dsimp only
    rw [if_pos hp]

/-- With an overrun, the connection is dropped or not as the memory behind has it. -/
theorem received_open (h : Overruns (blobOf c.m_state c.m_rxBuffer.items))
    (socket : TCPTableEntry) :
    (∃ m, (received socket m c).1 = .Clear) ∧
      ∃ m, (received socket m c).1.m_state = .CREATE_STREAMS := by
  have hopen (d : IperfConnectionState) (hd : Overruns d.m_rxBuffer.items)
      (heq : ∀ m, (received socket m c).1 = (exchanged socket m d).1) :
      (∃ m, (received socket m c).1 = .Clear) ∧
        ∃ m, (received socket m c).1.m_state = .CREATE_STREAMS := by
    obtain ⟨⟨m, hm⟩, m', p, hm'⟩ := exchanged_open hd socket
    refine ⟨⟨m, (heq m).trans hm⟩, m', ?_⟩
    rw [heq m', hm']
    rfl
  cases hs : c.m_state with
  | IPERF_START =>
    rw [hs] at h
    have hlen : ¬ c.m_rxBuffer.items.length < IPERF_COOKIE_SIZE := by
      have hmin := h.complete.min_le
      intro hlt
      rw [show (blobOf .IPERF_START c.m_rxBuffer.items) = [] from
        List.drop_eq_nil_of_le (Nat.le_of_lt hlt)] at hmin
      exact absurd hmin (by decide)
    refine hopen c.cookieRead h fun m => ?_
    rw [received_start socket m hs, if_neg hlen]
  | PARAM_EXCHANGE =>
    rw [hs] at h
    exact hopen c h fun m => by rw [received_param socket m hs]
  | CREATE_STREAMS | TEST_START | TEST_RUNNING | TEST_END | EXCHANGE_RESULTS | DISPLAY_RESULTS
  | IPERF_DONE =>
    rw [hs] at h
    exact absurd h not_overruns_nil

/-- While a test runs a segment takes one byte. -/
theorem received_running_length (hs : c.m_state = .TEST_RUNNING) (socket : TCPTableEntry)
    (m : Nat → UInt8) :
    (received socket m c).1.m_rxBuffer.items.length = c.m_rxBuffer.items.length - 1 := by
  rw [received_running socket m hs]
  split <;> exact List.length_drop

/-- **The cut does not show** exactly when a running test finds TEST_END first and
the parser reads received bytes only. -/
theorem received_append_iff (hbound : c.boundTo ≠ none) (hne : c.m_rxBuffer.items ≠ [])
    (hb : b ≠ []) (hfits : c.m_rxBuffer.items.length + b.length ≤ 256) (socket : TCPTableEntry) :
    (∀ m m₂ m₃, received socket m (c.append b) = goOn socket m₃ b (received socket m₂ c)) ↔
      (c.m_state = .TEST_RUNNING →
        c.m_rxBuffer.items.head? = some IperfState.TEST_END.code) ∧
      ¬ Overruns (blobOf c.m_state c.m_rxBuffer.items) ∧
      ¬ Overruns (blobOf c.m_state (c.m_rxBuffer.items ++ b)) := by
  have hitems := items_append (c := c) hfits
  constructor
  · intro hlaw
    refine ⟨?_, ?_, ?_⟩
    · intro hs
      obtain ⟨x, xs, hw⟩ := List.exists_cons_of_ne_nil hne
      have hhead : c.m_rxBuffer.items.head? = some x := by rw [hw]; rfl
      by_cases hx : x = IperfState.TEST_END.code
      · rw [hhead, hx]
      · -- the second segment takes a byte too
        let m : Nat → UInt8 := fun _ => 0
        have hfirst : received socket m c = (c.ignored, []) := by
          rw [received_running socket m hs, window_head hhead, if_pos (by simpa using hx)]
        have hlen := congrArg (fun u => u.1.m_rxBuffer.items.length) (hlaw m m m)
        rw [hfirst, goOn_bound (d := c.ignored) hbound] at hlen
        have hfits' : c.ignored.m_rxBuffer.items.length + b.length ≤ 256 := by
          show (c.m_rxBuffer.items.drop 1).length + b.length ≤ 256
          rw [List.length_drop]
          exact Nat.le_trans (Nat.add_le_add_right (Nat.sub_le _ _) _) hfits
        have hwhole := received_running_length (c := c.append b) hs socket m
        have hrest := received_running_length (c := c.ignored.append b) hs socket m
        rw [hitems, List.length_append] at hwhole
        rw [items_append hfits', List.length_append,
          show c.ignored.m_rxBuffer.items = c.m_rxBuffer.items.drop 1 from rfl,
          List.length_drop] at hrest
        have hpos := List.length_pos_iff.mpr hne
        have hbpos := List.length_pos_iff.mpr hb
        dsimp only at hlen
        omega
    · intro hover
      obtain ⟨⟨m₂, hdrop⟩, m₂', hstay⟩ := received_open hover socket
      let m : Nat → UInt8 := fun _ => 0
      have hstate := congrArg (fun u => u.1.m_state) ((hlaw m m₂ m).symm.trans (hlaw m m₂' m))
      have hbound' : (received socket m₂' c).1.boundTo ≠ none := by
        rcases received_boundTo socket m₂' c with hclear | hsame
        · rw [hclear] at hstay
          cases hstay
        · rwa [hsame]
      have hnext := received_created (c := (received socket m₂' c).1.append b) socket m hstay
      rw [← Prod.eta (received socket m₂ c), hdrop, goOn_dropped,
        ← Prod.eta (received socket m₂' c), goOn_bound hbound', hnext] at hstate
      exact IperfState.noConfusion (hstate.trans hstay)
    · intro hover
      obtain ⟨⟨m, hdrop⟩, m', hstay⟩ := received_open (c := c.append b)
        (by rw [hitems]; exact hover) socket
      let m₂ : Nat → UInt8 := fun _ => 0
      have hstate := congrArg (fun u => u.1.m_state) ((hlaw m m₂ m₂).trans (hlaw m' m₂ m₂).symm)
      rw [hdrop, hstay] at hstate
      cases hstate
  · intro h m m₂ m₃
    exact received_append hbound hfits h.1 h.2.1 h.2.2 m m₂ m₃

end

/-! ## The server -/

section
open Iperf3Server

variable {n : Nat} {srv : TCPServer n} {s : Iperf3Server n} {socket : TCPTableEntry} {id : Fin n}
  {a b payload : List UInt8}

/-- What was sent for a slot. -/
def sentFor (id : Fin n) (es : List (Entry n)) : List Tx :=
  es.filterMap fun e => if e.1 = id then some e.2 else none

theorem sentFor_append (es fs : List (Entry n)) :
    sentFor id (es ++ fs) = sentFor id es ++ sentFor id fs := List.filterMap_append

theorem sentFor_tag (i : Fin n) (es : List Tx) :
    sentFor id (tag i es) = if i = id then es else [] := by
  unfold sentFor tag
  rw [List.filterMap_map]
  split
  · rename_i h
    simp [h]
  · rename_i h
    simp [h]

/-- What events come to for one slot. -/
def outcome (id : Fin n) (r : Except Fault (Iperf3Server n × List (Entry n))) :
    Except Fault (IperfConnectionState × List Tx) :=
  r.map fun r => (r.1.m_state id, sentFor id r.2)

/-- `OnRxData` for the slot of the socket, while there are segments to send. -/
theorem onRxData_received (hid : srv.GetConnectionID s.sockets socket = some id)
    (hseg : ∀ k, s.stack.segment k = true)
    (hfits : (s.m_state id).m_rxBuffer.items.length + payload.length ≤ 256) (m : Nat → UInt8) :
    ∃ ok σ, s.OnRxData srv socket payload m =
        .ok (ok, s.put id σ, tag id (received socket m ((s.m_state id).append payload)).2) ∧
      σ.conn = (received socket m ((s.m_state id).append payload)).1 ∧ σ.Ready := by
  obtain ⟨fifo, hpush, -⟩ := BoundedQueue.push_of_fits hfits
  have hconn : (s.m_state id).append payload = { s.m_state id with m_rxBuffer := fifo } := by
    unfold IperfConnectionState.append
    rw [BoundedQueue.append_of_push hpush]
  obtain ⟨τ, es, hrounds, hτ, hes, hready⟩ := Session.rounds_received
    (σ := { s.session id with conn.m_rxBuffer := fifo }) hseg socket m
  refine ⟨τ.ret, τ, ?_, by rw [hconn]; exact hτ, hready⟩
  unfold OnRxData
  rw [hid]
  dsimp only
  rw [hpush]
  dsimp only
  rw [hrounds, hconn]
  dsimp only at hes
  rw [hes]
  rfl

/-- `OnRxData` for another slot, or for none. -/
theorem onRxData_other (hid : srv.GetConnectionID s.sockets socket ≠ some id)
    (payload : List UInt8) (m : Nat → UInt8) : ∃ ok t es, s.OnRxData srv socket payload m = .ok (ok, t, es) ∧
      t.m_state id = s.m_state id ∧ sentFor id es = [] := by
  unfold OnRxData
  cases hj : srv.GetConnectionID s.sockets socket with
  | none => exact ⟨true, s, [], rfl, rfl, rfl⟩
  | some j =>
    have hne : j ≠ id := fun h => hid (by rw [hj, h])
    have hother (σ : Session) (es : List Tx) :
        (s.put j σ).m_state id = s.m_state id ∧ sentFor id (tag j es) = [] := by
      constructor
      · exact Function.update_of_ne hne.symm _ _
      · rw [sentFor_tag, if_neg hne]
    dsimp only
    cases hpush : (s.m_state j).m_rxBuffer.push payload with
    | none => exact ⟨_, _, _, rfl, hother _ _⟩
    | some fifo =>
      obtain ⟨τ, es, hrounds⟩ := Session.rounds_handle_ends socket m
        { s.session j with conn.m_rxBuffer := fifo }
      dsimp only
      rw [hrounds]
      exact ⟨_, _, _, rfl, hother _ _⟩

theorem outcome_cons {t : Iperf3Server n} {op : Op n} {ops : List (Op n)} {es : List (Entry n)}
    {r : IperfConnectionState × List Tx} (ht : step srv s op = .ok (t, es))
    (hr : outcome id (run (step srv) t ops) = .ok r) :
    outcome id (run (step srv) s (op :: ops)) = .ok (r.1, sentFor id es ++ r.2) := by
  cases hu : run (step srv) t ops with
  | error e =>
    rw [hu] at hr
    cases hr
  | ok u =>
    rw [hu] at hr
    cases hr
    rw [run_cons_of_ok ht hu]
    show Except.ok (u.1.m_state id, sentFor id (es ++ u.2)) = _
    rw [sentFor_append]

theorem outcome_nil (s : Iperf3Server n) :
    outcome id (run (step srv) s []) = .ok (s.m_state id, []) := rfl

theorem put_self (σ : Session) : (s.put id σ).m_state id = σ.conn := Function.update_self ..

/-- A segment for the slot, then the rest. -/
theorem outcome_onRxData (hid : srv.GetConnectionID s.sockets socket = some id)
    (hseg : ∀ k, s.stack.segment k = true)
    (hfits : (s.m_state id).m_rxBuffer.items.length + payload.length ≤ 256) (m : Nat → UInt8) :
    ∃ σ, σ.conn = (received socket m ((s.m_state id).append payload)).1 ∧ σ.Ready ∧
      ∀ ops r, outcome id (run (step srv) (s.put id σ) ops) = .ok r →
        outcome id (run (step srv) s (.OnRxData socket payload m :: ops)) =
          .ok (r.1, (received socket m ((s.m_state id).append payload)).2 ++ r.2) := by
  obtain ⟨ok, σ, hd, hσ, hready⟩ := onRxData_received hid hseg hfits m
  refine ⟨σ, hσ, hready, fun ops r hr => ?_⟩
  have h := outcome_cons (step_onRxData_iff.mpr ⟨ok, hd⟩) hr
  rwa [sentFor_tag, if_pos rfl] at h

theorem outcome_whole (hid : srv.GetConnectionID s.sockets socket = some id)
    (hseg : ∀ k, s.stack.segment k = true)
    (hfits : (s.m_state id).m_rxBuffer.items.length + payload.length ≤ 256) (m : Nat → UInt8) :
    outcome id (run (step srv) s [.OnRxData socket payload m]) =
      .ok (received socket m ((s.m_state id).append payload)) := by
  obtain ⟨σ, hσ, -, h⟩ := outcome_onRxData hid hseg hfits m
  have hend := h [] (σ.conn, []) (by
    show Except.ok ((s.put id σ).m_state id, []) = _
    rw [put_self])
  rwa [hσ, List.append_nil] at hend

theorem exchanged_length_le (socket : TCPTableEntry) (m : Nat → UInt8) (c : IperfConnectionState) :
    (exchanged socket m c).1.m_rxBuffer.items.length ≤ c.m_rxBuffer.items.length := by
  unfold exchanged
  split
  · exact Nat.le_refl _
  · exact Nat.zero_le _
  · split
    · exact BoundedQueue.length_pop_le _
    · exact Nat.zero_le _

theorem received_length_le (socket : TCPTableEntry) (m : Nat → UInt8) (c : IperfConnectionState) :
    (received socket m c).1.m_rxBuffer.items.length ≤ c.m_rxBuffer.items.length := by
  unfold received
  split
  · split
    · exact Nat.le_refl _
    · exact Nat.le_trans (exchanged_length_le socket m c.cookieRead) (BoundedQueue.length_pop_le _)
  · exact exchanged_length_le socket m c
  · split
    · exact BoundedQueue.length_pop_le 1
    · exact BoundedQueue.length_pop_le 1
  · exact Nat.le_refl _

/-- After a segment the socket is still the slot's, or the slot is free. -/
theorem sockets_put {σ : Session} (h : σ.conn.boundTo = (s.m_state id).boundTo) :
    (s.put id σ).sockets = s.sockets := by
  funext i
  show (Function.update s.m_state id σ.conn i).boundTo = (s.m_state i).boundTo
  rw [Function.update_apply]
  split
  · rename_i hi
    rw [h, hi]
  · rfl

theorem outcome_pieces (hid : srv.GetConnectionID s.sockets socket = some id)
    (hseg : ∀ k, s.stack.segment k = true)
    (hfits : (s.m_state id).m_rxBuffer.items.length + a.length + b.length ≤ 256)
    (m₂ m₃ : Nat → UInt8) :
    outcome id (run (step srv) s [.OnRxData socket a m₂, .OnRxData socket b m₃]) =
      .ok (goOn socket m₃ b (received socket m₂ ((s.m_state id).append a))) := by
  have hfits_a := Nat.le_of_add_right_le hfits
  obtain ⟨σ, hσ, hready, h⟩ := outcome_onRxData hid hseg hfits_a m₂
  unfold goOn
  split
  · -- the connection has been dropped, so the second segment is not for it
    rename_i hfree
    have hother : srv.GetConnectionID (s.put id σ).sockets socket ≠ some id := by
      intro hagain
      have hbound := srv.getConnectionID_bound hagain
      have hnone : (s.put id σ).sockets id = none := by
        show ((s.put id σ).m_state id).boundTo = none
        rw [put_self, hσ]
        exact hfree
      rw [hnone] at hbound
      cases hbound
    obtain ⟨ok, t, es, hd, ht, hes⟩ := onRxData_other hother b m₃
    have hrest := outcome_cons (r := (t.m_state id, []))
      (step_onRxData_iff.mpr ⟨ok, hd⟩) (outcome_nil t)
    have hall := h _ _ hrest
    rw [hes, ht, put_self, hσ] at hall
    rw [hall]
    show Except.ok (_, _ ++ ([] ++ [])) = _
    rw [List.append_nil, List.append_nil]
  · rename_i hbound
    have hsame : σ.conn.boundTo = (s.m_state id).boundTo := by
      rw [hσ]
      rcases received_boundTo socket m₂ ((s.m_state id).append a) with hc | hc
      · rw [hc] at hbound
        exact absurd rfl hbound
      · exact hc
    have hagain : srv.GetConnectionID (s.put id σ).sockets socket = some id := by
      rw [sockets_put hsame]
      exact hid
    have hfits_b : ((s.put id σ).m_state id).m_rxBuffer.items.length + b.length ≤ 256 := by
      have hle := received_length_le socket m₂ ((s.m_state id).append a)
      rw [items_append hfits_a, List.length_append] at hle
      rw [put_self, hσ]
      exact Nat.le_trans (Nat.add_le_add_right hle _) hfits
    have hall := h _ _ (outcome_whole hagain hready hfits_b m₃)
    rwa [put_self, hσ] at hall

/-- Whether a segment comes in one piece or in two does not show in the slot, nor in
what is sent for it. -/
def SegmentationFree (srv : TCPServer n) (s : Iperf3Server n) (socket : TCPTableEntry) (id : Fin n)
    (a b : List UInt8) : Prop :=
  ∀ m m₂ m₃ : Nat → UInt8,
    outcome id (run (step srv) s [.OnRxData socket (a ++ b) m]) =
      outcome id (run (step srv) s [.OnRxData socket a m₂, .OnRxData socket b m₃])

/-- **Segments.** How the stream is cut does not show exactly when a running test
finds TEST_END first, and the parser does not read behind the bytes received. -/
theorem segmentationFree_iff (hid : srv.GetConnectionID s.sockets socket = some id)
    (hseg : ∀ k, s.stack.segment k = true) (ha : a ≠ []) (hb : b ≠ [])
    (hfits : (s.m_state id).m_rxBuffer.items.length + a.length + b.length ≤ 256) :
    SegmentationFree srv s socket id a b ↔
      ((s.m_state id).m_state = .TEST_RUNNING →
        ((s.m_state id).m_rxBuffer.items ++ a).head? = some IperfState.TEST_END.code) ∧
      ¬ Overruns (blobOf (s.m_state id).m_state ((s.m_state id).m_rxBuffer.items ++ a)) ∧
      ¬ Overruns (blobOf (s.m_state id).m_state ((s.m_state id).m_rxBuffer.items ++ a ++ b)) := by
  have hfits_a := Nat.le_of_add_right_le hfits
  have hitems := items_append (c := s.m_state id) hfits_a
  have hbound : ((s.m_state id).append a).boundTo ≠ none := by
    intro hnone
    cases hnone.symm.trans (srv.getConnectionID_bound hid)
  have hne : ((s.m_state id).append a).m_rxBuffer.items ≠ [] := by
    rw [hitems]
    exact List.append_ne_nil_of_right_ne_nil _ ha
  have hlaw := received_append_iff (c := (s.m_state id).append a) hbound hne hb
    (by rwa [hitems, List.length_append]) socket
  rw [hitems, append_append hfits] at hlaw
  refine Iff.trans ?_ hlaw
  have hfits_ab : (s.m_state id).m_rxBuffer.items.length + (a ++ b).length ≤ 256 := by
    rwa [List.length_append, ← Nat.add_assoc]
  constructor
  · intro h m m₂ m₃
    have := h m m₂ m₃
    rw [outcome_whole hid hseg hfits_ab, outcome_pieces hid hseg hfits] at this
    exact Except.ok.inj this
  · intro h m m₂ m₃
    rw [outcome_whole hid hseg hfits_ab, outcome_pieces hid hseg hfits, h m m₂ m₃]

/-- A server with a test running for one client. -/
def tester : TCPTableEntry := ⟨1, 0x0a000008⟩

def testing : Iperf3Server 1 where
  m_state := fun _ =>
    { IperfConnectionState.Clear.bind tester with
      m_state := .TEST_RUNNING
      m_mode := .MODE_UDP
      m_reverseMode := true
      m_len := 1024 }
  stack := ⟨fun _ => true, fun _ => true⟩

theorem segmentationFree_testing :
    SegmentationFree (.search 1) testing tester 0 [IperfState.TEST_END.code] [0] :=
  (segmentationFree_iff (by decide) (fun _ => rfl) (by decide) (by decide) (by decide)).mpr
    ⟨fun _ => rfl, not_overruns_nil, not_overruns_nil⟩

/-- TEST_END behind another byte is acted on if it comes in a segment of its own. -/
theorem not_segmentationFree :
    ¬ SegmentationFree (.search 1) testing tester 0 [0] [IperfState.TEST_END.code] := by
  intro h
  have hstate := congrArg (returns fun r => r.1.m_state == .EXCHANGE_RESULTS)
    (h (fun _ => 0) (fun _ => 0) (fun _ => 0))
  exact absurd hstate (by decide +kernel)

end

end EmbeddedPlatform.Services
