import EmbeddedPlatform.Services.SlotSteps

/-! # Whether the client hears of a state

A handler sets the state first and asks the stack for a segment to announce it in
afterwards. Without one it goes on all the same. -/
namespace EmbeddedPlatform.Services
open EmbeddedPlatform.Lib

/-! ## What a round moves the connection to -/

/-- The state that a round of `OnRxData` sets, also when it drops the connection
then. -/
def IperfConnectionState.moves (behind : Nat → UInt8) (c : IperfConnectionState) :
    Option IperfState :=
  match c.m_state with
  | .IPERF_START =>
    if IPERF_COOKIE_SIZE ≤ c.m_rxBuffer.items.length then some .PARAM_EXCHANGE else none
  | .PARAM_EXCHANGE =>
    if (exchange c.params c.m_rxBuffer.items behind).join.isSome then some .CREATE_STREAMS else none
  | .TEST_RUNNING =>
    if window c.m_rxBuffer.items behind 0 = IperfState.TEST_END.code then some .EXCHANGE_RESULTS
    else none
  | _ => none

section
variable {behind : Nat → UInt8} {c : IperfConnectionState}

theorem moves_start (hs : c.m_state = .IPERF_START) : c.moves behind =
    if IPERF_COOKIE_SIZE ≤ c.m_rxBuffer.items.length then some .PARAM_EXCHANGE else none := by
  unfold IperfConnectionState.moves
  rw [hs]

theorem moves_param (hs : c.m_state = .PARAM_EXCHANGE) : c.moves behind =
    if (exchange c.params c.m_rxBuffer.items behind).join.isSome then some .CREATE_STREAMS
    else none := by
  unfold IperfConnectionState.moves
  rw [hs]

theorem moves_running (hs : c.m_state = .TEST_RUNNING) : c.moves behind =
    if window c.m_rxBuffer.items behind 0 = IperfState.TEST_END.code then some .EXCHANGE_RESULTS
    else none := by
  unfold IperfConnectionState.moves
  rw [hs]

end

/-- A slot that is free stays free. -/
theorem Moved.boundTo_none {c d : IperfConnectionState} (h : Moved c d) (hc : c.boundTo = none) :
    d.boundTo = none := by
  cases h with
  | refuse _ => rfl
  | accept json len size _ hparse _ => exact (parse_bound hparse).2.trans hc
  | stay | cookie _ _ _ | ignore _ | finish _ => exact hc

/-- What tells the client of a state. -/
def notice (socket : TCPTableEntry) (c : IperfConnectionState) (m_state : IperfState) : List Tx :=
  announce socket m_state ::
    if m_state = .EXCHANGE_RESULTS then [.SendTxSegment socket (Session.resultsPayload c)] else []

/-- The segments it takes. -/
def due (m_state : IperfState) : Nat := if m_state = .EXCHANGE_RESULTS then 2 else 1

/-- The segments that `OnRxData` asks for, with the bytes in the FIFO. -/
def demand (behind : Nat → UInt8) (c : IperfConnectionState) : Nat :=
  match c.moves behind with
  | none => 0
  | some .PARAM_EXCHANGE =>
    match c.cookieRead.moves behind with
    | none => 1
    | some m_state => 1 + due m_state
  | some m_state => due m_state

namespace Session

variable {socket : TCPTableEntry} {behind : Nat → UInt8} {σ τ : Session}

theorem sendState_segment (socket : TCPTableEntry) (σ : Session) (k : Nat) :
    (σ.SendState socket).1.stack.segment k = σ.stack.segment (k + 1) := by
  unfold SendState GetTxSegment
  cases σ.stack.segment 0 <;> rfl

theorem sendState_log (socket : TCPTableEntry) (σ : Session) :
    (σ.SendState socket).2 =
      if σ.stack.segment 0 = true then [announce socket σ.conn.m_state] else [] := by
  unfold SendState GetTxSegment
  cases σ.stack.segment 0 <;> rfl

theorem announce_mem_sendState {m_state : IperfState} (hs : σ.conn.m_state = m_state) :
    announce socket m_state ∈ (σ.SendState socket).2 ↔ σ.stack.segment 0 = true := by
  rw [sendState_log, hs]
  split
  · rename_i h
    simp [h]
  · rename_i h
    simp [h]

/-- The cookie's round. -/
theorem handle_cookie (hs : σ.conn.m_state = .IPERF_START)
    (hlen : IPERF_COOKIE_SIZE ≤ σ.conn.m_rxBuffer.items.length) :
    σ.handle socket behind = (true, { σ with conn := σ.conn.cookieRead }.SendState socket) := by
  unfold handle
  rw [hs]
  exact if_neg (Nat.not_lt.mpr hlen)

theorem handle_short (hs : σ.conn.m_state = .IPERF_START)
    (hlen : ¬ IPERF_COOKIE_SIZE ≤ σ.conn.m_rxBuffer.items.length) :
    σ.handle socket behind = (false, σ, []) := by
  unfold handle
  rw [hs]
  exact onRxCookie_short (Nat.lt_of_not_le hlen)

variable (socket behind) in
/-- The round of the parameters. -/
theorem handle_params (hs : σ.conn.m_state = .PARAM_EXCHANGE) :
    (exchange σ.conn.params σ.conn.m_rxBuffer.items behind = none ∧
        σ.handle socket behind = (false, σ, [])) ∨
    (exchange σ.conn.params σ.conn.m_rxBuffer.items behind = some none ∧
        σ.handle socket behind = (true, σ.DropConnection socket)) ∨
    ∃ p, exchange σ.conn.params σ.conn.m_rxBuffer.items behind = some (some p) ∧
      ∃ es, (σ.handle socket behind).2.2 =
          ({ σ with conn := σ.conn.accept p }.SendState socket).2 ++ es ∧
        (σ.handle socket behind).1 = true ∧
        ((es = [] ∧ (σ.handle socket behind).2.1.conn = σ.conn.accept p) ∨
          (es = [.CloseSocket socket] ∧ (σ.handle socket behind).2.1.conn = .Clear)) := by
  have hw : σ.Rewind behind = window σ.conn.m_rxBuffer.items behind := rfl
  unfold handle exchange
  rw [hs]
  dsimp only
  unfold OnRxParamExchange
  rw [hw]
  dsimp only
  split
  · exact .inl ⟨rfl, rfl⟩
  rename_i hmin
  split
  · exact .inl ⟨rfl, rfl⟩
  split
  · exact .inl ⟨rfl, rfl⟩
  have hlen := blobLen_window (Nat.le_of_not_lt hmin) behind []
  rw [List.append_nil] at hlen
  rw [parse_eq _ _ _ _ σ.conn, hlen]
  cases hp : parse (fun i => window σ.conn.m_rxBuffer.items behind (4 + i))
      ((prefixLen σ.conn.m_rxBuffer.items).toNat - 1) 1 .start (blank σ.conn.params) with
  | none => exact .inr (.inl ⟨rfl, rfl⟩)
  | some d =>
    refine .inr (.inr ⟨d.params, rfl, ?_⟩)
    dsimp only [Option.map_some]
    split
    · exact ⟨[], (List.append_nil _).symm, rfl, .inl ⟨rfl, sendState_conn socket _⟩⟩
    · exact ⟨[.CloseSocket socket], rfl, rfl, .inr ⟨rfl, rfl⟩⟩

variable (socket behind) in
/-- The round that waits for the end of the test. -/
theorem handle_running (hs : σ.conn.m_state = .TEST_RUNNING) :
    (window σ.conn.m_rxBuffer.items behind 0 ≠ IperfState.TEST_END.code ∧
        σ.handle socket behind = (false, { σ with conn := σ.conn.ignored }, [])) ∨
    (window σ.conn.m_rxBuffer.items behind 0 = IperfState.TEST_END.code ∧
      (σ.handle socket behind).1 = false ∧ (σ.handle socket behind).2.1.conn = σ.conn.ended ∧
      (σ.handle socket behind).2.2 = ({ σ with conn := σ.conn.ended }.SendState socket).2 ++
        if σ.stack.segment 1 = true then [.SendTxSegment socket (resultsPayload σ.conn)] else []) := by
  have hw : σ.Rewind behind = window σ.conn.m_rxBuffer.items behind := rfl
  unfold handle
  rw [hs]
  dsimp only
  unfold OnRxEnd
  rw [hw]
  dsimp only
  split
  · rename_i hne
    exact .inl ⟨by simpa using hne, rfl⟩
  · rename_i heq
    refine .inr ⟨by simpa using heq, rfl, ?_⟩
    let τ : Session := { σ with conn := σ.conn.ended }
    have hτ : (σ.popFifo 1).setState .EXCHANGE_RESULTS = τ := rfl
    have hconn : (τ.SendState socket).1.conn = σ.conn.ended := sendState_conn socket τ
    have hsegment : (τ.SendState socket).1.stack.segment 0 = σ.stack.segment 1 :=
      sendState_segment socket τ 0
    rw [hτ]
    show _ ∧ _ = (τ.SendState socket).2 ++ _
    generalize τ.SendState socket = r at hconn hsegment
    unfold GetTxSegment
    rw [hsegment]
    cases σ.stack.segment 1 with
    | false => exact ⟨hconn, (List.append_nil _).symm⟩
    | true =>
      refine ⟨hconn, ?_⟩
      show r.2 ++ [.SendTxSegment socket (resultsPayload r.1.conn)] = _
      rw [hconn]
      rfl

variable (socket behind) in
/-- In the other states a round returns. -/
theorem handle_other (hstart : σ.conn.m_state ≠ .IPERF_START)
    (hparam : σ.conn.m_state ≠ .PARAM_EXCHANGE) (hrunning : σ.conn.m_state ≠ .TEST_RUNNING) :
    (σ.handle socket behind).1 = false ∧ (σ.handle socket behind).2.1.conn = σ.conn ∧
      σ.conn.moves behind = none := by
  unfold handle IperfConnectionState.moves
  cases h : σ.conn.m_state with
  | IPERF_START => exact absurd h hstart
  | PARAM_EXCHANGE => exact absurd h hparam
  | TEST_RUNNING => exact absurd h hrunning
  | CREATE_STREAMS | TEST_START | TEST_END | EXCHANGE_RESULTS | DISPLAY_RESULTS | IPERF_DONE =>
    exact ⟨rfl, rfl, rfl⟩

variable (socket behind) in
/-- **The moves are those of the code**: a round leaves the connection in the state
it moves to, or drops it. -/
theorem handle_moves : (σ.handle socket behind).2.1.conn = .Clear ∨
    (σ.handle socket behind).2.1.conn.m_state = (σ.conn.moves behind).getD σ.conn.m_state := by
  by_cases hstart : σ.conn.m_state = .IPERF_START
  · right
    rw [moves_start hstart]
    by_cases hlen : IPERF_COOKIE_SIZE ≤ σ.conn.m_rxBuffer.items.length
    · rw [handle_cookie hstart hlen, sendState_conn, if_pos hlen]
      rfl
    · rw [handle_short hstart hlen, if_neg hlen]
      rfl
  by_cases hparam : σ.conn.m_state = .PARAM_EXCHANGE
  · rw [moves_param hparam]
    rcases handle_params socket behind hparam with
      ⟨hex, heq⟩ | ⟨-, heq⟩ | ⟨p, hex, es, -, -, ⟨-, hconn⟩ | ⟨-, hconn⟩⟩
    · rw [hex, heq]
      exact .inr rfl
    · rw [heq]
      exact .inl rfl
    · rw [hex, hconn]
      exact .inr rfl
    · exact .inl hconn
  by_cases hrunning : σ.conn.m_state = .TEST_RUNNING
  · right
    rw [moves_running hrunning]
    rcases handle_running socket behind hrunning with
      ⟨hne, heq⟩ | ⟨hcode, -, hconn, -⟩
    · rw [heq, if_neg hne]
      rfl
    · rw [hconn, if_pos hcode]
      rfl
  · obtain ⟨-, hconn, hnone⟩ :=
      handle_other socket behind hstart hparam hrunning
    right
    rw [hnone, hconn]
    rfl

/-! ## What a round says -/

/-- The client hears of the state that the round moves to. -/
def Told (socket : TCPTableEntry) (behind : Nat → UInt8) (σ : Session) : Prop :=
  ∀ m_state, σ.conn.moves behind = some m_state →
    notice socket σ.conn m_state ⊆ (σ.handle socket behind).2.2

theorem told_iff_of_moves {m_state : IperfState} (h : σ.conn.moves behind = some m_state) :
    Told socket behind σ ↔ notice socket σ.conn m_state ⊆ (σ.handle socket behind).2.2 := by
  refine ⟨fun ht => ht m_state h, fun hn d hd => ?_⟩
  obtain rfl : m_state = d := Option.some.inj (h.symm.trans hd)
  exact hn

theorem notice_subset_iff {m_state : IperfState} (h : m_state ≠ .EXCHANGE_RESULTS)
    (c : IperfConnectionState) (es : List Tx) :
    notice socket c m_state ⊆ es ↔ announce socket m_state ∈ es := by
  unfold notice
  rw [if_neg h, List.cons_subset]
  exact and_iff_left (List.nil_subset es)

theorem told_cookie (hs : σ.conn.m_state = .IPERF_START)
    (hlen : IPERF_COOKIE_SIZE ≤ σ.conn.m_rxBuffer.items.length) :
    Told socket behind σ ↔ σ.stack.segment 0 = true := by
  rw [told_iff_of_moves ((moves_start hs).trans (if_pos hlen)),
    notice_subset_iff (by decide), handle_cookie hs hlen]
  exact announce_mem_sendState rfl

theorem told_params (hs : σ.conn.m_state = .PARAM_EXCHANGE) {p : Params}
    (hex : exchange σ.conn.params σ.conn.m_rxBuffer.items behind = some (some p)) :
    Told socket behind σ ↔ σ.stack.segment 0 = true := by
  have hmoves : σ.conn.moves behind = some .CREATE_STREAMS := by
    rw [moves_param hs, hex]
    rfl
  rw [told_iff_of_moves hmoves, notice_subset_iff (by decide)]
  rcases handle_params socket _ hs with ⟨hex', -⟩ | ⟨hex', -⟩ | ⟨p', hex', es, hlog, -, hes⟩
  · cases hex.symm.trans hex'
  · cases hex.symm.trans hex'
  · have hnot : announce socket .CREATE_STREAMS ∉ es := by
      rcases hes with ⟨rfl, -⟩ | ⟨rfl, -⟩
      · exact List.not_mem_nil
      · exact fun hmem => by cases List.mem_singleton.mp hmem
    rw [hlog, List.mem_append, or_iff_left hnot]
    exact announce_mem_sendState rfl

theorem told_end (hs : σ.conn.m_state = .TEST_RUNNING)
    (hcode : window σ.conn.m_rxBuffer.items behind 0 = IperfState.TEST_END.code) :
    Told socket behind σ ↔ σ.stack.segment 0 = true ∧ σ.stack.segment 1 = true := by
  rw [told_iff_of_moves ((moves_running hs).trans (if_pos hcode))]
  rcases handle_running socket behind hs with ⟨hne, -⟩ | ⟨-, -, -, hlog⟩
  · exact absurd hcode hne
  have hne : announce socket .EXCHANGE_RESULTS ≠
      .SendTxSegment socket (resultsPayload σ.conn) := by
    intro he
    injection he with _ hpayload
    have hlen := congrArg List.length hpayload
    unfold resultsPayload at hlen
    simp only [List.length_append, List.length_cons, List.length_nil] at hlen
    omega
  have hsaid : announce socket .EXCHANGE_RESULTS ∈
      ({ σ with conn := σ.conn.ended }.SendState socket).2 ↔ σ.stack.segment 0 = true :=
    announce_mem_sendState rfl
  have hother : .SendTxSegment socket (resultsPayload σ.conn) ∉
      ({ σ with conn := σ.conn.ended }.SendState socket).2 := by
    rw [sendState_log]
    split
    · exact fun hmem => hne (List.mem_singleton.mp hmem).symm
    · exact List.not_mem_nil
  unfold notice
  rw [hlog, if_pos rfl, List.cons_subset, List.cons_subset, and_iff_left (List.nil_subset _),
    List.mem_append, List.mem_append, hsaid, or_iff_right hother]
  cases σ.stack.segment 1 with
  | false => simp
  | true => simp [hne]

/-! ## What the loop says -/

/-- The client hears of every state that `OnRxData` moves to. -/
def AllTold (socket : TCPTableEntry) (behind : Nat → UInt8) (σ : Session) : Prop :=
  ∀ τ, Visits (fun σ => (Except.ok (σ.handle socket behind) : Except Fault _)) σ τ →
    Told socket behind τ

theorem told_of_moves (h : σ.conn.moves behind = none) : Told socket behind σ := by
  intro d hd
  cases h.symm.trans hd

theorem allTold_of_last (h : (σ.handle socket behind).1 = false) :
    AllTold socket behind σ ↔ Told socket behind σ := by
  have hlast : (Except.ok (σ.handle socket behind) : Except Fault _) =
      .ok (false, (σ.handle socket behind).2) := by rw [← h]
  refine ⟨fun hall => hall σ (.start σ), fun hσ τ hτ => ?_⟩
  rw [(visits_iff_of_last hlast).mp hτ]
  exact hσ

theorem allTold_of_more {es : List Tx} (h : σ.handle socket behind = (true, τ, es)) :
    AllTold socket behind σ ↔ Told socket behind σ ∧ AllTold socket behind τ := by
  have hmore : (Except.ok (σ.handle socket behind) : Except Fault _) = .ok (true, τ, es) :=
    congrArg _ h
  constructor
  · intro hall
    exact ⟨hall σ (.start σ), fun υ hυ => hall υ (.round hmore hυ)⟩
  · rintro ⟨hσ, hτ⟩ υ hυ
    rcases (visits_iff_of_more hmore).mp hυ with rfl | hυ
    · exact hσ
    · exact hτ υ hυ

/-- A connection that has just been dropped or accepted does not move. -/
theorem allTold_of_quiet (h : σ.conn = .Clear ∨ σ.conn.m_state = .CREATE_STREAMS) :
    AllTold socket behind σ := by
  have hquiet : (σ.handle socket behind).1 = false ∧ σ.conn.moves behind = none := by
    rcases h with h | h
    · have hlen : ¬ IPERF_COOKIE_SIZE ≤ σ.conn.m_rxBuffer.items.length := by rw [h]; decide
      have hstart : σ.conn.m_state = .IPERF_START := by rw [h]; rfl
      exact ⟨congrArg Prod.fst (handle_short hstart hlen), (moves_start hstart).trans (if_neg hlen)⟩
    · have := handle_other socket behind
        (by rw [h]; decide) (by rw [h]; decide) (by rw [h]; decide)
      exact ⟨this.1, this.2.2⟩
  exact (allTold_of_last hquiet.1).mpr (told_of_moves hquiet.2)

theorem allTold_params (hs : σ.conn.m_state = .PARAM_EXCHANGE) : AllTold socket behind σ ↔
    ((exchange σ.conn.params σ.conn.m_rxBuffer.items behind).join.isSome = true →
      σ.stack.segment 0 = true) := by
  rcases handle_params socket behind hs with
    ⟨hex, heq⟩ | ⟨hex, heq⟩ | ⟨p, hex, es, -, hmore, hconn⟩
  · have hmoves : σ.conn.moves behind = none := by rw [moves_param hs, hex]; rfl
    rw [allTold_of_last (by rw [heq]), hex]
    exact ⟨fun _ h => Bool.noConfusion h, fun _ => told_of_moves hmoves⟩
  · have hmoves : σ.conn.moves behind = none := by rw [moves_param hs, hex]; rfl
    rw [allTold_of_more heq, hex]
    exact ⟨fun _ h => Bool.noConfusion h,
      fun _ => ⟨told_of_moves hmoves, allTold_of_quiet (.inl rfl)⟩⟩
  · have hquiet : AllTold socket behind (σ.handle socket behind).2.1 := by
      rcases hconn with ⟨-, hconn⟩ | ⟨-, hconn⟩
      · exact allTold_of_quiet (.inr (by rw [hconn]; rfl))
      · exact allTold_of_quiet (.inl hconn)
    have heq : σ.handle socket behind =
        (true, (σ.handle socket behind).2.1, (σ.handle socket behind).2.2) := by rw [← hmore]
    rw [allTold_of_more heq, told_params hs hex, and_iff_left hquiet, hex]
    exact ⟨fun h _ => h, fun h => h rfl⟩

theorem forall_lt_one {P : Nat → Prop} : (∀ k < 1, P k) ↔ P 0 := by simp

theorem forall_lt_two {P : Nat → Prop} : (∀ k < 2, P k) ↔ P 0 ∧ P 1 := by
  rw [Nat.forall_lt_succ_right, forall_lt_one]

/-- **The loop announces every state** exactly when all the segments it asks for are
there. -/
theorem allTold_iff : AllTold socket behind σ ↔
    ∀ k < demand behind σ.conn, σ.stack.segment k = true := by
  unfold demand
  by_cases hstart : σ.conn.m_state = .IPERF_START
  · rw [moves_start hstart]
    by_cases hlen : IPERF_COOKIE_SIZE ≤ σ.conn.m_rxBuffer.items.length
    · have hparam : σ.conn.cookieRead.m_state = .PARAM_EXCHANGE := rfl
      let τ : Session := { σ with conn := σ.conn.cookieRead }
      have hconn : (τ.SendState socket).1.conn = σ.conn.cookieRead := sendState_conn socket τ
      have hsegment : (τ.SendState socket).1.stack.segment 0 = σ.stack.segment 1 :=
        sendState_segment socket τ 0
      have heq : σ.handle socket behind =
          (true, (τ.SendState socket).1, (τ.SendState socket).2) := handle_cookie hstart hlen
      rw [allTold_of_more heq, told_cookie hstart hlen, allTold_params (by rw [hconn]; rfl),
        hsegment, hconn, if_pos hlen]
      dsimp only
      rw [moves_param hparam]
      by_cases hex : (exchange σ.conn.cookieRead.params σ.conn.cookieRead.m_rxBuffer.items
          behind).join.isSome = true
      · rw [if_pos hex]
        show _ ↔ ∀ k < 2, σ.stack.segment k = true
        rw [forall_lt_two]
        simp [hex]
      · rw [if_neg hex]
        show _ ↔ ∀ k < 1, σ.stack.segment k = true
        rw [forall_lt_one]
        simp [hex]
    · rw [allTold_of_last (congrArg Prod.fst (handle_short hstart hlen)), if_neg hlen]
      exact ⟨fun _ k hk => absurd hk (Nat.not_lt_zero k),
        fun _ => told_of_moves ((moves_start hstart).trans (if_neg hlen))⟩
  by_cases hparam : σ.conn.m_state = .PARAM_EXCHANGE
  · rw [allTold_params hparam, moves_param hparam]
    by_cases hex : (exchange σ.conn.params σ.conn.m_rxBuffer.items behind).join.isSome = true
    · rw [if_pos hex]
      show _ ↔ ∀ k < 1, σ.stack.segment k = true
      rw [forall_lt_one]
      simp [hex]
    · rw [if_neg hex]
      exact ⟨fun _ k hk => absurd hk (Nat.not_lt_zero k), fun _ h => absurd h hex⟩
  by_cases hrunning : σ.conn.m_state = .TEST_RUNNING
  · rw [moves_running hrunning]
    rcases handle_running socket behind hrunning with
      ⟨hne, heq⟩ | ⟨hcode, hlast, -, -⟩
    · rw [allTold_of_last (by rw [heq]), if_neg hne]
      exact ⟨fun _ k hk => absurd hk (Nat.not_lt_zero k),
        fun _ => told_of_moves ((moves_running hrunning).trans (if_neg hne))⟩
    · rw [allTold_of_last hlast, told_end hrunning hcode, if_pos hcode]
      show _ ↔ ∀ k < 2, σ.stack.segment k = true
      rw [forall_lt_two]
  · obtain ⟨hlast, -, hnone⟩ :=
      handle_other socket behind hstart hparam hrunning
    rw [allTold_of_last hlast, hnone]
    exact ⟨fun _ k hk => absurd hk (Nat.not_lt_zero k), fun _ => told_of_moves hnone⟩

/-- If all is told, the state that `OnRxData` leaves behind is. -/
theorem announced_of_allTold {es : List Tx} (h : AllTold socket behind σ)
    (hr : rounds (fun σ => .ok (σ.handle socket behind)) Fault.stuck 3 σ = .ok (τ, es))
    (hbound : τ.conn.boundTo ≠ none) (hne : τ.conn.m_state ≠ σ.conn.m_state) :
    announce socket τ.conn.m_state ∈ es := by
  let J (υ : Session) (log : List Tx) : Prop := υ.conn.boundTo = none ∨
    υ.conn.m_state = σ.conn.m_state ∨ announce socket υ.conn.m_state ∈ log
  have hround (υ : Session) (log : List Tx) (b : Bool) (υ' : Session) (fs : List Tx) (hJ : J υ log)
      (htold : Told socket behind υ)
      (hb : (Except.ok (υ.handle socket behind) : Except Fault _) = .ok (b, υ', fs)) :
      J υ' (log ++ fs) := by
    have heq := Except.ok.inj hb
    have hmoved : Moved υ.conn υ'.conn := by
      have h : Moved υ.conn (υ.handle socket behind).2.1.conn := handle_moved
      rwa [heq] at h
    have hmoves := handle_moves (σ := υ) socket behind
    rw [heq] at hmoves
    rcases hmoves with hclear | hstate
    · exact .inl (by rw [hclear]; rfl)
    · rcases hJ with hfree | hJ
      · exact .inl (hmoved.boundTo_none hfree)
      · right
        rw [hstate]
        cases hd : υ.conn.moves behind with
        | none => exact hJ.imp id (List.mem_append_left _)
        | some m_state =>
          have hsub := htold m_state hd
          rw [heq] at hsub
          exact .inr (List.mem_append_right _ (hsub List.mem_cons_self))
  have hstart : J σ [] := .inr (.inl rfl)
  have hJ : J τ es := rounds_rule (C := Told socket behind) (J := J) (Q := J)
    (fun υ log υ' fs => hround υ log true υ' fs) (fun υ log υ' fs => hround υ log false υ' fs)
    hstart h hr
  exact (hJ.resolve_left hbound).resolve_left hne

/-! ## Other handlers -/

theorem serve_segment (socket : TCPTableEntry) (count : UInt32) (σ : Session) (k : Nat) :
    (σ.serve socket count).1.stack.segment k =
      σ.stack.segment (k + if σ.conn.m_state == .TEST_START then 1 else 0) := by
  have hdata (k : Nat) :
      (σ.SendDataOnStream socket count).1.stack.segment k = σ.stack.segment k := by
    unfold SendDataOnStream GetTxPacket
    cases σ.stack.packet 0 <;> rfl
  unfold serve
  cases hs : σ.conn.m_state with
  | TEST_START =>
    dsimp only
    rw [sendState_segment]
    exact hdata (k + 1)
  | TEST_RUNNING => exact hdata k
  | IPERF_START | PARAM_EXCHANGE | CREATE_STREAMS | TEST_END | EXCHANGE_RESULTS | DISPLAY_RESULTS
  | IPERF_DONE => rfl

/-- A test that starts is announced if there is a segment. -/
theorem serve_announces (hs : σ.conn.m_state = .TEST_START) (socket : TCPTableEntry)
    (count : UInt32) : announce socket .TEST_RUNNING ∈ (σ.serve socket count).2 ↔
      σ.stack.segment 0 = true := by
  have hsegment : (σ.SendDataOnStream socket count).1.stack.segment 0 = σ.stack.segment 0 := by
    unfold SendDataOnStream GetTxPacket
    cases σ.stack.packet 0 <;> rfl
  have hnot : announce socket .TEST_RUNNING ∉ (σ.SendDataOnStream socket count).2 := by
    intro hmem
    obtain ⟨ws, he⟩ := sendDataOnStream_data hmem
    cases he
  unfold serve
  rw [hs]
  dsimp only
  rw [List.mem_append, or_iff_right hnot, ← hsegment]
  exact announce_mem_sendState rfl

theorem openStream_announces (hpacket : σ.stack.packet 0 = true) (socket : TCPTableEntry)
    (sport : UInt16) : announce socket .TEST_START ∈ (σ.openStream socket sport).2 ↔
      σ.stack.segment 0 = true := by
  unfold openStream GetTxPacket
  rw [hpacket]
  dsimp only
  rw [List.mem_cons, or_iff_right (by intro he; cases he)]
  exact announce_mem_sendState rfl

end Session

namespace Iperf3Server

variable {n : Nat} {srv : TCPServer n} {s t : Iperf3Server n} {count : Fin n → UInt32}

/-- The tests that an iteration starts, of the slots `is`. -/
def starting (s : Iperf3Server n) (is : List (Fin n)) : Nat :=
  (is.takeWhile fun i => (s.sockets i).isSome).countP fun i => (s.m_state i).m_state == .TEST_START

theorem starting_put {is : List (Fin n)} {i : Fin n} (hi : i ∉ is) (σ : Session) :
    (s.put i σ).starting is = s.starting is := by
  induction is with
  | nil => rfl
  | cons j is ih =>
    have hj : j ≠ i := fun h => hi (h ▸ List.mem_cons_self)
    have ih := ih fun h => hi (List.mem_cons_of_mem _ h)
    unfold starting at ih ⊢
    rw [List.takeWhile_cons, List.takeWhile_cons, sockets_put_of_ne hj]
    split
    · rw [List.countP_cons, List.countP_cons, ih, put_of_ne hj]
    · rfl

theorem starting_of_free {j : Fin n} (hj : s.sockets j = none) (is : List (Fin n)) :
    s.starting (j :: is) = 0 := by
  unfold starting
  rw [List.takeWhile_cons, hj]
  rfl

theorem starting_cons {j : Fin n} {is : List (Fin n)} (hj : (s.sockets j).isSome = true)
    (hnot : j ∉ is) (σ : Session) : s.starting (j :: is) =
      (s.put j σ).starting is + if (s.m_state j).m_state == .TEST_START then 1 else 0 := by
  rw [starting_put hnot]
  unfold starting
  rw [List.takeWhile_cons, hj, if_pos rfl, List.countP_cons]

/-- Tests that start are announced if there is a segment for each of them. -/
theorem iterate_announces (count : Fin n → UInt32) {is : List (Fin n)}
    (his : is.Pairwise (· < ·)) :
    (∀ i socket, s.Reached is i → (s.m_state i).m_state = .TEST_START →
        s.sockets i = some socket → announce socket .TEST_RUNNING ∈ sentFor i (iterate count is s).2) ↔
      ∀ k < s.starting is, s.stack.segment k = true := by
  induction is generalizing s with
  | nil =>
    refine ⟨fun _ k hk => absurd hk (Nat.not_lt_zero k), fun _ i socket hi => ?_⟩
    exact absurd hi.1 List.not_mem_nil
  | cons j is ih =>
    obtain ⟨hlt, hrest⟩ := List.pairwise_cons.mp his
    have hnot : j ∉ is := fun hj => absurd (hlt j hj) (Nat.lt_irrefl _)
    cases hj : s.sockets j with
    | none =>
      rw [starting_of_free hj]
      refine ⟨fun _ k hk => absurd hk (Nat.not_lt_zero k), fun _ i socket hi => ?_⟩
      exact absurd hi (not_reached_of_free hlt hj i)
    | some other =>
      have hsome : (s.sockets j).isSome = true := by rw [hj]; rfl
      let σ := ((s.session j).serve other (count j)).1
      have hlog := sentFor_iterate_cons hj count is
      have hsegment (k : Nat) : (s.put j σ).stack.segment k = s.stack.segment
          (k + if (s.m_state j).m_state == .TEST_START then 1 else 0) :=
        Session.serve_segment other (count j) (s.session j) k
      have hhead (hs : (s.m_state j).m_state = .TEST_START) :
          announce other .TEST_RUNNING ∈ sentFor j (iterate count (j :: is) s).2 ↔
            s.stack.segment 0 = true := by
        rw [hlog, if_pos rfl, sentFor_iterate_of_not_mem count hrest hnot, List.append_nil]
        exact Session.serve_announces (σ := s.session j) hs other (count j)
      have htail : (∀ i socket, i ≠ j → s.Reached (j :: is) i → (s.m_state i).m_state = .TEST_START →
          s.sockets i = some socket →
            announce socket .TEST_RUNNING ∈ sentFor i (iterate count (j :: is) s).2) ↔
          ∀ k < (s.put j σ).starting is, (s.put j σ).stack.segment k = true := by
        rw [← ih hrest]
        constructor
        · intro h i socket hi hs hsocket
          have hij : i ≠ j := fun hij => hnot (hij ▸ hi.1)
          rw [put_of_ne hij] at hs
          rw [sockets_put_of_ne hij] at hsocket
          have := h i socket hij ((reached_cons_iff hlt hsome hij σ).mpr hi) hs hsocket
          rwa [hlog, if_neg (Ne.symm hij), List.nil_append] at this
        · intro h i socket hij hi hs hsocket
          rw [hlog, if_neg (Ne.symm hij), List.nil_append]
          refine h i socket ((reached_cons_iff hlt hsome hij σ).mp hi) ?_ ?_
          · rw [put_of_ne hij]
            exact hs
          · rw [sockets_put_of_ne hij]
            exact hsocket
      have hsplit : (∀ i socket, s.Reached (j :: is) i → (s.m_state i).m_state = .TEST_START →
          s.sockets i = some socket →
            announce socket .TEST_RUNNING ∈ sentFor i (iterate count (j :: is) s).2) ↔
          ((s.m_state j).m_state = .TEST_START → s.stack.segment 0 = true) ∧
            ∀ k < (s.put j σ).starting is, (s.put j σ).stack.segment k = true := by
        rw [← htail]
        constructor
        · intro h
          refine ⟨fun hs => (hhead hs).mp (h j other (reached_head hlt hsome) hs hj), ?_⟩
          exact fun i socket _ => h i socket
        · rintro ⟨h0, h⟩ i socket hi hs hsocket
          by_cases hij : i = j
          · subst hij
            cases hj.symm.trans hsocket
            exact (hhead hs).mpr (h0 hs)
          · exact h i socket hij hi hs hsocket
      rw [hsplit, starting_cons hsome hnot σ]
      simp only [hsegment]
      by_cases hs : (s.m_state j).m_state = .TEST_START
      · simp only [hs, beq_self_eq_true, if_true, forall_true_left]
        exact (Nat.forall_lt_succ_left (p := fun k => s.stack.segment k = true)).symm
      · simp [hs]

/-! ## Events -/

/-- Every state that the event moves a connection to is announced to its client. -/
structure Notified (srv : TCPServer n) (s : Iperf3Server n) (op : Op n) : Prop where
  rounds : ∀ {socket payload behind i fifo}, op = .OnRxData socket payload behind →
    srv.GetConnectionID s.sockets socket = some i →
    (s.m_state i).m_rxBuffer.push payload = some fifo →
    Session.AllTold socket behind { s.session i with conn.m_rxBuffer := fifo }
  state : ∀ {t es i socket}, step srv s op = .ok (t, es) → s.sockets i = some socket →
    t.sockets i = some socket → (t.m_state i).m_state ≠ (s.m_state i).m_state →
    announce socket (t.m_state i).m_state ∈ sentFor i es

def dataDemands (srv : TCPServer n) (s : Iperf3Server n) (socket : TCPTableEntry)
    (payload : List UInt8) (behind : Nat → UInt8) : Nat :=
  match srv.GetConnectionID s.sockets socket with
  | none => 0
  | some i =>
    match (s.m_state i).m_rxBuffer.push payload with
    | none => 0
    | some fifo => demand behind { s.m_state i with m_rxBuffer := fifo }

/-- The segments that an event asks for. -/
def demands (srv : TCPServer n) (s : Iperf3Server n) : Op n → Nat
  | .OnRxData socket payload behind => s.dataDemands srv socket payload behind
  | .OnRxUdpData srcip _ dport =>
    if (s.opener srcip dport).isSome && s.stack.packet 0 then 1 else 0
  | .Iteration _ => s.starting (List.finRange n)
  | .OnConnectionAccepted _ | .OnConnectionClosed _ => 0

theorem notified_onRxData {socket : TCPTableEntry} {payload : List UInt8} {behind : Nat → UInt8} :
    Notified srv s (.OnRxData socket payload behind) ↔
      ∀ k < s.demands srv (.OnRxData socket payload behind), s.stack.segment k = true := by
  have hdemands {i : Fin n} {fifo : CircularFIFO}
      (hid : srv.GetConnectionID s.sockets socket = some i)
      (hpush : (s.m_state i).m_rxBuffer.push payload = some fifo) :
      s.dataDemands srv socket payload behind =
        demand behind { s.m_state i with m_rxBuffer := fifo } := by
    unfold dataDemands
    rw [hid]
    dsimp only
    rw [hpush]
  show _ ↔ ∀ k < s.dataDemands srv socket payload behind, s.stack.segment k = true
  constructor
  · intro h k hk
    cases hid : srv.GetConnectionID s.sockets socket with
    | none =>
      unfold dataDemands at hk
      rw [hid] at hk
      exact absurd hk (Nat.not_lt_zero k)
    | some i =>
      cases hpush : (s.m_state i).m_rxBuffer.push payload with
      | none =>
        unfold dataDemands at hk
        rw [hid] at hk
        dsimp only at hk
        rw [hpush] at hk
        exact absurd hk (Nat.not_lt_zero k)
      | some fifo =>
        rw [hdemands hid hpush] at hk
        exact Session.allTold_iff.mp (h.rounds rfl hid hpush) k hk
  · intro h
    have htold {i : Fin n} {fifo : CircularFIFO}
        (hid : srv.GetConnectionID s.sockets socket = some i)
        (hpush : (s.m_state i).m_rxBuffer.push payload = some fifo) :
        Session.AllTold socket behind { s.session i with conn.m_rxBuffer := fifo } := by
      rw [Session.allTold_iff]
      rwa [hdemands hid hpush] at h
    refine ⟨fun hop hid hpush => ?_, fun {t es i other} ht hs hother hne => ?_⟩
    · cases hop
      exact htold hid hpush
    · have hslot := step_slot ht i
      have hbound : (t.m_state i).boundTo = some other := hother
      generalize t.m_state i = c at hslot hne hbound ⊢
      generalize sentFor i es = fs at hslot ⊢
      cases hslot with
      | other _ => exact absurd rfl hne
      | overflow _ _ => cases hbound
      | receive hid hpush hrounds =>
        cases (srv.getConnectionID_bound hid).symm.trans hs
        exact Session.announced_of_allTold (htold hid hpush) hrounds
          (by rw [hbound]; exact Option.some_ne_none _) hne

theorem notified_onRxUdpData {srcip : IPv4Address} {sport dport : UInt16} :
    Notified srv s (.OnRxUdpData srcip sport dport) ↔
      ∀ k < s.demands srv (.OnRxUdpData srcip sport dport), s.stack.segment k = true := by
  show _ ↔ ∀ k < if (s.opener srcip dport).isSome && s.stack.packet 0 then 1 else 0, _
  cases hj : s.opener srcip dport with
  | none =>
    refine ⟨fun _ k hk => absurd hk (Nat.not_lt_zero k), fun _ => ⟨nofun, ?_⟩⟩
    intro t es i socket ht _ _ hne
    obtain ⟨rfl, -⟩ := ok_eq ht
    rw [onRxUdpData_of_none hj] at hne
    exact absurd rfl hne
  | some j =>
    obtain ⟨socket, hsocket, hcreated, heq⟩ := onRxUdpData_of_opener hj sport
    cases hpacket : s.stack.packet 0 with
    | false =>
      refine ⟨fun _ k hk => absurd hk (Nat.not_lt_zero k), fun _ => ⟨nofun, ?_⟩⟩
      intro t es i socket' ht _ _ hne
      obtain ⟨rfl, -⟩ := ok_eq ht
      have hconn : ((s.session j).openStream socket sport).1.conn = s.m_state j := by
        have hpacket' : (s.session j).stack.packet 0 = false := hpacket
        unfold Session.openStream Session.GetTxPacket
        rw [hpacket']
        rfl
      rw [heq] at hne
      by_cases hij : i = j
      · subst hij
        rw [put_self, hconn] at hne
        exact absurd rfl hne
      · rw [put_of_ne hij] at hne
        exact absurd rfl hne
    | true =>
      have hann := Session.openStream_announces (σ := s.session j) hpacket socket sport
      have hconn : ((s.session j).openStream socket sport).1.conn =
          { s.m_state j with m_clientPort := sport, m_state := .TEST_START } := by
        have hpacket' : (s.session j).stack.packet 0 = true := hpacket
        unfold Session.openStream Session.GetTxPacket
        rw [hpacket']
        exact Session.sendState_conn ..
      show _ ↔ ∀ k < 1, s.stack.segment k = true
      rw [Session.forall_lt_one]
      have hsent : step srv s (.OnRxUdpData srcip sport dport) = .ok
          (s.put j ((s.session j).openStream socket sport).1,
            tag j ((s.session j).openStream socket sport).2) := congrArg Except.ok heq
      constructor
      · intro h
        have hsame : (s.put j ((s.session j).openStream socket sport).1).sockets j = some socket := by
          show IperfConnectionState.boundTo _ = _
          rw [put_self, hconn]
          exact hsocket
        have hmem := h.state hsent hsocket hsame (by rw [put_self, hconn, hcreated]; exact nofun)
        rw [put_self, hconn, sentFor_tag, if_pos rfl] at hmem
        exact hann.mp hmem
      · intro h
        refine ⟨nofun, fun {t es i socket'} ht hs _ hne => ?_⟩
        obtain ⟨rfl, rfl⟩ := ok_eq (hsent.symm.trans ht)
        by_cases hij : i = j
        · subst hij
          cases hsocket.symm.trans hs
          rw [put_self, hconn, sentFor_tag, if_pos rfl]
          exact hann.mpr h
        · rw [put_of_ne hij] at hne
          exact absurd rfl hne

theorem notified_iteration : Notified srv s (.Iteration count) ↔
    ∀ k < s.demands srv (.Iteration count), s.stack.segment k = true := by
  have hsorted := List.pairwise_lt_finRange n
  show _ ↔ ∀ k < s.starting (List.finRange n), s.stack.segment k = true
  rw [← iterate_announces count hsorted]
  obtain ⟨⟨t, es⟩, ht⟩ : ∃ r, iterate count (List.finRange n) s = r := ⟨_, rfl⟩
  have hstep : step srv s (.Iteration count) = .ok (t, es) := congrArg Except.ok ht
  rw [ht]
  have hstate {i : Fin n} {socket : TCPTableEntry} (hreach : s.Reached (List.finRange n) i)
      (hs : (s.m_state i).m_state = .TEST_START) (hsocket : s.sockets i = some socket) :
      (t.m_state i).m_state = .TEST_RUNNING ∧ t.sockets i = some socket := by
    have hslot := iterate_slot (s := s) count hsorted i
    rw [ht] at hslot
    rcases hslot with ⟨-, other, σ, -, hσ, -, hstate, -⟩ | ⟨hnot, -⟩
    · have hrunning : (σ.serve other (count i)).1.conn.m_state = .TEST_RUNNING :=
        Session.serve_running (by rw [hσ]; exact hs)
      have hbound : (σ.serve other (count i)).1.conn.boundTo = some socket := by
        obtain ⟨seq, hconn | ⟨-, hconn⟩⟩ := σ.serve_conn other (count i)
        · rw [hconn, hσ]
          exact hsocket
        · rw [hconn, hσ]
          exact hsocket
      show (t.m_state i).m_state = _ ∧ (t.m_state i).boundTo = _
      rw [hstate]
      exact ⟨hrunning, hbound⟩
    · exact absurd hreach hnot
  constructor
  · intro h i socket hreach hs hsocket
    obtain ⟨hrunning, hbound⟩ := hstate hreach hs hsocket
    have hmem := h.state hstep hsocket hbound (by rw [hrunning, hs]; decide)
    rwa [hrunning] at hmem
  · intro h
    refine ⟨nofun, fun {t' es' i socket} ht' hsocket _ hne => ?_⟩
    obtain ⟨rfl, rfl⟩ : t' = t ∧ es' = es := ok_eq (hstep.symm.trans ht')
    have hslot := step_slot hstep i
    have hstarts : s.Reached (List.finRange n) i ∧ (s.m_state i).m_state = .TEST_START := by
      generalize t'.m_state i = c at hslot hne
      generalize sentFor i es' = fs at hslot
      cases hslot with
      | other _ => exact absurd rfl hne
      | @serve socket _ σ hreach _ hσ _ =>
        obtain ⟨seq, hconn | ⟨hstart, -⟩⟩ := σ.serve_conn socket (count i)
        · rw [hconn, hσ] at hne
          exact absurd rfl hne
        · exact ⟨reached_finRange.mpr hreach, by rw [← hσ]; exact hstart⟩
    rw [(hstate hstarts.1 hstarts.2 hsocket).1]
    exact h i socket hstarts.1 hstarts.2 hsocket

/-- **Every transition is announced** exactly when each segment that the event asks
for is there. -/
theorem notified_iff (srv : TCPServer n) (s : Iperf3Server n) (op : Op n) :
    Notified srv s op ↔ ∀ k < s.demands srv op, s.stack.segment k = true := by
  cases op with
  | OnRxData socket payload behind => exact notified_onRxData
  | OnRxUdpData srcip sport dport => exact notified_onRxUdpData
  | Iteration count => exact notified_iteration
  | OnConnectionAccepted socket =>
    refine ⟨fun _ k hk => absurd hk (Nat.not_lt_zero k), fun _ => ⟨nofun, ?_⟩⟩
    intro t es i other ht hs _ hne
    have hslot := step_slot ht i
    generalize t.m_state i = c at hslot hne
    generalize sentFor i es = fs at hslot
    cases hslot with
    | other _ => exact absurd rfl hne
    | accept hid => cases hs.symm.trans (srv.allocateConnectionID_free hid)
  | OnConnectionClosed socket =>
    refine ⟨fun _ k hk => absurd hk (Nat.not_lt_zero k), fun _ => ⟨nofun, ?_⟩⟩
    intro t es i other ht _ hother hne
    have hslot := step_slot ht i
    have hbound : (t.m_state i).boundTo = some other := hother
    generalize t.m_state i = c at hslot hne hbound
    generalize sentFor i es = fs at hslot
    cases hslot with
    | other _ => exact absurd rfl hne
    | close _ => cases hbound

/-- There is no segment when the cookie comes. -/
theorem cookie_not_announced :
    ¬ Notified (.search 1)
      ((init ⟨fun _ => false, fun _ => true⟩).OnConnectionAccepted (.search 1) client)
      (.OnRxData client (List.replicate IPERF_COOKIE_SIZE 0x61) fun _ => 0) := by
  intro h
  obtain ⟨⟨t, es⟩, ht, hp⟩ := exists_of_returns
    (P := fun r : Iperf3Server 1 × List (Entry 1) => r.1.sockets 0 == some client &&
      (r.1.m_state 0).m_state == .PARAM_EXCHANGE && r.2.isEmpty)
    (r := step (.search 1)
      ((init ⟨fun _ => false, fun _ => true⟩).OnConnectionAccepted (.search 1) client)
      (.OnRxData client (List.replicate IPERF_COOKIE_SIZE 0x61) fun _ => 0)) (by decide +kernel)
  simp only [Bool.and_eq_true, beq_iff_eq] at hp
  obtain ⟨⟨hbound, hstate⟩, hnone⟩ := hp
  have hmem := h.state ht (i := 0) (by decide) hbound (by rw [hstate]; decide)
  rw [List.isEmpty_iff.mp hnone] at hmem
  exact List.not_mem_nil hmem

end Iperf3Server

end EmbeddedPlatform.Services
