import EmbeddedPlatform.Services.Handlers

/-! # What holds of a slot in every run

A slot past the parameter exchange has parameters that the server supports, and
data goes to the client of such a slot only, to a port that the client has sent
from. -/
namespace EmbeddedPlatform.Services
open EmbeddedPlatform.Lib

variable {n : Nat}

/-- The parameter exchange is over. -/
def IperfState.streams : IperfState → Bool
  | CREATE_STREAMS | TEST_START | TEST_RUNNING | EXCHANGE_RESULTS => true
  | IPERF_START | PARAM_EXCHANGE | TEST_END | DISPLAY_RESULTS | IPERF_DONE => false

/-- The parameters are supported. -/
structure Supported (c : IperfConnectionState) : Prop where
  mode : c.m_mode = .MODE_UDP
  reverseMode : c.m_reverseMode = true
  len : c.m_len < 1480

theorem Supported.of_params {c d : IperfConnectionState} (h : Supported c)
    (hp : d.params = c.params) : Supported d := by
  refine ⟨(congrArg Params.mode hp).trans h.mode,
    (congrArg Params.reverseMode hp).trans h.reverseMode, ?_⟩
  show d.params.len < 1480
  rw [hp]
  exact h.len

/-- The client of the slot has sent a datagram from the port of its stream. -/
def Asked (ops : List (Op n)) (c : IperfConnectionState) : Prop :=
  ∀ socket, c.boundTo = some socket →
    .OnRxUdpData socket.m_remoteIP c.m_clientPort IPERF3_PORT ∈ ops

/-! ## What holds of a slot -/

structure SlotOk (ops : List (Op n)) (c : IperfConnectionState) : Prop where
  free : c.m_valid = false → c = .Clear
  fresh : c.m_state = .IPERF_START ∨ c.m_state = .PARAM_EXCHANGE →
    c.params = IperfConnectionState.Clear.params
  supported : c.m_state.streams = true → Supported c
  asked : c.m_state = .TEST_START ∨ c.m_state = .TEST_RUNNING → Asked ops c

theorem boundTo_of_valid {c : IperfConnectionState} (h : c.m_valid = true) :
    c.boundTo = c.m_socket := if_pos h

theorem valid_of_boundTo {c : IperfConnectionState} {socket : TCPTableEntry}
    (h : c.boundTo = some socket) : c.m_valid = true := by
  unfold IperfConnectionState.boundTo at h
  split at h
  · assumption
  · cases h

theorem not_valid_of_boundTo {c : IperfConnectionState} (h : c.boundTo = none) :
    c.m_valid = false := by
  cases hv : c.m_valid with
  | false => rfl
  | true =>
    have hs := c.socket_of_valid hv
    rw [← boundTo_of_valid hv, h] at hs
    cases hs

section
variable {ops : List (Op n)} {c d : IperfConnectionState}

theorem slotOk_clear (ops : List (Op n)) : SlotOk ops .Clear where
  free _ := rfl
  fresh _ := rfl
  supported h := nomatch h
  asked h := by rcases h with h | h <;> cases h

theorem SlotOk.mono (h : SlotOk ops c) (ops' : List (Op n)) : SlotOk (ops ++ ops') c where
  free := h.free
  fresh := h.fresh
  supported := h.supported
  asked hs socket hsocket := List.mem_append_left _ (h.asked hs socket hsocket)

theorem SlotOk.valid_of_ne (h : SlotOk ops c) (hs : c.m_state ≠ .IPERF_START) :
    c.m_valid = true := by
  cases hv : c.m_valid with
  | true => rfl
  | false =>
    rw [h.free hv] at hs
    exact absurd rfl hs

theorem SlotOk.bound (h : SlotOk ops c) (hfree : c.boundTo = none) (socket : TCPTableEntry) :
    SlotOk ops { c.bind socket with m_state := .IPERF_START } := by
  rw [h.free (not_valid_of_boundTo hfree)]
  refine ⟨?_, ?_, ?_, ?_⟩
  · intro hv
    cases hv
  · intro _
    rfl
  · intro hs
    cases hs
  · intro hs
    rcases hs with hs | hs <;> cases hs

theorem SlotOk.received (h : SlotOk ops c) (hv : c.m_valid = true) (fifo : CircularFIFO) :
    SlotOk ops { c with m_rxBuffer := fifo } where
  free hf := Bool.noConfusion (hv.symm.trans hf)
  fresh := h.fresh
  supported hs := (h.supported hs).of_params rfl
  asked := h.asked

/-- What `OnRxParamExchange` checks. -/
theorem supported_of_admits (hok : Session.admits d = true) : Supported d := by
  unfold Session.admits at hok
  simp only [Bool.and_eq_true, beq_iff_eq, decide_eq_true_eq] at hok
  exact ⟨hok.1.1, hok.1.2, hok.2⟩

theorem parse_bound {json : Nat → UInt8} {k i : Nat} {q : JsonParser}
    (h : parse json k i q c = some d) : d.m_valid = c.m_valid ∧ d.boundTo = c.boundTo := by
  rw [parse_eq] at h
  obtain ⟨e, -, rfl⟩ := Option.map_eq_some_iff.mp h
  exact ⟨rfl, rfl⟩

/-- A round of `OnRxData` keeps the slot in order. -/
theorem SlotOk.moved (h : SlotOk ops c) (hm : Moved c d) : SlotOk ops d := by
  cases hm with
  | stay => exact h
  | refuse hs => exact slotOk_clear ops
  | cookie cookie hs hlen =>
    refine ⟨?_, fun _ => h.fresh (.inl hs), (fun hs' => nomatch hs'), ?_⟩
    · intro hv
      rw [h.free hv] at hlen
      exact absurd hlen (by decide)
    · intro hs'
      rcases hs' with hs' | hs' <;> cases hs'
  | accept json len size hs hparse hok =>
    have hv := h.valid_of_ne (by rw [hs]; exact nofun)
    have hd := supported_of_admits hok
    refine ⟨?_, ?_, fun _ => hd.of_params rfl, ?_⟩
    · intro hf
      exact Bool.noConfusion ((hv.symm.trans (parse_bound hparse).1.symm).trans hf)
    · intro hs'
      rcases hs' with hs' | hs' <;> cases hs'
    · intro hs'
      rcases hs' with hs' | hs' <;> cases hs'
  | ignore hs =>
    exact h.received (h.valid_of_ne (by rw [hs]; exact nofun)) _
  | finish hs =>
    have hv := h.valid_of_ne (by rw [hs]; exact nofun)
    have hc := h.supported (by rw [hs]; rfl)
    refine ⟨fun hf => Bool.noConfusion (hv.symm.trans hf), ?_, fun _ => hc.of_params rfl, ?_⟩
    · intro hs'
      rcases hs' with hs' | hs' <;> cases hs'
    · intro hs'
      rcases hs' with hs' | hs' <;> cases hs'

/-- So does the answer to a datagram of its client. -/
theorem SlotOk.opened {σ : Session} {socket : TCPTableEntry} {sport : UInt16}
    (h : SlotOk ops σ.conn) (hs : σ.conn.m_state = .CREATE_STREAMS)
    (hsocket : σ.conn.boundTo = some socket)
    (hop : .OnRxUdpData socket.m_remoteIP sport IPERF3_PORT ∈ ops) :
    SlotOk ops (σ.openStream socket sport).1.conn := by
  have hv := valid_of_boundTo hsocket
  have hc := h.supported (by rw [hs]; rfl)
  rcases σ.openStream_conn socket sport with hconn | hconn
  · rw [hconn]
    exact h
  · rw [hconn]
    refine ⟨fun hf => Bool.noConfusion (hv.symm.trans hf), ?_, fun _ => hc.of_params rfl, ?_⟩
    · intro hs'
      rcases hs' with hs' | hs' <;> cases hs'
    · intro _ socket' hsocket'
      obtain rfl : socket = socket' := Option.some.inj (hsocket.symm.trans hsocket')
      exact hop

/-- And what `Iteration` does for it. -/
theorem SlotOk.served {σ : Session} (h : SlotOk ops σ.conn) (hv : σ.conn.m_valid = true)
    (socket : TCPTableEntry) (count : UInt32) :
    SlotOk ops (σ.serve socket count).1.conn := by
  obtain ⟨seq, hconn | ⟨hs, hconn⟩⟩ := σ.serve_conn socket count
  · rw [hconn]
    exact ⟨fun hf => Bool.noConfusion (hv.symm.trans hf), h.fresh,
      fun hs => (h.supported hs).of_params rfl, h.asked⟩
  · have hc := h.supported (by rw [hs]; rfl)
    rw [hconn]
    refine ⟨fun hf => Bool.noConfusion (hv.symm.trans hf), ?_, fun _ => hc.of_params rfl,
      fun _ => h.asked (.inl hs)⟩
    intro hs'
    rcases hs' with hs' | hs' <;> cases hs'

end

/-! ## The server -/

namespace Iperf3Server

variable {s : Iperf3Server n} {ops : List (Op n)} {id : Fin n} {σ : Session}

theorem put_state (i : Fin n) :
    (s.put id σ).m_state i = if i = id then σ.conn else s.m_state i := Function.update_apply ..

theorem mem_tag {i : Fin n} {e : Tx} {es : List Tx} :
    (i, e) ∈ tag id es ↔ i = id ∧ e ∈ es := by
  unfold tag
  simp [eq_comm, and_comm]

/-- Every slot is in order. -/
def Ok (s : Iperf3Server n) (ops : List (Op n)) : Prop := ∀ i, SlotOk ops (s.m_state i)

theorem Ok.mono (h : s.Ok ops) (ops' : List (Op n)) : s.Ok (ops ++ ops') :=
  fun i => (h i).mono ops'

theorem Ok.update (h : s.Ok ops) {c : IperfConnectionState} (hc : SlotOk ops c) (stack : Stack) :
    Ok ⟨Function.update s.m_state id c, stack⟩ ops := by
  intro i
  show SlotOk ops (Function.update s.m_state id c i)
  rw [Function.update_apply]
  split
  · exact hc
  · exact h i

theorem ok_onConnectionAccepted (srv : TCPServer n) (h : s.Ok ops) (socket : TCPTableEntry) :
    (s.OnConnectionAccepted srv socket).Ok ops := by
  unfold OnConnectionAccepted
  split
  · exact h
  · rename_i id hid
    exact h.update ((h id).bound (srv.allocateConnectionID_free hid) socket) s.stack

theorem ok_onConnectionClosed (srv : TCPServer n) (h : s.Ok ops) (socket : TCPTableEntry) :
    (s.OnConnectionClosed srv socket).Ok ops := by
  unfold OnConnectionClosed
  split
  · exact h
  · exact h.update (slotOk_clear ops) s.stack

theorem ok_onRxData {srv : TCPServer n} (h : s.Ok ops) {socket : TCPTableEntry}
    {payload : List UInt8} {behind : Nat → UInt8} {ok : Bool} {t : Iperf3Server n}
    {es : List (Entry n)} (ht : s.OnRxData srv socket payload behind = .ok (ok, t, es)) :
    t.Ok ops ∧ ∀ e ∈ es, e.2.isData = false := by
  unfold OnRxData at ht
  split at ht
  · cases ht
    exact ⟨h, fun e he => nomatch he⟩
  · rename_i id hid
    split at ht
    · cases ht
      refine ⟨h.update (slotOk_clear ops) _, fun e he => ?_⟩
      exact (s.session id).dropConnection_noData e.2 (mem_tag.mp he).2
    · rename_i fifo hfifo
      have hv := valid_of_boundTo (srv.getConnectionID_bound hid)
      split at ht
      · cases ht
      · rename_i σ fs hrounds
        cases ht
        have hσ : SlotOk ops σ.conn ∧ NoData fs :=
          Session.rounds_handle (J := fun σ es => SlotOk ops σ.conn ∧ NoData es)
            (fun σ log hσ => ⟨hσ.1.moved σ.handle_moved, hσ.2.append σ.handle_noData⟩)
            ⟨(h id).received hv fifo, noData_nil⟩ hrounds
        refine ⟨h.update hσ.1 _, fun e he => ?_⟩
        exact hσ.2 e.2 (mem_tag.mp he).2

/-- The slot that a datagram opens a stream of. -/
theorem onRxUdpData_cases (s : Iperf3Server n) (srcip : IPv4Address) (sport dport : UInt16) :
    s.OnRxUdpData srcip sport dport = (s, []) ∨
      ∃ i socket, dport = IPERF3_PORT ∧ s.sockets i = some socket ∧ socket.m_remoteIP = srcip ∧
        (s.m_state i).m_state = .CREATE_STREAMS ∧
        s.OnRxUdpData srcip sport dport =
          (s.put i ((s.session i).openStream socket sport).1,
            tag i ((s.session i).openStream socket sport).2) := by
  unfold OnRxUdpData
  by_cases hport : dport = IPERF3_PORT
  · rw [if_neg (by simpa using hport)]
    dsimp only
    split
    · exact .inl rfl
    · rename_i i hi
      have hasks := List.find?_some hi
      split
      · exact .inl rfl
      · rename_i socket hsocket
        rw [hsocket] at hasks
        simp only [Bool.and_eq_true, beq_iff_eq] at hasks
        exact .inr ⟨i, socket, hport, hsocket, hasks.2, hasks.1, rfl⟩
  · rw [if_pos (by simpa using hport)]
    exact .inl rfl

theorem ok_onRxUdpData (h : s.Ok ops) (srcip : IPv4Address) (sport dport : UInt16) :
    (s.OnRxUdpData srcip sport dport).1.Ok (ops ++ [.OnRxUdpData srcip sport dport]) ∧
      ∀ e ∈ (s.OnRxUdpData srcip sport dport).2, e.2.isData = false := by
  rcases s.onRxUdpData_cases srcip sport dport with heq | ⟨i, socket, rfl, hi, rfl, hs, heq⟩
  · rw [heq]
    exact ⟨h.mono _, fun e he => nomatch he⟩
  · rw [heq]
    constructor
    · have hσ := ((h i).mono [.OnRxUdpData socket.m_remoteIP sport IPERF3_PORT])
      have hop : Op.OnRxUdpData socket.m_remoteIP sport IPERF3_PORT ∈
          ops ++ [.OnRxUdpData socket.m_remoteIP sport IPERF3_PORT] :=
        List.mem_append_right _ (List.mem_singleton.mpr rfl)
      exact (h.mono _).update (SlotOk.opened (σ := s.session i) hσ hs hi hop) _
    · intro e he
      exact (s.session i).openStream_noData e.2 (mem_tag.mp he).2

theorem ok_iterate {count : Fin n → UInt32} {is : List (Fin n)} (h : s.Ok ops) :
    (iterate count is s).1.Ok ops := by
  induction is generalizing s with
  | nil => exact h
  | cons i is ih =>
    unfold iterate
    cases hi : s.sockets i with
    | none => exact h
    | some socket =>
      have hσ := SlotOk.served (σ := s.session i) (h i) (valid_of_boundTo hi) socket (count i)
      exact ih (h.update hσ _)

/-- Data is sent for the slots visited, as they were before. -/
theorem iterate_data {count : Fin n → UInt32} {is : List (Fin n)} (hnd : is.Nodup) {i : Fin n}
    {e : Tx} (he : (i, e) ∈ (iterate count is s).2) (hdata : e.isData = true) :
    i ∈ is ∧ ((s.m_state i).m_state = .TEST_START ∨ (s.m_state i).m_state = .TEST_RUNNING) ∧
      ∃ socket ws, (s.m_state i).boundTo = some socket ∧
        e = .SendTxPacket socket.m_remoteIP IPERF3_PORT (s.m_state i).m_clientPort
          (.words ws (s.m_state i).m_len) := by
  induction is generalizing s with
  | nil => exact nomatch he
  | cons j is ih =>
    unfold iterate at he
    cases hj : s.sockets j with
    | none =>
      rw [hj] at he
      exact nomatch he
    | some socket =>
      rw [hj] at he
      rcases List.mem_append.mp he with he | he
      · obtain ⟨rfl, he⟩ := mem_tag.mp he
        obtain ⟨hs, ws, hws⟩ := (s.session i).serve_data he hdata
        exact ⟨List.mem_cons_self, hs, socket, ws, hj, hws⟩
      · obtain ⟨hmem, hrest⟩ := ih (List.nodup_cons.mp hnd).2 he
        have hne : i ≠ j := fun hij => (List.nodup_cons.mp hnd).1 (hij ▸ hmem)
        rw [put_state, if_neg hne] at hrest
        exact ⟨List.mem_cons_of_mem _ hmem, hrest⟩

end Iperf3Server

/-! ## Runs -/

section
open Iperf3Server

variable {srv : TCPServer n} {s t : Iperf3Server n} {ops : List (Op n)} {op : Op n}
  {es : List (Entry n)}

/-- **Step lemma.** Each event leaves every slot in order. -/
theorem ok_step (h : s.Ok ops) (ht : step srv s op = .ok (t, es)) : t.Ok (ops ++ [op]) := by
  cases op with
  | OnConnectionAccepted socket =>
    obtain ⟨rfl, -⟩ := ok_eq ht
    exact (ok_onConnectionAccepted srv h socket).mono _
  | OnConnectionClosed socket =>
    obtain ⟨rfl, -⟩ := ok_eq ht
    exact (ok_onConnectionClosed srv h socket).mono _
  | OnRxData socket payload behind =>
    obtain ⟨ok, hok⟩ := step_onRxData_iff.mp ht
    exact (ok_onRxData h hok).1.mono _
  | OnRxUdpData srcip sport dport =>
    obtain ⟨rfl, -⟩ := ok_eq ht
    exact (ok_onRxUdpData h srcip sport dport).1
  | Iteration count =>
    obtain ⟨rfl, -⟩ := ok_eq ht
    exact (ok_iterate h).mono _

/-- Data is sent by `Iteration` only. -/
theorem step_data (h : s.Ok ops) (ht : step srv s op = .ok (t, es)) {i : Fin n} {e : Tx}
    (he : (i, e) ∈ es) (hdata : e.isData = true) :
    ((s.m_state i).m_state = .TEST_START ∨ (s.m_state i).m_state = .TEST_RUNNING) ∧
      ∃ socket ws, (s.m_state i).boundTo = some socket ∧
        e = .SendTxPacket socket.m_remoteIP IPERF3_PORT (s.m_state i).m_clientPort
          (.words ws (s.m_state i).m_len) := by
  have hnone (hno : e.isData = false) : False := Bool.noConfusion (hno.symm.trans hdata)
  cases op with
  | OnConnectionAccepted socket =>
    obtain ⟨-, rfl⟩ := ok_eq ht
    exact nomatch he
  | OnConnectionClosed socket =>
    obtain ⟨-, rfl⟩ := ok_eq ht
    exact nomatch he
  | OnRxData socket payload behind =>
    obtain ⟨ok, hok⟩ := step_onRxData_iff.mp ht
    exact (hnone ((ok_onRxData h hok).2 _ he)).elim
  | OnRxUdpData srcip sport dport =>
    obtain ⟨-, rfl⟩ := ok_eq ht
    exact (hnone ((ok_onRxUdpData h srcip sport dport).2 _ he)).elim
  | Iteration count =>
    obtain ⟨-, rfl⟩ := ok_eq ht
    exact (iterate_data (List.nodup_finRange n) he hdata).2

theorem ok_run {stack : Stack} {log : List (Entry n)}
    (hr : run (step srv) (.init stack) ops = .ok (s, log)) : s.Ok ops :=
  run_rule (C := fun _ _ => True) (J := fun s _ ops => s.Ok ops) (l := []) (b := [])
    (fun _ _ _ _ _ _ h _ ht => ok_step h ht) (fun _ => slotOk_clear []) (allSteps_true _ ops) hr

end

/-- A client that sends its cookie and parameters at once, then its datagram. -/
def client : TCPTableEntry := ⟨0, 0x0a000007⟩

def clientBlob : List UInt8 :=
  let json := text "\x7b\"udp\":true,\"len\":1024,\"reverse\":true\x7d"
  [0, 0, 0, .ofNat json.length] ++ json

def clientOps : List (Op 2) :=
  [.OnConnectionAccepted client,
    .OnRxData client (List.replicate IPERF_COOKIE_SIZE 0x61 ++ clientBlob) (fun _ => 0),
    .OnRxUdpData client.m_remoteIP 40000 IPERF3_PORT]

def ready : Stack := ⟨fun _ => true, fun _ => true⟩

end EmbeddedPlatform.Services
