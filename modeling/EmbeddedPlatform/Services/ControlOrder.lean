import EmbeddedPlatform.Services.SlotSteps

/-! # The order of the control messages

Seen from the client a connection is a conversation: each state is announced once,
in a fixed order, and the data of the test flows between the announcements of its
start and of its end. While there are segments to send, what is sent for a slot
from the time it is taken is such a conversation, broken off when the connection
is dropped or closed. -/
namespace EmbeddedPlatform.Services
open EmbeddedPlatform.Lib

/-! ## Conversations -/

/-- What has been said when a connection is in a state. -/
inductive Talk (socket : TCPTableEntry) : IperfState → List Tx → Prop where
  | start : Talk socket .IPERF_START []
  | cookie {said : List Tx} : Talk socket .IPERF_START said →
    Talk socket .PARAM_EXCHANGE (said ++ [announce socket .PARAM_EXCHANGE])
  | params {said : List Tx} : Talk socket .PARAM_EXCHANGE said →
    Talk socket .CREATE_STREAMS (said ++ [announce socket .CREATE_STREAMS])
  | hello {said : List Tx} (dstip : IPv4Address) (sport dport : UInt16) :
    Talk socket .CREATE_STREAMS said →
    Talk socket .TEST_START (said ++
      [.SendTxPacket dstip sport dport (.bytes (text "6789")), announce socket .TEST_START])
  | first {said data : List Tx} : (∀ e ∈ data, e.isData = true) → Talk socket .TEST_START said →
    Talk socket .TEST_RUNNING (said ++ data ++ [announce socket .TEST_RUNNING])
  | more {said data : List Tx} : (∀ e ∈ data, e.isData = true) → Talk socket .TEST_RUNNING said →
    Talk socket .TEST_RUNNING (said ++ data)
  | results {said : List Tx} (c : IperfConnectionState) : Talk socket .TEST_RUNNING said →
    Talk socket .EXCHANGE_RESULTS (said ++
      [announce socket .EXCHANGE_RESULTS, .SendTxSegment socket (Session.resultsPayload c)])

/-- What has been said when a connection is no more. -/
inductive Over (socket : TCPTableEntry) : List Tx → Prop where
  | closed {m_state : IperfState} {said : List Tx} : Talk socket m_state said → Over socket said
  | dropped {m_state : IperfState} {said : List Tx} : Talk socket m_state said →
    Over socket (said ++ [.CloseSocket socket])

/-- The control messages. -/
def controls (said : List Tx) : List (List UInt8) :=
  said.filterMap fun e =>
    match e with
    | .SendTxSegment _ payload => some payload
    | .SendTxPacket _ _ _ _ | .CloseSocket _ => none

/-- A length as four bytes, big endian. -/
def be32 (len : Nat) : List UInt8 :=
  [.ofNat (len / 16777216), .ofNat (len / 65536), .ofNat (len / 256), .ofNat len]

/-- All the control messages of a connection. -/
def script (json : List UInt8) : List (List UInt8) :=
  [[IperfState.PARAM_EXCHANGE.code], [IperfState.CREATE_STREAMS.code],
    [IperfState.TEST_START.code], [IperfState.TEST_RUNNING.code],
    [IperfState.EXCHANGE_RESULTS.code],
    be32 json.length ++ json ++ [IperfState.DISPLAY_RESULTS.code]]

/-- How many of them have been sent. -/
def IperfState.progress : IperfState → Nat
  | IPERF_START => 0
  | PARAM_EXCHANGE => 1
  | CREATE_STREAMS => 2
  | TEST_START => 3
  | TEST_RUNNING => 4
  | TEST_END | EXCHANGE_RESULTS | DISPLAY_RESULTS | IPERF_DONE => 6

theorem controls_append (said more : List Tx) :
    controls (said ++ more) = controls said ++ controls more := List.filterMap_append

theorem controls_data {data : List Tx} (h : ∀ e ∈ data, e.isData = true) : controls data = [] := by
  refine List.filterMap_eq_nil_iff.mpr fun e he => ?_
  cases e with
  | SendTxSegment socket payload => cases h _ he
  | SendTxPacket dstip sport dport payload => rfl
  | CloseSocket socket => rfl

/-! ### The results message -/

theorem length_text (s : String) : (text s).length = s.length := by
  unfold text
  rw [List.length_map, String.length_toList]

theorem length_toString_uint32 (x : UInt32) : (toString x.toNat).length ≤ 10 := by
  refine (Nat.length_repr_le_iff (by decide)).mpr ?_
  exact Nat.lt_trans x.toNat_lt (by decide)

theorem length_toString_signed (x : UInt32) : (toString (Session.signed x)).length ≤ 11 := by
  have hlt := x.toInt32.toInt_lt
  have hle := x.toInt32.le_toInt
  unfold Session.signed
  cases hx : x.toInt32.toInt with
  | ofNat k =>
    rw [hx] at hlt
    show (Nat.repr k).length ≤ 11
    refine (Nat.length_repr_le_iff (by decide)).mpr ?_
    have : (k : Int) < 2147483648 := by simpa using hlt
    omega
  | negSucc k =>
    rw [hx] at hle
    show ("-" ++ Nat.repr (k + 1)).length ≤ 11
    rw [String.length_append]
    have hk : k + 1 < 10 ^ 10 := by omega
    have := (Nat.length_repr_le_iff (by decide)).mpr hk
    have hone : "-".length = 1 := rfl
    omega

/-- The results around the numbers in them. -/
def report (bytes packets time : String) : String :=
  "\x7b\"cpu_util_total\":0.0,\"cpu_util_user\":0.0,\"cpu_util_system\":0.0," ++
    "\"sender_has_retransmits\":0,\"streams\":[\x7b\"id\":1,\"bytes\":" ++ bytes ++
    ",\"retransmits\":18446744073709551615,\"jitter\":0.0,\"errors\":0.0,\"packets\":" ++ packets ++
    ",\"start_time\":0,\"end_time\":" ++ time ++ ".0\x7d]\x7d"

theorem resultsJson_eq (c : IperfConnectionState) :
    Session.resultsJson c = text (report (toString (c.m_sequence * c.m_len).toNat)
      (toString (Session.signed c.m_sequence)) (toString (Session.signed c.m_time))) := rfl

theorem length_report (bytes packets time : String) :
    (report bytes packets time).length = 222 + bytes.length + packets.length + time.length := by
  unfold report
  simp only [String.length_append]
  show 64 + 54 + bytes.length + 72 + packets.length + 27 + time.length + 5 = _
  omega

theorem length_resultsJson (c : IperfConnectionState) :
    (Session.resultsJson c).length < 65536 := by
  have hbytes := length_toString_uint32 (c.m_sequence * c.m_len)
  have hpackets := length_toString_signed c.m_sequence
  have htime := length_toString_signed c.m_time
  rw [resultsJson_eq, length_text, length_report]
  omega

theorem resultsPayload_eq (c : IperfConnectionState) :
    Session.resultsPayload c = be32 (Session.resultsJson c).length ++ Session.resultsJson c ++
      [IperfState.DISPLAY_RESULTS.code] := by
  have hlen := length_resultsJson c
  have hhigh : (Session.resultsJson c).length / 16777216 = 0 := Nat.div_eq_of_lt (by omega)
  have hlow : (Session.resultsJson c).length / 65536 = 0 := Nat.div_eq_of_lt hlen
  have hmod : UInt8.ofNat ((Session.resultsJson c).length % 256) =
      UInt8.ofNat (Session.resultsJson c).length := by
    apply UInt8.toNat_inj.mp
    simp
  unfold Session.resultsPayload be32
  dsimp only
  rw [hhigh, hlow, hmod, Nat.shiftRight_eq_div_pow]
  rfl

/-! ### What a conversation is like -/

/-- Data is between the announcements of the start and of the end of the test. -/
def DataInside (socket : TCPTableEntry) (said : List Tx) : Prop :=
  ∀ pre e post, said = pre ++ e :: post → e.isData = true →
    announce socket .TEST_START ∈ pre ∧ announce socket .EXCHANGE_RESULTS ∉ pre

section
variable {socket : TCPTableEntry} {m_state : IperfState} {said more data : List Tx}

/-- Where the event of a split is. -/
theorem split_append {pre post : List Tx} {e : Tx} (h : said ++ more = pre ++ e :: post) :
    (∃ post', said = pre ++ e :: post') ∨ ∃ pre', pre = said ++ pre' ∧ more = pre' ++ e :: post := by
  rcases List.append_eq_append_iff.mp h with ⟨as, hpre, hmore⟩ | ⟨bs, hsaid, hpost⟩
  · exact .inr ⟨as, hpre, hmore⟩
  · cases bs with
    | nil => exact .inr ⟨[], by rw [hsaid, List.append_nil, List.append_nil], hpost.symm⟩
    | cons b bs =>
      obtain ⟨rfl, -⟩ := List.cons.inj hpost
      exact .inl ⟨bs, hsaid⟩

theorem DataInside.append_noData (h : DataInside socket said) (hmore : NoData more) :
    DataInside socket (said ++ more) := by
  intro pre e post heq hdata
  rcases split_append heq with ⟨post', hsaid⟩ | ⟨pre', -, hpost⟩
  · exact h pre e post' hsaid hdata
  · have hmem : e ∈ more := by
      rw [hpost]
      exact List.mem_append_right _ List.mem_cons_self
    cases (hmore e hmem).symm.trans hdata

theorem DataInside.append_data (h : DataInside socket said)
    (hstart : announce socket .TEST_START ∈ said)
    (hend : announce socket .EXCHANGE_RESULTS ∉ said) (hmore : ∀ e ∈ more, e.isData = true) :
    DataInside socket (said ++ more) := by
  intro pre e post heq hdata
  rcases split_append heq with ⟨post', hsaid⟩ | ⟨pre', hpre, hpost⟩
  · exact h pre e post' hsaid hdata
  · rw [hpre]
    refine ⟨List.mem_append_left _ hstart, fun hmem => ?_⟩
    rcases List.mem_append.mp hmem with hmem | hmem
    · exact hend hmem
    · have := hmore _ (by rw [hpost]; exact List.mem_append_left _ hmem)
      cases this

theorem announce_ne {m m' : IperfState} (h : m.code ≠ m'.code) :
    announce socket m ≠ announce socket m' := by
  intro he
  injection he with _ hpayload
  injection hpayload with hcode
  exact h hcode

/-- The end of the test is announced last. -/
theorem Talk.not_ended (h : Talk socket m_state said) (hs : m_state ≠ .EXCHANGE_RESULTS) :
    announce socket .EXCHANGE_RESULTS ∉ said := by
  have hdata {data : List Tx} (hd : ∀ e ∈ data, e.isData = true) :
      announce socket .EXCHANGE_RESULTS ∉ data := fun hmem => by cases hd _ hmem
  have hother {m : IperfState} (hm : IperfState.EXCHANGE_RESULTS.code ≠ m.code) :
      announce socket .EXCHANGE_RESULTS ∉ [announce socket m] := fun hmem =>
    announce_ne hm (List.mem_singleton.mp hmem)
  have hjoin {a b : List Tx} (ha : announce socket .EXCHANGE_RESULTS ∉ a)
      (hb : announce socket .EXCHANGE_RESULTS ∉ b) :
      announce socket .EXCHANGE_RESULTS ∉ a ++ b := fun hmem =>
    (List.mem_append.mp hmem).elim ha hb
  induction h with
  | start => exact List.not_mem_nil
  | cookie _ ih | params _ ih => exact hjoin (ih (by decide)) (hother (by decide))
  | hello dstip sport dport _ ih =>
    refine hjoin (ih (by decide)) fun hmem => ?_
    rcases List.mem_cons.mp hmem with he | hmem
    · cases he
    · exact hother (by decide) hmem
  | first hd _ ih => exact hjoin (hjoin (ih (by decide)) (hdata hd)) (hother (by decide))
  | more hd _ ih => exact hjoin (ih (by decide)) (hdata hd)
  | results c _ _ => exact absurd rfl hs

/-- Once a test has been started, that has been announced. -/
theorem Talk.started (h : Talk socket m_state said)
    (hs : m_state = .TEST_START ∨ m_state = .TEST_RUNNING) :
    announce socket .TEST_START ∈ said := by
  induction h with
  | start | cookie | params | results => rcases hs with hs | hs <;> cases hs
  | hello dstip sport dport _ _ =>
    exact List.mem_append_right _ (List.mem_cons_of_mem _ List.mem_cons_self)
  | first _ _ ih => exact List.mem_append_left _ (List.mem_append_left _ (ih (.inl rfl)))
  | more _ _ ih => exact List.mem_append_left _ (ih (.inr rfl))

theorem noData_announce (m : IperfState) : NoData [announce socket m] := noData_nil.cons rfl

theorem Talk.dataInside (h : Talk socket m_state said) : DataInside socket said := by
  induction h with
  | start =>
    intro pre e post heq
    cases pre <;> cases heq
  | cookie _ ih | params _ ih => exact ih.append_noData (noData_announce _)
  | hello dstip sport dport _ ih => exact ih.append_noData ((noData_announce _).cons rfl)
  | first hd h ih =>
    have hdata := ih.append_data (h.started (.inl rfl)) (h.not_ended (by decide)) hd
    exact hdata.append_noData (noData_announce _)
  | more hd h ih => exact ih.append_data (h.started (.inr rfl)) (h.not_ended (by decide)) hd
  | results c _ ih => exact ih.append_noData ((noData_nil.cons rfl).cons rfl)

/-- The control messages of a conversation. -/
theorem Talk.controls (h : Talk socket m_state said) :
    ∃ c, controls said = (script (Session.resultsJson c)).take m_state.progress := by
  induction h with
  | start => exact ⟨.Clear, rfl⟩
  | cookie _ ih | params _ ih | hello dstip sport dport _ ih =>
    obtain ⟨c, hc⟩ := ih
    exact ⟨c, by rw [controls_append, hc]; rfl⟩
  | first hd _ ih =>
    obtain ⟨c, hc⟩ := ih
    refine ⟨c, ?_⟩
    rw [controls_append, controls_append, controls_data hd, hc]
    rfl
  | more hd _ ih =>
    obtain ⟨c, hc⟩ := ih
    exact ⟨c, by rw [controls_append, controls_data hd, List.append_nil, hc]⟩
  | results d _ ih =>
    obtain ⟨c, hc⟩ := ih
    refine ⟨d, ?_⟩
    rw [controls_append, hc]
    show _ ++ [[IperfState.EXCHANGE_RESULTS.code], Session.resultsPayload d] = _
    rw [resultsPayload_eq]
    rfl

/-- What goes to a socket goes to that of the connection. -/
def Tx.isOn (socket : TCPTableEntry) : Tx → Prop
  | .SendTxSegment other _ => other = socket
  | .CloseSocket other => other = socket
  | .SendTxPacket _ _ _ _ => True

theorem isOn_of_data {e : Tx} (h : e.isData = true) : e.isOn socket := by
  cases e with
  | SendTxPacket dstip sport dport payload => trivial
  | SendTxSegment other payload | CloseSocket other => cases h

theorem Talk.isOn (h : Talk socket m_state said) : ∀ e ∈ said, e.isOn socket := by
  have hjoin {a b : List Tx} (ha : ∀ e ∈ a, e.isOn socket) (hb : ∀ e ∈ b, e.isOn socket) :
      ∀ e ∈ a ++ b, e.isOn socket := List.forall_mem_append.mpr ⟨ha, hb⟩
  have hone (payload : List UInt8) : ∀ e ∈ [Tx.SendTxSegment socket payload], e.isOn socket :=
    List.forall_mem_singleton.mpr rfl
  induction h with
  | start => exact fun e he => absurd he List.not_mem_nil
  | cookie _ ih | params _ ih => exact hjoin ih (hone _)
  | hello dstip sport dport _ ih => exact hjoin ih (List.forall_mem_cons.mpr ⟨trivial, hone _⟩)
  | first hd _ ih => exact hjoin (hjoin ih fun e he => isOn_of_data (hd e he)) (hone _)
  | more hd _ ih => exact hjoin ih fun e he => isOn_of_data (hd e he)
  | results c _ ih => exact hjoin ih (List.forall_mem_cons.mpr ⟨rfl, hone _⟩)

/-- Nothing is closed while the conversation goes on. -/
theorem Talk.not_closed (h : Talk socket m_state said) (other : TCPTableEntry) :
    .CloseSocket other ∉ said := by
  have hjoin {a b : List Tx} (ha : .CloseSocket other ∉ a) (hb : .CloseSocket other ∉ b) :
      .CloseSocket other ∉ a ++ b := fun hmem => (List.mem_append.mp hmem).elim ha hb
  have hone (payload : List UInt8) : .CloseSocket other ∉ [Tx.SendTxSegment socket payload] :=
    fun hmem => by cases List.mem_singleton.mp hmem
  have hdata {data : List Tx} (hd : ∀ e ∈ data, e.isData = true) : .CloseSocket other ∉ data :=
    fun hmem => by cases hd _ hmem
  have hcons {e : Tx} {a : List Tx} (he : e ≠ .CloseSocket other) (ha : .CloseSocket other ∉ a) :
      .CloseSocket other ∉ e :: a := fun hmem =>
    (List.mem_cons.mp hmem).elim (fun h => he h.symm) ha
  induction h with
  | start => exact List.not_mem_nil
  | cookie _ ih | params _ ih => exact hjoin ih (hone _)
  | hello dstip sport dport _ ih => exact hjoin ih (hcons nofun (hone _))
  | first hd _ ih => exact hjoin (hjoin ih (hdata hd)) (hone _)
  | more hd _ ih => exact hjoin ih (hdata hd)
  | results c _ ih => exact hjoin ih (hcons nofun (hone _))

end

/-- The order of what is sent for one connection. -/
structure InOrder (socket : TCPTableEntry) (said : List Tx) : Prop where
  controls : ∃ c, controls said <+: script (Session.resultsJson c)
  data : DataInside socket said
  isOn : ∀ e ∈ said, e.isOn socket
  closed : ∀ pre other post, said = pre ++ .CloseSocket other :: post → post = []

section
variable {socket : TCPTableEntry} {m_state : IperfState} {said : List Tx}

theorem Talk.inOrder (h : Talk socket m_state said) : InOrder socket said where
  controls := by
    obtain ⟨c, hc⟩ := h.controls
    exact ⟨c, by rw [hc]; exact List.take_prefix _ _⟩
  data := h.dataInside
  isOn := h.isOn
  closed pre other post heq := by
    have hmem : .CloseSocket other ∈ said := by
      rw [heq]
      exact List.mem_append_right _ List.mem_cons_self
    exact absurd hmem (h.not_closed other)

theorem Over.inOrder (h : Over socket said) : InOrder socket said := by
  cases h with
  | closed h => exact h.inOrder
  | dropped h =>
    have hin := h.inOrder
    refine ⟨?_, hin.data.append_noData (noData_nil.cons rfl), ?_, ?_⟩
    · obtain ⟨c, hc⟩ := hin.controls
      exact ⟨c, by rw [controls_append]; exact (List.append_nil _).symm ▸ hc⟩
    · exact List.forall_mem_append.mpr ⟨hin.isOn, List.forall_mem_singleton.mpr rfl⟩
    · intro pre other post heq
      rcases split_append heq with ⟨post', hsaid⟩ | ⟨pre', -, hpost⟩
      · have hmem : .CloseSocket other ∈ pre ++ .CloseSocket other :: post' :=
          List.mem_append_right _ List.mem_cons_self
        rw [← hsaid] at hmem
        exact absurd hmem (h.not_closed other)
      · cases pre' with
        | nil => exact (List.cons.inj hpost).2.symm
        | cons e pre' =>
          have := (List.cons.inj hpost).2
          cases pre' <;> cases this

end

/-! ## One slot -/

/-- The slot is in the middle of a conversation, or was left after one. -/
def Conversing (socket : TCPTableEntry) (c : IperfConnectionState) (said : List Tx) : Prop :=
  (c.boundTo = some socket ∧ Talk socket c.m_state said) ∨ (c.boundTo = none ∧ Over socket said)

section
variable {socket : TCPTableEntry} {behind : Nat → UInt8} {c : IperfConnectionState}
  {said : List Tx}

theorem conversing_exchanged (hbound : c.boundTo = some socket) (hs : c.m_state = .PARAM_EXCHANGE)
    (h : Talk socket .PARAM_EXCHANGE said) :
    Conversing socket (exchanged socket behind c).1 (said ++ (exchanged socket behind c).2) := by
  unfold exchanged
  split
  · refine .inl ⟨hbound, ?_⟩
    rwa [List.append_nil, hs]
  · exact .inr ⟨rfl, .dropped h⟩
  · split
    · exact .inl ⟨hbound, h.params⟩
    · refine .inr ⟨rfl, ?_⟩
      have hover := Over.dropped h.params
      rwa [List.append_assoc] at hover

theorem conversing_received (hbound : c.boundTo = some socket) (h : Talk socket c.m_state said) :
    Conversing socket (received socket behind c).1 (said ++ (received socket behind c).2) := by
  have hstay : Conversing socket c (said ++ []) := .inl ⟨hbound, by rwa [List.append_nil]⟩
  cases hs : c.m_state with
  | IPERF_START =>
    rw [received_start socket behind hs]
    split
    · exact hstay
    · rw [hs] at h
      have hcookie : Talk socket .PARAM_EXCHANGE (said ++ [announce socket .PARAM_EXCHANGE]) :=
        h.cookie
      have hbound' : c.cookieRead.boundTo = some socket := hbound
      have hconv : Conversing socket (exchanged socket behind c.cookieRead).1 _ :=
        conversing_exchanged hbound' rfl hcookie
      rwa [List.append_assoc] at hconv
  | PARAM_EXCHANGE =>
    rw [received_param socket behind hs]
    rw [hs] at h
    exact conversing_exchanged hbound hs h
  | TEST_RUNNING =>
    rw [received_running socket behind hs]
    rw [hs] at h
    split
    · refine .inl ⟨hbound, ?_⟩
      show Talk socket c.m_state _
      rwa [List.append_nil, hs]
    · exact .inl ⟨hbound, h.results _⟩
  | CREATE_STREAMS | TEST_START | TEST_END | EXCHANGE_RESULTS | DISPLAY_RESULTS | IPERF_DONE =>
    unfold received
    rw [hs]
    exact hstay

end

namespace Session

variable {socket : TCPTableEntry} {σ : Session} {said : List Tx}

theorem conversing_openStream (hready : σ.Ready) (hbound : σ.conn.boundTo = some socket)
    (hs : σ.conn.m_state = .CREATE_STREAMS) (sport : UInt16)
    (h : Talk socket .CREATE_STREAMS said) :
    Conversing socket (σ.openStream socket sport).1.conn
      (said ++ (σ.openStream socket sport).2) := by
  unfold openStream GetTxPacket
  cases σ.stack.packet 0 with
  | false =>
    refine .inl ⟨hbound, ?_⟩
    show Talk socket σ.conn.m_state _
    rwa [List.append_nil, hs]
  | true =>
    dsimp only
    rw [sendState_conn, (Ready.sendState _ socket).1]
    · exact .inl ⟨hbound, h.hello ..⟩
    · exact hready

theorem sendDataOnStream_isData {count : UInt32} {e : Tx}
    (he : e ∈ (σ.SendDataOnStream socket count).2) : e.isData = true := by
  obtain ⟨ws, rfl⟩ := sendDataOnStream_data he
  rfl

theorem conversing_serve (hready : σ.Ready) (hbound : σ.conn.boundTo = some socket)
    (count : UInt32) (h : Talk socket σ.conn.m_state said) :
    Conversing socket (σ.serve socket count).1.conn (said ++ (σ.serve socket count).2) := by
  have hdata : ∀ e ∈ (σ.SendDataOnStream socket count).2, e.isData = true :=
    fun _ => sendDataOnStream_isData
  obtain ⟨seq, hconn⟩ := sendDataOnStream_conn (σ := σ) socket count
  unfold serve
  cases hs : σ.conn.m_state with
  | TEST_START =>
    rw [hs] at h
    dsimp only
    rw [sendState_conn, (Ready.sendState _ socket).1]
    · refine .inl ⟨?_, ?_⟩
      · unfold setState
        rw [hconn]
        exact hbound
      · show Talk socket .TEST_RUNNING _
        rw [← List.append_assoc]
        exact h.first hdata
    · exact (sendDataOnStream_later socket count σ).segment hready
  | TEST_RUNNING =>
    rw [hs] at h
    refine .inl ?_
    dsimp only
    rw [hconn]
    refine ⟨hbound, ?_⟩
    show Talk socket σ.conn.m_state _
    rw [hs]
    exact h.more hdata
  | IPERF_START | PARAM_EXCHANGE | CREATE_STREAMS | TEST_END | EXCHANGE_RESULTS | DISPLAY_RESULTS
  | IPERF_DONE =>
    refine .inl ⟨hbound, ?_⟩
    dsimp only
    rwa [List.append_nil, hs, ← hs]

end Session

/-! ## Runs -/

namespace Iperf3Server

variable {n : Nat} {srv : TCPServer n} {s t : Iperf3Server n} {i : Fin n} {op : Op n}
  {socket : TCPTableEntry} {said : List Tx}

/-- The slot is handed to a new connection. -/
def Takes (srv : TCPServer n) (s : Iperf3Server n) (i : Fin n) (op : Op n) : Prop :=
  ∃ socket, op = .OnConnectionAccepted socket ∧ srv.AllocateConnectionID s.sockets socket = some i

/-- **Step lemma.** An event goes on with the conversation, or breaks it off. -/
theorem conversing_step (hseg : ∀ k, s.stack.segment k = true) {c : IperfConnectionState}
    {es : List Tx} (hop : ¬ Takes srv s i op) (h : Conversing socket (s.m_state i) said)
    (hstep : SlotStep srv s i op c es) : Conversing socket c (said ++ es) := by
  -- an event for a slot in use is an event of its conversation
  have htalk {other : TCPTableEntry} (hother : s.sockets i = some other) :
      other = socket ∧ (s.m_state i).boundTo = some socket ∧
        Talk socket (s.m_state i).m_state said := by
    rcases h with ⟨hbound, ht⟩ | ⟨hfree, -⟩
    · exact ⟨Option.some.inj (hother.symm.trans hbound), hbound, ht⟩
    · cases hother.symm.trans hfree
  cases hstep with
  | other _ => rwa [List.append_nil]
  | accept hid => exact absurd ⟨_, rfl, hid⟩ hop
  | close hid =>
    obtain ⟨-, -, ht⟩ := htalk (srv.getConnectionID_bound hid)
    rw [List.append_nil]
    exact .inr ⟨rfl, .closed ht⟩
  | overflow hid _ =>
    obtain ⟨rfl, -, ht⟩ := htalk (srv.getConnectionID_bound hid)
    exact .inr ⟨rfl, .dropped ht⟩
  | @receive other payload behind fifo τ es hid _ hrounds =>
    obtain ⟨rfl, hbound, ht⟩ := htalk (srv.getConnectionID_bound hid)
    obtain ⟨τ', es', hrounds', hconn, hes, -⟩ := Session.rounds_received
      (σ := { s.session i with conn.m_rxBuffer := fifo }) hseg other behind
    obtain ⟨rfl, rfl⟩ := ok_eq (hrounds.symm.trans hrounds')
    have hconn : τ'.conn = _ := hconn
    have hes : es' = _ := hes
    rw [hconn, hes]
    exact conversing_received (c := { s.m_state i with m_rxBuffer := fifo }) hbound ht
  | @opens other srcip sport dport _ hsocket hs =>
    obtain ⟨rfl, hbound, ht⟩ := htalk hsocket
    rw [hs] at ht
    exact Session.conversing_openStream (σ := s.session i) hseg hbound hs sport ht
  | @serve other count σ _ hsocket hσ hlater =>
    obtain ⟨rfl, hbound, ht⟩ := htalk hsocket
    rw [← hσ] at hbound ht
    exact Session.conversing_serve (hlater.segment hseg) hbound (count i) ht

/-- A free slot is silent until it is handed out again. -/
theorem silent_step (hfree : s.sockets i = none) (hop : ¬ Takes srv s i op)
    {c : IperfConnectionState} {es : List Tx} (hstep : SlotStep srv s i op c es) :
    c.boundTo = none ∧ es = [] := by
  have hused {other : TCPTableEntry} (hother : s.sockets i = some other) : False := by
    cases hother.symm.trans hfree
  cases hstep with
  | other _ => exact ⟨hfree, rfl⟩
  | accept hid => exact absurd ⟨_, rfl, hid⟩ hop
  | close hid | overflow hid _ | receive hid _ _ => exact (hused (srv.getConnectionID_bound hid)).elim
  | opens _ hsocket _ | serve _ hsocket _ _ => exact (hused hsocket).elim

variable {after : List (Op n)} {log : List (Entry n)}

theorem conversing_run (hseg : ∀ k, s.stack.segment k = true)
    (h : Conversing socket (s.m_state i) [])
    (hkeep : AllSteps (step srv) (fun s op => ¬ Takes srv s i op) s after)
    (hrun : run (step srv) s after = .ok (t, log)) :
    Conversing socket (t.m_state i) (sentFor i log) :=
  (run_rule (J := fun s log _ => (∀ k, s.stack.segment k = true) ∧
      Conversing socket (s.m_state i) (sentFor i log)) (l := []) (b := [])
    (fun s log _ op t es hJ hop ht => by
      rw [sentFor_append]
      exact ⟨(step_later ht).segment hJ.1, conversing_step hJ.1 hop hJ.2 (step_slot ht i)⟩)
    ⟨hseg, h⟩ hkeep hrun).2

theorem silent_run (hfree : s.sockets i = none)
    (hkeep : AllSteps (step srv) (fun s op => ¬ Takes srv s i op) s after)
    (hrun : run (step srv) s after = .ok (t, log)) : sentFor i log = [] :=
  (run_rule (J := fun s log _ => s.sockets i = none ∧ sentFor i log = []) (l := []) (b := [])
    (fun s log _ op t es hJ hop ht => by
      obtain ⟨hfree, hes⟩ := silent_step hJ.1 hop (step_slot ht i)
      exact ⟨hfree, by rw [sentFor_append, hJ.2, hes]; rfl⟩)
    ⟨hfree, rfl⟩ hkeep hrun).2

/-- **Control messages are in order.** Whatever happens to the server, what it sends
for a slot from the time a connection is given it is in order, and nothing more is
sent once the connection has been dropped or closed. -/
theorem control_order {stack : Stack} {before : List (Op n)} {log₀ : List (Entry n)}
    (hseg : ∀ k, stack.segment k = true)
    (hbefore : run (step srv) (.init stack) before = .ok (s, log₀))
    (hid : srv.AllocateConnectionID s.sockets socket = some i)
    (hkeep : AllSteps (step srv) (fun s op => ¬ Takes srv s i op)
      (s.OnConnectionAccepted srv socket) after)
    (hrun : run (step srv) (s.OnConnectionAccepted srv socket) after = .ok (t, log)) :
    InOrder socket (sentFor i log) ∧
      ∀ mid u log₁, mid <+: after →
        run (step srv) (s.OnConnectionAccepted srv socket) mid = .ok (u, log₁) →
        (u.m_state i).m_valid = false → sentFor i log = sentFor i log₁ := by
  have hs : ∀ k, s.stack.segment k = true :=
    run_invariant (C := fun _ _ => True) (J := fun s => ∀ k, s.stack.segment k = true)
      (fun _ _ _ _ hJ _ ht => (step_later ht).segment hJ) hseg (allSteps_true _ before) hbefore
  have hstep : step srv s (.OnConnectionAccepted socket) =
      .ok (s.OnConnectionAccepted srv socket, []) := rfl
  have hs' := (step_later hstep).segment hs
  have hstart : Conversing socket ((s.OnConnectionAccepted srv socket).m_state i) [] := by
    rw [accepted_slot hid]
    exact .inl ⟨rfl, .start⟩
  constructor
  · rcases conversing_run hs' hstart hkeep hrun with ⟨-, ht⟩ | ⟨-, hover⟩
    · exact ht.inOrder
    · exact hover.inOrder
  · rintro mid u log₁ ⟨rest, rfl⟩ hmid hfree
    obtain ⟨u', es, fs, hu, hrest, rfl⟩ := run_append_ok hrun
    obtain ⟨rfl, rfl⟩ := ok_eq (hmid.symm.trans hu)
    have hunbound : u'.sockets i = none := by
      show (u'.m_state i).boundTo = none
      exact if_neg (by rw [hfree]; exact Bool.false_ne_true)
    rw [sentFor_append, silent_run hunbound (hkeep.of_append hu) hrest, List.append_nil]

/-- The client again, with a test that it lets run for a while. -/
def talkOps : List (Op 1) :=
  [.OnRxData client (List.replicate IPERF_COOKIE_SIZE 0x61 ++ clientBlob) (fun _ => 0),
    .OnRxUdpData client.m_remoteIP 40000 IPERF3_PORT, .Iteration fun _ => 7, .Iteration fun _ => 9,
    .OnRxData client [IperfState.TEST_END.code] (fun _ => 0), .OnConnectionClosed client]

theorem control_order_client :
    ∃ t log, run (step (.search 1)) ((init ready).OnConnectionAccepted (.search 1) client) talkOps =
        .ok (t, log) ∧
      (controls (sentFor 0 log)).length = 6 ∧ InOrder client (sentFor 0 log) := by
  obtain ⟨⟨t, log⟩, hr, hp⟩ := exists_of_returns
    (P := fun r => (controls (sentFor 0 r.2)).length == 6)
    (r := run (step (.search 1)) ((init ready).OnConnectionAccepted (.search 1) client) talkOps)
    (by decide +kernel)
  have hnone : ∀ op ∈ talkOps, ∀ socket, op ≠ .OnConnectionAccepted socket := by
    unfold talkOps
    simp
  have hkeep : AllSteps (step (.search 1)) (fun s op => ¬ Takes (.search 1) s 0 op)
      ((init ready).OnConnectionAccepted (.search 1) client) talkOps :=
    (allSteps_of_forall hnone).imp fun _ _ hop ⟨socket, heq, _⟩ => hop socket heq
  have hall := control_order (fun _ => rfl) (run_nil (init ready)) (by decide) hkeep hr
  exact ⟨t, log, hr, beq_iff_eq.mp hp, hall.1⟩

end Iperf3Server

end EmbeddedPlatform.Services
