import Mathlib.Tactic.IntervalCases
import EmbeddedPlatform.Services.ControlOrder
import EmbeddedPlatform.Services.Notification
import EmbeddedPlatform.Services.StreamService

/-! # What the results say of a test

The data packets of a connection are counted as they are filled, and the results
are made up from the count when the test ends. Both are 32 bits wide. -/
namespace EmbeddedPlatform.Services
open EmbeddedPlatform.Lib

/-! ## Data packets, from outside -/

/-- The bytes of a word in memory. -/
def le32 (w : UInt32) : List UInt8 :=
  [w.toUInt8, (w >>> 8).toUInt8, (w >>> 16).toUInt8, (w >>> 24).toUInt8]

/-- The bytes of a data packet. -/
def payloadOf (ws : List UInt32) (len : UInt32) : List UInt8 := (ws.flatMap le32).take len.toNat

/-- The packet has the sequence number `k` in it. -/
def Carries (ws : List UInt32) (len : UInt32) (k : Nat) : Prop :=
  k < 4294967296 ∧ ((payloadOf ws len).drop 8).take 4 = be32 k

/-- The words and the length of a data packet. -/
def Tx.datum : Tx → Option (List UInt32 × UInt32)
  | .SendTxPacket _ _ _ (.words ws len) => some (ws, len)
  | .SendTxPacket _ _ _ (.bytes _) | .SendTxSegment _ _ | .CloseSocket _ => none

/-- The data packets that have been sent. -/
def dataOf (said : List Tx) : List (List UInt32 × UInt32) := said.filterMap Tx.datum

/-- The bytes in them. -/
def bytesOf (said : List Tx) : Nat := ((dataOf said).map fun p => p.2.toNat).sum

/-- The results message for these figures. -/
def resultsOf (bytes packets : Nat) (time : String) : List UInt8 :=
  let json := text (report (toString bytes) (toString packets) time)
  be32 json.length ++ json ++ [IperfState.DISPLAY_RESULTS.code]

/-- Packets are numbered from one, and results are about the packets sent before.
Other control messages are one byte long. -/
structure Accounted (said : List Tx) : Prop where
  numbered : ∀ k ws len, (dataOf said)[k]? = some (ws, len) → Carries ws len (k + 1)
  results : ∀ pre socket payload post, said = pre ++ .SendTxSegment socket payload :: post →
    payload.length ≠ 1 → ∃ time, payload = resultsOf (bytesOf pre) (dataOf pre).length time

section
variable {said more : List Tx}

theorem dataOf_append (said more : List Tx) : dataOf (said ++ more) = dataOf said ++ dataOf more :=
  List.filterMap_append

theorem datum_of_not_data {e : Tx} (h : e.isData = false) : e.datum = none := by
  cases e with
  | SendTxSegment socket payload | CloseSocket socket => rfl
  | SendTxPacket dstip sport dport payload =>
    cases payload with
    | bytes payload => rfl
    | words ws len => cases h

theorem dataOf_noData (h : NoData more) : dataOf more = [] :=
  List.filterMap_eq_nil_iff.mpr fun e he => datum_of_not_data (h e he)

theorem dataOf_append_noData (h : NoData more) (said : List Tx) :
    dataOf (said ++ more) = dataOf said := by
  rw [dataOf_append, dataOf_noData h, List.append_nil]

/-- Bytes of packets of one length. -/
theorem bytesOf_eq {len : UInt32} (h : ∀ p ∈ dataOf said, p.2 = len) :
    bytesOf said = (dataOf said).length * len.toNat := by
  unfold bytesOf
  generalize dataOf said = ps at h
  induction ps with
  | nil => exact (Nat.zero_mul _).symm
  | cons p ps ih =>
    obtain ⟨hp, hps⟩ := List.forall_mem_cons.mp h
    rw [List.map_cons, List.sum_cons, ih hps, hp, List.length_cons, Nat.succ_mul, Nat.add_comm]

/-- Not a results message. -/
def Tx.brief (e : Tx) : Prop := ∀ socket payload, e = .SendTxSegment socket payload → payload.length = 1

theorem brief_announce (socket : TCPTableEntry) (m_state : IperfState) :
    (announce socket m_state).brief := by
  intro other payload he
  injection he with _ hpayload
  rw [← hpayload]
  rfl

theorem brief_close (socket : TCPTableEntry) : (Tx.CloseSocket socket).brief := nofun

theorem accounted_nil : Accounted [] := by
  refine ⟨fun k ws len h => ?_, fun pre socket payload post h => ?_⟩
  · cases h
  · cases pre <;> cases h

theorem Accounted.append_brief (h : Accounted said) (hmore : NoData more)
    (hbrief : ∀ e ∈ more, e.brief) : Accounted (said ++ more) := by
  refine ⟨fun k ws len hk => ?_, fun pre socket payload post heq hlen => ?_⟩
  · rw [dataOf_append_noData hmore] at hk
    exact h.numbered k ws len hk
  · rcases split_append heq with ⟨post', hsaid⟩ | ⟨pre', -, hpost⟩
    · exact h.results pre socket payload post' hsaid hlen
    · have hmem : .SendTxSegment socket payload ∈ more := by
        rw [hpost]
        exact List.mem_append_right _ List.mem_cons_self
      exact absurd (hbrief _ hmem socket payload rfl) hlen

/-- The next data packet. -/
theorem Accounted.append_data (h : Accounted said) {dstip : IPv4Address} {sport dport : UInt16}
    {ws : List UInt32} {len : UInt32} (hcarries : Carries ws len ((dataOf said).length + 1)) :
    Accounted (said ++ [.SendTxPacket dstip sport dport (.words ws len)]) := by
  refine ⟨fun k ws' len' hk => ?_, fun pre socket payload post heq hlen => ?_⟩
  · rw [dataOf_append] at hk
    rcases Nat.lt_or_ge k (dataOf said).length with hlt | hge
    · rw [List.getElem?_append_left hlt] at hk
      exact h.numbered k ws' len' hk
    · rw [List.getElem?_append_right hge] at hk
      obtain ⟨rfl, hp⟩ : k = (dataOf said).length ∧ (ws, len) = (ws', len') := by
        cases hd : k - (dataOf said).length with
        | zero =>
          rw [hd] at hk
          exact ⟨by omega, Option.some.inj hk⟩
        | succ d =>
          rw [hd] at hk
          cases hk
      cases hp
      exact hcarries
  · rcases split_append heq with ⟨post', hsaid⟩ | ⟨pre', -, hpost⟩
    · exact h.results pre socket payload post' hsaid hlen
    · cases pre' with
      | nil => cases hpost
      | cons e pre' =>
        have hnil := (List.cons.inj hpost).2
        cases pre' <;> cases hnil

/-- The results. -/
theorem Accounted.append_results (h : Accounted said) (socket : TCPTableEntry) {bytes packets : Nat}
    (hbytes : bytes = bytesOf said) (hpackets : packets = (dataOf said).length) (time : String) :
    Accounted (said ++ [.SendTxSegment socket (resultsOf bytes packets time)]) := by
  refine ⟨fun k ws len hk => ?_, fun pre other payload post heq hlen => ?_⟩
  · rw [dataOf_append_noData (noData_nil.cons rfl)] at hk
    exact h.numbered k ws len hk
  · rcases split_append heq with ⟨post', hsaid⟩ | ⟨pre', hpre, hpost⟩
    · exact h.results pre other payload post' hsaid hlen
    · cases pre' with
      | nil =>
        rw [List.append_nil] at hpre
        obtain ⟨he, -⟩ := List.cons.inj hpost
        injection he with _ hpayload
        rw [← hpayload, hbytes, hpackets, hpre]
        exact ⟨time, rfl⟩
      | cons e pre' =>
        have hnil := (List.cons.inj hpost).2
        cases pre' <;> cases hnil

end

/-! ## What the server fills in -/

/-- Byte by byte, the other way round. -/
theorem bswap32_bytes (x : UInt32) :
    (bswap32 x).toUInt8 = (x >>> 24).toUInt8 ∧ (bswap32 x >>> 8).toUInt8 = (x >>> 16).toUInt8 ∧
      (bswap32 x >>> 16).toUInt8 = (x >>> 8).toUInt8 ∧ (bswap32 x >>> 24).toUInt8 = x.toUInt8 := by
  unfold bswap32
  refine ⟨?_, ?_, ?_, ?_⟩ <;>
  · apply UInt8.toBitVec_inj.mp
    ext i hi
    interval_cases i <;> simp

theorem le32_bswap32 (x : UInt32) : le32 (bswap32 x) = be32 x.toNat := by
  have hshift (k : Nat) (hk : k < 32) :
      (x >>> .ofNat k).toUInt8 = UInt8.ofNat (x.toNat / 2 ^ k) := by
    have hmod : k % 4294967296 = k := Nat.mod_eq_of_lt (Nat.lt_trans hk (by decide))
    apply UInt8.toNat_inj.mp
    simp [Nat.shiftRight_eq_div_pow, hmod, Nat.mod_eq_of_lt hk]
  obtain ⟨h0, h1, h2, h3⟩ := bswap32_bytes x
  unfold le32 be32
  rw [h0, h1, h2, h3]
  exact congrArg₂ _ (hshift 24 (by decide)) (congrArg₂ _ (hshift 16 (by decide))
    (congrArg₂ _ (hshift 8 (by decide)) rfl))

/-- A packet with room for it carries its number. -/
theorem carries_fillPacket {count seq len : UInt32} (hlen : 12 ≤ len.toNat) :
    Carries (Session.FillPacket count seq len) len seq.toNat := by
  refine ⟨seq.toNat_lt, ?_⟩
  obtain ⟨d, hd⟩ := Nat.exists_eq_add_of_le' hlen
  unfold payloadOf Session.FillPacket
  dsimp only
  rw [hd, ← le32_bswap32]
  simp only [List.cons_append, List.nil_append, List.flatMap_cons, le32, List.take_succ_cons,
    List.drop_succ_cons, List.drop_zero, List.take_zero]

/-! ## What the slot knows -/

/-- The slot has kept count. -/
structure Tally (c : IperfConnectionState) (said : List Tx) : Prop where
  sequence : c.m_sequence.toNat = (dataOf said).length
  length : ∀ p ∈ dataOf said, p.2 = c.m_len
  idle : c.m_state = .IPERF_START ∨ c.m_state = .PARAM_EXCHANGE → dataOf said = []

section
variable {c d : IperfConnectionState} {said more : List Tx}

theorem Tally.append_noData (h : Tally c said) (hmore : NoData more) : Tally c (said ++ more) := by
  have heq := dataOf_append_noData hmore said
  exact ⟨by rw [heq]; exact h.sequence, by rw [heq]; exact h.length, by rw [heq]; exact h.idle⟩

theorem parse_sequence {json : Nat → UInt8} {k i : Nat} {q : JsonParser}
    (h : parse json k i q c = some d) : d.m_sequence = c.m_sequence := by
  rw [parse_eq] at h
  obtain ⟨e, -, rfl⟩ := Option.map_eq_some_iff.mp h
  rfl

/-- A round of `OnRxData` does not touch the count. -/
theorem Tally.moved (h : Tally c said) (hm : Moved c d) (hd : d.boundTo ≠ none) : Tally d said := by
  cases hm with
  | stay => exact h
  | refuse _ => exact absurd rfl hd
  | cookie cookie hs _ => exact ⟨h.sequence, h.length, fun _ => h.idle (.inl hs)⟩
  | accept json len size hs hparse _ =>
    have hnone := h.idle (.inr hs)
    refine ⟨(congrArg UInt32.toNat (parse_sequence hparse)).trans h.sequence, ?_, fun _ => hnone⟩
    rw [hnone]
    exact fun p hp => absurd hp List.not_mem_nil
  | ignore hs => exact ⟨h.sequence, h.length, h.idle⟩
  | finish hs => exact ⟨h.sequence, h.length, by rintro (hs' | hs') <;> cases hs'⟩

/-- What the slot reports, if nothing overflows. -/
theorem Tally.resultsPayload (h : Tally c said) (hpackets : c.m_sequence.toNat < 2147483648)
    (hbytes : c.m_sequence.toNat * c.m_len.toNat < 4294967296) :
    Session.resultsPayload c =
      resultsOf (bytesOf said) (dataOf said).length (toString (Session.signed c.m_time)) := by
  have hmul : (c.m_sequence * c.m_len).toNat = bytesOf said := by
    rw [bytesOf_eq h.length, ← h.sequence, UInt32.toNat_mul]
    exact Nat.mod_eq_of_lt hbytes
  have hsigned : toString (Session.signed c.m_sequence) = toString (dataOf said).length := by
    have hint : Session.signed c.m_sequence = ((dataOf said).length : Int) := by
      rw [← h.sequence]
      exact BitVec.toInt_eq_toNat_of_lt (Nat.mul_lt_mul_of_pos_left hpackets Nat.two_pos)
    rw [hint]
    rfl
  rw [resultsPayload_eq, resultsJson_eq, hmul, hsigned]
  rfl

end

namespace Session

variable {socket : TCPTableEntry} {behind : Nat → UInt8} {σ τ : Session} {said : List Tx}

theorem sendState_brief (socket : TCPTableEntry) (σ : Session) :
    ∀ e ∈ (σ.SendState socket).2, e.brief := by
  rw [sendState_log]
  split
  · exact List.forall_mem_singleton.mpr (brief_announce _ _)
  · exact fun e he => absurd he List.not_mem_nil

/-- A packet of data is counted. -/
theorem sendDataOnStream_accounted (h : Accounted said) (ht : Tally σ.conn said)
    (hs : σ.conn.m_state = .TEST_START ∨ σ.conn.m_state = .TEST_RUNNING)
    (hok : σ.stack.packet 0 = true → 12 ≤ σ.conn.m_len.toNat ∧ σ.conn.m_sequence ≠ 0xffffffff)
    (socket : TCPTableEntry) (count : UInt32) :
    Accounted (said ++ (σ.SendDataOnStream socket count).2) ∧
      Tally (σ.SendDataOnStream socket count).1.conn
        (said ++ (σ.SendDataOnStream socket count).2) := by
  unfold SendDataOnStream GetTxPacket
  cases hpacket : σ.stack.packet 0 with
  | false =>
    dsimp only
    rw [List.append_nil]
    exact ⟨h, ht⟩
  | true =>
    obtain ⟨hlen, hmax⟩ := hok hpacket
    dsimp only
    have hseq : (σ.conn.m_sequence + 1).toNat = (dataOf said).length + 1 := by
      rw [← ht.sequence, UInt32.toNat_add]
      have hne : σ.conn.m_sequence.toNat ≠ 4294967295 := fun heq =>
        hmax (UInt32.toNat_inj.mp heq)
      have hlt := σ.conn.m_sequence.toNat_lt
      exact Nat.mod_eq_of_lt (by simp; omega)
    refine ⟨h.append_data (by rw [← hseq]; exact carries_fillPacket hlen), ?_, ?_, ?_⟩
    · rw [dataOf_append, List.length_append]
      exact hseq
    · rw [dataOf_append]
      refine List.forall_mem_append.mpr ⟨ht.length, List.forall_mem_singleton.mpr rfl⟩
    · rintro (hs' | hs') <;> rcases hs with hs | hs <;> cases hs.symm.trans hs'

theorem serve_accounted (h : Accounted said) (ht : Tally σ.conn said)
    (hok : σ.conn.m_state.sending = true → σ.stack.packet 0 = true →
      12 ≤ σ.conn.m_len.toNat ∧ σ.conn.m_sequence ≠ 0xffffffff)
    (socket : TCPTableEntry) (count : UInt32) :
    Accounted (said ++ (σ.serve socket count).2) ∧
      Tally (σ.serve socket count).1.conn (said ++ (σ.serve socket count).2) := by
  unfold serve
  cases hs : σ.conn.m_state with
  | TEST_START =>
    rw [hs] at hok
    obtain ⟨hdata, htally⟩ := sendDataOnStream_accounted h ht (.inl hs) (hok rfl) socket count
    dsimp only
    have hno := sendState_noData socket
      ((σ.SendDataOnStream socket count).1.setState .TEST_RUNNING)
    rw [sendState_conn, ← List.append_assoc]
    refine ⟨hdata.append_brief hno (sendState_brief socket _), ?_⟩
    · have hrunning : Tally ((σ.SendDataOnStream socket count).1.setState .TEST_RUNNING).conn
          (said ++ (σ.SendDataOnStream socket count).2) :=
        ⟨htally.sequence, htally.length, by rintro (hs' | hs') <;> cases hs'⟩
      exact hrunning.append_noData hno
  | TEST_RUNNING =>
    rw [hs] at hok
    exact sendDataOnStream_accounted h ht (.inr hs) (hok rfl) socket count
  | IPERF_START | PARAM_EXCHANGE | CREATE_STREAMS | TEST_END | EXCHANGE_RESULTS | DISPLAY_RESULTS
  | IPERF_DONE =>
    dsimp only
    rw [List.append_nil]
    exact ⟨h, ht⟩

theorem serve_sends (hs : σ.conn.m_state.sending = true) (hpacket : σ.stack.packet 0 = true)
    (socket : TCPTableEntry) (count : UInt32) :
    ∃ e ∈ (σ.serve socket count).2, e.isData = true := by
  have hdata : ∃ e ∈ (σ.SendDataOnStream socket count).2, e.isData = true := by
    unfold SendDataOnStream GetTxPacket
    rw [hpacket]
    exact ⟨_, List.mem_singleton_self _, rfl⟩
  obtain ⟨e, he, hdata⟩ := hdata
  unfold serve
  cases h : σ.conn.m_state with
  | TEST_START => exact ⟨e, List.mem_append_left _ he, hdata⟩
  | TEST_RUNNING => exact ⟨e, he, hdata⟩
  | IPERF_START | PARAM_EXCHANGE | CREATE_STREAMS | TEST_END | EXCHANGE_RESULTS | DISPLAY_RESULTS
  | IPERF_DONE => cases (congrArg IperfState.sending h).symm.trans hs

/-! ### Control data -/

theorem openStream_brief (socket : TCPTableEntry) (sport : UInt16) (σ : Session) :
    ∀ e ∈ (σ.openStream socket sport).2, e.brief := by
  unfold openStream GetTxPacket
  cases σ.stack.packet 0 with
  | false => exact fun e he => absurd he List.not_mem_nil
  | true => exact List.forall_mem_cons.mpr ⟨nofun, sendState_brief socket _⟩

theorem openStream_tally (ht : Tally σ.conn said) (socket : TCPTableEntry) (sport : UInt16) :
    Tally (σ.openStream socket sport).1.conn (said ++ (σ.openStream socket sport).2) := by
  refine Tally.append_noData ?_ openStream_noData
  rcases openStream_conn (σ := σ) socket sport with hconn | hconn
  · rw [hconn]
    exact ht
  · rw [hconn]
    exact ⟨ht.sequence, ht.length, by rintro (hs' | hs') <;> cases hs'⟩

/-- Results are for a test that runs. -/
theorem handle_brief (hs : σ.conn.m_state ≠ .TEST_RUNNING) :
    ∀ e ∈ (σ.handle socket behind).2.2, e.brief := by
  have hnil : ∀ e ∈ ([] : List Tx), e.brief := fun e he => absurd he List.not_mem_nil
  have hclose : ∀ e ∈ [Tx.CloseSocket socket], e.brief :=
    List.forall_mem_singleton.mpr (brief_close socket)
  by_cases hstart : σ.conn.m_state = .IPERF_START
  · by_cases hlen : IPERF_COOKIE_SIZE ≤ σ.conn.m_rxBuffer.items.length
    · rw [handle_cookie hstart hlen]
      exact sendState_brief socket _
    · rw [handle_short hstart hlen]
      exact hnil
  by_cases hparam : σ.conn.m_state = .PARAM_EXCHANGE
  · rcases handle_params socket behind hparam with
      ⟨-, heq⟩ | ⟨-, heq⟩ | ⟨p, -, es, hlog, -, ⟨rfl, -⟩ | ⟨rfl, -⟩⟩
    · rw [heq]
      exact hnil
    · rw [heq]
      exact hclose
    · rw [hlog]
      exact List.forall_mem_append.mpr ⟨sendState_brief socket _, hnil⟩
    · rw [hlog]
      exact List.forall_mem_append.mpr ⟨sendState_brief socket _, hclose⟩
  · unfold handle
    cases h : σ.conn.m_state with
    | IPERF_START => exact absurd h hstart
    | PARAM_EXCHANGE => exact absurd h hparam
    | TEST_RUNNING => exact absurd h hs
    | CREATE_STREAMS | TEST_START | TEST_END | EXCHANGE_RESULTS | DISPLAY_RESULTS | IPERF_DONE =>
      exact hnil

theorem running_of_moved {c d : IperfConnectionState} (h : Moved c d)
    (hc : c.m_state ≠ .TEST_RUNNING) : d.m_state ≠ .TEST_RUNNING := by
  cases h with
  | stay => exact hc
  | ignore hs | finish hs => exact absurd hs hc
  | cookie _ _ _ | refuse _ | accept _ _ _ _ _ _ => exact nofun

/-- A segment of control data, if what it ends can be reported. -/
theorem rounds_accounted {es : List Tx} (h : Accounted said)
    (ht : σ.conn.boundTo ≠ none → Tally σ.conn said) (hbound : σ.conn.boundTo ≠ none)
    (hok : σ.conn.moves behind = some .EXCHANGE_RESULTS → σ.stack.segment 1 = true →
      σ.conn.m_sequence.toNat < 2147483648 ∧
        σ.conn.m_sequence.toNat * σ.conn.m_len.toNat < 4294967296)
    (hr : rounds (fun σ => .ok (σ.handle socket behind)) Fault.stuck 3 σ = .ok (τ, es)) :
    Accounted (said ++ es) ∧ (τ.conn.boundTo ≠ none → Tally τ.conn (said ++ es)) := by
  have htally : NoData es ∧ (τ.conn.boundTo ≠ none → Tally τ.conn said) := by
    refine rounds_handle (J := fun τ es => NoData es ∧ (τ.conn.boundTo ≠ none → Tally τ.conn said))
      (fun υ log hυ => ⟨hυ.1.append handle_noData, fun hb => ?_⟩) ⟨noData_nil, ht⟩ hr
    have hmoved : Moved υ.conn (υ.handle socket behind).2.1.conn := handle_moved
    exact (hυ.2 fun hfree => hb (hmoved.boundTo_none hfree)).moved hmoved hb
  refine ⟨?_, fun hb => (htally.2 hb).append_noData htally.1⟩
  by_cases hs : σ.conn.m_state = .TEST_RUNNING
  · rcases handle_running socket behind hs with
      ⟨-, heq⟩ | ⟨hcode, hlast, hconn, hlog⟩
    · obtain ⟨-, rfl⟩ := ok_eq (hr.symm.trans (rounds_handle_last heq 2))
      rw [List.append_nil]
      exact h
    · have heq : σ.handle socket behind =
          (false, (σ.handle socket behind).2.1, (σ.handle socket behind).2.2) := by rw [← hlast]
      obtain ⟨-, rfl⟩ := ok_eq (hr.symm.trans (rounds_handle_last heq 2))
      have hsaid := h.append_brief (sendState_noData socket { σ with conn := σ.conn.ended })
        (sendState_brief socket _)
      rw [hlog, ← List.append_assoc]
      split
      · rename_i hsegment
        obtain ⟨hpackets, hbytes⟩ := hok ((moves_running hs).trans (if_pos hcode)) hsegment
        have htally := (ht hbound).append_noData
          (sendState_noData socket { σ with conn := σ.conn.ended })
        rw [htally.resultsPayload hpackets hbytes]
        exact hsaid.append_results socket rfl rfl _
      · rw [List.append_nil]
        exact hsaid
  · refine h.append_brief htally.1 ?_
    refine (rounds_handle (J := fun τ es => τ.conn.m_state ≠ .TEST_RUNNING ∧ ∀ e ∈ es, e.brief)
      (fun υ log hυ => ?_) ⟨hs, fun e he => absurd he List.not_mem_nil⟩ hr).2
    exact ⟨running_of_moved handle_moved hυ.1,
      List.forall_mem_append.mpr ⟨hυ.2, handle_brief hυ.1⟩⟩

end Session

/-! ## Runs -/

namespace Iperf3Server

variable {n : Nat} {srv : TCPServer n} {s t : Iperf3Server n} {i : Fin n} {op : Op n}
  {socket : TCPTableEntry} {said : List Tx} {count : Fin n → UInt32}

/-- A data packet takes a call that the stack has a packet for. -/
theorem call_of_data (count : Fin n → UInt32) {e : Tx}
    (he : e ∈ sentFor i (iterate count (List.finRange n) s).2) (hdata : e.isData = true) :
    ∃ k, (calls (List.finRange n) s)[k]? = some i ∧ s.stack.packet k = true := by
  have hpos := List.countP_pos_iff.mpr ⟨e, he, hdata⟩
  rw [iterate_countP count (List.pairwise_lt_finRange n)] at hpos
  split at hpos
  · rename_i hcall
    obtain ⟨hmem, hpacket⟩ := Bool.and_eq_true_iff.mp hcall
    exact ⟨_, List.getElem?_idxOf (of_decide_eq_true hmem), hpacket⟩
  · exact absurd hpos (Nat.lt_irrefl 0)

/-- The event does not take the figures past what they can hold: a packet that goes
out has room for its number, and so has the number; what is reported is below the
bounds of `%d` and `%u`. -/
structure Reportable (srv : TCPServer n) (i : Fin n) (s : Iperf3Server n) (op : Op n) : Prop where
  sends : ∀ {count k}, op = .Iteration count →
    (calls (List.finRange n) s)[k]? = some i → s.stack.packet k = true →
    12 ≤ (s.m_state i).m_len.toNat ∧ (s.m_state i).m_sequence ≠ 0xffffffff
  reports : ∀ {socket payload behind fifo}, op = .OnRxData socket payload behind →
    srv.GetConnectionID s.sockets socket = some i →
    (s.m_state i).m_rxBuffer.push payload = some fifo →
    { s.m_state i with m_rxBuffer := fifo }.moves behind = some .EXCHANGE_RESULTS →
    s.stack.segment 1 = true →
    (s.m_state i).m_sequence.toNat < 2147483648 ∧
      (s.m_state i).m_sequence.toNat * (s.m_state i).m_len.toNat < 4294967296

/-- **Step lemma.** -/
theorem accounted_step {es : List (Entry n)} (hop : ¬ Takes srv s i op) (hok : Reportable srv i s op)
    (h : Accounted said) (ht : (s.m_state i).boundTo ≠ none → Tally (s.m_state i) said)
    (hstep : step srv s op = .ok (t, es)) :
    Accounted (said ++ sentFor i es) ∧
      ((t.m_state i).boundTo ≠ none → Tally (t.m_state i) (said ++ sentFor i es)) := by
  have hslot := step_slot hstep i
  have hbound {other : TCPTableEntry} (hother : s.sockets i = some other) :
      (s.m_state i).boundTo ≠ none := fun hnone => by cases hother.symm.trans hnone
  have hquiet {more : List Tx} (hno : NoData more) (hbrief : ∀ e ∈ more, e.brief) :
      Accounted (said ++ more) := h.append_brief hno hbrief
  have hnil : ∀ e ∈ ([] : List Tx), e.brief := fun e he => absurd he List.not_mem_nil
  obtain ⟨fs, hfs⟩ : ∃ fs, sentFor i es = fs := ⟨_, rfl⟩
  obtain ⟨c, hc⟩ : ∃ c, t.m_state i = c := ⟨_, rfl⟩
  rw [hfs, hc] at hslot ⊢
  cases hslot with
  | other _ =>
    rw [List.append_nil]
    exact ⟨h, ht⟩
  | accept hid => exact absurd ⟨_, rfl, hid⟩ hop
  | close _ => exact ⟨hquiet noData_nil hnil, fun hfree => absurd rfl hfree⟩
  | overflow _ _ =>
    exact ⟨hquiet (noData_nil.cons rfl) (List.forall_mem_singleton.mpr (brief_close _)),
      fun hfree => absurd rfl hfree⟩
  | @receive other payload behind fifo τ es' hid hpush hrounds =>
    have hbound' := hbound (srv.getConnectionID_bound hid)
    have hc : (s.m_state i).boundTo ≠ none → Tally { s.m_state i with m_rxBuffer := fifo } said :=
      fun hb => ⟨(ht hb).sequence, (ht hb).length, (ht hb).idle⟩
    exact Session.rounds_accounted (σ := { s.session i with conn.m_rxBuffer := fifo }) h hc hbound'
      (hok.reports rfl hid hpush) hrounds
  | @opens other srcip sport dport _ hsocket _ =>
    have hτ := Session.openStream_tally (σ := s.session i) (ht (hbound hsocket)) other sport
    exact ⟨hquiet Session.openStream_noData (Session.openStream_brief other sport _), fun _ => hτ⟩
  | @serve other count σ _ hsocket hσ _ =>
    have htally : Tally σ.conn said := by
      rw [hσ]
      exact ht (hbound hsocket)
    have hsend : σ.conn.m_state.sending = true → σ.stack.packet 0 = true →
        12 ≤ σ.conn.m_len.toNat ∧ σ.conn.m_sequence ≠ 0xffffffff := by
      intro hsending hpacket
      obtain ⟨-, hes⟩ := ok_eq hstep
      obtain ⟨e, he, hdata⟩ := Session.serve_sends (σ := σ) hsending hpacket other (count i)
      rw [← hfs, hes] at he
      obtain ⟨k, hk, hgranted⟩ := call_of_data count he hdata
      rw [hσ]
      exact hok.sends rfl hk hgranted
    obtain ⟨hacc, hτ⟩ := Session.serve_accounted h htally hsend other (count i)
    exact ⟨hacc, fun _ => hτ⟩

/-- **Figures are right** for a connection in every run whose events do not take
them past their bounds. -/
theorem packets_accounted {stack : Stack} {before after : List (Op n)} {log₀ log : List (Entry n)}
    (hbefore : run (step srv) (.init stack) before = .ok (s, log₀))
    (hid : srv.AllocateConnectionID s.sockets socket = some i)
    (hkeep : AllSteps (step srv) (fun s op => ¬ Takes srv s i op)
      (s.OnConnectionAccepted srv socket) after)
    (hok : AllSteps (step srv) (Reportable srv i) (s.OnConnectionAccepted srv socket) after)
    (hrun : run (step srv) (s.OnConnectionAccepted srv socket) after = .ok (t, log)) :
    Accounted (sentFor i log) ∧
      ((t.m_state i).boundTo ≠ none → ∀ p ∈ dataOf (sentFor i log), p.2 = (t.m_state i).m_len) := by
  have hclear : s.m_state i = .Clear :=
    (ok_run hbefore i).free (not_valid_of_boundTo (srv.allocateConnectionID_free hid))
  have hstate : (s.OnConnectionAccepted srv socket).m_state i =
      { IperfConnectionState.Clear.bind socket with m_state := .IPERF_START } := by
    rw [← hclear]
    exact accepted_slot hid
  have hstart : Tally ((s.OnConnectionAccepted srv socket).m_state i) [] := by
    rw [hstate]
    exact ⟨rfl, fun p hp => absurd hp List.not_mem_nil, fun _ => rfl⟩
  have hJ := run_rule (C := fun s op => ¬ Takes srv s i op ∧ Reportable srv i s op)
    (J := fun s log _ => Accounted (sentFor i log) ∧
      ((s.m_state i).boundTo ≠ none → Tally (s.m_state i) (sentFor i log))) (l := []) (b := [])
    (fun s log _ op t es hJ hC ht => by
      rw [sentFor_append]
      exact accounted_step hC.1 hC.2 hJ.1 hJ.2 ht)
    ⟨accounted_nil, fun _ => hstart⟩ (hkeep.and hok) hrun
  exact ⟨hJ.1, fun hb => (hJ.2 hb).length⟩

/-! ## A test that is short enough -/

theorem reportable_of_small (hlen : (s.m_state i).m_state.sending = true →
      12 ≤ (s.m_state i).m_len.toNat)
    (hmax : (s.m_state i).m_len.toNat ≤ 1480) (hseq : (s.m_state i).m_sequence.toNat ≤ 1000000) :
    Reportable srv i s op where
  sends _ hk _ := by
    have hsending := ((mem_calls (List.pairwise_lt_finRange n) i).mp (List.mem_of_getElem? hk)).2
    refine ⟨hlen hsending, fun heq => ?_⟩
    rw [heq] at hseq
    exact absurd hseq (by decide)
  reports _ _ _ _ _ := by
    have hle := Nat.mul_le_mul hseq hmax
    exact ⟨by omega, by omega⟩

theorem packets_accounted_talk :
    ∃ t log, run (step (.search 1)) ((init ready).OnConnectionAccepted (.search 1) client) talkOps =
        .ok (t, log) ∧
      (dataOf (sentFor 0 log)).length = 2 ∧ Accounted (sentFor 0 log) := by
  obtain ⟨⟨t, log⟩, hr, hp⟩ := exists_of_returns
    (P := fun r => (dataOf (sentFor 0 r.2)).length == 2)
    (r := run (step (.search 1)) ((init ready).OnConnectionAccepted (.search 1) client) talkOps)
    (by decide +kernel)
  have hnone : ∀ op ∈ talkOps, ∀ socket, op ≠ .OnConnectionAccepted socket := by
    unfold talkOps
    simp
  have hkeep : AllSteps (step (.search 1)) (fun s op => ¬ Takes (.search 1) s 0 op)
      ((init ready).OnConnectionAccepted (.search 1) client) talkOps :=
    (allSteps_of_forall hnone).imp fun _ _ hop ⟨socket, heq, _⟩ => hop socket heq
  have hok : AllSteps (step (.search 1)) (Reportable (.search 1) 0)
      ((init ready).OnConnectionAccepted (.search 1) client) talkOps := by
    let check (s : Iperf3Server 1) (_ : Op 1) : Bool :=
      (!(s.m_state 0).m_state.sending || decide (12 ≤ (s.m_state 0).m_len.toNat)) &&
        (decide ((s.m_state 0).m_len.toNat ≤ 1480) &&
          decide ((s.m_state 0).m_sequence.toNat ≤ 1000000))
    have hpasses : passes (step (.search 1)) check
      ((init ready).OnConnectionAccepted (.search 1) client) talkOps = true := by decide +kernel
    refine allSteps_of_passes (fun s op h => ?_) hpasses
    simp only [check, Bool.and_eq_true, Bool.or_eq_true, Bool.not_eq_true', decide_eq_true_eq] at h
    refine reportable_of_small (fun hs => h.1.resolve_left ?_) h.2.1 h.2.2
    rw [hs]
    exact Bool.noConfusion
  exact ⟨t, log, hr, beq_iff_eq.mp hp,
    (packets_accounted (run_nil (init ready)) (by decide) hkeep hok hr).1⟩

/-! ## A test that is not -/

/-- A test that runs, and buffers for all that is sent. -/
structure Running (s : Iperf3Server 1) (seq : UInt32) : Prop where
  bound : (s.m_state 0).boundTo = some client
  m_state : (s.m_state 0).m_state = .TEST_RUNNING
  fifo : (s.m_state 0).m_rxBuffer.items = []
  m_len : (s.m_state 0).m_len = 1024
  sequence : (s.m_state 0).m_sequence = seq
  packet : ∀ k, s.stack.packet k = true
  segment : ∀ k, s.stack.segment k = true

/-- One iteration sends one packet. -/
theorem running_iteration {s : Iperf3Server 1} {seq : UInt32} (h : Running s seq)
    (count : Fin 1 → UInt32) :
    ∃ t es ws, step (.search 1) s (.Iteration count) = .ok (t, es) ∧ Running t (seq + 1) ∧
      dataOf (sentFor 0 es) = [(ws, 1024)] := by
  obtain ⟨t, es, ht⟩ := step_ok (.search 1) s (.Iteration count)
  have hlater := step_later ht
  have hslot := step_slot ht 0
  obtain ⟨fs, hfs⟩ : ∃ fs, sentFor 0 es = fs := ⟨_, rfl⟩
  obtain ⟨c, hc⟩ : ∃ c, t.m_state 0 = c := ⟨_, rfl⟩
  have hused (j : Fin 1) (_ : j ≤ 0) : (s.sockets j).isSome = true := by
    obtain rfl : j = 0 := Subsingleton.elim _ _
    exact congrArg Option.isSome h.bound
  rw [hfs, hc] at hslot
  cases hslot with
  | other hother => exact absurd hused hother
  | @serve socket _ σ _ hsocket hσ hst =>
    have hpacket : σ.stack.packet 0 = true := hst.packet h.packet 0
    have hserve : σ.serve socket (count 0) = σ.SendDataOnStream socket (count 0) := by
      unfold Session.serve
      rw [hσ, h.m_state]
    have hdata : ∃ ws, (σ.SendDataOnStream socket (count 0)).1.conn =
          { σ.conn with m_sequence := σ.conn.m_sequence + 1 } ∧
        dataOf (σ.SendDataOnStream socket (count 0)).2 = [(ws, σ.conn.m_len)] := by
      unfold Session.SendDataOnStream Session.GetTxPacket
      rw [hpacket]
      exact ⟨_, rfl, rfl⟩
    obtain ⟨ws, hconn, hone⟩ := hdata
    rw [hserve] at hc hfs
    rw [hconn, hσ] at hc
    refine ⟨t, es, ws, ht, ⟨?_, ?_, ?_, ?_, ?_, hlater.packet h.packet, hlater.segment h.segment⟩, ?_⟩
    · rw [hc]
      exact h.bound
    · rw [hc]
      exact h.m_state
    · rw [hc]
      exact h.fifo
    · rw [hc]
      exact h.m_len
    · rw [hc]
      exact congrArg (· + 1) h.sequence
    · rw [hfs, hone, hσ, h.m_len]

theorem running_iterations {s : Iperf3Server 1} {seq : UInt32} (h : Running s seq)
    (count : Fin 1 → UInt32) (k : Nat) :
    ∃ t log, run (step (.search 1)) s (List.replicate k (.Iteration count)) = .ok (t, log) ∧
      Running t (seq + .ofNat k) ∧ bytesOf (sentFor 0 log) = k * 1024 := by
  induction k generalizing s seq with
  | zero =>
    have hzero : seq + .ofNat 0 = seq := UInt32.add_zero seq
    exact ⟨s, [], rfl, by rw [hzero]; exact h, rfl⟩
  | succ k ih =>
    obtain ⟨t, es, ws, ht, hrun, hone⟩ := running_iteration h count
    obtain ⟨u, log, hu, hrun', hbytes⟩ := ih hrun
    refine ⟨u, es ++ log, run_cons_of_ok ht hu, ?_, ?_⟩
    · have hadd : seq + 1 + .ofNat k = seq + .ofNat (k + 1) := by
        rw [UInt32.ofNat_add, UInt32.add_assoc, UInt32.add_comm 1]
        rfl
      rwa [hadd] at hrun'
    · unfold bytesOf at hbytes ⊢
      rw [sentFor_append, dataOf_append, hone, List.map_append, List.sum_append, hbytes]
      show 1024 + k * 1024 = (k + 1) * 1024
      omega

/-- The test is over. -/
theorem running_end {s : Iperf3Server 1} {seq : UInt32} (h : Running s seq) :
    ∃ t es c, step (.search 1) s
        (.OnRxData client [IperfState.TEST_END.code] fun _ => 0) = .ok (t, es) ∧
      sentFor 0 es = [announce client .EXCHANGE_RESULTS,
        .SendTxSegment client (Session.resultsPayload c)] ∧
      c.m_sequence = seq ∧ c.m_len = 1024 := by
  obtain ⟨t, es, ht⟩ := step_ok (.search 1) s
    (.OnRxData client [IperfState.TEST_END.code] fun _ => 0)
  have hslot := step_slot ht 0
  have hid : (TCPServer.search 1).GetConnectionID s.sockets client = some 0 := by
    have hbound : s.sockets 0 = some client := h.bound
    obtain ⟨j, hj⟩ := Option.isSome_iff_exists.mp
      ((TCPServer.search 1).getConnectionID_isSome hbound)
    rw [hj, Subsingleton.elim j 0]
  obtain ⟨fs, hfs⟩ : ∃ fs, sentFor 0 es = fs := ⟨_, rfl⟩
  obtain ⟨c, hc⟩ : ∃ c, t.m_state 0 = c := ⟨_, rfl⟩
  have hfits : (s.m_state 0).m_rxBuffer.items.length + [IperfState.TEST_END.code].length ≤ 256 := by
    rw [h.fifo]
    decide
  rw [hfs, hc] at hslot
  cases hslot with
  | other hother => exact absurd hid hother
  | overflow _ hpush => exact absurd hfits (Nat.not_le.mpr (BoundedQueue.push_eq_none_iff.mp hpush))
  | @receive _ _ _ fifo τ _ _ hpush hrounds =>
    let σ : Session := { s.session 0 with conn.m_rxBuffer := fifo }
    have hready : σ.Ready := h.segment
    have hitems : σ.conn.m_rxBuffer.items = [IperfState.TEST_END.code] := by
      obtain ⟨fifo', hpush', hitems⟩ := BoundedQueue.push_of_fits hfits
      obtain rfl : fifo = fifo' := Option.some.inj (hpush.symm.trans hpush')
      rw [h.fifo] at hitems
      exact hitems
    obtain ⟨τ', es', hrounds', -, hes, -⟩ :=
      Session.rounds_received (σ := σ) hready client fun _ => 0
    obtain ⟨-, rfl⟩ := ok_eq (hrounds.symm.trans hrounds')
    have hs : σ.conn.m_state = .TEST_RUNNING := h.m_state
    rw [received_running client (fun _ => 0) hs, hitems] at hes
    exact ⟨t, es, _, ht, hfs.trans hes, h.sequence, h.m_len⟩

/-- A client gets its first packet. -/
def firstOps : List (Op 1) :=
  [.OnRxData client (List.replicate IPERF_COOKIE_SIZE 0x61 ++ clientBlob) (fun _ => 0),
    .OnRxUdpData client.m_remoteIP 40000 IPERF3_PORT, .Iteration fun _ => 7]

/-- It gets `k` more before it ends the test. -/
def longOps (k : Nat) : List (Op 1) :=
  firstOps ++ (List.replicate k (.Iteration fun _ => 7) ++
    [.OnRxData client [IperfState.TEST_END.code] fun _ => 0])

theorem running_start :
    ∃ t log, run (step (.search 1)) ((init ready).OnConnectionAccepted (.search 1) client) firstOps =
        .ok (t, log) ∧ Running t 1 ∧ bytesOf (sentFor 0 log) = 1024 := by
  obtain ⟨⟨t, log⟩, hr, hp⟩ := exists_of_returns
    (P := fun r : Iperf3Server 1 × List (Entry 1) => (r.1.m_state 0).boundTo == some client &&
      (r.1.m_state 0).m_state == .TEST_RUNNING && (r.1.m_state 0).m_rxBuffer.items.isEmpty &&
      (r.1.m_state 0).m_len == 1024 && (r.1.m_state 0).m_sequence == 1 &&
      bytesOf (sentFor 0 r.2) == 1024)
    (r := run (step (.search 1)) ((init ready).OnConnectionAccepted (.search 1) client) firstOps)
    (by decide +kernel)
  have haccept : ready.Later ((init ready).OnConnectionAccepted (.search 1) client).stack :=
    .refl ready
  have hlater : ready.Later t.stack :=
    run_invariant (C := fun _ _ => True) (J := fun s => ready.Later s.stack)
      (fun _ _ _ _ hJ _ ht => hJ.trans (step_later ht))
      haccept
      (allSteps_true _ _) hr
  simp only [Bool.and_eq_true, beq_iff_eq, List.isEmpty_iff] at hp
  obtain ⟨⟨⟨⟨⟨hbound, hstate⟩, hfifo⟩, hlen⟩, hseq⟩, hbytes⟩ := hp
  exact ⟨t, log, hr, ⟨hbound, hstate, hfifo, hlen, hseq, hlater.packet fun _ => rfl,
    hlater.segment fun _ => rfl⟩, hbytes⟩

theorem text_append (a b : String) : text (a ++ b) = text a ++ text b := by
  unfold text
  rw [String.toList_append, List.map_append]

/-- Where the bytes are reported. -/
theorem report_digit {bytes : String} (hbytes : 0 < bytes.length) (packets time : String)
    {pre : List UInt8} (hpre : pre.length = 4) (post : List UInt8) :
    (pre ++ text (report bytes packets time) ++ post)[122]? = (text bytes)[0]? := by
  have hlong : 118 < (text (report bytes packets time)).length := by
    rw [length_text, length_report]
    omega
  rw [List.append_assoc, List.getElem?_append_right (by omega), hpre,
    List.getElem?_append_left hlong]
  unfold report
  simp only [text_append, List.append_assoc]
  rw [List.getElem?_append_right (by rw [length_text]; decide),
    List.getElem?_append_right (by rw [length_text, length_text]; decide),
    List.getElem?_append_left (by rw [length_text, length_text, length_text]; exact hbytes)]
  rw [length_text, length_text]
  rfl

/-- 4194304 packets of 1024 bytes are no bytes. -/
theorem results_overflow :
    ∃ t log, run (step (.search 1)) ((init ready).OnConnectionAccepted (.search 1) client)
        (longOps 4194303) = .ok (t, log) ∧ ¬ Accounted (sentFor 0 log) := by
  obtain ⟨s₁, log₁, h₁, hrun₁, hbytes₁⟩ := running_start
  obtain ⟨s₂, log₂, h₂, hrun₂, hbytes₂⟩ := running_iterations hrun₁ (fun _ => 7) 4194303
  obtain ⟨t, es, c, ht, hes, hseq, hlen⟩ := running_end hrun₂
  have hrun := run_append_of_ok h₁ (run_append_of_ok h₂ (run_cons_of_ok ht (run_nil t)))
  refine ⟨t, _, hrun, fun h => ?_⟩
  let pre := sentFor 0 log₁ ++ sentFor 0 log₂ ++ [announce client .EXCHANGE_RESULTS]
  have hsaid : sentFor 0 (log₁ ++ (log₂ ++ (es ++ []))) =
      pre ++ .SendTxSegment client (Session.resultsPayload c) :: [] := by
    simp only [sentFor_append, hes, pre, List.append_assoc]
    rfl
  have hbytes : bytesOf pre = 4294967296 := by
    unfold bytesOf at hbytes₁ hbytes₂ ⊢
    simp only [pre, dataOf_append, List.map_append, List.sum_append, hbytes₁, hbytes₂]
    rfl
  have hzero : (c.m_sequence * c.m_len).toNat = 0 := by
    rw [hseq, hlen]
    decide
  have hpayload := resultsPayload_eq c
  obtain ⟨time, htime⟩ := h.results pre client _ [] hsaid (by
    rw [hpayload, List.length_append, List.length_append]
    simp [be32])
  rw [hpayload, resultsJson_eq, hzero, hbytes] at htime
  have hdigit := congrArg (·[122]?) htime
  unfold resultsOf at hdigit
  dsimp only at hdigit
  rw [report_digit (by decide) _ _ rfl, report_digit (by decide) _ _ rfl] at hdigit
  cases hdigit

end Iperf3Server

end EmbeddedPlatform.Services
