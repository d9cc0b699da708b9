import EmbeddedPlatform.Services.Accounting
import EmbeddedPlatform.Services.ConnectionStory

/-! # How big the data packets are

A length that a blob asks for is refused from 1480 on, which leaves room for the
header of the IPv4 packet but not for that of the datagram in it. -/
namespace EmbeddedPlatform.Services
open EmbeddedPlatform.Lib

/-! ## Datagrams, from outside -/

/-- What a packet that is not fragmented holds. -/
def IPV4_MTU : Nat := 1500

def IPV4_HEADER : Nat := 20

def UDP_HEADER : Nat := 8

/-- A data packet needs no fragmentation, and its words are written inside the
payload that such a packet has room for. -/
def Tx.Fits (e : Tx) : Prop :=
  ∀ p ∈ e.datum, p.2.toNat + UDP_HEADER + IPV4_HEADER ≤ IPV4_MTU ∧
    4 * p.1.length ≤ IPV4_MTU - IPV4_HEADER - UDP_HEADER

instance (e : Tx) : Decidable e.Fits :=
  inferInstanceAs (Decidable (∀ p ∈ e.datum, _))

theorem fits_of_not_data {e : Tx} (h : e.isData = false) : e.Fits := by
  intro p hp
  rw [datum_of_not_data h] at hp
  cases hp

/-! ## What is sent for a slot -/

namespace Session

/-- The length in words, rounded up, but for the four that are always written. -/
theorem length_fillPacket (count seq len : UInt32) :
    (FillPacket count seq len).length = max 4 ((len.toNat + 3) / 4) := by
  unfold FillPacket
  rw [List.length_append, List.length_map, List.length_range']
  show 4 + (len.toNat / 4 + (if len.toNat % 4 = 0 then 0 else 1) - 4) = _
  split <;> omega

theorem fits_fillPacket_iff (dstip : IPv4Address) (sport dport : UInt16) (count seq len : UInt32) :
    (Tx.SendTxPacket dstip sport dport (.words (FillPacket count seq len) len)).Fits ↔
      len.toNat ≤ 1472 := by
  have hdatum : (Tx.SendTxPacket dstip sport dport (.words (FillPacket count seq len) len)).Fits ↔
      len.toNat + 8 + 20 ≤ 1500 ∧ 4 * (FillPacket count seq len).length ≤ 1472 := by
    constructor
    · intro h
      exact h (_, len) rfl
    · intro h p hp
      obtain rfl := Option.some.inj hp
      exact h
  rw [hdatum, length_fillPacket]
  omega

variable {σ : Session}

theorem sendDataOnStream_fits_iff (socket : TCPTableEntry) (count : UInt32) :
    (∀ e ∈ (σ.SendDataOnStream socket count).2, e.Fits) ↔
      (σ.stack.packet 0 = true → σ.conn.m_len.toNat ≤ 1472) := by
  unfold SendDataOnStream GetTxPacket
  cases hpacket : σ.stack.packet 0 with
  | false =>
    refine ⟨fun _ hfalse => ?_, fun _ e he => ?_⟩
    · cases hfalse
    · exact absurd he List.not_mem_nil
  | true =>
    dsimp only
    rw [List.forall_mem_singleton, fits_fillPacket_iff]
    exact ⟨fun h _ => h, fun h => h rfl⟩

/-- What `Iteration` sends for the slot fits if the length does. -/
theorem serve_fits_iff (socket : TCPTableEntry) (count : UInt32) :
    (∀ e ∈ (σ.serve socket count).2, e.Fits) ↔
      (σ.conn.m_state.sending = true → σ.stack.packet 0 = true → σ.conn.m_len.toNat ≤ 1472) := by
  unfold serve
  cases hs : σ.conn.m_state with
  | TEST_START =>
    have hstate (τ : Session) : ∀ e ∈ (τ.SendState socket).2, e.Fits :=
      fun e he => fits_of_not_data (sendState_noData socket τ e he)
    dsimp only
    rw [List.forall_mem_append, sendDataOnStream_fits_iff]
    exact ⟨fun h _ => h.1, fun h => ⟨h rfl, hstate _⟩⟩
  | TEST_RUNNING =>
    dsimp only
    rw [sendDataOnStream_fits_iff]
    exact ⟨fun h _ => h, fun h => h rfl⟩
  | IPERF_START | PARAM_EXCHANGE | CREATE_STREAMS | TEST_END | EXCHANGE_RESULTS | DISPLAY_RESULTS
  | IPERF_DONE =>
    refine ⟨fun _ hfalse => ?_, fun _ e he => ?_⟩
    · cases hfalse
    · exact absurd he List.not_mem_nil

end Session

namespace Iperf3Server

variable {n : Nat} {srv : TCPServer n} {s t : Iperf3Server n} {op : Op n}
  {es log : List (Entry n)} {ops : List (Op n)}

/-! ## What an iteration sends -/

/-- An iteration fills a packet for slot `i`. -/
def Fills (s : Iperf3Server n) (i : Fin n) : Prop :=
  i ∈ calls (List.finRange n) s ∧ s.stack.packet ((calls (List.finRange n) s).idxOf i) = true

theorem Fills.streams {i : Fin n} (h : s.Fills i) : (s.m_state i).m_state.streams = true := by
  have hsending := ((mem_calls (List.pairwise_lt_finRange n) i).mp h.1).2
  cases hs : (s.m_state i).m_state with
  | TEST_START | TEST_RUNNING => rfl
  | IPERF_START | PARAM_EXCHANGE | CREATE_STREAMS | TEST_END | EXCHANGE_RESULTS | DISPLAY_RESULTS
  | IPERF_DONE => cases (congrArg IperfState.sending hs).symm.trans hsending

/-- The entries of a log, slot by slot. -/
theorem forall_sentFor_iff {P : Tx → Prop} {log : List (Entry n)} :
    (∀ e ∈ log, P e.2) ↔ ∀ i, ∀ e ∈ sentFor i log, P e := by
  constructor
  · intro h i e he
    obtain ⟨⟨j, f⟩, hf, heq⟩ := List.mem_filterMap.mp he
    split at heq
    · obtain rfl := Option.some.inj heq
      exact h _ hf
    · cases heq
  · rintro h ⟨i, e⟩ he
    exact h i e (List.mem_filterMap.mpr ⟨(i, e), he, if_pos rfl⟩)

theorem iterate_fits_iff (count : Fin n → UInt32) (i : Fin n) :
    (∀ e ∈ sentFor i (s.Iteration count).2, e.Fits) ↔
      (s.Fills i → (s.m_state i).m_len.toNat ≤ 1472) := by
  have hsorted := List.pairwise_lt_finRange n
  have hcount := iterate_countP count hsorted s i
  show (∀ e ∈ sentFor i (iterate count (List.finRange n) s).2, e.Fits) ↔ _
  rcases iterate_slot (s := s) count hsorted i with
    ⟨-, socket, σ, -, hσ, -, -, hes⟩ | ⟨hnot, -, hes⟩
  · rw [hes, serve_countP] at hcount
    have hsame {a b : Bool} (h : (if a then 1 else 0) = if b then 1 else 0) : a = b := by
      cases a <;> cases b <;> first | rfl | cases h
    have hfills : s.Fills i ↔ σ.conn.m_state.sending = true ∧ σ.stack.packet 0 = true := by
      rw [← Bool.and_eq_true_iff, hsame hcount, Bool.and_eq_true_iff, decide_eq_true_iff]
      rfl
    rw [hes, Session.serve_fits_iff, hfills, hσ, and_imp]
  · rw [hes]
    refine ⟨fun _ hfills => ?_, fun _ e he => absurd he List.not_mem_nil⟩
    exact absurd ((mem_calls hsorted i).mp hfills.1).1 hnot

/-! ## Runs -/

/-- The packets that the event fills are short enough for a datagram that is not
fragmented. -/
def Short (s : Iperf3Server n) (op : Op n) : Prop :=
  ∀ count, op = .Iteration count → ∀ i, s.Fills i → (s.m_state i).m_len.toNat ≤ 1472

/-- Nothing but an iteration sends data. -/
theorem noData_of_other (hop : ∀ count, op ≠ .Iteration count)
    (ht : step srv s op = .ok (t, es)) : ∀ e ∈ es, e.2.isData = false := by
  rintro ⟨i, e⟩ he
  have hslot := step_slot ht i
  have he : e ∈ sentFor i es := List.mem_filterMap.mpr ⟨(i, e), he, if_pos rfl⟩
  obtain ⟨fs, hfs⟩ : ∃ fs, sentFor i es = fs := ⟨_, rfl⟩
  obtain ⟨c, hc⟩ : ∃ c, t.m_state i = c := ⟨_, rfl⟩
  rw [hfs, hc] at hslot
  rw [hfs] at he
  cases hslot with
  | other _ | accept _ | close _ => exact absurd he List.not_mem_nil
  | overflow _ _ => exact (noData_nil.cons rfl) e he
  | receive _ _ hrounds =>
    have hno : NoData fs := Session.rounds_handle (J := fun _ es => NoData es)
      (fun σ log hlog => hlog.append σ.handle_noData) noData_nil hrounds
    exact hno e he
  | opens _ _ _ => exact Session.openStream_noData e he
  | @serve _ count _ _ _ _ _ => exact absurd rfl (hop count)

/-- **Step lemma.** -/
theorem step_fits_iff (ht : step srv s op = .ok (t, es)) :
    (∀ e ∈ es, e.2.Fits) ↔ s.Short op := by
  by_cases hop : ∃ count, op = .Iteration count
  · obtain ⟨count, rfl⟩ := hop
    obtain ⟨-, rfl⟩ := ok_eq ht
    rw [forall_sentFor_iff]
    constructor
    · intro h _ _ i
      exact (iterate_fits_iff count i).mp (h i)
    · intro h i
      exact (iterate_fits_iff count i).mpr (h count rfl i)
  · have hno := noData_of_other (fun count heq => hop ⟨count, heq⟩) ht
    exact ⟨fun _ count heq => absurd ⟨count, heq⟩ hop, fun _ e he => fits_of_not_data (hno e he)⟩

/-- The run fills a packet for a connection whose blob has set the parameters `p`. -/
def FillsFor (srv : TCPServer n) (stack : Stack) (ops : List (Op n)) (p : Params) : Prop :=
  ∃ front count back s log i, ops = front ++ .Iteration count :: back ∧
    run (step srv) (.init stack) front = .ok (s, log) ∧ s.Fills i ∧
    (story srv i stack front).params = some p

/-- **No packet is fragmented** in a run exactly when it fills none for a connection
whose blob has set a length from 1473 to 1479. Longer ones are refused. -/
theorem unfragmented_iff {stack : Stack}
    (hr : run (step srv) (.init stack) ops = .ok (s, log)) :
    (∀ p, FillsFor srv stack ops p → p.len.toNat < 1480) ∧
      ((∀ e ∈ log, e.2.Fits) ↔
        ∀ p, FillsFor srv stack ops p → ¬ (1473 ≤ p.len.toNat ∧ p.len.toNat ≤ 1479)) := by
  have hparams {front : List (Op n)} {t : Iperf3Server n} {es : List (Entry n)} {i : Fin n}
      (ht : run (step srv) (.init stack) front = .ok (t, es)) (hfills : t.Fills i) :
      (story srv i stack front).params = some (t.m_state i).params ∧
        (t.m_state i).params.len.toNat < 1480 :=
    ⟨(follows_run ht i).streams hfills.streams,
      UInt32.lt_iff_toNat_lt.mp ((ok_run ht i).supported hfills.streams).len⟩
  have hlimit (p : Params) (h : FillsFor srv stack ops p) : p.len.toNat < 1480 := by
    obtain ⟨front, count, back, t, es, i, -, ht, hfills, hp⟩ := h
    obtain ⟨hstory, hlt⟩ := hparams ht hfills
    obtain rfl := Option.some.inj (hp.symm.trans hstory)
    exact hlt
  refine ⟨hlimit, ?_⟩
  rw [run_forall_iff (fun _ _ _ _ ht => step_fits_iff ht) hr, allSteps_iff]
  constructor
  · rintro h p ⟨front, count, back, t, es, i, hops, ht, hfills, hp⟩ ⟨hlong, -⟩
    have hshort := h front _ back t es hops ht count rfl i hfills
    obtain rfl := Option.some.inj (hp.symm.trans (hparams ht hfills).1)
    exact absurd hshort (Nat.not_le.mpr hlong)
  · rintro h front op back t es hops ht count rfl i hfills
    have hfor : FillsFor srv stack ops (t.m_state i).params :=
      ⟨front, count, back, t, es, i, hops, ht, hfills, (hparams ht hfills).1⟩
    have hlt := hlimit _ hfor
    have hnot := h _ hfor
    show (t.m_state i).params.len.toNat ≤ 1472
    omega

theorem unfragmented_iff_client :
    ∃ t log, run (step (.search 2)) (.init ready) (clientOps ++ [.Iteration fun _ => 7]) =
        .ok (t, log) ∧
      (∃ p, FillsFor (.search 2) ready (clientOps ++ [.Iteration fun _ => 7]) p ∧ p.len = 1024) ∧
      ∀ p, FillsFor (.search 2) ready (clientOps ++ [.Iteration fun _ => 7]) p →
        p.len.toNat ≤ 1472 := by
  obtain ⟨⟨t, log⟩, hr, hfits⟩ := exists_of_returns
    (P := fun r => decide (∀ e ∈ r.2, e.2.Fits))
    (r := run (step (.search 2)) (.init ready) (clientOps ++ [.Iteration fun _ => 7]))
    (by decide +kernel)
  obtain ⟨⟨s, log'⟩, hs, hfills⟩ := exists_of_returns
    (P := fun r => decide (0 ∈ calls (List.finRange 2) r.1) &&
      r.1.stack.packet ((calls (List.finRange 2) r.1).idxOf 0))
    (r := run (step (.search 2)) (.init ready) clientOps) (by decide +kernel)
  obtain ⟨hcall, hpacket⟩ := Bool.and_eq_true_iff.mp hfills
  have hlen : (story (.search 2) 0 ready clientOps).params.map Params.len = some 1024 := by
    decide +kernel
  obtain ⟨p, hp, hlen⟩ := Option.map_eq_some_iff.mp hlen
  refine ⟨t, log, hr, ⟨p, ⟨clientOps, fun _ => 7, [], s, log', 0, rfl, hs,
    ⟨of_decide_eq_true hcall, hpacket⟩, hp⟩, hlen⟩, fun q hq => ?_⟩
  have hlt := (unfragmented_iff hr).1 q hq
  have hnot := (unfragmented_iff hr).2.mp (of_decide_eq_true hfits) q hq
  omega

/-- What a client is refused for, less one. -/
def longBlob : List UInt8 :=
  let json := text "\x7b\"udp\":true,\"len\":1479,\"reverse\":true\x7d"
  [0, 0, 0, .ofNat json.length] ++ json

theorem packet_fragmented :
    ∃ t log, run (step (.search 1)) (.init ready)
        [.OnConnectionAccepted client,
          .OnRxData client (List.replicate IPERF_COOKIE_SIZE 0x61 ++ longBlob) (fun _ => 0),
          .OnRxUdpData client.m_remoteIP 40000 IPERF3_PORT, .Iteration fun _ => 7] = .ok (t, log) ∧
      ¬ ∀ e ∈ log, e.2.Fits := by
  obtain ⟨⟨t, log⟩, hr, hp⟩ := exists_of_returns
    (P := fun r : Iperf3Server 1 × List (Entry 1) => decide (¬ ∀ e ∈ r.2, e.2.Fits))
    (r := run (step (.search 1)) (.init ready)
      [.OnConnectionAccepted client,
        .OnRxData client (List.replicate IPERF_COOKIE_SIZE 0x61 ++ longBlob) (fun _ => 0),
        .OnRxUdpData client.m_remoteIP 40000 IPERF3_PORT, .Iteration fun _ => 7])
    (by decide +kernel)
  exact ⟨t, log, hr, of_decide_eq_true hp⟩

end Iperf3Server

end EmbeddedPlatform.Services
