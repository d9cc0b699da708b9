import EmbeddedPlatform.Services.SlotSteps

/-! # Which streams an iteration serves

`Iteration` goes through the table from its start and returns at the first free
slot, so that the streams behind it wait for as long as the slot stays free. -/
namespace EmbeddedPlatform.Services
open EmbeddedPlatform.Lib

variable {n : Nat}

/-- Data is sent in this state. -/
def IperfState.sending : IperfState → Bool
  | TEST_START | TEST_RUNNING => true
  | IPERF_START | PARAM_EXCHANGE | CREATE_STREAMS | TEST_END | EXCHANGE_RESULTS | DISPLAY_RESULTS
  | IPERF_DONE => false

/-- A slot in use with a stream to serve. -/
def IperfConnectionState.active (c : IperfConnectionState) : Bool :=
  c.boundTo.isSome && c.m_state.sending

namespace Iperf3Server

variable {s : Iperf3Server n} {count : Fin n → UInt32}

/-- The slots that are served: of those before the first free one, the ones with a
stream to send on. -/
def calls (is : List (Fin n)) (s : Iperf3Server n) : List (Fin n) :=
  (is.takeWhile fun i => (s.sockets i).isSome).filter fun i => (s.m_state i).m_state.sending

theorem calls_of_free {i : Fin n} (hi : s.sockets i = none) (is : List (Fin n)) :
    calls (i :: is) s = [] := by
  unfold calls
  rw [List.takeWhile_cons, hi]
  rfl

theorem calls_cons {i : Fin n} (hi : (s.sockets i).isSome = true) (is : List (Fin n)) :
    calls (i :: is) s =
      (if (s.m_state i).m_state.sending then [i] else []) ++ calls is s := by
  unfold calls
  rw [List.takeWhile_cons, if_pos hi, List.filter_cons]
  split <;> rfl

/-- The slots behind do not see what has been done for one. -/
theorem calls_put {i : Fin n} {is : List (Fin n)} (hi : ∀ j ∈ is, i < j) (σ : Session) :
    calls is (s.put i σ) = calls is s := by
  induction is with
  | nil => rfl
  | cons j is ih =>
    obtain ⟨hij, his⟩ := List.forall_mem_cons.mp hi
    have hne : j ≠ i := Ne.symm (ne_of_lt hij)
    have hsocket := sockets_put_of_ne (s := s) (σ := σ) hne
    cases hj : s.sockets j with
    | none => rw [calls_of_free hj, calls_of_free (hsocket.trans hj)]
    | some socket =>
      have hsome : (s.sockets j).isSome = true := by rw [hj]; rfl
      rw [calls_cons hsome, calls_cons (by rw [hsocket]; exact hsome), put_of_ne hne, ih his]

theorem calls_sublist (is : List (Fin n)) (s : Iperf3Server n) : (calls is s).Sublist is :=
  List.filter_sublist.trans (List.takeWhile_sublist _)

/-! ## The calls in the code -/

theorem sendState_packet (socket : TCPTableEntry) (σ : Session) :
    (σ.SendState socket).1.stack.packet = σ.stack.packet := by
  unfold Session.SendState Session.GetTxSegment
  cases σ.stack.segment 0 <;> rfl

/-- A call asks the stack for one packet, and nothing else does. -/
theorem serve_packet (socket : TCPTableEntry) (count : UInt32) (σ : Session) (k : Nat) :
    (σ.serve socket count).1.stack.packet k =
      σ.stack.packet (k + if σ.conn.m_state.sending then 1 else 0) := by
  have hsend : (σ.SendDataOnStream socket count).1.stack.packet k = σ.stack.packet (k + 1) := by
    unfold Session.SendDataOnStream Session.GetTxPacket
    cases σ.stack.packet 0 <;> rfl
  unfold Session.serve
  cases hs : σ.conn.m_state with
  | TEST_START =>
    dsimp only
    rw [sendState_packet]
    exact hsend
  | TEST_RUNNING => exact hsend
  | IPERF_START | PARAM_EXCHANGE | CREATE_STREAMS | TEST_END | EXCHANGE_RESULTS | DISPLAY_RESULTS
  | IPERF_DONE => rfl

/-- The loop asks for a packet once for each call. -/
theorem iterate_packet (count : Fin n → UInt32) {is : List (Fin n)} (his : is.Pairwise (· < ·))
    (s : Iperf3Server n) (k : Nat) :
    (iterate count is s).1.stack.packet k = s.stack.packet (k + (calls is s).length) := by
  induction is generalizing s with
  | nil => rfl
  | cons i is ih =>
    obtain ⟨hlt, hrest⟩ := List.pairwise_cons.mp his
    unfold iterate
    cases hi : s.sockets i with
    | none =>
      rw [calls_of_free hi]
      rfl
    | some socket =>
      show (iterate count is (s.put i ((s.session i).serve socket (count i)).1)).1.stack.packet k = _
      rw [ih hrest, calls_put hlt, calls_cons (by rw [hi]; rfl), List.length_append]
      show ((s.session i).serve socket (count i)).1.stack.packet _ = _
      rw [serve_packet]
      show s.stack.packet (_ + if (s.m_state i).m_state.sending then 1 else 0) = _
      cases (s.m_state i).m_state.sending with
      | true => exact congrArg s.stack.packet (by simp only [if_true, List.length_singleton]; omega)
      | false => exact congrArg s.stack.packet (by simp)

/-- A slot is served if the loop gets to it. -/
theorem mem_calls {is : List (Fin n)} (his : is.Pairwise (· < ·)) (i : Fin n) :
    i ∈ calls is s ↔ s.Reached is i ∧ (s.m_state i).m_state.sending = true := by
  induction is with
  | nil => exact ⟨fun h => absurd h List.not_mem_nil, fun h => absurd h.1.1 List.not_mem_nil⟩
  | cons j is ih =>
    obtain ⟨hlt, hrest⟩ := List.pairwise_cons.mp his
    cases hj : s.sockets j with
    | none =>
      rw [calls_of_free hj]
      exact ⟨fun h => absurd h List.not_mem_nil, fun h => absurd h.1 (not_reached_of_free hlt hj i)⟩
    | some socket =>
      have hsome : (s.sockets j).isSome = true := by rw [hj]; rfl
      have hreached : s.Reached (j :: is) i ↔ i = j ∨ s.Reached is i := by
        unfold Reached
        simp only [List.mem_cons, forall_eq_or_imp]
        constructor
        · rintro ⟨rfl | hi, -, hall⟩
          · exact .inl rfl
          · exact .inr ⟨hi, hall⟩
        · rintro (rfl | ⟨hi, hall⟩)
          · exact ⟨.inl rfl, fun _ => hsome, fun k hk hle =>
              absurd (hlt k hk) (Nat.not_lt_of_le hle)⟩
          · exact ⟨.inr hi, fun _ => hsome, hall⟩
      rw [calls_cons hsome, List.mem_append, ih hrest, hreached]
      by_cases hij : i = j
      · subst hij
        have hnot : ¬ s.Reached is i := fun h => absurd (hlt i h.1) (Nat.lt_irrefl _)
        cases (s.m_state i).m_state.sending with
        | true => simp
        | false => simp
      · have hhead : i ∉ (if (s.m_state j).m_state.sending = true then [j] else []) := by
          split
          · exact fun h => hij (List.mem_singleton.mp h)
          · exact List.not_mem_nil
        simp [hhead, hij]

/-- One call for a slot sends one packet of data, if the stack has it. -/
theorem serve_countP (socket : TCPTableEntry) (count : UInt32) (σ : Session) :
    (σ.serve socket count).2.countP Tx.isData =
      if σ.conn.m_state.sending && σ.stack.packet 0 then 1 else 0 := by
  have hdata : (σ.SendDataOnStream socket count).2.countP Tx.isData =
      if σ.stack.packet 0 then 1 else 0 := by
    unfold Session.SendDataOnStream Session.GetTxPacket
    cases σ.stack.packet 0 <;> rfl
  have hstate (τ : Session) : (τ.SendState socket).2.countP Tx.isData = 0 :=
    List.countP_eq_zero.mpr fun e he => by
      rw [Session.sendState_noData socket τ e he]
      exact Bool.false_ne_true
  unfold Session.serve
  cases hs : σ.conn.m_state with
  | TEST_START =>
    dsimp only
    rw [List.countP_append, hstate, hdata]
    rfl
  | TEST_RUNNING => exact hdata
  | IPERF_START | PARAM_EXCHANGE | CREATE_STREAMS | TEST_END | EXCHANGE_RESULTS | DISPLAY_RESULTS
  | IPERF_DONE => rfl

/-- **The calls are those of the loop**: the `k`-th call asks the `k`-th time for a
packet, and what is sent on a stream is what it has been given. -/
theorem iterate_countP (count : Fin n → UInt32) {is : List (Fin n)} (his : is.Pairwise (· < ·))
    (s : Iperf3Server n) (i : Fin n) :
    (sentFor i (iterate count is s).2).countP Tx.isData =
      if decide (i ∈ calls is s) && s.stack.packet ((calls is s).idxOf i) then 1 else 0 := by
  induction is generalizing s with
  | nil => rfl
  | cons j is ih =>
    obtain ⟨hlt, hrest⟩ := List.pairwise_cons.mp his
    cases hj : s.sockets j with
    | none =>
      rw [calls_of_free hj]
      unfold iterate
      rw [hj]
      rfl
    | some socket =>
      have hsome : (s.sockets j).isSome = true := by rw [hj]; rfl
      have hcalls := calls_put (s := s) hlt ((s.session j).serve socket (count j)).1
      rw [sentFor_iterate_cons hj, List.countP_append, calls_cons hsome]
      by_cases hij : j = i
      · subst hij
        have hnot : j ∉ is := fun hi => absurd (hlt j hi) (Nat.lt_irrefl _)
        have hnot' : j ∉ calls is s := fun hi => hnot ((calls_sublist is s).subset hi)
        rw [if_pos rfl, serve_countP, sentFor_iterate_of_not_mem count hrest hnot]
        show (if (s.m_state j).m_state.sending && s.stack.packet 0 then 1 else 0) + 0 = _
        cases (s.m_state j).m_state.sending with
        | true => simp
        | false => simp [hnot']
      · rw [if_neg hij, ih hrest, hcalls]
        show 0 + (if decide (i ∈ calls is s) &&
          ((s.session j).serve socket (count j)).1.stack.packet ((calls is s).idxOf i) then 1 else 0) = _
        rw [serve_packet, Nat.zero_add]
        show (if decide (i ∈ calls is s) && s.stack.packet ((calls is s).idxOf i +
          if (s.m_state j).m_state.sending then 1 else 0) then 1 else 0) = _
        cases (s.m_state j).m_state.sending with
        | true => simp [Ne.symm hij, List.idxOf_cons_ne _ hij]
        | false => simp

/-! ## Every active stream -/

/-- The active streams, in the order of their slots. -/
def streams (s : Iperf3Server n) : List (Fin n) :=
  (List.finRange n).filter fun i => (s.m_state i).active

/-- One iteration sends on every active stream once and on no other, and lets every
test that starts run. Whatever packets the stack has: it is asked once for each of
the streams in turn, and what it gives is sent on that stream. What is done for a
slot depends on nothing but the slot. -/
structure ServesAll (s : Iperf3Server n) (count : Fin n → UInt32) : Prop where
  once : ∀ stack i, (sentFor i (Iteration { s with stack := stack } count).2).countP Tx.isData =
    if (s.m_state i).active && stack.packet (s.streams.idxOf i) then 1 else 0
  asked : ∀ stack k, (Iteration { s with stack := stack } count).1.stack.packet k =
    stack.packet (k + s.streams.length)
  running : ∀ stack i, (s.m_state i).boundTo.isSome = true → (s.m_state i).m_state = .TEST_START →
    ((Iteration { s with stack := stack } count).1.m_state i).m_state = .TEST_RUNNING

theorem mem_streams (i : Fin n) : i ∈ s.streams ↔ (s.m_state i).active = true := by
  unfold streams
  rw [List.mem_filter]
  exact and_iff_right (List.mem_finRange i)

/-- The calls are for all active streams if none of them is behind a free slot. -/
theorem calls_eq_streams
    (h : ∀ i, (s.m_state i).active = true → ∀ j < i, (s.sockets j).isSome = true) :
    calls (List.finRange n) s = s.streams := by
  have hsorted := List.pairwise_lt_finRange n
  have hmem (i : Fin n) : i ∈ calls (List.finRange n) s ↔ i ∈ s.streams := by
    rw [mem_calls hsorted, mem_streams, reached_finRange]
    unfold IperfConnectionState.active
    rw [Bool.and_eq_true]
    refine and_congr_left fun hsending => ⟨fun hall => hall i (Nat.le_refl _), fun hused j hle => ?_⟩
    rcases Nat.lt_or_eq_of_le hle with hlt | heq
    · exact h i (Bool.and_eq_true_iff.mpr ⟨hused, hsending⟩) j hlt
    · obtain rfl : j = i := Fin.ext heq
      exact hused
  have hcalls := hsorted.sublist (calls_sublist (List.finRange n) s)
  have hstreams : s.streams.Pairwise (· < ·) := hsorted.sublist List.filter_sublist
  have hperm : (calls (List.finRange n) s).Perm s.streams :=
    (List.perm_ext_iff_of_nodup (hcalls.imp ne_of_lt) (hstreams.imp ne_of_lt)).mpr hmem
  exact hperm.eq_of_pairwise (fun _ _ _ _ hab hba => absurd hab (Nat.lt_asymm hba)) hcalls hstreams

/-- **An iteration serves all streams** exactly when no active one is behind a free
slot. -/
theorem servesAll_iff (s : Iperf3Server n) (count : Fin n → UInt32) :
    s.ServesAll count ↔
      ∀ i, (s.m_state i).active = true → ∀ j < i, (s.sockets j).isSome = true := by
  have hsorted := List.pairwise_lt_finRange n
  constructor
  · intro h i hactive j hj
    have hcount := h.once ⟨fun _ => true, fun _ => true⟩ i
    rw [hactive] at hcount
    have hlog := iterate_countP count hsorted { s with stack := ⟨fun _ => true, fun _ => true⟩ } i
    have hmem : i ∈ calls (List.finRange n) { s with stack := ⟨fun _ => true, fun _ => true⟩ } := by
      by_contra hnot
      rw [decide_eq_false hnot] at hlog
      cases hlog.symm.trans hcount
    exact reached_finRange.mp ((mem_calls hsorted i).mp hmem).1 j (Nat.le_of_lt hj)
  · intro h
    have hcalls (stack : Stack) : calls (List.finRange n) { s with stack := stack } = s.streams :=
      calls_eq_streams h
    refine ⟨fun stack i => ?_, fun stack k => ?_, fun stack i hused hstart => ?_⟩
    · refine (iterate_countP count hsorted { s with stack := stack } i).trans ?_
      have hmem : decide (i ∈ s.streams) = (s.m_state i).active := by
        rw [Bool.eq_iff_iff, decide_eq_true_iff]
        exact mem_streams i
      rw [hcalls, hmem]
    · refine (iterate_packet count hsorted { s with stack := stack } k).trans ?_
      rw [hcalls]
    · have hactive : (s.m_state i).active = true :=
        Bool.and_eq_true_iff.mpr ⟨hused, by rw [hstart]; rfl⟩
      have hmem : i ∈ calls (List.finRange n) { s with stack := stack } := by
        rw [hcalls]
        exact (mem_streams i).mpr hactive
      rcases iterate_slot (s := { s with stack := stack }) count hsorted i with
        ⟨-, socket, σ, -, hσ, -, hstate, -⟩ | ⟨hnot, -⟩
      · show ((iterate count (List.finRange n) _).1.m_state i).m_state = _
        rw [hstate]
        exact Session.serve_running (by rw [hσ]; exact hstart)
      · exact absurd ((mem_calls hsorted i).mp hmem).1 hnot

/-- Another client connects first and leaves when the stream has been opened. -/
def leavingOps : List (Op 2) :=
  [.OnConnectionAccepted tester, .OnConnectionAccepted client,
    .OnRxData client (List.replicate IPERF_COOKIE_SIZE 0x61 ++ clientBlob) (fun _ => 0),
    .OnRxUdpData client.m_remoteIP 40000 IPERF3_PORT, .OnConnectionClosed tester]

theorem stream_not_served :
    ∃ s log, run (step (.search 2)) (.init ready) leavingOps = .ok (s, log) ∧
      ¬ s.ServesAll fun _ => 7 := by
  obtain ⟨⟨s, log⟩, hr, hp⟩ := exists_of_returns
    (P := fun r => (r.1.m_state 1).active &&
      ((sentFor 1 (Iteration { r.1 with stack := ready } fun _ => 7).2).countP Tx.isData == 0))
    (r := run (step (.search 2)) (.init ready) leavingOps) (by decide +kernel)
  obtain ⟨hactive, hnone⟩ := Bool.and_eq_true_iff.mp hp
  refine ⟨s, log, hr, fun h => ?_⟩
  have hcount := h.once ready 1
  rw [hactive, beq_iff_eq.mp hnone] at hcount
  cases hcount

end Iperf3Server

end EmbeddedPlatform.Services
