import EmbeddedPlatform.Services.Segmentation
import EmbeddedPlatform.Services.StreamAdmission

/-! # What an event does to one slot

An event concerns at most one slot, but for an iteration, which serves the slots
up to the first free one. A slot that is not concerned stays as it is and has
nothing sent for it; one that is goes through one handler. -/
namespace EmbeddedPlatform.Services
open EmbeddedPlatform.Lib

/-! ## The stack, as it answers requests -/

/-- The stack when some requests have been answered. -/
def Stack.Later (st st' : Stack) : Prop :=
  ∃ i j, st' = ⟨fun k => st.segment (k + i), fun k => st.packet (k + j)⟩

namespace Stack

variable {st st' st'' : Stack}

theorem Later.refl (st : Stack) : st.Later st := ⟨0, 0, rfl⟩

theorem Later.trans (h : st.Later st') (h' : st'.Later st'') : st.Later st'' := by
  obtain ⟨i, j, rfl⟩ := h
  obtain ⟨i', j', rfl⟩ := h'
  refine ⟨i' + i, j' + j, ?_⟩
  simp only [Nat.add_assoc]

theorem Later.segment (h : st.Later st') (hst : ∀ k, st.segment k = true) :
    ∀ k, st'.segment k = true := by
  obtain ⟨i, j, rfl⟩ := h
  exact fun k => hst (k + i)

theorem Later.packet (h : st.Later st') (hst : ∀ k, st.packet k = true) :
    ∀ k, st'.packet k = true := by
  obtain ⟨i, j, rfl⟩ := h
  exact fun k => hst (k + j)

end Stack

namespace Session

variable {socket : TCPTableEntry} {behind : Nat → UInt8} {σ : Session}

theorem getTxSegment_later (σ : Session) : σ.stack.Later σ.GetTxSegment.2.stack := ⟨1, 0, rfl⟩

theorem getTxPacket_later (σ : Session) : σ.stack.Later σ.GetTxPacket.2.stack := ⟨0, 1, rfl⟩

theorem sendState_later (socket : TCPTableEntry) (σ : Session) :
    σ.stack.Later (σ.SendState socket).1.stack := by
  have h := σ.getTxSegment_later
  unfold SendState
  unfold GetTxSegment at h ⊢
  cases σ.stack.segment 0 with
  | false => exact h
  | true => exact h

theorem sendDataOnStream_later (socket : TCPTableEntry) (count : UInt32) (σ : Session) :
    σ.stack.Later (σ.SendDataOnStream socket count).1.stack := by
  have h := σ.getTxPacket_later
  unfold SendDataOnStream
  unfold GetTxPacket at h ⊢
  cases σ.stack.packet 0 with
  | false => exact h
  | true => exact h

theorem serve_later (socket : TCPTableEntry) (count : UInt32) (σ : Session) :
    σ.stack.Later (σ.serve socket count).1.stack := by
  have hdata := σ.sendDataOnStream_later socket count
  unfold serve
  cases σ.conn.m_state with
  | TEST_START => exact hdata.trans (sendState_later socket _)
  | TEST_RUNNING => exact hdata
  | IPERF_START | PARAM_EXCHANGE | CREATE_STREAMS | TEST_END | EXCHANGE_RESULTS | DISPLAY_RESULTS
  | IPERF_DONE => exact .refl _

theorem openStream_later (socket : TCPTableEntry) (sport : UInt16) (σ : Session) :
    σ.stack.Later (σ.openStream socket sport).1.stack := by
  have h := σ.getTxPacket_later
  unfold openStream
  unfold GetTxPacket at h ⊢
  cases σ.stack.packet 0 with
  | false => exact h
  | true => exact h.trans (sendState_later socket _)

theorem handle_later : σ.stack.Later (σ.handle socket behind).2.1.stack := by
  unfold handle
  cases σ.conn.m_state with
  | IPERF_START =>
    unfold OnRxCookie
    dsimp only
    split
    · exact .refl _
    · exact sendState_later socket _
  | PARAM_EXCHANGE =>
    unfold OnRxParamExchange
    dsimp only
    split
    · exact .refl _
    split
    · exact .refl _
    split
    · exact .refl _
    split
    · exact .refl _
    · split
      · exact sendState_later socket _
      · exact sendState_later socket _
  | TEST_RUNNING =>
    unfold OnRxEnd
    dsimp only
    split
    · exact .refl _
    · have hsend := sendState_later socket ((σ.popFifo 1).setState .EXCHANGE_RESULTS)
      generalize ((σ.popFifo 1).setState .EXCHANGE_RESULTS).SendState socket = r at hsend ⊢
      have hget := r.1.getTxSegment_later
      unfold GetTxSegment at hget ⊢
      cases r.1.stack.segment 0 with
      | false => exact hsend.trans hget
      | true => exact hsend.trans hget
  | CREATE_STREAMS | TEST_START | TEST_END | EXCHANGE_RESULTS | DISPLAY_RESULTS | IPERF_DONE =>
    exact .refl _

theorem rounds_later {τ : Session} {es : List Tx}
    (h : rounds (fun σ => .ok (σ.handle socket behind)) Fault.stuck 3 σ = .ok (τ, es)) :
    σ.stack.Later τ.stack :=
  rounds_handle (J := fun τ _ => σ.stack.Later τ.stack) (fun _ _ hτ => hτ.trans handle_later)
    (.refl _) h

end Session

/-! ## The slots that an event concerns -/

variable {n : Nat}

namespace Iperf3Server

/-- The slot that a datagram is taken to ask for the stream of. -/
def opener (s : Iperf3Server n) (srcip : IPv4Address) (dport : UInt16) : Option (Fin n) :=
  if dport != IPERF3_PORT then none
  else
    (List.finRange n).find? fun i =>
      match s.sockets i with
      | none => false
      | some socket => (s.m_state i).m_state == .CREATE_STREAMS && socket.m_remoteIP == srcip

def Concerns (srv : TCPServer n) (s : Iperf3Server n) (i : Fin n) : Op n → Prop
  | .OnConnectionAccepted socket => srv.AllocateConnectionID s.sockets socket = some i
  | .OnConnectionClosed socket => srv.GetConnectionID s.sockets socket = some i
  | .OnRxData socket _ _ => srv.GetConnectionID s.sockets socket = some i
  | .OnRxUdpData srcip _ dport => s.opener srcip dport = some i
  | .Iteration _ => ∀ j ≤ i, (s.sockets j).isSome = true

/-- What becomes of slot `i`, and what is sent for it. -/
inductive SlotStep (srv : TCPServer n) (s : Iperf3Server n) (i : Fin n) :
    Op n → IperfConnectionState → List Tx → Prop
  | other {op : Op n} : ¬ Concerns srv s i op → SlotStep srv s i op (s.m_state i) []
  | accept {socket : TCPTableEntry} : srv.AllocateConnectionID s.sockets socket = some i →
    SlotStep srv s i (.OnConnectionAccepted socket)
      { (s.m_state i).bind socket with m_state := .IPERF_START } []
  | close {socket : TCPTableEntry} : srv.GetConnectionID s.sockets socket = some i →
    SlotStep srv s i (.OnConnectionClosed socket) .Clear []
  | overflow {socket : TCPTableEntry} {payload : List UInt8} {behind : Nat → UInt8} :
    srv.GetConnectionID s.sockets socket = some i →
    (s.m_state i).m_rxBuffer.push payload = none →
    SlotStep srv s i (.OnRxData socket payload behind) .Clear [.CloseSocket socket]
  | receive {socket : TCPTableEntry} {payload : List UInt8} {behind : Nat → UInt8}
      {fifo : CircularFIFO} {τ : Session} {es : List Tx} :
    srv.GetConnectionID s.sockets socket = some i →
    (s.m_state i).m_rxBuffer.push payload = some fifo →
    rounds (fun σ => .ok (σ.handle socket behind)) Fault.stuck 3
      { s.session i with conn.m_rxBuffer := fifo } = .ok (τ, es) →
    SlotStep srv s i (.OnRxData socket payload behind) τ.conn es
  | opens {socket : TCPTableEntry} {srcip : IPv4Address} {sport dport : UInt16} :
    s.opener srcip dport = some i → s.sockets i = some socket →
    (s.m_state i).m_state = .CREATE_STREAMS →
    SlotStep srv s i (.OnRxUdpData srcip sport dport)
      ((s.session i).openStream socket sport).1.conn ((s.session i).openStream socket sport).2
  | serve {socket : TCPTableEntry} {count : Fin n → UInt32} {σ : Session} :
    (∀ j ≤ i, (s.sockets j).isSome = true) → s.sockets i = some socket →
    σ.conn = s.m_state i → s.stack.Later σ.stack →
    SlotStep srv s i (.Iteration count) (σ.serve socket (count i)).1.conn
      (σ.serve socket (count i)).2

variable {srv : TCPServer n} {s : Iperf3Server n} {i : Fin n}

theorem accepted_slot {socket : TCPTableEntry}
    (h : srv.AllocateConnectionID s.sockets socket = some i) :
    (s.OnConnectionAccepted srv socket).m_state i =
      { (s.m_state i).bind socket with m_state := .IPERF_START } := by
  unfold OnConnectionAccepted
  rw [h]
  exact Function.update_self ..

theorem accepted_other {socket : TCPTableEntry}
    (h : srv.AllocateConnectionID s.sockets socket ≠ some i) :
    (s.OnConnectionAccepted srv socket).m_state i = s.m_state i := by
  unfold OnConnectionAccepted
  cases hj : srv.AllocateConnectionID s.sockets socket with
  | none => rfl
  | some j => exact Function.update_of_ne (fun hij => h (by rw [hj, hij])) ..

theorem closed_slot {socket : TCPTableEntry} (h : srv.GetConnectionID s.sockets socket = some i) :
    (s.OnConnectionClosed srv socket).m_state i = .Clear := by
  unfold OnConnectionClosed
  rw [h]
  exact Function.update_self ..

theorem closed_other {socket : TCPTableEntry} (h : srv.GetConnectionID s.sockets socket ≠ some i) :
    (s.OnConnectionClosed srv socket).m_state i = s.m_state i := by
  unfold OnConnectionClosed
  cases hj : srv.GetConnectionID s.sockets socket with
  | none => rfl
  | some j => exact Function.update_of_ne (fun hij => h (by rw [hj, hij])) ..

theorem onRxUdpData_of_none {srcip : IPv4Address} {dport : UInt16}
    (h : s.opener srcip dport = none) (sport : UInt16) : s.OnRxUdpData srcip sport dport = (s, []) := by
  unfold opener at h
  unfold OnRxUdpData
  split
  · rfl
  · rename_i hport
    rw [if_neg hport] at h
    dsimp only
    split
    · rfl
    · rename_i j hj
      cases h.symm.trans hj

theorem onRxUdpData_of_opener {srcip : IPv4Address} {dport : UInt16}
    (h : s.opener srcip dport = some i) (sport : UInt16) :
    ∃ socket, s.sockets i = some socket ∧ (s.m_state i).m_state = .CREATE_STREAMS ∧
      s.OnRxUdpData srcip sport dport =
        (s.put i ((s.session i).openStream socket sport).1,
          tag i ((s.session i).openStream socket sport).2) := by
  unfold opener at h
  split at h
  · cases h
  · rename_i hport
    have hasks := List.find?_some h
    cases hi : s.sockets i with
    | none =>
      rw [hi] at hasks
      cases hasks
    | some socket =>
      rw [hi] at hasks
      simp only [Bool.and_eq_true, beq_iff_eq] at hasks
      refine ⟨socket, rfl, hasks.1, ?_⟩
      unfold OnRxUdpData
      rw [if_neg hport]
      dsimp only
      split
      · rename_i hnone
        cases h.symm.trans hnone
      · rename_i j hj
        obtain rfl : i = j := Option.some.inj (h.symm.trans hj)
        rw [hi]

theorem put_of_ne {j : Fin n} {σ : Session} (h : i ≠ j) :
    (s.put j σ).m_state i = s.m_state i := Function.update_of_ne h ..

theorem sockets_put_of_ne {j : Fin n} {σ : Session} (h : i ≠ j) :
    (s.put j σ).sockets i = s.sockets i := by
  show ((s.put j σ).m_state i).boundTo = _
  rw [put_of_ne h]
  rfl

/-- The loop of `Iteration` gets to the slot. -/
def Reached (s : Iperf3Server n) (is : List (Fin n)) (i : Fin n) : Prop :=
  i ∈ is ∧ ∀ j ∈ is, j ≤ i → (s.sockets j).isSome = true

section
variable {j : Fin n} {is : List (Fin n)}

theorem not_reached_of_free (hlt : ∀ k ∈ is, j < k) (hj : s.sockets j = none) (i : Fin n) :
    ¬ s.Reached (j :: is) i := by
  rintro ⟨hi, hall⟩
  have hle : j ≤ i := by
    rcases List.mem_cons.mp hi with rfl | hi
    · exact Nat.le_refl _
    · exact Nat.le_of_lt (hlt i hi)
  have hsome := hall j List.mem_cons_self hle
  rw [hj] at hsome
  cases hsome

theorem reached_head (hlt : ∀ k ∈ is, i < k) (hi : (s.sockets i).isSome = true) :
    s.Reached (i :: is) i := by
  refine ⟨List.mem_cons_self, fun k hk hle => ?_⟩
  rcases List.mem_cons.mp hk with rfl | hk
  · exact hi
  · exact absurd (hlt k hk) (Nat.not_lt_of_le hle)

theorem reached_cons_iff (hlt : ∀ k ∈ is, j < k) (hj : (s.sockets j).isSome = true) (hij : i ≠ j)
    (σ : Session) : s.Reached (j :: is) i ↔ (s.put j σ).Reached is i := by
  have hmem : i ∈ j :: is ↔ i ∈ is := by simp [hij]
  have hsame {k : Fin n} (hk : k ∈ is) : (s.put j σ).sockets k = s.sockets k :=
    sockets_put_of_ne (Ne.symm (ne_of_lt (hlt k hk)))
  unfold Reached
  rw [hmem, List.forall_mem_cons]
  constructor
  · rintro ⟨hi, -, hall⟩
    refine ⟨hi, fun k hk hle => ?_⟩
    rw [hsame hk]
    exact hall k hk hle
  · rintro ⟨hi, hall⟩
    refine ⟨hi, fun _ => hj, fun k hk hle => ?_⟩
    rw [← hsame hk]
    exact hall k hk hle

theorem reached_finRange : s.Reached (List.finRange n) i ↔ ∀ j ≤ i, (s.sockets j).isSome = true :=
  ⟨fun h j hle => h.2 j (List.mem_finRange j) hle,
    fun h => ⟨List.mem_finRange i, fun j _ hle => h j hle⟩⟩

end

theorem sentFor_iterate_cons {j : Fin n} {socket : TCPTableEntry} (hj : s.sockets j = some socket)
    (count : Fin n → UInt32) (is : List (Fin n)) (i : Fin n) :
    sentFor i (iterate count (j :: is) s).2 =
      (if j = i then ((s.session j).serve socket (count j)).2 else []) ++
        sentFor i (iterate count is (s.put j ((s.session j).serve socket (count j)).1)).2 := by
  rw [← sentFor_tag, ← sentFor_append]
  conv_lhs => unfold iterate
  rw [hj]

/-- A slot is served once, if the slots before it are all in use. -/
theorem iterate_slot (count : Fin n → UInt32) {is : List (Fin n)} (his : is.Pairwise (· < ·))
    (i : Fin n) :
    (s.Reached is i ∧ ∃ (socket : TCPTableEntry) (σ : Session), s.sockets i = some socket ∧
        σ.conn = s.m_state i ∧ s.stack.Later σ.stack ∧
        (iterate count is s).1.m_state i = (σ.serve socket (count i)).1.conn ∧
        sentFor i (iterate count is s).2 = (σ.serve socket (count i)).2) ∨
    (¬ s.Reached is i ∧ (iterate count is s).1.m_state i = s.m_state i ∧
      sentFor i (iterate count is s).2 = []) := by
  induction is generalizing s with
  | nil => exact .inr ⟨fun h => absurd h.1 List.not_mem_nil, rfl, rfl⟩
  | cons j is ih =>
    obtain ⟨hlt, hrest⟩ := List.pairwise_cons.mp his
    cases hj : s.sockets j with
    | none =>
      unfold iterate
      rw [hj]
      exact .inr ⟨not_reached_of_free hlt hj i, rfl, rfl⟩
    | some socket =>
      have hsome : (s.sockets j).isSome = true := by rw [hj]; rfl
      let σ := ((s.session j).serve socket (count j)).1
      have hstate_cons : (iterate count (j :: is) s).1.m_state i =
          (iterate count is (s.put j σ)).1.m_state i := by
        conv_lhs => unfold iterate
        rw [hj]
      rw [hstate_cons, sentFor_iterate_cons hj]
      by_cases hij : i = j
      · subst hij
        have hnot : i ∉ is := fun hi => absurd (hlt i hi) (Nat.lt_irrefl _)
        rcases ih hrest with ⟨⟨hi, -⟩, -⟩ | ⟨-, hstate, hnone⟩
        · exact absurd hi hnot
        · refine .inl ⟨reached_head hlt hsome, socket, s.session i, hj, rfl, .refl _, ?_, ?_⟩
          · exact hstate.trans (put_self σ)
          · rw [if_pos rfl, hnone, List.append_nil]
      · rw [if_neg (Ne.symm hij), List.nil_append, reached_cons_iff hlt hsome hij σ]
        rcases ih (s := s.put j σ) hrest with ⟨hi, socket', τ, hs', hτ, hlater, hstate, hes⟩ |
          ⟨hnot, hstate, hes⟩
        · refine .inl ⟨hi, socket', τ, ?_, ?_, ?_, hstate, hes⟩
          · rwa [sockets_put_of_ne hij] at hs'
          · rwa [put_of_ne hij] at hτ
          · exact (Session.serve_later socket (count j) (s.session j)).trans hlater
        · exact .inr ⟨hnot, hstate.trans (put_of_ne hij), hes⟩

/-- A slot that the loop does not come to is sent nothing. -/
theorem sentFor_iterate_of_not_mem (count : Fin n → UInt32) {is : List (Fin n)}
    (his : is.Pairwise (· < ·)) (hi : i ∉ is) : sentFor i (iterate count is s).2 = [] := by
  rcases iterate_slot (s := s) count his i with ⟨hreach, -⟩ | ⟨-, -, hes⟩
  · exact absurd hreach.1 hi
  · exact hes

theorem iterate_later (count : Fin n → UInt32) (is : List (Fin n)) :
    s.stack.Later (iterate count is s).1.stack := by
  induction is generalizing s with
  | nil => exact .refl _
  | cons j is ih =>
    unfold iterate
    cases s.sockets j with
    | none => exact .refl _
    | some socket => exact (Session.serve_later socket (count j) (s.session j)).trans ih

/-- **Inversion of a step, slot by slot.** -/
theorem step_slot {op : Op n} {t : Iperf3Server n} {es : List (Entry n)}
    (h : step srv s op = .ok (t, es)) (i : Fin n) :
    SlotStep srv s i op (t.m_state i) (sentFor i es) := by
  cases op with
  | OnConnectionAccepted socket =>
    obtain ⟨rfl, rfl⟩ := ok_eq h
    show SlotStep srv s i _ ((s.OnConnectionAccepted srv socket).m_state i) []
    by_cases hid : srv.AllocateConnectionID s.sockets socket = some i
    · rw [accepted_slot hid]
      exact .accept hid
    · rw [accepted_other hid]
      exact .other hid
  | OnConnectionClosed socket =>
    obtain ⟨rfl, rfl⟩ := ok_eq h
    show SlotStep srv s i _ ((s.OnConnectionClosed srv socket).m_state i) []
    by_cases hid : srv.GetConnectionID s.sockets socket = some i
    · rw [closed_slot hid]
      exact .close hid
    · rw [closed_other hid]
      exact .other hid
  | OnRxData socket payload behind =>
    obtain ⟨ok, hok⟩ := step_onRxData_iff.mp h
    by_cases hid : srv.GetConnectionID s.sockets socket = some i
    · unfold OnRxData at hok
      rw [hid] at hok
      dsimp only at hok
      cases hpush : (s.m_state i).m_rxBuffer.push payload with
      | none =>
        rw [hpush] at hok
        cases hok
        rw [put_self, sentFor_tag, if_pos rfl]
        exact .overflow hid hpush
      | some fifo =>
        obtain ⟨τ, fs, hrounds⟩ := Session.rounds_handle_ends socket behind
          { s.session i with conn.m_rxBuffer := fifo }
        rw [hpush] at hok
        dsimp only at hok
        rw [hrounds] at hok
        cases hok
        rw [put_self, sentFor_tag, if_pos rfl]
        exact .receive hid hpush hrounds
    · obtain ⟨ok', t', es', hd, hstate, hes⟩ := onRxData_other hid payload behind
      rw [hd] at hok
      cases hok
      rw [hstate, hes]
      exact .other hid
  | OnRxUdpData srcip sport dport =>
    obtain ⟨rfl, rfl⟩ := ok_eq h
    cases hj : s.opener srcip dport with
    | none =>
      rw [onRxUdpData_of_none hj]
      refine .other fun hc => ?_
      rw [Concerns, hj] at hc
      cases hc
    | some j =>
      obtain ⟨socket, hsocket, hs, heq⟩ := onRxUdpData_of_opener hj sport
      rw [heq, sentFor_tag]
      by_cases hij : j = i
      · subst hij
        rw [put_self, if_pos rfl]
        exact .opens hj hsocket hs
      · rw [put_of_ne (Ne.symm hij), if_neg hij]
        refine .other fun hc => ?_
        rw [Concerns, hj] at hc
        exact hij (Option.some.inj hc)
  | Iteration count =>
    obtain ⟨rfl, rfl⟩ := ok_eq h
    rcases iterate_slot (s := s) count (List.pairwise_lt_finRange n) i with
      ⟨hreach, socket, σ, hsocket, hσ, hlater, hstate, hes⟩ | ⟨hnot, hstate, hes⟩
    · show SlotStep srv s i _ ((iterate count _ s).1.m_state i) (sentFor i (iterate count _ s).2)
      rw [hstate, hes]
      exact .serve (reached_finRange.mp hreach) hsocket hσ hlater
    · show SlotStep srv s i _ ((iterate count _ s).1.m_state i) (sentFor i (iterate count _ s).2)
      rw [hstate, hes]
      exact .other fun hc => hnot (reached_finRange.mpr hc)

theorem step_later {op : Op n} {t : Iperf3Server n} {es : List (Entry n)}
    (h : step srv s op = .ok (t, es)) : s.stack.Later t.stack := by
  cases op with
  | OnConnectionAccepted socket =>
    obtain ⟨rfl, -⟩ := ok_eq h
    show s.stack.Later (s.OnConnectionAccepted srv socket).stack
    unfold OnConnectionAccepted
    split <;> exact .refl _
  | OnConnectionClosed socket =>
    obtain ⟨rfl, -⟩ := ok_eq h
    show s.stack.Later (s.OnConnectionClosed srv socket).stack
    unfold OnConnectionClosed
    split <;> exact .refl _
  | OnRxData socket payload behind =>
    obtain ⟨ok, hok⟩ := step_onRxData_iff.mp h
    unfold OnRxData at hok
    split at hok
    · cases hok
      exact .refl _
    · split at hok
      · cases hok
        exact .refl _
      · split at hok
        · cases hok
        · rename_i σ fs hrounds
          cases hok
          exact Session.rounds_later hrounds
  | OnRxUdpData srcip sport dport =>
    obtain ⟨rfl, -⟩ := ok_eq h
    show s.stack.Later (s.OnRxUdpData srcip sport dport).1.stack
    cases hj : s.opener srcip dport with
    | none =>
      rw [onRxUdpData_of_none hj]
      exact .refl _
    | some j =>
      obtain ⟨socket, -, -, heq⟩ := onRxUdpData_of_opener hj sport
      rw [heq]
      exact Session.openStream_later ..
  | Iteration count =>
    obtain ⟨rfl, -⟩ := ok_eq h
    exact iterate_later count _

/-- A slot's steps do not fail. -/
theorem step_ok (srv : TCPServer n) (s : Iperf3Server n) (op : Op n) :
    ∃ t es, step srv s op = .ok (t, es) := by
  cases op with
  | OnConnectionAccepted socket | OnConnectionClosed socket => exact ⟨_, _, rfl⟩
  | OnRxUdpData srcip sport dport => exact ⟨_, _, rfl⟩
  | Iteration count => exact ⟨_, _, rfl⟩
  | OnRxData socket payload behind =>
    suffices h : ∃ ok t es, s.OnRxData srv socket payload behind = .ok (ok, t, es) by
      obtain ⟨ok, t, es, h⟩ := h
      exact ⟨t, es, step_onRxData_iff.mpr ⟨ok, h⟩⟩
    unfold OnRxData
    cases hid : srv.GetConnectionID s.sockets socket with
    | none => exact ⟨_, _, _, rfl⟩
    | some i =>
      dsimp only
      cases hpush : (s.m_state i).m_rxBuffer.push payload with
      | none => exact ⟨_, _, _, rfl⟩
      | some fifo =>
        obtain ⟨τ, es, hrounds⟩ := Session.rounds_handle_ends socket behind
          { s.session i with conn.m_rxBuffer := fifo }
        dsimp only
        rw [hrounds]
        exact ⟨_, _, _, rfl⟩

end Iperf3Server

end EmbeddedPlatform.Services
