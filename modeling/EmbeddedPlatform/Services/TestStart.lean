import EmbeddedPlatform.Services.SlotSteps

/-! # Data that comes while a test starts

A datagram takes a connection to TEST_START and the next iteration that gets to
its slot takes it on. `OnRxData` rules out that it runs in between; it does not,
unless events come in an order that nothing enforces. -/
namespace EmbeddedPlatform.Services
open EmbeddedPlatform.Lib

variable {n : Nat}

namespace Session

variable {socket : TCPTableEntry} {behind : Nat → UInt8} {σ τ : Session}

/-- A round of `OnRxData` does not start a test. -/
theorem testStart_of_moved {c d : IperfConnectionState} (h : Moved c d)
    (hd : d.m_state = .TEST_START) : c.m_state = .TEST_START := by
  cases h with
  | stay => exact hd
  | cookie cookie _ _ => cases hd
  | refuse _ => cases hd
  | accept json len size _ _ _ => cases hd
  | ignore hs => exact hd
  | finish _ => cases hd

theorem testStart_of_visits
    (h : Visits (fun σ => (Except.ok (σ.handle socket behind) : Except Fault _)) σ τ)
    (hτ : τ.conn.m_state = .TEST_START) : σ.conn.m_state = .TEST_START := by
  induction h with
  | refl => exact hτ
  | @tail b c _ hstep ih =>
    obtain ⟨es, hes⟩ := hstep
    have hmoved : Moved b.conn (b.handle socket behind).2.1.conn := handle_moved
    rw [Except.ok.inj hes] at hmoved
    exact ih (testStart_of_moved hmoved hτ)

end Session

namespace Iperf3Server

variable {srv : TCPServer n} {s t : Iperf3Server n} {i : Fin n} {op : Op n} {ops : List (Op n)}

/-- The loop of `OnRxData` takes the branch of TEST_START. -/
def FindsTestStart (srv : TCPServer n) (s : Iperf3Server n) (op : Op n) : Prop :=
  ∃ socket payload behind i fifo σ, op = .OnRxData socket payload behind ∧
    srv.GetConnectionID s.sockets socket = some i ∧
    (s.m_state i).m_rxBuffer.push payload = some fifo ∧
    Visits (fun σ => (Except.ok (σ.handle socket behind) : Except Fault _))
      { s.session i with conn.m_rxBuffer := fifo } σ ∧
    σ.conn.m_state = .TEST_START

/-- A datagram that opens the stream of the slot. -/
def Opens (s : Iperf3Server n) (i : Fin n) (op : Op n) : Prop :=
  ∃ srcip sport dport, op = .OnRxUdpData srcip sport dport ∧ s.opener srcip dport = some i ∧
    s.stack.packet 0 = true

/-- Data for the slot that there is room for. -/
def Delivers (srv : TCPServer n) (s : Iperf3Server n) (i : Fin n) (op : Op n) : Prop :=
  ∃ socket payload behind, op = .OnRxData socket payload behind ∧
    srv.GetConnectionID s.sockets socket = some i ∧
    (s.m_state i).m_rxBuffer.items.length + payload.length ≤ 256

/-- The next event for the slot is not data: an iteration gets to it first, or the
connection ends. -/
def ServedFirst (srv : TCPServer n) (i : Fin n) : Iperf3Server n → List (Op n) → Prop
  | _, [] => True
  | s, op :: ops =>
    ¬ Delivers srv s i op ∧
      (Concerns srv s i op ∨ ∀ t es, step srv s op = .ok (t, es) → ServedFirst srv i t ops)

/-- So it is whenever a datagram opens a stream. -/
def InTime (srv : TCPServer n) : Iperf3Server n → List (Op n) → Prop
  | _, [] => True
  | s, op :: ops => ∀ t es, step srv s op = .ok (t, es) →
    (∀ i, Opens s i op → ServedFirst srv i t ops) ∧ InTime srv t ops

theorem findsTestStart_iff :
    FindsTestStart srv s op ↔ ∃ i, (s.m_state i).m_state = .TEST_START ∧ Delivers srv s i op := by
  constructor
  · rintro ⟨socket, payload, behind, i, fifo, σ, rfl, hid, hpush, hvisits, hσ⟩
    refine ⟨i, Session.testStart_of_visits hvisits hσ, socket, payload, behind, rfl, hid, ?_⟩
    refine Nat.le_of_not_lt fun hlt => ?_
    cases hpush.symm.trans (BoundedQueue.push_eq_none_iff.mpr hlt)
  · rintro ⟨i, hs, socket, payload, behind, rfl, hid, hroom⟩
    obtain ⟨fifo, hpush, -⟩ := BoundedQueue.push_of_fits hroom
    exact ⟨socket, payload, behind, i, fifo, _, rfl, hid, hpush, .start _, hs⟩

/-- **Inversion.** What can leave a slot in TEST_START. -/
theorem testStart_of_step {es : List (Entry n)} (h : step srv s op = .ok (t, es))
    (hi : (t.m_state i).m_state = .TEST_START) :
    ((s.m_state i).m_state = .TEST_START ∧ (¬ Concerns srv s i op ∨ Delivers srv s i op)) ∨
      Opens s i op := by
  have hslot := step_slot h i
  generalize t.m_state i = c at hslot hi
  generalize sentFor i es = fs at hslot
  cases hslot with
  | other hother => exact .inl ⟨hi, .inl hother⟩
  | accept _ | close _ | overflow _ _ => cases hi
  | @receive socket payload behind fifo τ es hid hpush hrounds =>
    have hstart : (s.m_state i).m_state = .TEST_START := by
      refine Session.rounds_handle (J := fun σ _ => σ.conn.m_state = .TEST_START →
        (s.m_state i).m_state = .TEST_START) (fun σ _ hσ hd => ?_) id hrounds hi
      exact hσ (Session.testStart_of_moved Session.handle_moved hd)
    refine .inl ⟨hstart, .inr ⟨socket, payload, behind, rfl, hid, ?_⟩⟩
    refine Nat.le_of_not_lt fun hlt => ?_
    cases hpush.symm.trans (BoundedQueue.push_eq_none_iff.mpr hlt)
  | @opens socket srcip sport dport hopener _ hs =>
    refine .inr ⟨srcip, sport, dport, rfl, hopener, ?_⟩
    unfold Session.openStream Session.GetTxPacket at hi
    cases hpacket : s.stack.packet 0 with
    | true => rfl
    | false =>
      have hpacket' : (s.session i).stack.packet 0 = false := hpacket
      rw [hpacket'] at hi
      cases hs.symm.trans hi
  | @serve socket count σ _ _ _ _ =>
    obtain ⟨seq, hconn | ⟨-, hconn⟩⟩ := σ.serve_conn socket (count i)
    · -- a slot in TEST_START would have been taken on
      have hσ : σ.conn.m_state = .TEST_START := by
        rw [hconn] at hi
        exact hi
      cases (Session.serve_running hσ).symm.trans hi
    · rw [hconn] at hi
      cases hi

theorem testStart_of_opens {es : List (Entry n)} (h : step srv s op = .ok (t, es))
    (hop : Opens s i op) : (t.m_state i).m_state = .TEST_START := by
  obtain ⟨srcip, sport, dport, rfl, hopener, hpacket⟩ := hop
  obtain ⟨rfl, -⟩ := ok_eq h
  obtain ⟨socket, -, -, heq⟩ := onRxUdpData_of_opener hopener sport
  show ((s.OnRxUdpData srcip sport dport).1.m_state i).m_state = _
  rw [heq, put_self]
  have hpacket' : (s.session i).stack.packet 0 = true := hpacket
  unfold Session.openStream Session.GetTxPacket
  rw [hpacket']
  dsimp only
  rw [Session.sendState_conn]
  rfl

theorem state_of_other {es : List (Entry n)} (h : step srv s op = .ok (t, es))
    (hother : ¬ Concerns srv s i op) : t.m_state i = s.m_state i := by
  have hslot := step_slot h i
  generalize t.m_state i = c at hslot
  generalize sentFor i es = fs at hslot
  cases hslot with
  | other _ => rfl
  | accept hid | close hid | overflow hid _ | receive hid _ _ | opens hid _ _ | serve hid _ _ _ =>
    exact absurd hid hother

/-- The branch is not taken exactly when all who wait for an iteration, now or
later, get it first. -/
theorem unseen_iff (s : Iperf3Server n) (ops : List (Op n)) :
    AllSteps (step srv) (fun s op => ¬ FindsTestStart srv s op) s ops ↔
      (∀ i, (s.m_state i).m_state = .TEST_START → ServedFirst srv i s ops) ∧ InTime srv s ops := by
  induction ops generalizing s with
  | nil => exact ⟨fun _ => ⟨fun _ _ => trivial, trivial⟩, fun _ => trivial⟩
  | cons op ops ih =>
    obtain ⟨t, es, ht⟩ := step_ok srv s op
    have hnext {P : Iperf3Server n → Prop} : (∀ u fs, step srv s op = .ok (u, fs) → P u) ↔ P t := by
      refine ⟨fun h => h t es ht, fun h u fs hu => ?_⟩
      obtain ⟨rfl, -⟩ := ok_eq (hu.symm.trans ht)
      exact h
    have hall : AllSteps (step srv) (fun s op => ¬ FindsTestStart srv s op) s (op :: ops) ↔
        ¬ FindsTestStart srv s op ∧
          AllSteps (step srv) (fun s op => ¬ FindsTestStart srv s op) t ops :=
      and_congr_right' (hnext (P := fun u => AllSteps _ _ u ops))
    have hserve (i : Fin n) : ServedFirst srv i s (op :: ops) ↔
        ¬ Delivers srv s i op ∧ (Concerns srv s i op ∨ ServedFirst srv i t ops) :=
      and_congr_right' (or_congr_right (hnext (P := fun u => ServedFirst srv i u ops)))
    have htime : InTime srv s (op :: ops) ↔
        (∀ i, Opens s i op → ServedFirst srv i t ops) ∧ InTime srv t ops :=
      hnext (P := fun u => (∀ i, Opens s i op → ServedFirst srv i u ops) ∧ InTime srv u ops)
    rw [hall, htime, ih t, findsTestStart_iff]
    simp only [hserve]
    constructor
    · rintro ⟨hnot, hserved, hintime⟩
      refine ⟨fun i hi => ?_, fun i hop => hserved i (testStart_of_opens ht hop), hintime⟩
      refine ⟨fun hdel => hnot ⟨i, hi, hdel⟩, ?_⟩
      by_cases hc : Concerns srv s i op
      · exact .inl hc
      · exact .inr (hserved i (by rw [state_of_other ht hc]; exact hi))
    · rintro ⟨hserved, hopened, hintime⟩
      refine ⟨fun ⟨i, hi, hdel⟩ => (hserved i hi).1 hdel, fun i hi => ?_, hintime⟩
      rcases testStart_of_step ht hi with ⟨hs, hother | hdel⟩ | hop
      · exact (hserved i hs).2.resolve_left hother
      · exact absurd hdel (hserved i hs).1
      · exact hopened i hop

/-- **TEST_START is not seen by `OnRxData`** in exactly the runs in which, from the
datagram that opens a stream on, the next event for its slot is not data. -/
theorem testStart_unseen_iff (srv : TCPServer n) (stack : Stack) (ops : List (Op n)) :
    AllSteps (step srv) (fun s op => ¬ FindsTestStart srv s op) (.init stack) ops ↔
      InTime srv (.init stack) ops := by
  rw [unseen_iff]
  refine ⟨And.right, fun h => ⟨fun i hi => ?_, h⟩⟩
  cases hi

/-- The client goes on after its datagram at once. -/
theorem testStart_seen :
    ¬ AllSteps (step (.search 2)) (fun s op => ¬ FindsTestStart (.search 2) s op) (.init ready)
      (clientOps ++ [.OnRxData client [IperfState.TEST_END.code] (fun _ => 0)]) := by
  intro h
  obtain ⟨⟨s, log⟩, hr, hp⟩ := exists_of_returns
    (P := fun r : Iperf3Server 2 × List (Entry 2) => (r.1.m_state 0).m_state == .TEST_START &&
      (TCPServer.search 2).GetConnectionID r.1.sockets client == some 0 &&
      decide ((r.1.m_state 0).m_rxBuffer.items.length + 1 ≤ 256))
    (r := run (step (.search 2)) (.init ready) clientOps) (by decide +kernel)
  simp only [Bool.and_eq_true, beq_iff_eq, decide_eq_true_eq] at hp
  obtain ⟨⟨hs, hid⟩, hroom⟩ := hp
  exact (h.of_append hr).1 (findsTestStart_iff.mpr ⟨0, hs, client, _, _, rfl, hid, hroom⟩)

end Iperf3Server

end EmbeddedPlatform.Services
