import EmbeddedPlatform.Services.BlobGrammar

/-! # What a connection has sent

A slot is told apart from its connection here: beside the run, the bytes are kept
that have come over the connection of a slot since it was accepted, and the blob
that is in them. The streams of the slot are open with the parameters of that blob,
and of no other. -/
namespace EmbeddedPlatform.Services
open EmbeddedPlatform.Lib

variable {n : Nat}

instance (w : List UInt8) : Decidable (Complete w) :=
  decidable_of_iff
    (6 ≤ w.length ∧ (4 + prefixLen w).toNat ≤ w.length ∧ window w (fun _ => 0) 4 = openBrace)
    ⟨fun h => ⟨h.1, h.2.1, h.2.2⟩, fun h => ⟨h.min_le, h.len_le, h.brace⟩⟩

/-! ## Beside the run -/

/-- The bytes that have come over a connection, and the parameter blob: what there
was of them behind the cookie when it was complete for the first time, and the
memory behind the FIFO then. -/
structure Story where
  heard : List UInt8
  blob : Option (List UInt8 × (Nat → UInt8))

namespace Story

variable {st : Story} {payload : List UInt8} {behind : Nat → UInt8}

/-- A connection that has just been accepted. -/
def start : Story := ⟨[], none⟩

/-- What has come behind the cookie. -/
def afterCookie (st : Story) : List UInt8 := st.heard.drop IPERF_COOKIE_SIZE

/-- The blob, if what has come behind the cookie is complete. -/
def found (st : Story) (behind : Nat → UInt8) : Option (List UInt8 × (Nat → UInt8)) :=
  if Complete st.afterCookie then some (st.afterCookie, behind) else none

/-- More has come. The first blob stays. -/
def hear (st : Story) (payload : List UInt8) (behind : Nat → UInt8) : Story :=
  let st := { st with heard := st.heard ++ payload }
  { st with blob := st.blob.or (st.found behind) }

/-- The event that the connection of slot `i` is accepted, or sends. -/
def step (srv : TCPServer n) (i : Fin n) (s : Iperf3Server n) (st : Story) : Op n → Story
  | .OnConnectionAccepted socket =>
    if srv.AllocateConnectionID s.sockets socket = some i then start else st
  | .OnRxData socket payload behind =>
    if srv.GetConnectionID s.sockets socket = some i then st.hear payload behind else st
  | .OnConnectionClosed _ | .OnRxUdpData _ _ _ | .Iteration _ => st

/-- The parameters of the blob, if it is accepted. -/
def params (st : Story) : Option Params :=
  st.blob.bind fun (w, behind) => (exchange IperfConnectionState.Clear.params w behind).join

theorem found_of_short (h : ¬ IPERF_COOKIE_SIZE ≤ st.heard.length) : st.found behind = none := by
  unfold found
  rw [if_neg]
  intro hcomplete
  have hmin := hcomplete.min_le
  unfold afterCookie at hmin
  rw [List.length_drop] at hmin
  omega

/-- A blob is found where the parser is given one. -/
theorem found_eq (p : Params) (st : Story) (behind : Nat → UInt8) : st.found behind =
    (exchange p st.afterCookie behind).map fun _ => (st.afterCookie, behind) := by
  unfold found
  split
  · rename_i hcomplete
    rw [exchange_of_complete hcomplete]
    rfl
  · rename_i hnot
    rw [exchange_of_not_complete hnot]
    rfl

theorem blob_hear (h : st.blob = none) (payload : List UInt8) (behind : Nat → UInt8) :
    (st.hear payload behind).blob = (st.hear payload behind).found behind := by
  unfold hear
  rw [h]
  rfl

theorem params_hear {p : Params} (h : st.params = some p) (payload : List UInt8)
    (behind : Nat → UInt8) : (st.hear payload behind).params = some p := by
  cases hb : st.blob with
  | none =>
    unfold params at h
    rw [hb] at h
    cases h
  | some blob =>
    have hsame : (st.hear payload behind).blob = some blob := by
      unfold hear
      rw [hb]
      rfl
    unfold params at h ⊢
    rw [hsame]
    rw [hb] at h
    exact h

/-- The blob is in what has come. -/
def Sent (st : Story) : Prop := ∀ w behind, st.blob = some (w, behind) → w <+: st.afterCookie

theorem sent_start : start.Sent := nofun

theorem Sent.hear (h : st.Sent) (payload : List UInt8) (behind : Nat → UInt8) :
    (st.hear payload behind).Sent := by
  intro w m hw
  have hmore : st.afterCookie <+: (st.hear payload behind).afterCookie :=
    ⟨_, List.drop_append.symm⟩
  cases hb : st.blob with
  | some blob =>
    unfold Story.hear at hw
    rw [hb] at hw
    obtain rfl := Option.some.inj hw
    exact (h w m hb).trans hmore
  | none =>
    unfold Story.hear found at hw
    rw [hb] at hw
    dsimp only [Option.none_or] at hw
    split at hw
    · obtain ⟨rfl, -⟩ := Prod.mk.inj (Option.some.inj hw)
      exact List.prefix_rfl
    · cases hw

theorem Sent.step (h : st.Sent) (srv : TCPServer n) (i : Fin n) (s : Iperf3Server n) (op : Op n) :
    (st.step srv i s op).Sent := by
  cases op with
  | OnConnectionAccepted socket =>
    unfold Story.step
    dsimp only
    split
    · exact sent_start
    · exact h
  | OnRxData socket payload behind =>
    unfold Story.step
    dsimp only
    split
    · exact h.hear payload behind
    · exact h
  | OnConnectionClosed socket | OnRxUdpData srcip sport dport | Iteration count => exact h

/-- Events that do not concern the slot are not of its connection. -/
theorem step_of_not_concerns {srv : TCPServer n} {i : Fin n} {s : Iperf3Server n} {op : Op n}
    (h : ¬ s.Concerns srv i op) (st : Story) : st.step srv i s op = st := by
  cases op with
  | OnConnectionAccepted socket | OnRxData socket payload behind => exact if_neg h
  | OnConnectionClosed socket | OnRxUdpData srcip sport dport | Iteration count => rfl

end Story

/-- The story of slot `i` after the events. -/
def story (srv : TCPServer n) (i : Fin n) (stack : Stack) (ops : List (Op n)) : Story :=
  follow (step srv) (fun s st op => st.step srv i s op) (.init stack) .start ops

/-! ## What the slot holds of it -/

/-- The slot holds what has come until the blob is complete, with `blob` as the
blob found so far, and the parameters of the blob from then on. -/
structure Follows (st : Story) (blob : Option (List UInt8 × (Nat → UInt8)))
    (c : IperfConnectionState) : Prop where
  cookie : c.m_valid = true → c.m_state = .IPERF_START →
    c.m_rxBuffer.items = st.heard ∧ st.blob = blob
  exchange : c.m_state = .PARAM_EXCHANGE → IPERF_COOKIE_SIZE ≤ st.heard.length ∧
    c.m_rxBuffer.items = st.afterCookie ∧ st.blob = blob
  streams : c.m_state.streams = true → st.params = some c.params

section
variable {st : Story} {blob : Option (List UInt8 × (Nat → UInt8))} {c d : IperfConnectionState}
  {behind : Nat → UInt8} {socket : TCPTableEntry} {σ τ : Session} {ops : List (Op n)}

theorem follows_clear (st : Story) (blob : Option (List UInt8 × (Nat → UInt8))) :
    Follows st blob .Clear where
  cookie hv := Bool.noConfusion hv
  exchange h := nomatch h
  streams h := nomatch h

theorem Follows.of_params (h : Follows st blob c) (hs : c.m_state.streams = true)
    (hd : d.m_state.streams = true) (hp : d.params = c.params)
    (blob' : Option (List UInt8 × (Nat → UInt8))) : Follows st blob' d where
  cookie _ hs' := by
    rw [hs'] at hd
    cases hd
  exchange hs' := by
    rw [hs'] at hd
    cases hd
  streams _ := (h.streams hs).trans (congrArg some hp.symm)

/-- A segment that goes into the FIFO. -/
theorem Follows.hear (h : Follows st none c) (hv : c.m_valid = true) {payload : List UInt8}
    {fifo : CircularFIFO} (hpush : c.m_rxBuffer.push payload = some fifo) (behind : Nat → UInt8) :
    Follows (st.hear payload behind) ((st.hear payload behind).found behind)
      { c with m_rxBuffer := fifo } where
  cookie _ hs := by
    obtain ⟨hheard, hblob⟩ := h.cookie hv hs
    refine ⟨?_, Story.blob_hear hblob payload behind⟩
    show fifo.items = st.heard ++ payload
    rw [BoundedQueue.items_of_push hpush, hheard]
  exchange hs := by
    obtain ⟨hlen, hheard, hblob⟩ := h.exchange hs
    refine ⟨?_, ?_, Story.blob_hear hblob payload behind⟩
    · show IPERF_COOKIE_SIZE ≤ (st.heard ++ payload).length
      rw [List.length_append]
      exact Nat.le_add_right_of_le hlen
    · show fifo.items = (st.heard ++ payload).drop IPERF_COOKIE_SIZE
      rw [BoundedQueue.items_of_push hpush, hheard, List.drop_append_of_le_length hlen]
      rfl
  streams hs := Story.params_hear (h.streams hs) payload behind

/-- After a round of `OnRxData` the slot follows the story; when it is the last one, no
blob has been found that the slot has not seen. -/
structure FollowsRound (st : Story) (behind : Nat → UInt8) (more : Bool)
    (d : IperfConnectionState) : Prop where
  next : Follows st (st.found behind) d
  last : more = false → Follows st none d

theorem followsRound_clear (st : Story) (behind : Nat → UInt8) (more : Bool) :
    FollowsRound st behind more .Clear := ⟨follows_clear _ _, fun _ => follows_clear _ _⟩

variable (socket) in
theorem Follows.cookieRound (hslot : SlotOk ops σ.conn) (h : Follows st (st.found behind) σ.conn)
    (hs : σ.conn.m_state = .IPERF_START) :
    FollowsRound st behind (σ.handle socket behind).1 (σ.handle socket behind).2.1.conn := by
  by_cases hlen : IPERF_COOKIE_SIZE ≤ σ.conn.m_rxBuffer.items.length
  · have hv : σ.conn.m_valid = true := by
      by_contra hfree
      rw [hslot.free (Bool.eq_false_iff.mpr hfree)] at hlen
      exact absurd hlen (by decide)
    obtain ⟨hitems, hblob⟩ := h.cookie hv hs
    rw [Session.handle_cookie hs hlen]
    refine ⟨?_, fun hlast => Bool.noConfusion hlast⟩
    rw [Session.sendState_conn]
    refine ⟨(fun _ hs => nomatch hs), fun _ => ⟨?_, ?_, hblob⟩, fun hs => nomatch hs⟩
    · rw [← hitems]
      exact hlen
    · exact congrArg (List.drop IPERF_COOKIE_SIZE) hitems
  · rw [Session.handle_short hs hlen]
    refine ⟨h, fun _ => ⟨fun hv _ => ?_, fun hs' => ?_, h.streams⟩⟩
    · obtain ⟨hitems, hblob⟩ := h.cookie hv hs
      rw [hitems] at hlen
      exact ⟨hitems, hblob.trans (Story.found_of_short hlen)⟩
    · cases hs.symm.trans hs'

variable (socket) in
/-- The parser is given the blob of the story, and cleared parameters. -/
theorem Follows.exchangeRound (hslot : SlotOk ops σ.conn)
    (h : Follows st (st.found behind) σ.conn) (hs : σ.conn.m_state = .PARAM_EXCHANGE) :
    FollowsRound st behind (σ.handle socket behind).1 (σ.handle socket behind).2.1.conn := by
  obtain ⟨hlen, hitems, hblob⟩ := h.exchange hs
  rcases Session.handle_params socket behind hs with
    ⟨hex, heq⟩ | ⟨-, heq⟩ | ⟨p, hex, es, -, hmore, ⟨-, hconn⟩ | ⟨-, hconn⟩⟩
  · rw [heq]
    refine ⟨h, fun _ => ⟨fun _ hs' => ?_, fun _ => ⟨hlen, hitems, ?_⟩, h.streams⟩⟩
    · cases hs.symm.trans hs'
    · rw [hitems] at hex
      rw [hblob, Story.found_eq σ.conn.params, hex]
      rfl
  · rw [heq]
    exact followsRound_clear ..
  · rw [hconn, hmore]
    refine ⟨⟨(fun _ hs => nomatch hs), (fun hs => nomatch hs), fun _ => ?_⟩,
      fun hlast => Bool.noConfusion hlast⟩
    rw [hitems, hslot.fresh (.inr hs)] at hex
    unfold Story.params
    rw [hblob, Story.found_eq IperfConnectionState.Clear.params, hex]
    show (Services.exchange _ _ _).join = _
    rw [hex]
    rfl
  · rw [hconn]
    exact followsRound_clear ..

variable (socket) in
theorem Follows.endRound (h : Follows st (st.found behind) σ.conn)
    (hs : σ.conn.m_state = .TEST_RUNNING) :
    FollowsRound st behind (σ.handle socket behind).1 (σ.handle socket behind).2.1.conn := by
  have hstreams : σ.conn.m_state.streams = true := by rw [hs]; rfl
  have hconn : (σ.handle socket behind).2.1.conn.m_state.streams = true ∧
      (σ.handle socket behind).2.1.conn.params = σ.conn.params := by
    rcases Session.handle_running socket behind hs with ⟨-, heq⟩ | ⟨-, -, hconn, -⟩
    · rw [heq]
      exact ⟨hstreams, rfl⟩
    · rw [hconn]
      exact ⟨rfl, rfl⟩
  exact ⟨h.of_params hstreams hconn.1 hconn.2 _, fun _ => h.of_params hstreams hconn.1 hconn.2 none⟩

variable (socket) in
theorem Follows.handle (hslot : SlotOk ops σ.conn) (h : Follows st (st.found behind) σ.conn) :
    FollowsRound st behind (σ.handle socket behind).1 (σ.handle socket behind).2.1.conn := by
  by_cases hstart : σ.conn.m_state = .IPERF_START
  · exact h.cookieRound socket hslot hstart
  by_cases hparam : σ.conn.m_state = .PARAM_EXCHANGE
  · exact h.exchangeRound socket hslot hparam
  by_cases hrunning : σ.conn.m_state = .TEST_RUNNING
  · exact h.endRound socket hrunning
  · obtain ⟨-, hconn, -⟩ := Session.handle_other socket behind hstart hparam hrunning
    rw [hconn]
    exact ⟨h, fun _ => ⟨fun _ hs => absurd hs hstart, fun hs => absurd hs hparam, h.streams⟩⟩

/-- The segment in which a blob is found is the one in which the slot sees it. -/
theorem Follows.rounds {es : List Tx} (hslot : SlotOk ops σ.conn)
    (h : Follows st (st.found behind) σ.conn)
    (hr : Lib.rounds (fun σ => .ok (σ.handle socket behind)) Fault.stuck 3 σ = .ok (τ, es)) :
    Follows st none τ.conn := by
  have hnext {υ υ' : Session} {b : Bool} {fs : List Tx}
      (hυ : SlotOk ops υ.conn ∧ Follows st (st.found behind) υ.conn)
      (hb : (Except.ok (υ.handle socket behind) : Except Fault _) = .ok (b, υ', fs)) :
      (SlotOk ops υ'.conn ∧ Follows st (st.found behind) υ'.conn) ∧
        (b = false → Follows st none υ'.conn) := by
    have hmoved : Moved υ.conn (υ.handle socket behind).2.1.conn := υ.handle_moved
    have hkeep := hυ.2.handle socket hυ.1
    rw [Except.ok.inj hb] at hmoved hkeep
    exact ⟨⟨hυ.1.moved hmoved, hkeep.next⟩, hkeep.last⟩
  exact rounds_rule (C := fun _ => True) (l := [])
    (J := fun υ _ => SlotOk ops υ.conn ∧ Follows st (st.found behind) υ.conn)
    (Q := fun υ _ => Follows st none υ.conn) (fun _ _ _ _ hυ _ hb => (hnext hυ hb).1)
    (fun _ _ _ _ hυ _ hb => (hnext hυ hb).2 rfl) ⟨hslot, h⟩ (fun _ _ => trivial) hr

end

/-! ## Runs -/

section
open Iperf3Server

variable {srv : TCPServer n} {s t : Iperf3Server n} {ops : List (Op n)} {op : Op n} {i : Fin n}
  {es : List (Entry n)} {st : Story}

/-- **Step lemma.** Every slot follows the story of its connection. -/
theorem Follows.step (hok : s.Ok ops) (h : Follows st none (s.m_state i))
    (ht : step srv s op = .ok (t, es)) : Follows (st.step srv i s op) none (t.m_state i) := by
  have hslot := step_slot ht i
  obtain ⟨fs, hfs⟩ : ∃ fs, sentFor i es = fs := ⟨_, rfl⟩
  obtain ⟨c, hc⟩ : ∃ c, t.m_state i = c := ⟨_, rfl⟩
  rw [hfs, hc] at hslot
  rw [hc]
  cases hslot with
  | other hother =>
    rw [Story.step_of_not_concerns hother]
    exact h
  | @accept socket hid =>
    have hclear : s.m_state i = .Clear :=
      (hok i).free (not_valid_of_boundTo (srv.allocateConnectionID_free hid))
    have hstart : st.step srv i s (.OnConnectionAccepted socket) = .start := if_pos hid
    rw [hstart, hclear]
    exact ⟨fun _ _ => ⟨rfl, rfl⟩, (fun hs => nomatch hs), fun hs => nomatch hs⟩
  | close _ => exact follows_clear st none
  | @overflow socket payload behind hid _ => exact follows_clear _ none
  | @receive socket payload behind fifo τ es' hid hpush hrounds =>
    have hhear : st.step srv i s (.OnRxData socket payload behind) = st.hear payload behind :=
      if_pos hid
    have hv := valid_of_boundTo (srv.getConnectionID_bound hid)
    rw [hhear]
    exact Follows.rounds (σ := { s.session i with conn.m_rxBuffer := fifo })
      ((hok i).received hv fifo) (h.hear hv hpush behind) hrounds
  | @opens socket srcip sport dport _ hsocket hs =>
    have hstreams : (s.m_state i).m_state.streams = true := by rw [hs]; rfl
    rcases Session.openStream_conn (σ := s.session i) socket sport with hconn | hconn
    · rw [hconn]
      exact h
    · rw [hconn]
      refine h.of_params hstreams ?_ ?_ none
      · rfl
      · rfl
  | @serve socket count σ _ _ hσ _ =>
    obtain ⟨seq, hconn | ⟨hs, hconn⟩⟩ := σ.serve_conn socket (count i)
    · rw [hconn, hσ]
      exact ⟨h.cookie, h.exchange, h.streams⟩
    · rw [hconn, hσ]
      rw [hσ] at hs
      refine h.of_params (by rw [hs]; rfl) ?_ ?_ none
      · rfl
      · rfl

theorem follows_run {stack : Stack} {log : List (Entry n)}
    (hr : run (step srv) (.init stack) ops = .ok (s, log)) (i : Fin n) :
    Follows (story srv i stack ops) none (s.m_state i) := by
  have hJ := run_follow (J := fun s st => (∃ ops, s.Ok ops) ∧ Follows st none (s.m_state i))
    (fun s st op t es hJ ht => by
      obtain ⟨⟨ops, hok⟩, hst⟩ := hJ
      exact ⟨⟨ops ++ [op], ok_step hok ht⟩, hst.step hok ht⟩)
    ⟨⟨[], fun _ => slotOk_clear []⟩, follows_clear .start none⟩ hr
  exact hJ.2

theorem sent_run {stack : Stack} {log : List (Entry n)}
    (hr : run (step srv) (.init stack) ops = .ok (s, log)) (i : Fin n) :
    (story srv i stack ops).Sent :=
  run_follow (J := fun _ st => Story.Sent st) (fun s _ op _ _ hst _ => hst.step srv i s op)
    Story.sent_start hr

/-- The parameters are supported, and set by the one blob that the connection has
sent: they are what the parser makes of it, and where it starts with an object they
are the values in that. -/
structure Admitted (st : Story) (c : IperfConnectionState) : Prop extends Supported c where
  blob : ∃ w behind, st.blob = some (w, behind) ∧ w <+: st.afterCookie ∧
    exchange IperfConnectionState.Clear.params w behind = some (some c.params)
  values : ∀ w behind fields, st.blob = some (w, behind) → StartsWith (declared w) fields →
    c.params = IperfConnectionState.Clear.params.with fields

theorem Follows.admitted (h : Follows st none (s.m_state i)) (hsent : st.Sent)
    (hc : Supported (s.m_state i)) (hs : (s.m_state i).m_state.streams = true) :
    Admitted st (s.m_state i) := by
  have hparams := h.streams hs
  unfold Story.params at hparams
  obtain ⟨⟨w, behind⟩, hblob, hjoin⟩ := Option.bind_eq_some_iff.mp hparams
  have hex := Option.join_eq_some_iff.mp hjoin
  refine ⟨hc, ⟨w, behind, hblob, hsent w behind hblob, hex⟩, fun w' m fields hw hobject => ?_⟩
  obtain ⟨rfl, rfl⟩ := Prod.mk.inj (Option.some.inj (hblob.symm.trans hw))
  exact exchange_values (fun hover => hover.not_startsWith hobject) hex hobject

/-- **Streams are for admitted clients.** After any run, a slot past the parameter
exchange has supported parameters that the one blob of its connection has set, and
whatever event comes next sends data for such a slot only, to the address of its
socket and to a port that a datagram from there has come from. -/
theorem streams_admitted {stack : Stack} {log : List (Entry n)}
    (hr : run (step srv) (.init stack) ops = .ok (s, log)) :
    (∀ i, (s.m_state i).m_valid = true → (s.m_state i).m_state.streams = true →
      Admitted (story srv i stack ops) (s.m_state i)) ∧
    ∀ op t es i dstip sport dport ws len, step srv s op = .ok (t, es) →
      (i, .SendTxPacket dstip sport dport (.words ws len)) ∈ es →
      (s.m_state i).m_state.streams = true ∧
        Admitted (story srv i stack ops) (s.m_state i) ∧
        (∃ socket, (s.m_state i).boundTo = some socket ∧ dstip = socket.m_remoteIP) ∧
        .OnRxUdpData dstip dport IPERF3_PORT ∈ ops := by
  have hok := ok_run hr
  have hadmitted (i : Fin n) (hs : (s.m_state i).m_state.streams = true) :
      Admitted (story srv i stack ops) (s.m_state i) :=
    (follows_run hr i).admitted (sent_run hr i) ((hok i).supported hs) hs
  refine ⟨fun i _ hs => hadmitted i hs, ?_⟩
  intro op t es i dstip sport dport ws len ht he
  obtain ⟨hs, socket, ws', hsocket, heq⟩ := step_data hok ht he rfl
  have hstreams : (s.m_state i).m_state.streams = true := by
    rcases hs with hs | hs <;> rw [hs] <;> rfl
  injection heq with hip hsport hdport hpayload
  refine ⟨hstreams, hadmitted i hstreams, ⟨socket, hsocket, hip⟩, ?_⟩
  rw [hip, hdport]
  exact (hok i).asked hs socket hsocket

theorem streams_admitted_client :
    ∃ s log, run (step (.search 2)) (.init ready) clientOps = .ok (s, log) ∧
      (s.m_state 0).m_state = .TEST_START ∧ (s.m_state 0).m_len = 1024 ∧
        (story (.search 2) 0 ready clientOps).blob.map Prod.fst = some clientBlob ∧
        Admitted (story (.search 2) 0 ready clientOps) (s.m_state 0) := by
  obtain ⟨⟨s, log⟩, hr, hp⟩ := exists_of_returns
    (P := fun r => (r.1.m_state 0).m_valid && (r.1.m_state 0).m_state == .TEST_START &&
      (r.1.m_state 0).m_len == 1024)
    (r := run (step (.search 2)) (.init ready) clientOps) (by decide +kernel)
  simp only [Bool.and_eq_true, beq_iff_eq] at hp
  obtain ⟨⟨hv, hs⟩, hlen⟩ := hp
  exact ⟨s, log, hr, hs, hlen, by decide +kernel,
    (streams_admitted hr).1 0 hv (by rw [hs]; rfl)⟩

end

end EmbeddedPlatform.Services
