import Mathlib.Data.List.Infix
import EmbeddedPlatform.Fpga.ConfigPacket
import EmbeddedPlatform.Fpga.Delivery

/-! # How the bitstream is taken apart

Behind the sync word the updater reads a header, then the words that belong to
it, then the next header, whatever the calls are that the bytes come in. It is
followed from poll to poll here, on any flash. -/
namespace EmbeddedPlatform.Fpga

open Lib FPGAFirmwareUpdater

variable {φ : Type} {F : SpiFlash φ} {c : UpdaterConfig} {fuel : Nat}
  {s t u v : FPGAFirmwareUpdater φ} {es log : List Action} {more : Bool}

/-! ## From poll to poll -/

/-- The state that a poll finds, and what the calls after this one bring. -/
structure Poll (φ : Type) where
  state : FPGAFirmwareUpdater φ
  chunks : List (List UInt8)

/-- What is left of the stream. -/
def Poll.left (p : Poll φ) : List UInt8 := p.state.m_rxBuffer.items ++ p.chunks.flatten

/-- A poll in this state takes what is at the front of the buffer for the header of
a packet, of which there is all that it wants. -/
def ReadsHeader (s : FPGAFirmwareUpdater φ) : Prop :=
  s.m_state = .BITSTREAM ∧ 4 ≤ s.m_rxBuffer.items.length ∧
    (packetType s.m_rxBuffer.items = 1 →
      (packetSize (bswap32 s.m_rxBuffer.items)).toNat ≤ s.m_rxBuffer.items.length)

instance (s : FPGAFirmwareUpdater φ) : Decidable (ReadsHeader s) :=
  inferInstanceAs (Decidable (_ ∧ _ ∧ _))

/-- What is left of the stream where a header is read, for each that is. -/
def headersRead (polls : List (Poll φ)) : List (List UInt8) :=
  (polls.filter fun p => decide (ReadsHeader p.state)).map Poll.left

/-- The flash does not take what a poll in this state has to write. -/
def FlashFails (F : SpiFlash φ) (c : UpdaterConfig) (fuel : Nat) (s : FPGAFirmwareUpdater φ) :
    Prop :=
  ∃ more u es, ProcessDataFromBuffer F c fuel s = .ok (more, u, es) ∧ u.m_state ≠ .FAILED ∧
    (PushWriteData F u).1.m_state = .FAILED

/-- From a poll in the first state on, the call goes on to its end, and then the
chunks are received, all of which find room. -/
inductive Polling (F : SpiFlash φ) (c : UpdaterConfig) (fuel : Nat) :
    FPGAFirmwareUpdater φ → List (List UInt8) → FPGAFirmwareUpdater φ → List Action →
      List (Poll φ) → Prop where
  | ends {s t : FPGAFirmwareUpdater φ} {es : List Action} :
    pollOnce F c fuel s = .ok (false, t, es) → Polling F c fuel s [] t es [⟨s, []⟩]
  | again {s t v : FPGAFirmwareUpdater φ} {chunks : List (List UInt8)} {es log : List Action}
    {polls : List (Poll φ)} : pollOnce F c fuel s = .ok (true, t, es) →
    Polling F c fuel t chunks v log polls →
    Polling F c fuel s chunks v (es ++ log) (⟨s, chunks⟩ :: polls)
  | call {s t v : FPGAFirmwareUpdater φ} {data : List UInt8} {q : CircularFIFO}
    {chunks : List (List UInt8)} {es log : List Action} {polls : List (Poll φ)} :
    pollOnce F c fuel s = .ok (false, t, es) → t.m_rxBuffer.push data = some q →
    Polling F c fuel { t with m_rxBuffer := q } chunks v log polls →
    Polling F c fuel s (data :: chunks) v (es ++ log) (⟨s, data :: chunks⟩ :: polls)

variable {chunks : List (List UInt8)} {polls : List (Poll φ)}

theorem polling_of_last
    (hlast : ∀ u fs, pollOnce F c fuel u = .ok (false, t, fs) →
      ∃ polls, Polling F c fuel u chunks v (fs ++ log) polls)
    {n : Nat} (h : rounds (pollOnce F c fuel) .polling n s = .ok (t, es)) :
    ∃ polls, Polling F c fuel s chunks v (es ++ log) polls := by
  induction n generalizing s es with
  | zero => cases h
  | succ n ih =>
    rcases rounds_succ_ok h with hb | ⟨u, fs, gs, hb, hr, rfl⟩
    · exact hlast s es hb
    · obtain ⟨polls, hpolls⟩ := ih hr
      rw [List.append_assoc]
      exact ⟨_, .again hb hpolls⟩

/-- The calls of a session are made of polls. -/
theorem polling_of_rounds {n : Nat} (h : rounds (pollOnce F c fuel) .polling n s = .ok (t, es))
    (hrest : run (receive F c fuel) t chunks = .ok (v, log)) (hno : .pushFailed ∉ log) :
    ∃ polls, Polling F c fuel s chunks v (es ++ log) polls := by
  induction chunks generalizing n s t es log with
  | nil =>
    cases hrest
    refine polling_of_last (fun u fs hu => ⟨[⟨u, []⟩], ?_⟩) h
    rw [List.append_nil]
    exact .ends hu
  | cons data chunks ih =>
    obtain ⟨t', fs, gs, ht', hmore, rfl⟩ := run_cons_ok hrest
    rw [List.mem_append, not_or] at hno
    unfold receive OnRxData at ht'
    split at ht'
    · cases ht'
      exact absurd (List.mem_singleton_self _) hno.1
    · rename_i q hq
      obtain ⟨polls, hpolls⟩ := ih ht' hmore hno.2
      exact polling_of_last (fun u es' hu => ⟨_, .call hu hq hpolls⟩) h

/-- So it is from any poll of any call on. -/
theorem polling_of_call {data : List UInt8} (hcall : OnRxData F c fuel data s = .ok (t, es))
    (hu : Polls F c fuel s data u) (hrest : run (receive F c fuel) t chunks = .ok (v, log))
    (hno : .pushFailed ∉ log) :
    ∃ es' polls, es' <:+ es ∧ Polling F c fuel u chunks v (es' ++ log) polls := by
  obtain ⟨q, hq, hvisits⟩ := hu
  unfold OnRxData at hcall
  rw [hq] at hcall
  obtain ⟨n, front, es', hrounds, rfl⟩ := rounds_of_visits hcall hvisits
  obtain ⟨polls, hpolls⟩ := polling_of_rounds hrounds hrest hno
  exact ⟨es', polls, List.suffix_append front es', hpolls⟩

/-! ## What is written -/

/-- The bytes written, in order. -/
def flashed (log : List Action) : List UInt8 := (written log).map Prod.snd

theorem flashed_append (l m : List Action) : flashed (l ++ m) = flashed l ++ flashed m := by
  unfold flashed
  rw [written_append, List.map_append]

theorem flashed_of_written (h : written log = []) : flashed log = [] := by
  unfold flashed
  rw [h]
  rfl

theorem map_snd_place (addr : UInt32) (data : List UInt8) :
    (place addr data).map Prod.snd = data := by
  induction data generalizing addr with
  | nil => rfl
  | cons b data ih => exact congrArg (b :: ·) (ih (addr + 1))

/-- What leaves the write buffer is written, as long as the flash takes it. -/
theorem pushWriteData_writes (F : SpiFlash φ) (s : FPGAFirmwareUpdater φ) :
    (PushWriteData F s).1.m_state = .FAILED ∨
      (PushWriteData F s).1.m_state = s.m_state ∧
        flashed (PushWriteData F s).2 ++ (PushWriteData F s).1.m_writeBuffer.items =
          s.m_writeBuffer.items := by
  refine pushWriteData_rule (l := []) (J := fun t l => t.m_state = .FAILED ∨
    t.m_state = s.m_state ∧ flashed l ++ t.m_writeBuffer.items = s.m_writeBuffer.items)
    ?_ ?_ (.inr ⟨rfl, rfl⟩)
  · intro t l _ _ _
    exact .inl rfl
  · rintro t l ok w es hJ ht - hn hv
    obtain ⟨hst, hdata⟩ := hJ.resolve_left ht
    obtain ⟨f, ⟨rfl, rfl, rfl⟩ | ⟨rfl, rfl, -⟩⟩ := writeVerify_cases hv
    · refine .inr ⟨hst, ?_⟩
      have hone : flashed [.WriteData t.m_wptr
          (t.m_writeBuffer.items.take F.GetMaxWriteBlockSize.toNat)] =
          t.m_writeBuffer.items.take F.GetMaxWriteBlockSize.toNat := by
        unfold flashed
        rw [written_cons_WriteData, written_nil, List.append_nil]
        exact map_snd_place _ _
      rw [flashed_append, hone, List.append_assoc]
      show _ ++ (_ ++ (t.m_writeBuffer.pop _).items) = _
      rw [BoundedQueue.items_pop, List.take_append_drop]
      exact hdata
    · exact .inl rfl

/-! ## What there is to take apart -/

/-- The packets up to the first that ends the bitstream. -/
def untilDesync : List Packet → List Packet
  | [] => []
  | p :: ps => if p.ends then [p] else p :: untilDesync ps

/-- Where a packet begins, behind the words `ws` of one that is being read. -/
def boundary (ws : List UInt32) (ps : List Packet) (i : Nat) : Nat :=
  4 * ws.length + (packetBytes ((untilDesync ps).take i)).length

/-- The stream has been taken apart at the boundaries of its packets: `k` headers
have been read, `copied` is all there is of the packets so far, and none is left
out that is there as a whole. -/
structure Framed (ws : List UInt32) (ps : List Packet) (left : List UInt8)
    (v : FPGAFirmwareUpdater φ) (k : Nat) (copied : List UInt8) : Prop where
  front : copied <+: left
  within : copied.length ≤ boundary ws ps (untilDesync ps).length
  whole : ∀ i ≤ (untilDesync ps).length, boundary ws ps i ≤ left.length →
    i ≤ k ∧ boundary ws ps i ≤ copied.length
  done : v.m_state = .DONE ↔
    (∃ p ∈ ps, p.ends = true) ∧ boundary ws ps (untilDesync ps).length ≤ left.length

/-- What comes of the rest of a stream: headers are read at the boundaries only,
and all of it is framed unless the flash fails. `front` waits to be written. -/
def Follows (ws : List UInt32) (ps : List Packet) (left front : List UInt8)
    (v : FPGAFirmwareUpdater φ) (log : List Action) (headers : List (List UInt8)) (fails : Prop) :
    Prop :=
  ∃ k ≤ (untilDesync ps).length,
    headers = (List.range k).map (fun i => left.drop (boundary ws ps i)) ∧
    (v.m_state = .FAILED ∧ fails ∨
      ∃ copied, flashed log ++ v.m_writeBuffer.items = front ++ copied ∧
        Framed ws ps left v k copied)

section
variable {p : Packet} {ps : List Packet} {ws : List UInt32} {left front : List UInt8}
  {headers : List (List UInt8)} {fails : Prop}

theorem boundary_words {n : Nat} (hn : n ≤ ws.length) (ps : List Packet) (i : Nat) :
    boundary ws ps i = 4 * n + boundary (ws.drop n) ps i := by
  unfold boundary
  rw [List.length_drop]
  omega

theorem untilDesync_cons (hends : p.ends = false) (ps : List Packet) :
    untilDesync (p :: ps) = p :: untilDesync ps := by
  conv_lhs => unfold untilDesync
  rw [hends]
  rfl

/-- A packet that goes on behind its header, or that is read as a whole. -/
theorem boundary_cons (hends : p.ends = false) {n : Nat}
    (hn : n + 4 * ws.length = p.bytes.length) (ps : List Packet) (i : Nat) :
    boundary [] (p :: ps) (i + 1) = n + boundary ws ps i := by
  unfold boundary
  rw [untilDesync_cons hends, List.take_succ_cons]
  show 0 + (p.bytes ++ packetBytes ((untilDesync ps).take i)).length = _
  rw [List.length_append]
  omega

theorem length_untilDesync_cons (hends : p.ends = false) (ps : List Packet) :
    (untilDesync (p :: ps)).length = (untilDesync ps).length + 1 :=
  congrArg List.length (untilDesync_cons hends ps)

/-- Nothing can be taken of what is left. -/
def Short (ws : List UInt32) (ps : List Packet) (left : List UInt8) : Prop :=
  ∀ i ≤ (untilDesync ps).length, boundary ws ps i ≤ left.length → i = 0 ∧ ws = []

theorem follows_failed (hv : v.m_state = .FAILED) (hfails : fails) :
    Follows ws ps left front v log [] fails :=
  ⟨0, Nat.zero_le _, rfl, .inl ⟨hv, hfails⟩⟩

theorem follows_stop (hshort : Short ws ps left) (hv : v.m_state ≠ .DONE)
    (hwb : flashed log ++ v.m_writeBuffer.items = front) :
    Follows ws ps left front v log [] fails := by
  refine ⟨0, Nat.zero_le _, rfl, .inr ⟨[], by rw [hwb, List.append_nil], ?_⟩⟩
  refine ⟨List.nil_prefix, Nat.zero_le _, fun i hi hle => ?_, ?_⟩
  · obtain ⟨rfl, rfl⟩ := hshort i hi hle
    exact ⟨Nat.le_refl _, Nat.le_refl _⟩
  · refine ⟨fun h => absurd h hv, fun ⟨⟨p, hp, hends⟩, hle⟩ => ?_⟩
    have hzero := (hshort _ (Nat.le_refl _) hle).1
    have hne : untilDesync ps ≠ [] := by
      cases ps with
      | nil => exact absurd hp List.not_mem_nil
      | cons q ps =>
        unfold untilDesync
        split
        · exact List.cons_ne_nil _ _
        · exact List.cons_ne_nil _ _
    exact absurd (List.length_eq_zero_iff.mp hzero) hne

/-- What has been written in a poll is in front of the rest. -/
theorem Follows.push {wb : List UInt8} (h : Follows ws ps left wb v log headers fails)
    (hwb : flashed es ++ wb = front) :
    Follows ws ps left front v (es ++ log) headers fails := by
  obtain ⟨k, hk, hheaders, hres⟩ := h
  refine ⟨k, hk, hheaders, hres.imp_right fun ⟨copied, hcopied, hframed⟩ => ⟨copied, ?_, hframed⟩⟩
  rw [flashed_append, List.append_assoc, hcopied, ← List.append_assoc, hwb]

theorem Follows.mono {fails' : Prop} (h : Follows ws ps left front v log headers fails)
    (himp : fails → fails') : Follows ws ps left front v log headers fails' := by
  obtain ⟨k, hk, hheaders, hres⟩ := h
  exact ⟨k, hk, hheaders, hres.imp_left fun ⟨hv, hfails⟩ => ⟨hv, himp hfails⟩⟩

/-- `n` bytes more in front of what has been copied. -/
theorem prefix_take_append {n : Nat} {copied : List UInt8} (h : copied <+: left.drop n) :
    left.take n ++ copied <+: left := by
  conv_rhs => rw [← List.take_append_drop n left]
  exact (List.prefix_append_right_inj _).mpr h

/-- A header is read, and with it `n` bytes of the packet. -/
theorem Follows.header (hends : p.ends = false) {n : Nat}
    (hn : n + 4 * ws.length = p.bytes.length) (hle : n ≤ left.length)
    (h : Follows ws ps (left.drop n) (front ++ left.take n) v log headers fails) :
    Follows [] (p :: ps) left front v log (left :: headers) fails := by
  obtain ⟨k, hk, hheaders, hres⟩ := h
  have hcons := boundary_cons hends hn ps
  have hlen := length_untilDesync_cons hends ps
  refine ⟨k + 1, by rw [hlen]; exact Nat.succ_le_succ hk, ?_, hres.imp_right ?_⟩
  · rw [List.range_succ_eq_map, List.map_cons, List.map_map, hheaders]
    refine congrArg (left :: ·) (List.map_congr_left fun i _ => ?_)
    show _ = left.drop (boundary [] (p :: ps) (i + 1))
    rw [hcons, List.drop_drop]
  · rintro ⟨copied, hcopied, hframed⟩
    have htake : (left.take n).length = n := List.length_take_of_le hle
    refine ⟨left.take n ++ copied, by rw [hcopied, List.append_assoc],
      prefix_take_append hframed.front, ?_, fun i hi hbound => ?_, ?_⟩
    · rw [List.length_append, htake, hlen, hcons]
      exact Nat.add_le_add_left hframed.within n
    · rw [List.length_append, htake]
      cases i with
      | zero => exact ⟨Nat.zero_le _, Nat.zero_le _⟩
      | succ i =>
        rw [hlen] at hi
        rw [hcons] at hbound ⊢
        obtain ⟨hik, hcop⟩ := hframed.whole i (Nat.le_of_succ_le_succ hi)
          (by rw [List.length_drop]; omega)
        exact ⟨Nat.succ_le_succ hik, Nat.add_le_add_left hcop n⟩
    · rw [hframed.done, hlen, hcons, List.length_drop]
      have hex : (∃ q ∈ p :: ps, q.ends = true) ↔ ∃ q ∈ ps, q.ends = true := by
        simp [hends]
      rw [hex]
      exact and_congr_right fun _ => by omega

/-- `n` words of a packet are taken. -/
theorem Follows.words {n : Nat} (hn : n ≤ ws.length) (hle : 4 * n ≤ left.length)
    (h : Follows (ws.drop n) ps (left.drop (4 * n)) (front ++ left.take (4 * n)) v log headers
      fails) :
    Follows ws ps left front v log headers fails := by
  obtain ⟨k, hk, hheaders, hres⟩ := h
  have hwords := boundary_words hn ps
  refine ⟨k, hk, ?_, hres.imp_right ?_⟩
  · rw [hheaders]
    refine List.map_congr_left fun i _ => ?_
    rw [hwords, List.drop_drop]
  · rintro ⟨copied, hcopied, hframed⟩
    have htake : (left.take (4 * n)).length = 4 * n := List.length_take_of_le hle
    refine ⟨left.take (4 * n) ++ copied, by rw [hcopied, List.append_assoc],
      prefix_take_append hframed.front, ?_, fun i hi hbound => ?_, ?_⟩
    · rw [List.length_append, htake, hwords]
      exact Nat.add_le_add_left hframed.within _
    · rw [List.length_append, htake]
      rw [hwords] at hbound ⊢
      obtain ⟨hik, hcop⟩ := hframed.whole i hi (by rw [List.length_drop]; omega)
      exact ⟨hik, Nat.add_le_add_left hcop _⟩
    · rw [hframed.done, hwords, List.length_drop]
      exact and_congr_right fun _ => by omega

/-- The packet that ends the bitstream is read, and what follows is not. -/
theorem follows_desync (hends : p.ends = true) (hle : p.bytes.length ≤ left.length)
    (hres : v.m_state = .FAILED ∧ fails ∨
      v.m_state = .DONE ∧ flashed log ++ v.m_writeBuffer.items = front ++ left.take p.bytes.length) :
    Follows [] (p :: ps) left front v log [left] fails := by
  have hlive : untilDesync (p :: ps) = [p] := by
    unfold untilDesync
    rw [hends]
    rfl
  have hone : boundary [] (p :: ps) 1 = p.bytes.length := by
    unfold boundary
    rw [hlive]
    show 0 + (p.bytes ++ []).length = _
    rw [List.append_nil, Nat.zero_add]
  refine ⟨1, by rw [hlive]; exact Nat.le_refl _, rfl, hres.imp_right fun ⟨hv, hwb⟩ => ?_⟩
  have htake : (left.take p.bytes.length).length = p.bytes.length := List.length_take_of_le hle
  refine ⟨_, hwb, List.take_prefix _ _, ?_, fun i hi _ => ?_, ?_⟩
  · rw [hlive, htake]
    exact Nat.le_of_eq hone.symm
  · rw [hlive] at hi
    rw [htake]
    have hi : i ≤ 1 := hi
    refine ⟨hi, ?_⟩
    rcases Nat.le_one_iff_eq_zero_or_eq_one.mp hi with rfl | rfl
    · exact Nat.zero_le _
    · exact Nat.le_of_eq hone
  · rw [hlive]
    exact ⟨fun _ => ⟨⟨p, List.mem_cons_self, hends⟩, Nat.le_trans (Nat.le_of_eq hone) hle⟩,
      fun _ => hv⟩

end

/-! ## One poll -/

/-- The updater is between packets, or in one with the words `ws` to come. -/
def Awaits (s : FPGAFirmwareUpdater φ) (ws : List UInt32) : Prop :=
  s.m_state = .BITSTREAM ∧ ws = [] ∨ s.m_state = .BIG_WRITE ∧ s.m_bigWordLen.toNat = ws.length

/-- `n` bytes are moved from one buffer to the other. -/
structure Takes (s t : FPGAFirmwareUpdater φ) (n : Nat) : Prop where
  le : n ≤ s.m_rxBuffer.items.length
  rx : t.m_rxBuffer.items = s.m_rxBuffer.items.drop n
  copies : t.m_writeBuffer.items = s.m_writeBuffer.items ++ s.m_rxBuffer.items.take n

/-- What `ProcessDataFromBuffer` makes of packets. -/
inductive Taken (s : FPGAFirmwareUpdater φ) (ws : List UInt32) (ps : List Packet) :
    Bool → FPGAFirmwareUpdater φ → Prop where
  | waits : ¬ ReadsHeader s → Short ws ps s.m_rxBuffer.items → Taken s ws ps false s
  | header {p : Packet} {ps' : List Packet} {ws' : List UInt32} {taken : List UInt8}
    {t : FPGAFirmwareUpdater φ} : ReadsHeader s → ws = [] → ps = p :: ps' → p.ends = false →
    p.bytes = taken ++ wordBytes ws' → Takes s t taken.length → Awaits t ws' →
    Taken s ws ps true t
  | desync {p : Packet} {ps' : List Packet} {t : FPGAFirmwareUpdater φ} : ReadsHeader s →
    ws = [] → ps = p :: ps' → p.ends = true → Takes s t p.bytes.length → t.m_state = .DONE →
    Taken s ws ps true t
  | words {n : Nat} {more : Bool} {t : FPGAFirmwareUpdater φ} : ¬ ReadsHeader s → n ≤ ws.length →
    Takes s t (4 * n) → Awaits t (ws.drop n) →
    (more = false → t.m_rxBuffer.items.length < 4) → Taken s ws ps more t

section
variable {ws : List UInt32} {ps : List Packet}

theorem boundary_cons_le (p : Packet) (ps : List Packet) (ws : List UInt32) {i : Nat}
    (hi : i ≠ 0) : p.bytes.length ≤ boundary ws (p :: ps) i := by
  obtain ⟨i, rfl⟩ := Nat.exists_eq_succ_of_ne_zero hi
  obtain ⟨live, hlive⟩ : ∃ live, untilDesync (p :: ps) = p :: live := by
    unfold untilDesync
    split
    · exact ⟨[], rfl⟩
    · exact ⟨_, rfl⟩
  unfold boundary
  rw [hlive, List.take_succ_cons]
  show _ ≤ _ + (p.bytes ++ packetBytes (live.take i)).length
  rw [List.length_append]
  omega

theorem short_of_lt {left : List UInt8} (h : left.length < 4) : Short ws ps left := by
  intro i hi hle
  refine ⟨Decidable.byContradiction fun hne => ?_, ?_⟩
  · cases ps with
    | nil => exact hne (Nat.le_zero.mp hi)
    | cons p ps =>
      have hp := boundary_cons_le p ps ws hne
      rw [Packet.length_bytes] at hp
      omega
  · refine List.length_eq_zero_iff.mp ?_
    unfold boundary at hle
    omega

theorem short_of_packet {p : Packet} {left : List UInt8} (h : left.length < p.bytes.length) :
    Short [] (p :: ps) left := by
  intro i _ hle
  refine ⟨Decidable.byContradiction fun hne => ?_, rfl⟩
  have hp := boundary_cons_le p ps [] hne
  omega

theorem ends_of_isBig {p : Packet} (h : p.isBig = true) : p.ends = false := by
  cases p with
  | write | nop => cases h
  | big => rfl

/-- The front of the stream, as far as it is there. -/
theorem front_of_prefix {xs ys rest : List UInt8} (h : rest <+: xs ++ ys)
    (hlen : xs.length ≤ rest.length) : ∃ more, rest = xs ++ more := by
  obtain ⟨more, hmore⟩ := List.prefix_of_prefix_length_le (List.prefix_append xs ys) h hlen
  exact ⟨more, hmore.symm⟩

theorem takes_push {n : Nat} {w : FPGAFirmwareUpdater φ}
    (hwb : w.m_writeBuffer = s.m_writeBuffer) (hrx : w.m_rxBuffer = s.m_rxBuffer)
    (hle : n ≤ s.m_rxBuffer.items.length)
    (hno : .pushFailed ∉ (w.pushWrite (s.m_rxBuffer.items.take n)).2.2) :
    Takes s ((w.pushWrite (s.m_rxBuffer.items.take n)).2.1.popRx n) n := by
  rcases pushWrite_cases w (s.m_rxBuffer.items.take n) with ⟨q, hp, hq⟩ | ⟨hp, -⟩
  · rw [hp]
    refine ⟨hle, ?_, ?_⟩
    · show (w.m_rxBuffer.pop n).items = _
      rw [BoundedQueue.items_pop, hrx]
    · show q.items = _
      rw [hq, hwb]
  · rw [hp] at hno
    exact absurd (List.mem_singleton_self _) hno

theorem bswap32_header {p : Packet} {rest : List UInt8}
    (hrest : s.m_rxBuffer.items = bigEndian p.header ++ rest) :
    bswap32 s.m_rxBuffer.items = p.header := by
  rw [hrest]
  exact bswap32_bigEndian _ _

theorem length_of_header {p : Packet} {rest : List UInt8}
    (hrest : s.m_rxBuffer.items = bigEndian p.header ++ rest) : 4 ≤ s.m_rxBuffer.items.length := by
  rw [hrest, List.length_append, length_bigEndian]
  exact Nat.le_add_right _ _

/-- A type 1 packet is taken when it is there as a whole. -/
theorem small_taken {p : Packet} {rest : List UInt8} (hbig : p.isBig = false)
    (hs : s.m_state = .BITSTREAM) (hrx : s.m_rxBuffer.items <+: packetBytes (p :: ps))
    (hrest : s.m_rxBuffer.items = bigEndian p.header ++ rest) (hno : .pushFailed ∉ es)
    (h : bitstream s = (more, t, es)) : Taken s [] (p :: ps) more t := by
  have hlen := length_of_header hrest
  have hheader := bswap32_header hrest
  have htype : packetType s.m_rxBuffer.items = 1 := by
    rw [hrest]
    exact Packet.packetType_small hbig rest
  have hsize := Packet.packetSize_small hbig
  unfold bitstream at h
  dsimp only at h
  rw [if_pos hlen, if_pos htype, hheader, hsize] at h
  by_cases hwhole : s.m_rxBuffer.items.length < p.bytes.length
  · rw [if_pos hwhole] at h
    cases h
    refine .waits (fun hread => ?_) (short_of_packet hwhole)
    have hle := hread.2.2 htype
    rw [hheader, hsize] at hle
    omega
  · rw [if_neg hwhole] at h
    have hwhole := Nat.le_of_not_lt hwhole
    have hread : ReadsHeader s := ⟨hs, hlen, fun _ => by rw [hheader, hsize]; exact hwhole⟩
    have hdesync : isDesync s.m_rxBuffer.items = p.ends := by
      obtain ⟨rest', hrest'⟩ : ∃ rest', s.m_rxBuffer.items = p.bytes ++ rest' :=
        front_of_prefix hrx hwhole
      rw [hrest']
      exact Packet.isDesync_bytes hbig rest'
    rw [hdesync] at h
    cases hends : p.ends with
    | false =>
      rw [hends] at h
      cases h
      have hst := pushWrite_m_state s (s.m_rxBuffer.items.take p.bytes.length)
      exact .header hread rfl rfl hends (List.append_nil p.bytes).symm
        (takes_push rfl rfl hwhole (fun he => hno (List.mem_append_right _ he)))
        (.inl ⟨hst.trans hs, rfl⟩)
    | true =>
      rw [hends] at h
      cases h
      have hst := pushWrite_m_state (s.setState .DONE).1 (s.m_rxBuffer.items.take p.bytes.length)
      exact .desync hread rfl rfl hends
        (takes_push rfl rfl hwhole (fun he => hno (List.mem_append_right _ he))) hst

/-- Of a type 2 packet the header is taken. -/
theorem big_taken {p : Packet} {rest : List UInt8} (hbig : p.isBig = true)
    (hs : s.m_state = .BITSTREAM) (hrest : s.m_rxBuffer.items = bigEndian p.header ++ rest)
    (hno : .pushFailed ∉ es) (h : bitstream s = (more, t, es)) : Taken s [] (p :: ps) more t := by
  have hlen := length_of_header hrest
  have htype : packetType s.m_rxBuffer.items = 2 := by
    rw [hrest]
    exact Packet.packetType_big hbig rest
  have hne : packetType s.m_rxBuffer.items ≠ 1 := by
    rw [htype]
    decide
  unfold bitstream at h
  dsimp only at h
  rw [if_pos hlen, if_neg hne, if_pos htype, bswap32_header hrest] at h
  cases h
  refine .header ⟨hs, hlen, fun h1 => absurd h1 hne⟩ rfl rfl (ends_of_isBig hbig)
    p.bytes_eq (takes_push rfl rfl hlen (fun he => hno (List.mem_append_right _ he)))
    (.inr ⟨?_, ?_⟩)
  · exact pushWrite_m_state _ _
  · show (pushWrite _ _).2.1.m_bigWordLen.toNat = _
    rw [pushWrite_m_bigWordLen]
    exact Packet.packetBigLen_big hbig

theorem bitstream_taken (hs : s.m_state = .BITSTREAM)
    (hrx : s.m_rxBuffer.items <+: packetBytes ps) (hno : .pushFailed ∉ es)
    (h : bitstream s = (more, t, es)) : Taken s [] ps more t := by
  by_cases hlen : 4 ≤ s.m_rxBuffer.items.length
  · cases ps with
    | nil =>
      rw [List.prefix_nil.mp hrx] at hlen
      exact absurd hlen (by decide)
    | cons p ps =>
      obtain ⟨rest, hrest⟩ : ∃ rest, s.m_rxBuffer.items = bigEndian p.header ++ rest := by
        have hrx : s.m_rxBuffer.items <+: p.bytes ++ packetBytes ps := hrx
        rw [Packet.bytes_eq, List.append_assoc] at hrx
        exact front_of_prefix hrx hlen
      cases hbig : p.isBig with
      | false => exact small_taken hbig hs hrx hrest hno h
      | true => exact big_taken hbig hs hrest hno h
  · unfold bitstream at h
    dsimp only at h
    rw [if_neg hlen] at h
    cases h
    exact .waits (fun hread => hlen hread.2.1) (short_of_lt (Nat.lt_of_not_le hlen))

theorem bigWrite_taken (hs : s.m_state = .BIG_WRITE) (hws : s.m_bigWordLen.toNat = ws.length)
    (hno : .pushFailed ∉ es) (h : bigWrite s = (more, t, es)) : Taken s ws ps more t := by
  have hread : ¬ ReadsHeader s := fun hread => by cases hs.symm.trans hread.1
  by_cases hlen : 4 ≤ s.m_rxBuffer.items.length
  · obtain ⟨ok, u, fs, hp, hwb, -, hrx, hbig, hcase⟩ := bigWrite_cases hlen h
    have hfs : ∀ e ∈ fs, e ∈ es := by
      intro e he
      rcases hcase with ⟨-, -, -, rfl⟩ | ⟨-, -, -, rfl⟩
      · exact List.mem_append_left _ (List.mem_append_left _ he)
      · exact List.mem_append_left _ he
    cases ok with
    | false =>
      obtain ⟨-, rfl, -⟩ := pushWrite_false hp
      exact absurd (hfs _ (List.mem_singleton_self _)) hno
    | true =>
      obtain ⟨-, q, rfl, hq⟩ := pushWrite_true hp
      have hn := wordsTaken_le s
      have hle : 4 * wordsTaken s ≤ s.m_rxBuffer.items.length := by
        unfold wordsTaken
        omega
      have htakes : Takes s t (4 * wordsTaken s) := ⟨hle, hrx, by rw [hwb]; exact hq⟩
      have hdrop : (ws.drop (wordsTaken s)).length = ws.length - wordsTaken s := List.length_drop
      rcases hcase with ⟨hall, rfl, hst, -⟩ | ⟨hpart, rfl, hst, -⟩
      · refine .words hread (by rw [← hws]; exact hn) htakes (.inl ⟨hst, ?_⟩)
          (fun hfalse => Bool.noConfusion hfalse)
        exact List.length_eq_zero_iff.mp (by omega)
      · refine .words hread (by rw [← hws]; exact hn) htakes
          (.inr ⟨hst.trans hs, by rw [hbig, hdrop, hws]⟩) (fun _ => ?_)
        rw [hrx, List.length_drop]
        unfold wordsTaken at hpart ⊢
        omega
  · unfold bigWrite at h
    dsimp only at h
    rw [if_neg hlen] at h
    cases h
    exact .waits hread (short_of_lt (Nat.lt_of_not_le hlen))

end

/-! ## All of them -/

theorem Takes.shift {n : Nat} (h : Takes s t n) (later : List UInt8) :
    (s.m_rxBuffer.items ++ later).drop n = t.m_rxBuffer.items ++ later ∧
      s.m_writeBuffer.items ++ (s.m_rxBuffer.items ++ later).take n = t.m_writeBuffer.items := by
  rw [List.drop_append_of_le_length h.le, List.take_append_of_le_length h.le]
  exact ⟨by rw [h.rx], h.copies.symm⟩

section
variable {ws : List UInt32} {ps : List Packet} {later : List UInt8} {headers : List (List UInt8)}
  {fails : Prop}

/-- What is made of the packets by a poll and those behind it. -/
theorem Taken.follows (h : Taken s ws ps more t)
    (hleft : s.m_rxBuffer.items ++ later <+: wordBytes ws ++ packetBytes ps)
    (hnext : ∀ ws' ps', Awaits t ws' →
      t.m_rxBuffer.items ++ later <+: wordBytes ws' ++ packetBytes ps' →
      (more = false → Short ws' ps' t.m_rxBuffer.items) →
      Follows ws' ps' (t.m_rxBuffer.items ++ later) t.m_writeBuffer.items v log headers fails)
    (hdone : t.m_state = .DONE → headers = [] ∧ (v.m_state = .FAILED ∧ fails ∨
      v.m_state = .DONE ∧ flashed log ++ v.m_writeBuffer.items = t.m_writeBuffer.items))
    (hs : Awaits s ws) :
    Follows ws ps (s.m_rxBuffer.items ++ later) s.m_writeBuffer.items v log
      (if ReadsHeader s then (s.m_rxBuffer.items ++ later) :: headers else headers) fails := by
  cases h with
  | waits hread hshort =>
    rw [if_neg hread]
    exact hnext ws ps hs hleft (fun _ => hshort)
  | @header p ps' ws' taken _ hread hws hps hends hbytes htakes ht =>
    subst hws hps
    obtain ⟨hdrop, htake⟩ := htakes.shift later
    rw [if_pos hread]
    have hlen : taken.length + 4 * ws'.length = p.bytes.length := by
      rw [hbytes, List.length_append, length_wordBytes]
    refine .header hends hlen ?_ ?_
    · rw [List.length_append]
      exact Nat.le_add_right_of_le htakes.le
    · rw [hdrop, htake]
      refine hnext ws' ps' ht ?_ (fun hfalse => Bool.noConfusion hfalse)
      have hrest := List.IsPrefix.drop hleft taken.length
      have hfront : (wordBytes [] ++ packetBytes (p :: ps')).drop taken.length =
          wordBytes ws' ++ packetBytes ps' := by
        show (p.bytes ++ packetBytes ps').drop _ = _
        rw [hbytes, List.append_assoc, List.drop_left]
      rwa [hdrop, hfront] at hrest
  | @desync p ps' _ hread hws hps hends htakes ht =>
    subst hws hps
    obtain ⟨rfl, hres⟩ := hdone ht
    rw [if_pos hread]
    refine follows_desync hends ?_ ?_
    · rw [List.length_append]
      exact Nat.le_add_right_of_le htakes.le
    · rw [(htakes.shift later).2]
      exact hres
  | @words n _ _ hread hn htakes ht hless =>
    obtain ⟨hdrop, htake⟩ := htakes.shift later
    rw [if_neg hread]
    refine .words hn ?_ ?_
    · rw [List.length_append]
      exact Nat.le_add_right_of_le htakes.le
    · rw [hdrop, htake]
      refine hnext _ ps ht ?_ (fun hfalse => short_of_lt (hless hfalse))
      have hrest := List.IsPrefix.drop hleft (4 * n)
      rwa [hdrop, List.drop_append_of_le_length (by rw [length_wordBytes]; omega),
        ← wordBytes_drop] at hrest

theorem process_taken (hs : Awaits s ws)
    (hrx : s.m_rxBuffer.items <+: wordBytes ws ++ packetBytes ps) (hno : .pushFailed ∉ es)
    (h : ProcessDataFromBuffer F c fuel s = .ok (more, t, es)) : Taken s ws ps more t := by
  unfold ProcessDataFromBuffer at h
  rcases hs with ⟨hs, rfl⟩ | ⟨hs, hws⟩
  · rw [hs] at h
    exact bitstream_taken hs hrx hno (Except.ok.inj h)
  · rw [hs] at h
    exact bigWrite_taken hs hws hno (Except.ok.inj h)

/-- `ProcessDataFromBuffer` itself writes nothing behind the header. -/
theorem process_writes_nothing (hs : ¬ inHeader s)
    (h : ProcessDataFromBuffer F c fuel s = .ok (more, t, es)) : flashed es = [] := by
  have hspec : PollSpec F c fuel true s more t es :=
    process_spec (fun hst => absurd (.inr hst) hs) h
  refine flashed_of_written ?_
  rcases hspec.result with ⟨out, hp⟩ | hdrop
  · exact hp.writes
  · exact hdrop.writes

theorem Awaits.past_header (hs : Awaits s ws) : ¬ inHeader s := by
  unfold inHeader
  rcases hs with ⟨hs, -⟩ | ⟨hs, -⟩
  · rw [hs]
    decide
  · rw [hs]
    decide

theorem Awaits.alive (hs : Awaits s ws) : ¬ Finished s := by
  unfold Finished
  rcases hs with ⟨hs, -⟩ | ⟨hs, -⟩
  · rw [hs]
    decide
  · rw [hs]
    decide

theorem Taken.alive (h : Taken s ws ps more t) (hs : Awaits s ws) : t.m_state ≠ .FAILED := by
  cases h with
  | waits => exact fun hfail => hs.alive (.inr hfail)
  | header _ _ _ _ _ _ ht => exact fun hfail => ht.alive (.inr hfail)
  | desync _ _ _ _ _ ht =>
    rw [ht]
    decide
  | words _ _ _ ht => exact fun hfail => ht.alive (.inr hfail)

/-- What a poll reads is written or waits to be, unless the flash fails. -/
structure Pushes (F : SpiFlash φ) (c : UpdaterConfig) (fuel : Nat) (s u t : FPGAFirmwareUpdater φ)
    (es : List Action) : Prop where
  rx : t.m_rxBuffer = u.m_rxBuffer
  words : t.m_bigWordLen = u.m_bigWordLen
  result : t.m_state = .FAILED ∧ (u.m_state = .FAILED ∨ FlashFails F c fuel s) ∨
    t.m_state = u.m_state ∧ flashed es ++ t.m_writeBuffer.items = u.m_writeBuffer.items

theorem pollOnce_pushes (hs : ¬ inHeader s)
    (h : pollOnce F c fuel s = .ok (more, t, es)) :
    ∃ u fs, ProcessDataFromBuffer F c fuel s = .ok (more, u, fs) ∧ (∀ e ∈ fs, e ∈ es) ∧
      Pushes F c fuel s u t es := by
  obtain ⟨u, fs, hu, rfl, rfl⟩ := pollOnce_ok h
  obtain ⟨hrx, hwords, -⟩ := pushWriteData_frame F u
  refine ⟨u, fs, hu, fun e he => List.mem_append_left _ he, hrx, hwords, ?_⟩
  rcases pushWriteData_writes F u with hfail | ⟨hst, hwb⟩
  · refine .inl ⟨hfail, ?_⟩
    by_cases hu' : u.m_state = .FAILED
    · exact .inl hu'
    · exact .inr ⟨more, u, fs, hu, hu', hfail⟩
  · refine .inr ⟨hst, ?_⟩
    rw [flashed_append, process_writes_nothing hs hu]
    exact hwb

/-- Nothing comes of a state any more but what waits in it to be written. -/
def Settles (s v : FPGAFirmwareUpdater φ) (log : List Action) (fails : Prop) : Prop :=
  v.m_state = .FAILED ∧ (s.m_state = .FAILED ∨ fails) ∨
    v.m_state = s.m_state ∧ flashed log ++ v.m_writeBuffer.items = s.m_writeBuffer.items

theorem settles_self (s : FPGAFirmwareUpdater φ) : Settles s s [] fails := .inr ⟨rfl, rfl⟩

theorem Settles.failed (h : Settles s v log fails) (hs : s.m_state = .FAILED) :
    v.m_state = .FAILED := by
  rcases h with ⟨hv, -⟩ | ⟨hv, -⟩
  · exact hv
  · exact hv.trans hs

/-- A poll whose packets are taken, and what follows it. -/
theorem poll_follows (hs : Awaits s ws)
    (hleft : s.m_rxBuffer.items ++ later <+: wordBytes ws ++ packetBytes ps)
    (hno : .pushFailed ∉ es) (h : pollOnce F c fuel s = .ok (more, t, es))
    (hfin : Finished t → headers = [] ∧ Settles t v log fails)
    (hnext : ∀ ws' ps', Awaits t ws' →
      t.m_rxBuffer.items ++ later <+: wordBytes ws' ++ packetBytes ps' →
      (more = false → Short ws' ps' t.m_rxBuffer.items) →
      Follows ws' ps' (t.m_rxBuffer.items ++ later) t.m_writeBuffer.items v log headers fails) :
    Follows ws ps (s.m_rxBuffer.items ++ later) s.m_writeBuffer.items v (es ++ log)
      (if ReadsHeader s then (s.m_rxBuffer.items ++ later) :: headers else headers)
      (FlashFails F c fuel s ∨ fails) := by
  obtain ⟨u, fs, hu, hfs, hpush⟩ := pollOnce_pushes hs.past_header h
  have htaken : Taken s ws ps more u := process_taken hs
    ((List.prefix_append _ _).trans hleft) (fun he => hno (hfs _ he)) hu
  rcases hpush.result with ⟨hfail, hcause⟩ | ⟨hst, hwb⟩
  · -- the flash fails here, and nothing more is read
    have hcause := hcause.resolve_left (htaken.alive hs)
    obtain ⟨rfl, hsettles⟩ := hfin (.inr hfail)
    have hv := hsettles.failed hfail
    exact htaken.follows hleft (fun _ _ _ _ _ => follows_failed hv (.inl hcause))
      (fun _ => ⟨rfl, .inl ⟨hv, .inl hcause⟩⟩) hs
  · refine htaken.follows hleft (fun ws' ps' hu' hrest hshort => ?_) (fun hdone => ?_) hs
    · have ht : Awaits t ws' := by
        unfold Awaits
        rw [hst, hpush.words]
        exact hu'
      rw [← hpush.rx] at hrest hshort ⊢
      exact ((hnext ws' ps' ht hrest hshort).push hwb).mono .inr
    · have ht : t.m_state = .DONE := hst.trans hdone
      obtain ⟨hheaders, hsettles⟩ := hfin (.inl ht)
      refine ⟨hheaders, hsettles.imp (fun ⟨hv, hcause⟩ => ⟨hv, .inr ?_⟩) fun ⟨hv, hlog⟩ => ?_⟩
      · refine hcause.resolve_left fun hfail => ?_
        cases ht.symm.trans hfail
      · refine ⟨hv.trans ht, ?_⟩
        rw [flashed_append, List.append_assoc, hlog, hwb]

theorem headersRead_cons (s : FPGAFirmwareUpdater φ) (chunks : List (List UInt8))
    (polls : List (Poll φ)) :
    headersRead (⟨s, chunks⟩ :: polls) =
      if ReadsHeader s then (s.m_rxBuffer.items ++ chunks.flatten) :: headersRead polls
      else headersRead polls := by
  unfold headersRead
  rw [List.filter_cons]
  by_cases hread : ReadsHeader s
  · rw [if_pos (decide_eq_true hread), if_pos hread]
    rfl
  · rw [if_neg (by simpa using hread), if_neg hread]

theorem Finished.past_header (hs : Finished s) : ¬ inHeader s := by
  unfold inHeader
  rcases hs with hs | hs
  · rw [hs]
    decide
  · rw [hs]
    decide

theorem pollOnce_finished (hs : Finished s) (h : pollOnce F c fuel s = .ok (more, t, es)) :
    more = false ∧ Finished t ∧ Settles s t es (FlashFails F c fuel s) := by
  obtain ⟨u, fs, hu, -, hpush⟩ := pollOnce_pushes hs.past_header h
  rw [process_finished hs] at hu
  cases hu
  refine ⟨rfl, ?_, hpush.result⟩
  rcases hpush.result with ⟨hfail, -⟩ | ⟨hst, -⟩
  · exact .inr hfail
  · unfold Finished
    rw [hst]
    exact hs

theorem Settles.trans {u : FPGAFirmwareUpdater φ} {fails' : Prop} (h : Settles s t es fails)
    (h' : Settles t u log fails') : Settles s u (es ++ log) (fails ∨ fails') := by
  rcases h with ⟨ht, hcause⟩ | ⟨ht, hlog⟩
  · exact .inl ⟨h'.failed ht, hcause.imp_right .inl⟩
  · rcases h' with ⟨hu, hcause⟩ | ⟨hu, hlog'⟩
    · exact .inl ⟨hu, hcause.imp (fun hfail => ht.symm.trans hfail) .inr⟩
    · refine .inr ⟨hu.trans ht, ?_⟩
      rw [flashed_append, List.append_assoc, hlog', hlog]

theorem not_readsHeader (hs : Finished s) : ¬ ReadsHeader s := by
  rintro ⟨hst, -⟩
  rcases hs with hs | hs
  · cases hs.symm.trans hst
  · cases hs.symm.trans hst

theorem flashFails_cons
    (h : FlashFails F c fuel s ∨ ∃ p ∈ polls, FlashFails F c fuel p.state) :
    ∃ p ∈ (⟨s, chunks⟩ : Poll φ) :: polls, FlashFails F c fuel p.state :=
  (List.exists_mem_cons_iff (fun p : Poll φ => FlashFails F c fuel p.state) _ _).mpr h

/-- No header is read any more, and nothing that is received is written. -/
theorem polling_finished (h : Polling F c fuel s chunks v log polls) (hs : Finished s) :
    headersRead polls = [] ∧ Settles s v log (∃ p ∈ polls, FlashFails F c fuel p.state) := by
  induction h with
  | ends hpoll =>
    obtain ⟨-, -, hsettles⟩ := pollOnce_finished hs hpoll
    rw [headersRead_cons, if_neg (not_readsHeader hs)]
    refine ⟨rfl, hsettles.imp_left fun ⟨hv, hcause⟩ => ⟨hv, hcause.imp_right fun hfail => ?_⟩⟩
    exact ⟨_, List.mem_cons_self, hfail⟩
  | again hpoll => cases (pollOnce_finished hs hpoll).1
  | call hpoll hq _ ih =>
    obtain ⟨-, ht, hsettles⟩ := pollOnce_finished hs hpoll
    obtain ⟨hheaders, hrest⟩ := ih ht
    rw [headersRead_cons, if_neg (not_readsHeader hs)]
    refine ⟨hheaders, ((hsettles.trans hrest).imp_left fun ⟨hv, hcause⟩ =>
      ⟨hv, hcause.imp_right ?_⟩)⟩
    exact flashFails_cons

/-- The run lemma: what is left of the stream is framed from any poll on. -/
theorem polling_follows (h : Polling F c fuel s chunks v log polls) (hs : Awaits s ws)
    (hleft : s.m_rxBuffer.items ++ chunks.flatten <+: wordBytes ws ++ packetBytes ps)
    (hno : .pushFailed ∉ log) :
    Follows ws ps (s.m_rxBuffer.items ++ chunks.flatten) s.m_writeBuffer.items v log
      (headersRead polls) (∃ p ∈ polls, FlashFails F c fuel p.state) := by
  induction h generalizing ws ps with
  | @ends s t es hpoll =>
    rw [headersRead_cons]
    have hfollows : Follows ws ps (s.m_rxBuffer.items ++ ([] : List (List UInt8)).flatten)
        s.m_writeBuffer.items t (es ++ []) _ (FlashFails F c fuel s ∨ False) :=
      poll_follows hs hleft hno hpoll (fun _ => ⟨rfl, settles_self t⟩)
        (fun ws' ps' ht hrest hshort => ?_)
    · rw [List.append_nil] at hfollows
      exact hfollows.mono fun hfail => ⟨_, List.mem_cons_self, hfail.resolve_right id⟩
    · refine follows_stop ?_ (fun hdone => ht.alive (.inl hdone)) rfl
      rw [List.flatten_nil, List.append_nil]
      exact hshort rfl
  | again hpoll hrest ih =>
    rw [List.mem_append, not_or] at hno
    rw [headersRead_cons]
    refine (poll_follows hs hleft hno.1 hpoll (fun ht => polling_finished hrest ht)
      (fun ws' ps' ht hnext _ => ih ht hnext hno.2)).mono ?_
    exact flashFails_cons
  | @call s t v data q chunks es log polls hpoll hq hrest ih =>
    rw [List.mem_append, not_or] at hno
    rw [headersRead_cons]
    have hitems : t.m_rxBuffer.items ++ (data :: chunks).flatten = q.items ++ chunks.flatten := by
      rw [BoundedQueue.items_of_push hq, List.flatten_cons, List.append_assoc]
    have hfin := fun ht : Finished t => polling_finished hrest ht
    refine (poll_follows hs hleft hno.1 hpoll hfin
      (fun ws' ps' ht hnext _ => ?_)).mono ?_
    · rw [hitems] at hnext ⊢
      exact ih ht hnext hno.2
    · exact flashFails_cons

end

end EmbeddedPlatform.Fpga
