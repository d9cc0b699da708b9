import Mathlib.Data.List.GetD
import EmbeddedPlatform.Services.Handlers

/-! # The parameter blob

`OnRxParamExchange` waits for the bytes its length prefix announces, so it reads
those only. But the announced length is a 32-bit sum: with a prefix of 2^32 - 4
or more the wait is over at once, and the parser goes on behind the bytes
received unless these bring it to an end. -/
namespace EmbeddedPlatform.Services
open EmbeddedPlatform.Lib

/-! ## The parser on bytes at hand -/

/-- The rounds of the parser's loop for the given bytes. -/
def feed : List UInt8 → JsonParser → IperfConnectionState → JsonStep
  | [], q, c => .next q c
  | x :: xs, q, c =>
    match q.round x c with
    | .invalid => .invalid
    | .next q c => feed xs q c
    | .done c => .done c

/-- The rest of `parse` after some of its rounds. -/
def JsonStep.resume (r : JsonStep) (json : Nat → UInt8) (k i : Nat) : Option IperfConnectionState :=
  match r with
  | .invalid => none
  | .next q c => parse json k i q c
  | .done c => if i + k = 0xffffffff then none else some c

theorem parse_feed {f : Nat → UInt8} {xs : List UInt8} {i : Nat}
    (h : ∀ j (hj : j < xs.length), f (i + j) = xs[j]) (k : Nat) (q : JsonParser)
    (c : IperfConnectionState) :
    parse f (xs.length + k) i q c = (feed xs q c).resume f k (i + xs.length) := by
  induction xs generalizing i q c with
  | nil =>
    rw [List.length_nil, Nat.zero_add]
    rfl
  | cons x xs ih =>
    have hx : f i = x := h 0 (Nat.zero_lt_succ _)
    have hxs : ∀ j (hj : j < xs.length), f (i + 1 + j) = xs[j] := by
      intro j hj
      rw [Nat.add_right_comm, Nat.add_assoc]
      exact h (j + 1) (Nat.succ_lt_succ hj)
    have hlen : (x :: xs).length + k = (xs.length + k) + 1 := Nat.add_right_comm _ _ _
    rw [hlen]
    unfold parse feed
    rw [hx]
    cases q.round x c with
    | invalid => rfl
    | done d =>
      have htotal : i + (xs.length + k + 1) = i + (x :: xs).length + k := by
        rw [List.length_cons]
        omega
      dsimp only [JsonStep.resume]
      rw [htotal]
    | next r d =>
      show parse f (xs.length + k) (i + 1) r d = _
      rw [ih hxs r d, List.length_cons, Nat.add_right_comm, Nat.add_assoc]

theorem feed_append_next {xs ys : List UInt8} {q r : JsonParser} {c d : IperfConnectionState}
    (h : feed xs q c = .next r d) : feed (xs ++ ys) q c = feed ys r d := by
  induction xs generalizing q c with
  | nil =>
    cases h
    rfl
  | cons x xs ih =>
    rw [List.cons_append]
    simp only [feed] at h ⊢
    cases hr : q.round x c with
    | invalid =>
      rw [hr] at h
      cases h
    | done e =>
      rw [hr] at h
      cases h
    | next r' e =>
      rw [hr] at h
      exact ih h

/-- A round that looks at its byte; the others find the name or the value too
long. -/
def JsonParser.looks (q : JsonParser) : Bool :=
  match q.jsonState with
  | .STATE_OPEN_QUOTE | .STATE_COLON => true
  | .STATE_NAME => q.name.length < 32
  | .STATE_VALUE => q.value.length < 32

theorem round_of_not_looks {q : JsonParser} (h : q.looks = false) (x : UInt8)
    (c : IperfConnectionState) : q.round x c = .invalid := by
  unfold JsonParser.looks at h
  unfold JsonParser.round
  cases hq : q.jsonState with
  | STATE_OPEN_QUOTE | STATE_COLON =>
    rw [hq] at h
    cases h
  | STATE_NAME | STATE_VALUE =>
    rw [hq] at h
    exact if_pos (Nat.le_of_not_lt (of_decide_eq_false h))

/-- The parser goes the same way whatever the connection is. -/
theorem round_next {q r : JsonParser} {x : UInt8} {c d : IperfConnectionState}
    (h : q.round x c = .next r d) (c' : IperfConnectionState) :
    ∃ d', q.round x c' = .next r d' := by
  unfold JsonParser.round at h ⊢
  cases hq : q.jsonState with
  | STATE_OPEN_QUOTE | STATE_NAME | STATE_COLON | STATE_VALUE =>
    simp only [hq] at h ⊢
    split_ifs at h ⊢ <;> cases h <;> exact ⟨_, rfl⟩

theorem feed_next {xs : List UInt8} {q r : JsonParser} {c d : IperfConnectionState}
    (h : feed xs q c = .next r d) (c' : IperfConnectionState) :
    ∃ d', feed xs q c' = .next r d' := by
  induction xs generalizing q c c' with
  | nil =>
    cases h
    exact ⟨c', rfl⟩
  | cons x xs ih =>
    unfold feed at h ⊢
    cases hr : q.round x c with
    | invalid =>
      rw [hr] at h
      cases h
    | done e =>
      rw [hr] at h
      cases h
    | next r' e =>
      rw [hr] at h
      obtain ⟨e', he'⟩ := round_next hr c'
      rw [he']
      exact ih h e'

/-! ## The blob in the FIFO -/

/-- The waiting bytes and the memory behind them. -/
def window (w : List UInt8) (behind : Nat → UInt8) (i : Nat) : UInt8 :=
  w.getD i (behind (i - w.length))

theorem window_of_lt {w : List UInt8} {behind : Nat → UInt8} {i : Nat} (h : i < w.length) :
    window w behind i = w[i] := List.getD_eq_getElem _ _ h

theorem window_append {w : List UInt8} {i : Nat} (h : i < w.length) (more : List UInt8)
    (behind behind' : Nat → UInt8) :
    window (w ++ more) behind' i = window w behind i := by
  have hlen : i < (w ++ more).length := by
    rw [List.length_append]
    exact Nat.lt_add_right _ h
  rw [window_of_lt h, window_of_lt hlen, List.getElem_append_left h]

theorem window_behind (w : List UInt8) (behind : Nat → UInt8) (i : Nat) :
    window w behind (w.length + i) = behind i := by
  unfold window
  rw [List.getD_eq_default _ _ (Nat.le_add_right _ _), Nat.add_sub_cancel_left]

/-- The length that the waiting bytes announce. -/
def prefixLen (w : List UInt8) : UInt32 := Session.blobLen (window w fun _ => 0)

theorem blobLen_window {w : List UInt8} (h : 6 ≤ w.length) (behind : Nat → UInt8)
    (more : List UInt8) : Session.blobLen (window (w ++ more) behind) = prefixLen w := by
  have hat (i : Nat) (hi : i < 6) : window (w ++ more) behind i = window w (fun _ => 0) i :=
    window_append (Nat.lt_of_lt_of_le hi h) more _ _
  unfold prefixLen Session.blobLen
  rw [hat 0 (by decide), hat 1 (by decide), hat 2 (by decide), hat 3 (by decide)]

/-- What the announced bytes are, as far as they have been received. -/
structure Complete (w : List UInt8) : Prop where
  min_le : 6 ≤ w.length
  len_le : (4 + prefixLen w).toNat ≤ w.length
  brace : window w (fun _ => 0) 4 = openBrace

/-- `none` waits for more, `some none` is a blob found invalid. -/
def exchange (p : Params) (w : List UInt8) (behind : Nat → UInt8) : Option (Option Params) :=
  if w.length < 6 then none
  else if w.length < (4 + Session.blobLen (window w behind)).toNat then none
  else if window w behind 4 != openBrace then none
  else
    some ((parse (fun i => window w behind (4 + i))
      ((Session.blobLen (window w behind)).toNat - 1) 1 .start (blank p)).map
        IperfConnectionState.params)

theorem complete_append {w : List UInt8} (h : Complete w) (more : List UInt8) :
    Complete (w ++ more) := by
  have hmin : 6 ≤ (w ++ more).length := by
    rw [List.length_append]
    exact Nat.le_add_right_of_le h.min_le
  have hlen : prefixLen (w ++ more) = prefixLen w := blobLen_window h.min_le _ more
  refine ⟨hmin, ?_, ?_⟩
  · rw [hlen, List.length_append]
    exact Nat.le_add_right_of_le h.len_le
  · rw [window_append (Nat.lt_of_lt_of_le (by decide) h.min_le) more (fun _ => 0)]
    exact h.brace

theorem exchange_of_complete {w : List UInt8} (h : Complete w) (p : Params)
    (behind : Nat → UInt8) :
    exchange p w behind = some ((parse (fun i => window w behind (4 + i))
      ((prefixLen w).toNat - 1) 1 .start (blank p)).map IperfConnectionState.params) := by
  have hlen : Session.blobLen (window w behind) = prefixLen w := by
    have := blobLen_window h.min_le behind []
    rwa [List.append_nil] at this
  have hbrace : window w behind 4 = openBrace := by
    have := window_append (Nat.lt_of_lt_of_le (by decide : 4 < 6) h.min_le) [] (fun _ => 0) behind
    rw [List.append_nil] at this
    exact this.trans h.brace
  unfold exchange
  rw [hlen, hbrace, if_neg (Nat.not_lt.mpr h.min_le), if_neg (Nat.not_lt.mpr h.len_le), if_neg]
  simp

theorem exchange_of_not_complete {w : List UInt8} (h : ¬ Complete w) (p : Params)
    (behind : Nat → UInt8) : exchange p w behind = none := by
  unfold exchange
  split
  · rfl
  rename_i hmin
  have hmin := Nat.le_of_not_lt hmin
  have hlen : Session.blobLen (window w behind) = prefixLen w := by
    have := blobLen_window hmin behind []
    rwa [List.append_nil] at this
  have hbrace : window w behind 4 = window w (fun _ => 0) 4 := by
    have := window_append (Nat.lt_of_lt_of_le (by decide : 4 < 6) hmin) [] (fun _ => 0) behind
    rwa [List.append_nil] at this
  rw [hlen, hbrace]
  split
  · rfl
  rename_i hle
  split
  · rfl
  rename_i hb
  exact absurd ⟨hmin, Nat.le_of_not_lt hle, by simpa using hb⟩ h

/-! ## Reading behind the bytes received -/

/-- The blob counts as complete with fewer bytes than it announces, and the
parser is in the middle of it after the last of them. -/
structure Overruns (w : List UInt8) : Prop where
  complete : Complete w
  lt : w.length < 4 + (prefixLen w).toNat
  unfinished : ∃ q d, feed (w.drop 5) .start .Clear = .next q d ∧ q.looks = true

/-- What the parser makes of a rest that it does not look at. -/
theorem resume_congr {r : JsonStep} {json json' : Nat → UInt8} {k i : Nat}
    (h : ∀ q d, r = .next q d → k = 0 ∨ q.looks = false) :
    r.resume json k i = r.resume json' k i := by
  cases r with
  | invalid | done c => rfl
  | next q d =>
    unfold JsonStep.resume
    rcases h q d rfl with hk | hq
    · rw [hk]
      rfl
    · cases k with
      | zero => rfl
      | succ k =>
        dsimp only [parse]
        rw [round_of_not_looks hq, round_of_not_looks hq]

/-- The parser's index into the text, in the FIFO. -/
theorem window_text {w : List UInt8} {behind : Nat → UInt8} {j : Nat}
    (hj : j < (w.drop 5).length) : window w behind (4 + (1 + j)) = (w.drop 5)[j] := by
  have hlt : 5 + j < w.length := by
    rw [List.length_drop] at hj
    omega
  rw [← Nat.add_assoc, window_of_lt hlt, List.getElem_drop]

/-- **Received bytes decide.** Unless the parser overruns them, what comes of the
blob does not depend on what comes after it. -/
theorem exchange_append {w : List UInt8} (hw : Complete w) (hover : ¬ Overruns w) (p : Params)
    (behind behind' : Nat → UInt8) (more : List UInt8) :
    exchange p (w ++ more) behind' = exchange p w behind := by
  have hlen : prefixLen (w ++ more) = prefixLen w := blobLen_window hw.min_le _ more
  rw [exchange_of_complete (complete_append hw more), exchange_of_complete hw, hlen]
  have hold : ∀ j (hj : j < (w.drop 5).length),
      window w behind (4 + (1 + j)) = (w.drop 5)[j] := fun j hj => window_text hj
  have hnew : ∀ j (hj : j < (w.drop 5).length),
      window (w ++ more) behind' (4 + (1 + j)) = (w.drop 5)[j] := by
    intro j hj
    have hlt : 4 + (1 + j) < w.length := by
      rw [List.length_drop] at hj
      omega
    rw [window_append hlt more behind, hold j hj]
  by_cases hle : 4 + (prefixLen w).toNat ≤ w.length
  · -- the whole text has been received
    have hxs : ((w.drop 5).take ((prefixLen w).toNat - 1)).length = (prefixLen w).toNat - 1 := by
      rw [List.length_take, List.length_drop]
      omega
    have htake : ∀ j, j < ((w.drop 5).take ((prefixLen w).toNat - 1)).length →
        j < (w.drop 5).length :=
      fun j hj => Nat.lt_of_lt_of_le hj (List.length_take_le' _ _)
    have hnew' : ∀ j (hj : j < ((w.drop 5).take ((prefixLen w).toNat - 1)).length),
        window (w ++ more) behind' (4 + (1 + j)) =
          ((w.drop 5).take ((prefixLen w).toNat - 1))[j] := by
      intro j hj
      rw [hnew j (htake j hj), List.getElem_take]
    have hold' : ∀ j (hj : j < ((w.drop 5).take ((prefixLen w).toNat - 1)).length),
        window w behind (4 + (1 + j)) = ((w.drop 5).take ((prefixLen w).toNat - 1))[j] := by
      intro j hj
      rw [hold j (htake j hj), List.getElem_take]
    have h₁ := parse_feed (f := fun i => window (w ++ more) behind' (4 + i)) (i := 1) hnew'
      0 .start (blank p)
    have h₂ := parse_feed (f := fun i => window w behind (4 + i)) (i := 1) hold' 0
      .start (blank p)
    rw [Nat.add_zero, hxs] at h₁ h₂
    rw [h₁, h₂, resume_congr fun _ _ _ => .inl rfl]
  · -- the parser comes to an end, or would not look at the next byte
    have hlt : w.length < 4 + (prefixLen w).toNat := Nat.lt_of_not_le hle
    have hrest : (w.drop 5).length + ((prefixLen w).toNat - 1 - (w.drop 5).length) =
        (prefixLen w).toNat - 1 := by
      have := hw.min_le
      rw [List.length_drop]
      omega
    have h₁ := parse_feed (f := fun i => window (w ++ more) behind' (4 + i)) (i := 1) hnew
      ((prefixLen w).toNat - 1 - (w.drop 5).length) .start (blank p)
    have h₂ := parse_feed (f := fun i => window w behind (4 + i)) (i := 1) hold
      ((prefixLen w).toNat - 1 - (w.drop 5).length) .start (blank p)
    rw [hrest] at h₁ h₂
    rw [h₁, h₂]
    refine congrArg (fun r => some (Option.map IperfConnectionState.params r)) ?_
    refine resume_congr fun q d hq => .inr ?_
    cases hl : q.looks with
    | false => rfl
    | true =>
      obtain ⟨d', hd'⟩ := feed_next hq .Clear
      exact absurd ⟨hw, hlt, q, d', hd', hl⟩ hover

/-- The memory behind does not matter then. -/
theorem exchange_congr {w : List UInt8} (hover : ¬ Overruns w) (p : Params)
    (behind behind' : Nat → UInt8) : exchange p w behind' = exchange p w behind := by
  by_cases hw : Complete w
  · have h := exchange_append hw hover p behind behind' []
    rwa [List.append_nil] at h
  · rw [exchange_of_not_complete hw, exchange_of_not_complete hw]

/-! ### Otherwise it matters -/

/-- From anywhere in a field the parser can get to the next one. -/
theorem feed_to_quote {q : JsonParser} (h : q.looks = true) (c : IperfConnectionState) :
    ∃ xs r d, feed xs q c = .next r d ∧ r.jsonState = .STATE_OPEN_QUOTE ∧ xs.length ≤ 3 := by
  obtain ⟨s, name, value⟩ := q
  cases s with
  | STATE_OPEN_QUOTE => exact ⟨[], _, _, rfl, rfl, Nat.zero_le _⟩
  | STATE_COLON => exact ⟨[colon, comma], _, _, rfl, rfl, by decide⟩
  | STATE_NAME =>
    have hlen : ¬ 32 ≤ name.length := Nat.not_le.mpr (of_decide_eq_true h)
    refine ⟨[quote, colon, comma], ⟨.STATE_OPEN_QUOTE, name, []⟩, OnJsonConfigField c name [], ?_,
      rfl, by decide⟩
    simp [feed, JsonParser.round, hlen, quote, colon, comma]
  | STATE_VALUE =>
    have hlen : ¬ 32 ≤ value.length := Nat.not_le.mpr (of_decide_eq_true h)
    refine ⟨[comma], ⟨.STATE_OPEN_QUOTE, name, value⟩, OnJsonConfigField c name value, ?_, rfl,
      by decide⟩
    simp [feed, JsonParser.round, hlen]

/-- Fields that make the parameters supported, whatever came before. -/
def supported : List UInt8 := text "\"udp\":true,\"reverse\":true,\"len\":1,"

set_option maxRecDepth 4000 in
theorem feed_supported {r : JsonParser} (hr : r.jsonState = .STATE_OPEN_QUOTE)
    (c : IperfConnectionState) :
    ∃ r', r'.jsonState = .STATE_OPEN_QUOTE ∧ feed supported r c =
      .next r' { c with m_mode := .MODE_UDP, m_reverseMode := true, m_len := 1 } := by
  obtain ⟨s, name, value⟩ := r
  cases hr
  exact ⟨⟨.STATE_OPEN_QUOTE, text "len", text "1"⟩, rfl, rfl⟩

theorem feed_bad {r : JsonParser} (hr : r.jsonState = .STATE_OPEN_QUOTE)
    (c : IperfConnectionState) : feed [0] r c = .invalid := by
  obtain ⟨s, name, value⟩ := r
  cases hr
  rfl

/-- A field that sets nothing. -/
def emptyField : List UInt8 := [quote, quote, colon, comma]

theorem feed_emptyField {r : JsonParser} (hr : r.jsonState = .STATE_OPEN_QUOTE)
    (c : IperfConnectionState) :
    ∃ r', r'.jsonState = .STATE_OPEN_QUOTE ∧ feed emptyField r c = .next r' c := by
  obtain ⟨s, name, value⟩ := r
  cases hr
  exact ⟨⟨.STATE_OPEN_QUOTE, [], []⟩, rfl, rfl⟩

theorem feed_take_emptyField {r : JsonParser} (hr : r.jsonState = .STATE_OPEN_QUOTE)
    (c : IperfConnectionState) {k : Nat} (hk : k < 4) :
    ∃ r', feed (emptyField.take k) r c = .next r' c := by
  obtain ⟨s, name, value⟩ := r
  cases hr
  match k, hk with
  | 0, _ | 1, _ | 2, _ | 3, _ => exact ⟨_, rfl⟩

/-- Such fields can go on to the end of any length. -/
theorem parse_emptyFields {json : Nat → UInt8} {k i : Nat} {q : JsonParser}
    {c : IperfConnectionState} (hq : q.jsonState = .STATE_OPEN_QUOTE)
    (hjson : ∀ j, json (i + j) = emptyField.getD (j % 4) 0) : parse json k i q c = some c := by
  induction k using Nat.strongRecOn generalizing i q with
  | _ k ih =>
    by_cases hk : k < 4
    · have hlen : (emptyField.take k).length = k := by
        rw [List.length_take]
        exact Nat.min_eq_left (Nat.le_of_lt hk)
      have hxs : ∀ j (hj : j < (emptyField.take k).length), json (i + j) = (emptyField.take k)[j] := by
        intro j hj
        rw [hlen] at hj
        have hj4 : j < emptyField.length := Nat.lt_trans hj hk
        rw [hjson, Nat.mod_eq_of_lt (Nat.lt_trans hj hk), List.getElem_take]
        exact List.getD_eq_getElem _ _ hj4
      obtain ⟨r, hr⟩ := feed_take_emptyField hq c hk
      have hparse := parse_feed hxs 0 q c
      rw [Nat.add_zero, hlen, hr] at hparse
      exact hparse
    · obtain ⟨k, rfl⟩ := Nat.exists_eq_add_of_le (Nat.le_of_not_lt hk)
      have hxs : ∀ j (hj : j < emptyField.length), json (i + j) = emptyField[j] := by
        intro j hj
        have hj4 : j < 4 := hj
        rw [hjson, Nat.mod_eq_of_lt hj4]
        exact List.getD_eq_getElem _ _ hj
      obtain ⟨r, hr, hfeed⟩ := feed_emptyField hq c
      have hparse := parse_feed hxs k q c
      rw [hfeed] at hparse
      refine hparse.trans (ih k (Nat.lt_add_of_pos_left (by decide)) hr fun j => ?_)
      show json (i + 4 + j) = _
      rw [Nat.add_assoc, hjson, Nat.add_mod_left]

/-- A blob whose parser overruns goes on with the memory behind. -/
theorem exchange_of_overruns {w : List UInt8} (h : Overruns w) (hcap : w.length ≤ 256)
    (p : Params) : ∃ q d, q.looks = true ∧ ∀ (ys : List UInt8) (behind : Nat → UInt8),
      ys.length ≤ 256 → (∀ j (hj : j < ys.length), behind j = ys[j]) →
      ∃ json k i, (∀ j, json (i + j) = behind (ys.length + j)) ∧
        exchange p w behind =
          some (((feed ys q d).resume json k i).map IperfConnectionState.params) := by
  obtain ⟨q, d₀, hfeed, hlooks⟩ := h.unfinished
  obtain ⟨d, hd⟩ := feed_next hfeed (blank p)
  refine ⟨q, d, hlooks, ?_⟩
  intro ys behind hys hstarts
  -- the sum has wrapped around
  have hwrap : 2 ^ 32 - 4 ≤ (prefixLen w).toNat := by
    have hle := h.complete.len_le
    have hlt := h.lt
    rw [UInt32.toNat_add] at hle
    have := (prefixLen w).toNat_lt
    simp only [UInt32.reduceToNat] at hle
    omega
  have hmin := h.complete.min_le
  obtain ⟨rest, hrest⟩ : ∃ rest,
      (prefixLen w).toNat - 1 = (w.drop 5).length + (ys.length + rest) := by
    refine ⟨(prefixLen w).toNat - 1 - (w.drop 5).length - ys.length, ?_⟩
    rw [List.length_drop]
    omega
  have htext : ∀ j (hj : j < (w.drop 5).length),
      window w behind (4 + (1 + j)) = (w.drop 5)[j] := fun j hj => window_text hj
  have hidx (j : Nat) : 4 + (1 + (w.drop 5).length + j) = w.length + j := by
    rw [List.length_drop]
    omega
  have hbehind : ∀ j (hj : j < ys.length),
      window w behind (4 + (1 + (w.drop 5).length + j)) = ys[j] := by
    intro j hj
    rw [hidx, window_behind]
    exact hstarts j hj
  refine ⟨fun i => window w behind (4 + i), rest, 1 + (w.drop 5).length + ys.length, ?_, ?_⟩
  · intro j
    show window w behind (4 + (1 + (w.drop 5).length + ys.length + j)) = _
    rw [Nat.add_assoc (1 + (w.drop 5).length), hidx, window_behind]
  · rw [exchange_of_complete h.complete, hrest, parse_feed htext, hd]
    show some (Option.map _ (parse _ _ _ q d)) = _
    rw [parse_feed hbehind]

/-- **An overrun leaves the outcome to the memory behind.** -/
theorem overruns_open {w : List UInt8} (h : Overruns w) (hcap : w.length ≤ 256) (p : Params) :
    (∃ behind, exchange p w behind = some none) ∧
      ∃ behind r, exchange p w behind = some (some r) ∧ Session.admits (blank r) = true := by
  obtain ⟨q, d, hlooks, hex⟩ := exchange_of_overruns h hcap p
  obtain ⟨xs, r, e, hxs, hr, hlen⟩ := feed_to_quote hlooks d
  constructor
  · have hys : (xs ++ [0]).length ≤ 256 := by
      rw [List.length_append]
      exact Nat.le_trans (Nat.add_le_add_right hlen 1) (by decide)
    obtain ⟨json, k, i, -, hno⟩ := hex (xs ++ [0]) (fun j => (xs ++ [0]).getD j 0) hys
      fun j hj => List.getD_eq_getElem _ _ hj
    rw [feed_append_next hxs, feed_bad hr] at hno
    exact ⟨_, hno⟩
  · -- the fields that are asked for, and then as many as it takes that set nothing
    have hys : (xs ++ supported).length ≤ 256 := by
      rw [List.length_append]
      exact Nat.le_trans (Nat.add_le_add_right hlen _) (by decide)
    let behind : Nat → UInt8 := fun j => (xs ++ supported).getD j
      (emptyField.getD ((j - (xs ++ supported).length) % 4) 0)
    obtain ⟨json, k, i, hjson, hyes⟩ := hex (xs ++ supported) behind hys
      fun j hj => List.getD_eq_getElem _ _ hj
    obtain ⟨r', hr', hfeed⟩ := feed_supported hr e
    let e' : IperfConnectionState := { e with m_mode := .MODE_UDP, m_reverseMode := true, m_len := 1 }
    have hparse : parse json k i r' e' = some e' := by
      refine parse_emptyFields hr' fun j => ?_
      rw [hjson]
      show (xs ++ supported).getD _ _ = _
      rw [List.getD_eq_default _ _ (Nat.le_add_right _ _), Nat.add_sub_cancel_left]
    rw [feed_append_next hxs, hfeed] at hyes
    have hyes' : exchange p w behind =
      some ((parse json k i r' e').map IperfConnectionState.params) := hyes
    rw [hparse] at hyes'
    exact ⟨_, _, hyes', rfl⟩

end EmbeddedPlatform.Services
