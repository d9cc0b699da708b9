import EmbeddedPlatform.Services.ParamBlob

/-! # Bounds of the parameter parser

`OnRxParamExchange` once more, with its arrays and its 32-bit index, and each
access checked: what it reads of the FIFO has been received, what it writes fits
the arrays, and the strings it hands on are terminated. Without a fault it is what
the model of the server has; and there is no fault unless the length wraps around
and the parser runs off the bytes received. -/
namespace EmbeddedPlatform.Services
open EmbeddedPlatform.Lib

/-! ## Checked accesses -/

inductive BoundsFault where
  | json
  | name
  | value
  | unterminated
  | pop
  | stuck
deriving DecidableEq

/-- A byte of the FIFO. -/
def readByte (fifo : List UInt8) (i : Nat) : Except BoundsFault UInt8 :=
  if h : i < fifo.length then .ok fifo[i] else .error .json

abbrev CharArray := Vector UInt8 32

def writeByte (fault : BoundsFault) (buf : CharArray) (j : UInt32) (x : UInt8) :
    Except BoundsFault CharArray :=
  if h : j.toNat < 32 then .ok (buf.set j.toNat x h) else .error fault

def checkedField (c : IperfConnectionState) (name value : CharArray) :
    Except BoundsFault IperfConnectionState :=
  if name.toList.contains 0 && value.toList.contains 0 then
    .ok (OnJsonConfigField c name.toList value.toList)
  else .error .unterminated

/-- The locals of the parser. -/
structure Scanner where
  jsonState : JsonState
  name : CharArray
  value : CharArray
  j : UInt32

inductive ScanStep where
  | invalid
  | next (q : Scanner) (c : IperfConnectionState)
  | done (q : Scanner) (c : IperfConnectionState)

/-- The round with index `i`. -/
def Scanner.round (fifo : List UInt8) (i : UInt32) (q : Scanner) (c : IperfConnectionState) :
    Except BoundsFault ScanStep :=
  match q.jsonState with
  | .STATE_OPEN_QUOTE =>
    match readByte fifo (4 + i.toNat) with
    | .error e => .error e
    | .ok x =>
      if x != quote then .ok .invalid
      else .ok (.next { q with jsonState := .STATE_NAME, j := 0 } c)
  | .STATE_NAME =>
    if 32 ≤ q.j then .ok .invalid
    else
      match readByte fifo (4 + i.toNat) with
      | .error e => .error e
      | .ok x =>
        if x == quote then
          match writeByte .name q.name q.j 0 with
          | .error e => .error e
          | .ok name => .ok (.next { q with name := name, jsonState := .STATE_COLON } c)
        else
          match writeByte .name q.name q.j x with
          | .error e => .error e
          | .ok name => .ok (.next { q with name := name, j := q.j + 1 } c)
  | .STATE_COLON =>
    match readByte fifo (4 + i.toNat) with
    | .error e => .error e
    | .ok x =>
      if x != colon then .ok .invalid
      else .ok (.next { q with jsonState := .STATE_VALUE, j := 0 } c)
  | .STATE_VALUE =>
    if 32 ≤ q.j then .ok .invalid
    else
      match readByte fifo (4 + i.toNat) with
      | .error e => .error e
      | .ok x =>
        if x == comma || x == closeBrace then
          match writeByte .value q.value q.j 0 with
          | .error e => .error e
          | .ok value =>
            match checkedField c q.name value with
            | .error e => .error e
            | .ok c =>
              let q := { q with value := value, jsonState := .STATE_OPEN_QUOTE }
              if x == closeBrace then .ok (.done q c) else .ok (.next q c)
        else
          match writeByte .value q.value q.j x with
          | .error e => .error e
          | .ok value => .ok (.next { q with value := value, j := q.j + 1 } c)

/-- The loop from index `i`, of at most `k` tests of its condition. At the end of
the message the index is set to `len` before it is counted up. -/
def scan (fifo : List UInt8) (len : UInt32) :
    Nat → UInt32 → Scanner → IperfConnectionState → Except BoundsFault (Option IperfConnectionState)
  | 0, _, _, _ => .error .stuck
  | k + 1, i, q, c =>
    if i < len then
      match q.round fifo i c with
      | .error e => .error e
      | .ok .invalid => .ok none
      | .ok (.next q c) => scan fifo len k (i + 1) q c
      | .ok (.done q c) => scan fifo len k (len + 1) q c
    else .ok (some c)

/-- The little-endian word that the FIFO starts with. -/
def readWord (fifo : List UInt8) : Except BoundsFault UInt32 :=
  match readByte fifo 0, readByte fifo 1, readByte fifo 2, readByte fifo 3 with
  | .ok b₀, .ok b₁, .ok b₂, .ok b₃ =>
    .ok (b₀.toUInt32 ||| b₁.toUInt32 <<< 8 ||| b₂.toUInt32 <<< 16 ||| b₃.toUInt32 <<< 24)
  | _, _, _, _ => .error .json

/-- `OnRxParamExchange`; `name` and `value` are what the arrays hold at first. -/
def Session.checkedParamExchange (socket : TCPTableEntry) (name value : CharArray) (σ : Session) :
    Except BoundsFault (Bool × Session × List Tx) :=
  let fifo := σ.conn.m_rxBuffer.items
  if fifo.length < 6 then .ok (false, σ, [])
  else
    match readWord fifo with
    | .error e => .error e
    | .ok word =>
      let len := bswap32 word
      if fifo.length < (4 + len).toNat then .ok (false, σ, [])
      else
        match readByte fifo 4 with
        | .error e => .error e
        | .ok x =>
          if x != openBrace then .ok (false, σ, [])
          else
            match scan fifo len (len.toNat + 2) 1 ⟨.STATE_OPEN_QUOTE, name, value, 0⟩ σ.conn with
            | .error e => .error e
            | .ok none => .ok (true, σ.DropConnection socket)
            | .ok (some conn) =>
              if fifo.length < (4 + len).toNat then .error .pop
              else
                let σ := ({ σ with conn := conn }.popFifo (4 + len).toNat).setState .CREATE_STREAMS
                let (σ, es) := σ.SendState socket
                if admits σ.conn then .ok (true, σ, es)
                else
                  let (σ, fs) := σ.DropConnection socket
                  .ok (true, σ, es ++ fs)

/-! ## Strings in arrays -/

/-- The array holds the string and its terminator. -/
def Holds (buf : CharArray) (s : List UInt8) : Prop := ∃ rest, buf.toList = s ++ 0 :: rest

theorem Holds.contains {buf : CharArray} {s : List UInt8} (h : Holds buf s) :
    buf.toList.contains 0 = true := by
  obtain ⟨rest, hbuf⟩ := h
  rw [hbuf, List.contains_iff_mem]
  exact List.mem_append_right _ List.mem_cons_self

theorem cstr_append (s rest : List UInt8) : cstr (s ++ 0 :: rest) = cstr s := by
  unfold cstr
  induction s with
  | nil => rfl
  | cons x s ih => rw [List.cons_append, List.takeWhile_cons, List.takeWhile_cons, ih]

theorem takeWhile_isdigit_append (s rest : List UInt8) :
    (s ++ 0 :: rest).takeWhile isdigit = s.takeWhile isdigit := by
  induction s with
  | nil => rfl
  | cons x s ih => rw [List.cons_append, List.takeWhile_cons, List.takeWhile_cons, ih]

theorem dropWhile_isspace_append (s rest : List UInt8) :
    (s ++ 0 :: rest).dropWhile isspace = s.dropWhile isspace ++ 0 :: rest := by
  induction s with
  | nil => rfl
  | cons x s ih =>
    rw [List.cons_append, List.dropWhile_cons, List.dropWhile_cons, ih]
    split <;> rfl

theorem atoi_append (s rest : List UInt8) : atoi (s ++ 0 :: rest) = atoi s := by
  unfold atoi
  rw [dropWhile_isspace_append]
  cases s.dropWhile isspace with
  | nil => rfl
  | cons a t =>
    have hall := takeWhile_isdigit_append (a :: t) rest
    have htail := takeWhile_isdigit_append t rest
    let number (ds : List UInt8) : Nat := ds.foldl (fun v d => 10 * v + (d.toNat - 48)) 0
    rw [List.cons_append] at hall ⊢
    dsimp only
    by_cases hminus : a = 45
    · subst hminus
      exact congrArg (fun ds => - UInt32.ofNat (min (number ds) 2147483648)) htail
    by_cases hplus : a = 43
    · subst hplus
      exact congrArg (fun ds => UInt32.ofNat (min (number ds) 2147483647)) htail
    · split
      · rename_i h
        exact absurd (List.cons.inj h).1 hminus
      · rename_i h
        exact absurd (List.cons.inj h).1 hplus
      · split
        · rename_i h
          exact absurd (List.cons.inj h).1 hminus
        · rename_i h
          exact absurd (List.cons.inj h).1 hplus
        · rw [hall]

/-- A handler of fields does not look behind the terminators. -/
theorem onJsonConfigField_holds {name value : CharArray} {s v : List UInt8} (hname : Holds name s)
    (hvalue : Holds value v) (c : IperfConnectionState) :
    OnJsonConfigField c name.toList value.toList = OnJsonConfigField c s v := by
  obtain ⟨rest, hs⟩ := hname
  obtain ⟨rest', hv⟩ := hvalue
  have hstreq (a : String) : streq name.toList a = streq s a := by
    unfold streq
    rw [hs, cstr_append]
  have hstreq' (a : String) : streq value.toList a = streq v a := by
    unfold streq
    rw [hv, cstr_append]
  have hatoi : atoi value.toList = atoi v := by rw [hv, atoi_append]
  unfold OnJsonConfigField
  simp only [hstreq, hstreq', hatoi]

/-! ## The loop -/

/-- The locals are those of the parser on lists. -/
inductive Reads : Scanner → JsonParser → Prop where
  | openQuote {name value : CharArray} {j : UInt32} (s v : List UInt8) :
    Reads ⟨.STATE_OPEN_QUOTE, name, value, j⟩ ⟨.STATE_OPEN_QUOTE, s, v⟩
  | name {name value : CharArray} {s : List UInt8} (v : List UInt8) : s.length ≤ 32 →
    name.toList.take s.length = s →
    Reads ⟨.STATE_NAME, name, value, .ofNat s.length⟩ ⟨.STATE_NAME, s, v⟩
  | colon {name value : CharArray} {j : UInt32} {s : List UInt8} (v : List UInt8) : Holds name s →
    Reads ⟨.STATE_COLON, name, value, j⟩ ⟨.STATE_COLON, s, v⟩
  | value {name value : CharArray} {s v : List UInt8} : Holds name s → v.length ≤ 32 →
    value.toList.take v.length = v →
    Reads ⟨.STATE_VALUE, name, value, .ofNat v.length⟩ ⟨.STATE_VALUE, s, v⟩

/-- A round comes to the same. -/
inductive ScanStep.Agrees : ScanStep → JsonStep → Prop where
  | invalid : Agrees .invalid .invalid
  | next {q : Scanner} {r : JsonParser} (c : IperfConnectionState) : Reads q r →
    Agrees (.next q c) (.next r c)
  | done {q : Scanner} (c : IperfConnectionState) : q.jsonState = .STATE_OPEN_QUOTE →
    Agrees (.done q c) (.done c)

section
variable {fifo : List UInt8} {i len : UInt32} {q : Scanner} {r : JsonParser}
  {c : IperfConnectionState} {buf : CharArray} {s : List UInt8} {x : UInt8}

theorem ofNat_lt (h : s.length < 32) : (UInt32.ofNat s.length).toNat = s.length :=
  UInt32.toNat_ofNat_of_lt' (Nat.lt_trans h (by decide))

theorem le_ofNat_iff (h : s.length ≤ 32) : (32 : UInt32) ≤ .ofNat s.length ↔ 32 ≤ s.length := by
  rw [UInt32.le_iff_toNat_le, UInt32.toNat_ofNat_of_lt' (Nat.lt_of_le_of_lt h (by decide))]
  exact .rfl

/-- The next byte of a string. -/
theorem writeByte_next (fault : BoundsFault) (h : s.length < 32)
    (hbuf : buf.toList.take s.length = s) (x : UInt8) :
    ∃ buf', writeByte fault buf (.ofNat s.length) x = .ok buf' ∧
      buf'.toList.take (s ++ [x]).length = s ++ [x] := by
  have hj := ofNat_lt h
  refine ⟨_, dif_pos (by rw [hj]; exact h), ?_⟩
  rw [Vector.toList_set, hj, List.length_append, List.length_singleton,
    List.set_eq_take_append_cons_drop, if_pos (by rw [Vector.length_toList]; exact h), hbuf]
  exact List.take_length_add_append 1

/-- Its terminator. -/
theorem writeByte_last (fault : BoundsFault) (h : s.length < 32)
    (hbuf : buf.toList.take s.length = s) :
    ∃ buf', writeByte fault buf (.ofNat s.length) 0 = .ok buf' ∧ Holds buf' s := by
  have hj := ofNat_lt h
  refine ⟨_, dif_pos (by rw [hj]; exact h), ?_⟩
  refine ⟨buf.toList.drop (s.length + 1), ?_⟩
  rw [Vector.toList_set, hj, List.set_eq_take_append_cons_drop,
    if_pos (by rw [Vector.length_toList]; exact h), hbuf]

theorem Reads.name_append {name value : CharArray} (v : List UInt8) (h : s.length < 32)
    (hbuf : name.toList.take (s ++ [x]).length = s ++ [x]) :
    Reads ⟨.STATE_NAME, name, value, .ofNat s.length + 1⟩ ⟨.STATE_NAME, s ++ [x], v⟩ := by
  have hlen : (s ++ [x]).length ≤ 32 := by
    rw [List.length_append, List.length_singleton]
    exact h
  have hnext : Reads ⟨.STATE_NAME, name, value, .ofNat (s ++ [x]).length⟩ _ := .name v hlen hbuf
  rw [List.length_append, List.length_singleton, UInt32.ofNat_add] at hnext
  exact hnext

theorem Reads.value_append {name value : CharArray} {v : List UInt8} (hname : Holds name s)
    (h : v.length < 32) (hbuf : value.toList.take (v ++ [x]).length = v ++ [x]) :
    Reads ⟨.STATE_VALUE, name, value, .ofNat v.length + 1⟩ ⟨.STATE_VALUE, s, v ++ [x]⟩ := by
  have hlen : (v ++ [x]).length ≤ 32 := by
    rw [List.length_append, List.length_singleton]
    exact h
  have hnext := Reads.value hname hlen hbuf
  rw [List.length_append, List.length_singleton, UInt32.ofNat_add] at hnext
  exact hnext

/-- A byte of a name, or its end. -/
theorem round_agrees_name {name : CharArray} (hlen : s.length ≤ 32)
    (hbuf : name.toList.take s.length = s) (hx : readByte fifo (4 + i.toNat) = .ok x)
    (value : CharArray) (v : List UInt8) (c : IperfConnectionState) :
    ∃ step, (⟨.STATE_NAME, name, value, .ofNat s.length⟩ : Scanner).round fifo i c = .ok step ∧
      step.Agrees ((⟨.STATE_NAME, s, v⟩ : JsonParser).round x c) := by
  unfold Scanner.round JsonParser.round
  dsimp only
  rw [hx]
  dsimp only
  simp only [le_ofNat_iff hlen]
  split
  · exact ⟨_, rfl, .invalid⟩
  · rename_i hlt
    have hlt := Nat.lt_of_not_le hlt
    split
    · obtain ⟨buf', hwrite, hholds⟩ := writeByte_last .name hlt hbuf
      rw [hwrite]
      exact ⟨_, rfl, .next c (.colon v hholds)⟩
    · obtain ⟨buf', hwrite, hbuf'⟩ := writeByte_next .name hlt hbuf x
      rw [hwrite]
      exact ⟨_, rfl, .next c (.name_append v hlt hbuf')⟩

/-- A byte of a value, or its end, at which the field is set. -/
theorem round_agrees_value {name value : CharArray} {v : List UInt8} (hholds : Holds name s)
    (hlen : v.length ≤ 32) (hbuf : value.toList.take v.length = v)
    (hx : readByte fifo (4 + i.toNat) = .ok x) (c : IperfConnectionState) :
    ∃ step, (⟨.STATE_VALUE, name, value, .ofNat v.length⟩ : Scanner).round fifo i c = .ok step ∧
      step.Agrees ((⟨.STATE_VALUE, s, v⟩ : JsonParser).round x c) := by
  unfold Scanner.round JsonParser.round
  dsimp only
  rw [hx]
  dsimp only
  simp only [le_ofNat_iff hlen]
  split
  · exact ⟨_, rfl, .invalid⟩
  · rename_i hlt
    have hlt := Nat.lt_of_not_le hlt
    obtain ⟨buf', hwrite, hholds'⟩ := writeByte_last .value hlt hbuf
    obtain ⟨buf'', hwrite', hbuf''⟩ := writeByte_next .value hlt hbuf x
    have hfield : checkedField c name buf' = .ok (OnJsonConfigField c s v) := by
      unfold checkedField
      rw [hholds.contains, hholds'.contains, onJsonConfigField_holds hholds hholds']
      rfl
    rw [hwrite, hwrite']
    dsimp only
    rw [hfield]
    dsimp only
    by_cases hcomma : x = comma
    · subst hcomma
      exact ⟨_, rfl, .next _ (.openQuote s v)⟩
    by_cases hclose : x = closeBrace
    · subst hclose
      exact ⟨_, rfl, .done _ rfl⟩
    · simp only [hcomma, hclose, beq_iff_eq, Bool.or_eq_true, or_self, if_false]
      exact ⟨_, rfl, .next c (.value_append hholds hlt hbuf'')⟩

/-- **A round with a byte that is there.** -/
theorem round_agrees (h : Reads q r) (hx : readByte fifo (4 + i.toNat) = .ok x)
    (c : IperfConnectionState) :
    ∃ step, q.round fifo i c = .ok step ∧ step.Agrees (r.round x c) := by
  cases h with
  | openQuote s v =>
    unfold Scanner.round JsonParser.round
    dsimp only
    rw [hx]
    dsimp only
    split
    · exact ⟨_, rfl, .invalid⟩
    · exact ⟨_, rfl, .next c (.name (s := []) v (Nat.zero_le _) rfl)⟩
  | name v hlen hbuf => exact round_agrees_name hlen hbuf hx _ v c
  | colon v hholds =>
    unfold Scanner.round JsonParser.round
    dsimp only
    rw [hx]
    dsimp only
    split
    · exact ⟨_, rfl, .invalid⟩
    · exact ⟨_, rfl, .next c (.value (v := []) hholds (Nat.zero_le _) rfl)⟩
  | value hholds hlen hbuf => exact round_agrees_value hholds hlen hbuf hx c

/-- A round with a byte that is not. -/
theorem round_missing (h : Reads q r) (hx : readByte fifo (4 + i.toNat) = .error .json)
    (c : IperfConnectionState) :
    q.round fifo i c = if r.looks then .error .json else .ok .invalid := by
  cases h with
  | openQuote s v | colon v hholds =>
    unfold Scanner.round
    dsimp only
    rw [hx]
    rfl
  | @name name value s v hlen hbuf =>
    unfold Scanner.round JsonParser.looks
    dsimp only
    rw [hx]
    simp only [le_ofNat_iff hlen, decide_eq_true_eq]
    split
    · rename_i hle
      rw [if_neg (Nat.not_lt.mpr hle)]
    · rename_i hlt
      rw [if_pos (Nat.lt_of_not_le hlt)]
  | @value name value s v hholds hlen hbuf =>
    unfold Scanner.round JsonParser.looks
    dsimp only
    rw [hx]
    simp only [le_ofNat_iff hlen, decide_eq_true_eq]
    split
    · rename_i hle
      rw [if_neg (Nat.not_lt.mpr hle)]
    · rename_i hlt
      rw [if_pos (Nat.lt_of_not_le hlt)]

theorem readByte_of_lt {k : Nat} (h : k < fifo.length) : readByte fifo k = .ok fifo[k] := dif_pos h

theorem readByte_of_le {k : Nat} (h : fifo.length ≤ k) : readByte fifo k = .error .json :=
  dif_neg (Nat.not_lt.mpr h)

/-- What the loop comes to, from what the bytes received of the text come to. -/
def JsonStep.verdict (len : UInt32) (unread : Bool) :
    JsonStep → Except BoundsFault (Option IperfConnectionState)
  | .invalid => .ok none
  | .done c => .ok (if len = 0xffffffff then none else some c)
  | .next r c => if unread then if r.looks then .error .json else .ok none else .ok (some c)

/-- After the end of the message. -/
theorem scan_done (hbrace : readByte fifo 4 = .ok openBrace) (hq : q.jsonState = .STATE_OPEN_QUOTE)
    (k : Nat) (len : UInt32) (c : IperfConnectionState) :
    scan fifo len (k + 1) (len + 1) q c = .ok (if len = 0xffffffff then none else some c) := by
  unfold scan
  by_cases hlen : len = 0xffffffff
  · subst hlen
    have hround : q.round fifo (0xffffffff + 1) c = .ok .invalid := by
      unfold Scanner.round
      rw [hq]
      show (match readByte fifo 4 with
        | .error e => _
        | .ok x => _ : Except BoundsFault ScanStep) = _
      rw [hbrace]
      rfl
    rw [if_pos (by decide), hround, if_pos rfl]
  · have hne : len.toNat ≠ 4294967295 := fun heq => hlen (UInt32.toNat_inj.mp heq)
    have hlt := len.toNat_lt
    have hnext : (len + 1).toNat = len.toNat + 1 := by
      rw [UInt32.toNat_add]
      exact Nat.mod_eq_of_lt (by simp; omega)
    rw [if_neg (by rw [UInt32.lt_iff_toNat_lt, hnext]; omega), if_neg hlen]

/-- **The loop follows the bytes received.** -/
theorem scan_feed (hbrace : readByte fifo 4 = .ok openBrace) (h : Reads q r) {m k : Nat}
    (hm : len.toNat - i.toNat = m) (hk : m + 2 ≤ k) (c : IperfConnectionState) :
    scan fifo len k i q c = (feed ((fifo.drop (4 + i.toNat)).take m) r c).verdict len
      (decide ((fifo.drop (4 + i.toNat)).length < m)) := by
  induction m generalizing k i q r c with
  | zero =>
    obtain ⟨k, rfl⟩ : ∃ k', k = k' + 1 := ⟨k - 1, by omega⟩
    unfold scan
    rw [if_neg (by rw [UInt32.lt_iff_toNat_lt]; omega)]
    rfl
  | succ m ih =>
    obtain ⟨k, rfl⟩ : ∃ k', k = k' + 2 := ⟨k - 2, by omega⟩
    have hlt : i.toNat < len.toNat := by omega
    unfold scan
    rw [if_pos (by rw [UInt32.lt_iff_toNat_lt]; exact hlt)]
    rcases Nat.lt_or_ge (4 + i.toNat) fifo.length with hin | hout
    · have hread := readByte_of_lt hin
      obtain ⟨step, hround, hagrees⟩ := round_agrees h hread c
      rw [hround, List.drop_eq_getElem_cons hin, List.take_succ_cons, feed]
      generalize r.round fifo[4 + i.toNat] c = js at hagrees
      cases hagrees with
      | invalid => rfl
      | done d hq => exact scan_done hbrace hq k len d
      | next d hreads =>
        have hnext : (i + 1).toNat = i.toNat + 1 := by
          have := len.toNat_lt
          rw [UInt32.toNat_add]
          exact Nat.mod_eq_of_lt (by simp; omega)
        have hih := ih hreads (i := i + 1) (k := k + 1) (by omega) (by omega) d
        rw [hnext, ← Nat.add_assoc] at hih
        rw [List.length_cons]
        simp only [Nat.add_lt_add_iff_right]
        exact hih
    · rw [round_missing h (readByte_of_le hout), List.drop_eq_nil_of_le hout]
      cases hlooks : r.looks with
      | false => exact (congrArg (fun b => if b = true then _ else _) hlooks).symm
      | true => exact (congrArg (fun b => if b = true then _ else _) hlooks).symm

/-! ## The handler -/

theorem readWord_eq (hmin : 6 ≤ fifo.length) :
    ∃ word, readWord fifo = .ok word ∧ bswap32 word = prefixLen fifo := by
  have hat {k : Nat} (hk : k < fifo.length) : window fifo (fun _ => 0) k = fifo[k] :=
    window_of_lt hk
  unfold readWord prefixLen Session.blobLen
  rw [readByte_of_lt (k := 0) (by omega), readByte_of_lt (k := 1) (by omega),
    readByte_of_lt (k := 2) (by omega), readByte_of_lt (k := 3) (by omega),
    hat (k := 0) (by omega), hat (k := 1) (by omega), hat (k := 2) (by omega),
    hat (k := 3) (by omega)]
  exact ⟨_, rfl, rfl⟩

theorem readByte_brace (hw : Complete fifo) : readByte fifo 4 = .ok openBrace := by
  have hlt : 4 < fifo.length := Nat.lt_of_lt_of_le (by decide) hw.min_le
  rw [readByte_of_lt hlt, ← hw.brace, window_of_lt hlt]

/-- The parser's loop, from its start. -/
theorem scan_start (hw : Complete fifo) (name value : CharArray) (c : IperfConnectionState) :
    scan fifo (prefixLen fifo) ((prefixLen fifo).toNat + 2) 1 ⟨.STATE_OPEN_QUOTE, name, value, 0⟩ c =
      (feed ((fifo.drop 5).take ((prefixLen fifo).toNat - 1)) .start c).verdict (prefixLen fifo)
        (decide ((fifo.drop 5).length < (prefixLen fifo).toNat - 1)) :=
  scan_feed (readByte_brace hw) (.openQuote [] []) rfl (by omega) c

theorem scan_of_overruns (h : Overruns fifo) (name value : CharArray) (c : IperfConnectionState) :
    scan fifo (prefixLen fifo) ((prefixLen fifo).toNat + 2) 1 ⟨.STATE_OPEN_QUOTE, name, value, 0⟩ c =
      .error .json := by
  obtain ⟨q, d, hfeed, hlooks⟩ := h.unfinished
  obtain ⟨d', hfeed'⟩ := feed_next hfeed c
  have hlt := h.lt
  have hmin := h.complete.min_le
  have hunread : (fifo.drop 5).length < (prefixLen fifo).toNat - 1 := by
    rw [List.length_drop]
    omega
  rw [scan_start h.complete, List.take_of_length_le (Nat.le_of_lt hunread), hfeed',
    decide_eq_true hunread]
  exact if_pos hlooks

theorem scan_of_not_overruns (hw : Complete fifo) (h : ¬ Overruns fifo) (name value : CharArray)
    (behind : Nat → UInt8) (c : IperfConnectionState) :
    scan fifo (prefixLen fifo) ((prefixLen fifo).toNat + 2) 1 ⟨.STATE_OPEN_QUOTE, name, value, 0⟩ c =
      .ok (parse (fun i => window fifo behind (4 + i)) ((prefixLen fifo).toNat - 1) 1 .start c) := by
  let m := (prefixLen fifo).toNat - 1
  let xs := (fifo.drop 5).take m
  have hxs : ∀ j (hj : j < xs.length), window fifo behind (4 + (1 + j)) = xs[j] := by
    intro j hj
    have hj' : j < (fifo.drop 5).length := Nat.lt_of_lt_of_le hj (List.length_take_le' _ _)
    rw [window_text hj', List.getElem_take]
  have hlen : xs.length = min m (fifo.drop 5).length := List.length_take
  have hrest : xs.length + (m - xs.length) = m := by omega
  have hparse := parse_feed (f := fun i => window fifo behind (4 + i)) hxs (m - xs.length) .start c
  rw [hrest] at hparse
  rw [scan_start hw, hparse]
  show (feed xs .start c).verdict _ _ = .ok ((feed xs .start c).resume _ _ _)
  cases hfeed : feed xs .start c with
  | invalid => rfl
  | done d =>
    have hm : 0 < m := by
      refine Nat.pos_of_ne_zero fun hzero => ?_
      have hnil : xs = [] := List.take_eq_nil_iff.mpr (.inl hzero)
      rw [hnil] at hfeed
      cases hfeed
    have hsum : 1 + xs.length + (m - xs.length) = (prefixLen fifo).toNat := by omega
    have hiff : 1 + xs.length + (m - xs.length) = 0xffffffff ↔ prefixLen fifo = 0xffffffff := by
      rw [hsum]
      exact UInt32.toNat_inj (b := 0xffffffff)
    unfold JsonStep.verdict JsonStep.resume
    simp only [hiff]
  | next q d =>
    unfold JsonStep.verdict JsonStep.resume
    by_cases hunread : (fifo.drop 5).length < m
    · have hall : xs = fifo.drop 5 := List.take_of_length_le (Nat.le_of_lt hunread)
      obtain ⟨k, hk⟩ : ∃ k, m - xs.length = k + 1 := ⟨m - xs.length - 1, by rw [hall]; omega⟩
      have hlooks : q.looks = false := by
        refine Bool.eq_false_iff.mpr fun hlooks => h ⟨hw, ?_, ?_⟩
        · rw [List.length_drop] at hunread
          omega
        · rw [hall] at hfeed
          obtain ⟨d', hfeed'⟩ := feed_next hfeed .Clear
          exact ⟨q, d', hfeed', hlooks⟩
      rw [decide_eq_true hunread, hk]
      dsimp only [parse]
      rw [round_of_not_looks hlooks, hlooks]
      rfl
    · have hzero : m - xs.length = 0 := by omega
      rw [decide_eq_false hunread, hzero]
      rfl

end

namespace Session

variable {socket : TCPTableEntry} {σ : Session} {name value : CharArray}

/-- A blob that has not come, or is no object, is left alone. -/
theorem checkedParamExchange_of_not_complete (h : ¬ Complete σ.conn.m_rxBuffer.items) :
    σ.checkedParamExchange socket name value = .ok (false, σ, []) := by
  unfold checkedParamExchange
  dsimp only
  split
  · rfl
  rename_i hmin
  have hmin := Nat.le_of_not_lt hmin
  obtain ⟨word, hword, hlen⟩ := readWord_eq hmin
  have hlt : 4 < σ.conn.m_rxBuffer.items.length := Nat.lt_of_lt_of_le (by decide) hmin
  rw [hword]
  dsimp only
  rw [hlen]
  split
  · rfl
  rename_i hle
  rw [readByte_of_lt hlt]
  dsimp only
  split
  · rfl
  rename_i hbrace
  refine absurd ⟨hmin, Nat.le_of_not_lt hle, ?_⟩ h
  rw [window_of_lt hlt]
  simpa using hbrace

/-- Otherwise it is parsed. -/
theorem checkedParamExchange_of_overruns (h : Overruns σ.conn.m_rxBuffer.items) :
    σ.checkedParamExchange socket name value = .error .json := by
  obtain ⟨word, hword, hlen⟩ := readWord_eq h.complete.min_le
  unfold checkedParamExchange
  dsimp only
  rw [if_neg (Nat.not_lt.mpr h.complete.min_le), hword]
  dsimp only
  rw [hlen, if_neg (Nat.not_lt.mpr h.complete.len_le), readByte_brace h.complete]
  dsimp only
  rw [if_neg (by simp), scan_of_overruns h]

/-- **Without a fault the checks do not show.** -/
theorem checkedParamExchange_of_not_overruns (h : ¬ Overruns σ.conn.m_rxBuffer.items)
    (behind : Nat → UInt8) :
    σ.checkedParamExchange socket name value = .ok (σ.OnRxParamExchange socket behind) := by
  have hw : σ.Rewind behind = window σ.conn.m_rxBuffer.items behind := rfl
  by_cases hcomplete : Complete σ.conn.m_rxBuffer.items
  · obtain ⟨word, hword, hlen⟩ := readWord_eq hcomplete.min_le
    have hannounced := blobLen_window hcomplete.min_le behind []
    have hbrace := window_append (w := σ.conn.m_rxBuffer.items)
      (Nat.lt_of_lt_of_le (by decide : 4 < 6) hcomplete.min_le) [] (fun _ => 0) behind
    rw [List.append_nil] at hannounced hbrace
    unfold checkedParamExchange OnRxParamExchange
    rw [hw]
    dsimp only
    rw [hannounced, hbrace, hcomplete.brace, hword]
    dsimp only
    rw [hlen, readByte_brace hcomplete]
    dsimp only
    rw [scan_of_not_overruns hcomplete h name value behind]
    have hmin := Nat.not_lt.mpr hcomplete.min_le
    have hle := Nat.not_lt.mpr hcomplete.len_le
    simp only [if_neg hmin, if_neg hle]
    rw [if_neg (by simp), if_neg (by simp)]
    generalize parse _ _ _ _ _ = result
    cases result with
    | none => rfl
    | some conn =>
      dsimp only
      split <;> rfl
  · rw [checkedParamExchange_of_not_complete hcomplete]
    unfold OnRxParamExchange
    rw [hw]
    dsimp only
    split
    · rfl
    rename_i hmin
    have hmin := Nat.le_of_not_lt hmin
    have hannounced := blobLen_window hmin behind []
    have hbrace := window_append (w := σ.conn.m_rxBuffer.items)
      (Nat.lt_of_lt_of_le (by decide : 4 < 6) hmin) [] (fun _ => 0) behind
    rw [List.append_nil] at hannounced hbrace
    rw [hannounced, hbrace]
    split
    · rfl
    rename_i hle
    split
    · rfl
    rename_i hopen
    exact absurd ⟨hmin, Nat.le_of_not_lt hle, by simpa using hopen⟩ hcomplete

/-- Every access of the handler is in bounds, whatever the arrays hold at first. -/
def InBounds (σ : Session) : Prop :=
  ∀ socket name value, ∃ r, σ.checkedParamExchange socket name value = .ok r

/-- **The parser stays in bounds** exactly unless it runs off the bytes received. -/
theorem inBounds_iff (σ : Session) : σ.InBounds ↔ ¬ Overruns σ.conn.m_rxBuffer.items := by
  constructor
  · intro h hover
    obtain ⟨r, hr⟩ := h ⟨0, 0⟩ (Vector.replicate 32 0) (Vector.replicate 32 0)
    cases (checkedParamExchange_of_overruns hover).symm.trans hr
  · intro h socket name value
    exact ⟨_, checkedParamExchange_of_not_overruns h fun _ => 0⟩

/-- The greatest length there is, and two bytes. -/
def endless : Session where
  conn := { IperfConnectionState.Clear.bind ⟨0, 0⟩ with
    m_state := .PARAM_EXCHANGE
    m_rxBuffer := ⟨[0xff, 0xff, 0xff, 0xff, openBrace, quote], by decide⟩ }
  stack := ⟨fun _ => true, fun _ => true⟩
  ret := true

theorem endless_out_of_bounds : ¬ endless.InBounds := by
  have hover : Overruns endless.conn.m_rxBuffer.items :=
    ⟨⟨by decide, by decide, by decide⟩, by decide, _, _, rfl, rfl⟩
  intro h
  obtain ⟨r, hr⟩ := h ⟨0, 0⟩ (Vector.replicate 32 0) (Vector.replicate 32 0)
  cases (checkedParamExchange_of_overruns hover).symm.trans hr

end Session

end EmbeddedPlatform.Services
