import EmbeddedPlatform.Services.Notification
import EmbeddedPlatform.Services.ParserBounds

/-! # The grammar of the parameter blob

The scanner accepts an object of fields and takes the last value of each. It also
accepts a blob that ends before its object does, and what is no object at all it
does not always refuse. -/
namespace EmbeddedPlatform.Services
open EmbeddedPlatform.Lib

/-! ## Objects -/

/-- The name and the value of a field. -/
abbrev JsonField := List UInt8 × List UInt8

structure JsonField.Valid (f : JsonField) : Prop where
  name_le : f.1.length ≤ 31
  quote_free : quote ∉ f.1
  value_le : f.2.length ≤ 31
  comma_free : comma ∉ f.2
  brace_free : closeBrace ∉ f.2

def JsonField.text (f : JsonField) : List UInt8 := quote :: f.1 ++ quote :: colon :: f.2

/-- What follows the opening brace of an object. -/
inductive ObjectBody : List UInt8 → List JsonField → Prop where
  | last {f : JsonField} : f.Valid → ObjectBody (f.text ++ [closeBrace]) [f]
  | more {f : JsonField} {body : List UInt8} {fields : List JsonField} : f.Valid →
    ObjectBody body fields → ObjectBody (f.text ++ comma :: body) (f :: fields)

/-- What follows the opening brace of an object that is not closed. A name or a
value may be a byte too long that nothing follows. -/
inductive ObjectPart : List UInt8 → Prop where
  | start : ObjectPart []
  | name {name : List UInt8} : quote ∉ name → name.length ≤ 32 → ObjectPart (quote :: name)
  | colon {name : List UInt8} : quote ∉ name → name.length ≤ 31 →
    ObjectPart (quote :: (name ++ [quote]))
  | value {name value : List UInt8} : quote ∉ name → name.length ≤ 31 → comma ∉ value →
    closeBrace ∉ value → value.length ≤ 32 →
    ObjectPart (quote :: (name ++ quote :: colon :: value))
  | more {f : JsonField} {body : List UInt8} : f.Valid → ObjectPart body →
    ObjectPart (f.text ++ comma :: body)

theorem ne_nil_of_not_part {text : List UInt8} (h : ¬ ObjectPart text) : text ≠ [] :=
  fun hnil => h (hnil ▸ .start)

/-- The blob starts with an object of these fields. -/
def StartsWith (blob : List UInt8) (fields : List JsonField) : Prop :=
  ∃ body rest, ObjectBody body fields ∧ blob = openBrace :: body ++ rest

theorem closeBrace_mem {body : List UInt8} {fields : List JsonField} (h : ObjectBody body fields) :
    closeBrace ∈ body := by
  induction h with
  | last _ => exact List.mem_append_right _ (List.mem_singleton_self _)
  | more _ _ ih => exact List.mem_append_right _ (List.mem_cons_of_mem _ ih)

theorem StartsWith.closed {blob : List UInt8} {fields : List JsonField}
    (h : StartsWith blob fields) : closeBrace ∈ blob := by
  obtain ⟨body, rest, hbody, rfl⟩ := h
  exact List.mem_append_left _ (List.mem_cons_of_mem _ (closeBrace_mem hbody))

/-- The fields in turn. -/
def setFields (c : IperfConnectionState) (fields : List JsonField) : IperfConnectionState :=
  fields.foldl (fun c f => OnJsonConfigField c f.1 f.2) c

/-! ## The scanner and the grammar -/

section
variable {xs name value rest : List UInt8} {c d : IperfConnectionState} {s v : List UInt8}
  {q : JsonParser}

theorem feed_cons (x : UInt8) (xs : List UInt8) (q : JsonParser) (c : IperfConnectionState) :
    feed (x :: xs) q c =
      match q.round x c with
      | .invalid => .invalid
      | .next q c => feed xs q c
      | .done c => .done c := rfl

theorem feed_name_cons {x : UInt8} (hlen : s.length < 32) (hx : x ≠ quote) :
    feed (x :: xs) ⟨.STATE_NAME, s, v⟩ c = feed xs ⟨.STATE_NAME, s ++ [x], v⟩ c := by
  simp [feed_cons, JsonParser.round, Nat.not_le.mpr hlen, hx]

theorem feed_name_quote (hlen : s.length < 32) :
    feed (quote :: xs) ⟨.STATE_NAME, s, v⟩ c = feed xs ⟨.STATE_COLON, s, v⟩ c := by
  simp [feed_cons, JsonParser.round, Nat.not_le.mpr hlen]

theorem feed_name_long {x : UInt8} (hlen : ¬ s.length < 32) :
    feed (x :: xs) ⟨.STATE_NAME, s, v⟩ c = .invalid := by
  simp [feed_cons, JsonParser.round, Nat.le_of_not_lt hlen]

theorem feed_value_cons {x : UInt8} (hlen : v.length < 32) (hcomma : x ≠ comma)
    (hbrace : x ≠ closeBrace) :
    feed (x :: xs) ⟨.STATE_VALUE, s, v⟩ c = feed xs ⟨.STATE_VALUE, s, v ++ [x]⟩ c := by
  simp [feed_cons, JsonParser.round, Nat.not_le.mpr hlen, hcomma, hbrace]

theorem feed_value_comma (hlen : v.length < 32) :
    feed (comma :: xs) ⟨.STATE_VALUE, s, v⟩ c =
      feed xs ⟨.STATE_OPEN_QUOTE, s, v⟩ (OnJsonConfigField c s v) := by
  simp [feed_cons, JsonParser.round, Nat.not_le.mpr hlen]

theorem feed_value_brace (hlen : v.length < 32) :
    feed (closeBrace :: xs) ⟨.STATE_VALUE, s, v⟩ c = .done (OnJsonConfigField c s v) := by
  simp [feed_cons, JsonParser.round, Nat.not_le.mpr hlen, closeBrace, comma]

theorem feed_value_long {x : UInt8} (hlen : ¬ v.length < 32) :
    feed (x :: xs) ⟨.STATE_VALUE, s, v⟩ c = .invalid := by
  simp [feed_cons, JsonParser.round, Nat.le_of_not_lt hlen]

/-! ### Fields are read -/

theorem feed_name_append (hquote : quote ∉ name) (hlen : (s ++ name).length ≤ 32) :
    feed (name ++ xs) ⟨.STATE_NAME, s, v⟩ c = feed xs ⟨.STATE_NAME, s ++ name, v⟩ c := by
  induction name generalizing s with
  | nil => rw [List.append_nil, List.nil_append]
  | cons x name ih =>
    have hx : x ≠ quote := fun h => hquote (h ▸ List.mem_cons_self)
    have hs : s.length < 32 := by
      rw [List.length_append] at hlen
      exact Nat.lt_of_lt_of_le (Nat.lt_add_of_pos_right (Nat.zero_lt_succ _)) hlen
    rw [List.append_cons s x name] at hlen ⊢
    rw [List.cons_append, feed_name_cons hs hx,
      ih (fun h => hquote (List.mem_cons_of_mem _ h)) hlen]

theorem feed_value_append (hcomma : comma ∉ value) (hbrace : closeBrace ∉ value)
    (hlen : (v ++ value).length ≤ 32) :
    feed (value ++ xs) ⟨.STATE_VALUE, s, v⟩ c = feed xs ⟨.STATE_VALUE, s, v ++ value⟩ c := by
  induction value generalizing v with
  | nil => rw [List.append_nil, List.nil_append]
  | cons x value ih =>
    have hv : v.length < 32 := by
      rw [List.length_append] at hlen
      exact Nat.lt_of_lt_of_le (Nat.lt_add_of_pos_right (Nat.zero_lt_succ _)) hlen
    rw [List.append_cons v x value] at hlen ⊢
    rw [List.cons_append, feed_value_cons hv (fun h => hcomma (h ▸ List.mem_cons_self))
      (fun h => hbrace (h ▸ List.mem_cons_self)),
      ih (fun h => hcomma (List.mem_cons_of_mem _ h))
        (fun h => hbrace (List.mem_cons_of_mem _ h)) hlen]

theorem feed_open (hq : q.jsonState = .STATE_OPEN_QUOTE) :
    feed (quote :: xs) q c = feed xs ⟨.STATE_NAME, [], q.value⟩ c := by
  obtain ⟨state, s, v⟩ := q
  cases hq
  rfl

theorem feed_name (hquote : quote ∉ name) (hlen : name.length ≤ 31) :
    feed (name ++ quote :: xs) ⟨.STATE_NAME, [], v⟩ c = feed xs ⟨.STATE_COLON, name, v⟩ c := by
  rw [feed_name_append (s := []) hquote (Nat.le_succ_of_le hlen)]
  exact feed_name_quote (Nat.lt_succ_of_le hlen)

theorem feed_value (hcomma : comma ∉ value) (hbrace : closeBrace ∉ value)
    (hlen : value.length ≤ 32) :
    feed (colon :: (value ++ xs)) ⟨.STATE_COLON, s, v⟩ c = feed xs ⟨.STATE_VALUE, s, value⟩ c :=
  feed_value_append (v := []) hcomma hbrace hlen

/-- A field, up to what ends it. -/
theorem feed_field {f : JsonField} (hf : f.Valid) (hq : q.jsonState = .STATE_OPEN_QUOTE)
    (xs : List UInt8) (c : IperfConnectionState) :
    feed (f.text ++ xs) q c = feed xs ⟨.STATE_VALUE, f.1, f.2⟩ c := by
  have htext : f.text ++ xs = quote :: (f.1 ++ quote :: colon :: (f.2 ++ xs)) := by
    simp [JsonField.text]
  rw [htext, feed_open hq, feed_name hf.quote_free hf.name_le,
    feed_value hf.comma_free hf.brace_free (Nat.le_succ_of_le hf.value_le)]

/-- **An object is accepted**, and its fields are set in turn. -/
theorem feed_complete {body : List UInt8} {fields : List JsonField} (h : ObjectBody body fields)
    (hq : q.jsonState = .STATE_OPEN_QUOTE) (rest : List UInt8) (c : IperfConnectionState) :
    feed (body ++ rest) q c = .done (setFields c fields) := by
  induction h generalizing q c with
  | @last f hf =>
    rw [List.append_assoc, feed_field hf hq]
    exact feed_value_brace (Nat.lt_succ_of_le hf.value_le)
  | @more f body fields hf _ ih =>
    rw [List.append_assoc, feed_field hf hq, List.cons_append,
      feed_value_comma (Nat.lt_succ_of_le hf.value_le)]
    exact ih rfl _

/-! ### Nothing else is -/

/-- A name, as far as the text goes. -/
theorem feed_name_cases (xs v : List UInt8) (hs : s.length ≤ 32) (c : IperfConnectionState) :
    feed xs ⟨.STATE_NAME, s, v⟩ c = .invalid ∨
    (quote ∉ xs ∧ (s ++ xs).length ≤ 32 ∧
      feed xs ⟨.STATE_NAME, s, v⟩ c = .next ⟨.STATE_NAME, s ++ xs, v⟩ c) ∨
    ∃ name ys, xs = name ++ quote :: ys ∧ quote ∉ name ∧ (s ++ name).length < 32 ∧
      feed xs ⟨.STATE_NAME, s, v⟩ c = feed ys ⟨.STATE_COLON, s ++ name, v⟩ c := by
  induction xs generalizing s with
  | nil =>
    rw [List.append_nil]
    exact .inr (.inl ⟨List.not_mem_nil, hs, rfl⟩)
  | cons x xs ih =>
    by_cases hlen : s.length < 32
    · by_cases hx : x = quote
      · subst hx
        refine .inr (.inr ⟨[], xs, rfl, List.not_mem_nil, ?_⟩)
        rw [List.append_nil]
        exact ⟨hlen, feed_name_quote hlen⟩
      · have hlong : (s ++ [x]).length ≤ 32 := by
          rw [List.length_append]
          exact hlen
        have hne {ys : List UInt8} (h : quote ∉ ys) : quote ∉ x :: ys :=
          fun hm => (List.mem_cons.mp hm).elim (fun hx' => hx hx'.symm) h
        rw [feed_name_cons hlen hx]
        rcases ih hlong with hbad | ⟨hquote, hle, hnext⟩ | ⟨name, ys, rfl, hquote, hlt, hrest⟩
        · exact .inl hbad
        · rw [← List.append_cons] at hle hnext
          exact .inr (.inl ⟨hne hquote, hle, hnext⟩)
        · rw [← List.append_cons] at hlt hrest
          exact .inr (.inr ⟨x :: name, ys, rfl, hne hquote, hlt, hrest⟩)
    · exact .inl (feed_name_long hlen)

/-- A value, as far as the text goes. -/
theorem feed_value_cases (xs s : List UInt8) (hv : v.length ≤ 32) (c : IperfConnectionState) :
    feed xs ⟨.STATE_VALUE, s, v⟩ c = .invalid ∨
    (comma ∉ xs ∧ closeBrace ∉ xs ∧ (v ++ xs).length ≤ 32 ∧
      feed xs ⟨.STATE_VALUE, s, v⟩ c = .next ⟨.STATE_VALUE, s, v ++ xs⟩ c) ∨
    ∃ value x ys, xs = value ++ x :: ys ∧ comma ∉ value ∧ closeBrace ∉ value ∧
      (v ++ value).length < 32 ∧
      ((x = closeBrace ∧ feed xs ⟨.STATE_VALUE, s, v⟩ c =
          .done (OnJsonConfigField c s (v ++ value))) ∨
        (x = comma ∧ feed xs ⟨.STATE_VALUE, s, v⟩ c =
          feed ys ⟨.STATE_OPEN_QUOTE, s, v ++ value⟩ (OnJsonConfigField c s (v ++ value)))) := by
  induction xs generalizing v with
  | nil =>
    rw [List.append_nil]
    exact .inr (.inl ⟨List.not_mem_nil, List.not_mem_nil, hv, rfl⟩)
  | cons x xs ih =>
    by_cases hlen : v.length < 32
    · by_cases hcomma : x = comma
      · subst hcomma
        refine .inr (.inr ⟨[], comma, xs, rfl, List.not_mem_nil, List.not_mem_nil, ?_⟩)
        rw [List.append_nil]
        exact ⟨hlen, .inr ⟨rfl, feed_value_comma hlen⟩⟩
      by_cases hbrace : x = closeBrace
      · subst hbrace
        refine .inr (.inr ⟨[], closeBrace, xs, rfl, List.not_mem_nil, List.not_mem_nil, ?_⟩)
        rw [List.append_nil]
        exact ⟨hlen, .inl ⟨rfl, feed_value_brace hlen⟩⟩
      · have hlong : (v ++ [x]).length ≤ 32 := by
          rw [List.length_append]
          exact hlen
        have hne {y : UInt8} {ys : List UInt8} (hy : x ≠ y) (h : y ∉ ys) : y ∉ x :: ys :=
          fun hm => (List.mem_cons.mp hm).elim (fun hx => hy hx.symm) h
        rw [feed_value_cons hlen hcomma hbrace]
        rcases ih hlong with hbad | ⟨hc, hb, hle, hnext⟩ | ⟨value, y, ys, rfl, hc, hb, hlt, hend⟩
        · exact .inl hbad
        · rw [← List.append_cons] at hle hnext
          exact .inr (.inl ⟨hne hcomma hc, hne hbrace hb, hle, hnext⟩)
        · rw [← List.append_cons] at hlt hend
          exact .inr (.inr ⟨x :: value, y, ys, rfl, hne hcomma hc, hne hbrace hb, hlt, hend⟩)
    · exact .inl (feed_value_long hlen)

/-- **Every text** is found invalid, or is a part of an object, or starts with one. -/
theorem feed_cases (hq : q.jsonState = .STATE_OPEN_QUOTE) (xs : List UInt8)
    (c : IperfConnectionState) :
    feed xs q c = .invalid ∨
    (ObjectPart xs ∧ ∃ r d, feed xs q c = .next r d) ∨
    ∃ body rest fields, ObjectBody body fields ∧ xs = body ++ rest ∧
      feed xs q c = .done (setFields c fields) := by
  induction hn : xs.length using Nat.strongRecOn generalizing xs q c with
  | _ n ih =>
    cases xs with
    | nil => exact .inr (.inl ⟨.start, _, _, rfl⟩)
    | cons x xs =>
      by_cases hx : x = quote
      · subst hx
        rw [feed_open hq]
        rcases feed_name_cases (s := []) xs q.value (Nat.zero_le 32) c with
          hbad | ⟨hquote, hle, hnext⟩ | ⟨name, ys, rfl, hquote, hname, hys⟩
        · exact .inl hbad
        · exact .inr (.inl ⟨.name hquote hle, _, _, hnext⟩)
        rw [hys]
        cases ys with
        | nil => exact .inr (.inl ⟨.colon hquote (Nat.le_of_lt_succ hname), _, _, rfl⟩)
        | cons y ys =>
          by_cases hy : y = colon
          · subst hy
            have hcolon : feed (colon :: ys) ⟨.STATE_COLON, [] ++ name, q.value⟩ c =
              feed ys ⟨.STATE_VALUE, name, []⟩ c := rfl
            rw [hcolon]
            rcases feed_value_cases (v := []) ys name (Nat.zero_le 32) c with
              hbad | ⟨hcomma, hbrace, hle, hnext⟩ | ⟨value, z, zs, rfl, hcomma, hbrace, hvalue, hend⟩
            · exact .inl hbad
            · exact .inr (.inl ⟨.value hquote (Nat.le_of_lt_succ hname) hcomma hbrace hle, _, _,
                hnext⟩)
            have hf : JsonField.Valid (name, value) :=
              ⟨Nat.le_of_lt_succ hname, hquote, Nat.le_of_lt_succ hvalue, hcomma, hbrace⟩
            rcases hend with ⟨rfl, hdone⟩ | ⟨rfl, hzs⟩
            · refine .inr (.inr ⟨_, zs, _, .last hf, ?_, hdone⟩)
              simp [JsonField.text]
            rw [hzs]
            -- the fields that are left
            have hlt : zs.length < n := by
              rw [← hn]
              simp only [List.length_cons, List.length_append]
              omega
            rcases ih zs.length hlt (q := ⟨.STATE_OPEN_QUOTE, name, [] ++ value⟩) rfl zs
                (OnJsonConfigField c name ([] ++ value)) rfl with
              hbad | ⟨hpart, r, d, hnext⟩ | ⟨body, rest, fields, hbody, rfl, hdone⟩
            · exact .inl hbad
            · have htext : quote :: (name ++ quote :: colon :: (value ++ comma :: zs)) =
                  JsonField.text (name, value) ++ comma :: zs := by simp [JsonField.text]
              rw [htext]
              exact .inr (.inl ⟨.more hf hpart, r, d, hnext⟩)
            · refine .inr (.inr ⟨_, rest, _, .more hf hbody, ?_, hdone⟩)
              simp [JsonField.text]
          · left
            simp [feed_cons, JsonParser.round, hy]
      · left
        simp [feed_cons, JsonParser.round, hq, hx]

/-- A part of an object is left unfinished. -/
theorem feed_part (h : ObjectPart xs) (hq : q.jsonState = .STATE_OPEN_QUOTE)
    (c : IperfConnectionState) : ∃ r d, feed xs q c = .next r d := by
  induction h generalizing q c with
  | start => exact ⟨q, c, rfl⟩
  | @name name hquote hle =>
    have hname : feed (name ++ []) ⟨.STATE_NAME, [], q.value⟩ c =
      feed [] ⟨.STATE_NAME, name, q.value⟩ c := feed_name_append (s := []) hquote hle
    rw [List.append_nil] at hname
    rw [feed_open hq, hname]
    exact ⟨_, _, rfl⟩
  | colon hquote hle =>
    rw [feed_open hq, feed_name hquote hle]
    exact ⟨_, _, rfl⟩
  | @value name value hquote hle hcomma hbrace hle' =>
    have hvalue : feed (colon :: (value ++ [])) ⟨.STATE_COLON, name, q.value⟩ c =
      feed [] ⟨.STATE_VALUE, name, value⟩ c := feed_value hcomma hbrace hle'
    rw [List.append_nil] at hvalue
    rw [feed_open hq, feed_name hquote hle, hvalue]
    exact ⟨_, _, rfl⟩
  | @more f body hf _ ih =>
    rw [feed_field hf hq, feed_value_comma (Nat.lt_succ_of_le hf.value_le)]
    exact ih rfl _

end

/-! ## The values given -/

def readBool (value : List UInt8) : Option Bool :=
  if streq value "true" then some true else if streq value "false" then some false else none

def readMode (value : List UInt8) : Option IperfMode :=
  (readBool value).map fun udp => if udp then .MODE_UDP else .MODE_TCP

/-- What a field gives for a name. -/
def JsonField.gives {α : Type} (f : JsonField) (name : String) (read : List UInt8 → Option α) :
    Option α := if streq f.1 name then read f.2 else none

/-- The last value given for a name; one that cannot be read is not given. -/
def given {α : Type} (name : String) (read : List UInt8 → Option α) (fields : List JsonField) :
    Option α := (fields.filterMap fun f => f.gives name read).getLast?

/-- The parameters that fields give, with those they do not mention from `p`. -/
def Params.with (p : Params) (fields : List JsonField) : Params where
  mode := (given "udp" readMode fields).getD p.mode
  time := (given "time" (some ∘ atoi) fields).getD p.time
  bandwidth := (given "bandwidth" (some ∘ atoi) fields).getD p.bandwidth
  len := (given "len" (some ∘ atoi) fields).getD p.len
  reverseMode := (given "reverse" readBool fields).getD p.reverseMode

theorem given_cons {α : Type} (name : String) (read : List UInt8 → Option α) (f : JsonField)
    (fields : List JsonField) (a : α) : (given name read (f :: fields)).getD a =
      (given name read fields).getD ((f.gives name read).getD a) := by
  unfold given
  rw [List.filterMap_cons]
  cases f.gives name read with
  | none => rfl
  | some b =>
    dsimp only
    rw [List.getLast?_cons]
    cases (fields.filterMap fun f => f.gives name read).getLast? <;> rfl

theorem streq_false {n : List UInt8} {a b : String} (h : streq n a = true) (hne : text a ≠ text b) :
    streq n b = false := by
  unfold streq at h ⊢
  rw [beq_iff_eq.mp h]
  exact beq_eq_false_iff_ne.mpr hne

/-- A field sets what it gives. -/
theorem onJsonConfigField_params (c : IperfConnectionState) (f : JsonField) :
    (OnJsonConfigField c f.1 f.2).params = c.params.with [f] := by
  have hone {α : Type} (name : String) (read : List UInt8 → Option α) (a : α) :
      (given name read [f]).getD a = (f.gives name read).getD a := given_cons name read f [] a
  unfold Params.with
  simp only [hone]
  unfold OnJsonConfigField JsonField.gives readMode readBool IperfConnectionState.params
  have hne {a b : String} (h : streq f.1 a = true) (hab : text a ≠ text b) :
      streq f.1 b = false := streq_false h hab
  by_cases hudp : streq f.1 "udp" = true
  · rw [hne hudp (b := "time") (by decide), hne hudp (b := "bandwidth") (by decide),
      hne hudp (b := "len") (by decide), hne hudp (b := "reverse") (by decide)]
    simp only [hudp, if_true, Bool.false_eq_true, if_false]
    split_ifs <;> rfl
  by_cases hreverse : streq f.1 "reverse" = true
  · rw [hne hreverse (b := "time") (by decide), hne hreverse (b := "bandwidth") (by decide),
      hne hreverse (b := "len") (by decide)]
    simp only [hreverse, hudp, if_true, Bool.false_eq_true, if_false]
    split_ifs <;> rfl
  by_cases homit : streq f.1 "omit" = true
  · rw [hne homit (b := "time") (by decide), hne homit (b := "bandwidth") (by decide),
      hne homit (b := "len") (by decide)]
    simp only [hreverse, hudp, homit, if_true, Bool.false_eq_true, if_false]
    rfl
  by_cases htime : streq f.1 "time" = true
  · rw [hne htime (b := "bandwidth") (by decide), hne htime (b := "len") (by decide)]
    simp only [hreverse, hudp, homit, htime, if_true, Bool.false_eq_true, if_false]
    rfl
  by_cases hparallel : streq f.1 "parallel" = true
  · rw [hne hparallel (b := "bandwidth") (by decide), hne hparallel (b := "len") (by decide)]
    simp only [hreverse, hudp, homit, htime, hparallel, if_true, Bool.false_eq_true, if_false]
    rfl
  by_cases hlen : streq f.1 "len" = true
  · rw [hne hlen (b := "bandwidth") (by decide)]
    simp only [hreverse, hudp, homit, htime, hparallel, hlen, if_true, Bool.false_eq_true, if_false]
    rfl
  · simp only [hreverse, hudp, homit, htime, hparallel, hlen, Bool.false_eq_true, if_false]
    split_ifs <;> rfl

theorem setFields_params (c : IperfConnectionState) (fields : List JsonField) :
    (setFields c fields).params = c.params.with fields := by
  induction fields generalizing c with
  | nil => rfl
  | cons f fields ih =>
    show (setFields (OnJsonConfigField c f.1 f.2) fields).params = _
    rw [ih, onJsonConfigField_params]
    unfold Params.with
    simp only [given_cons]
    rfl

/-! ## The blob -/

/-- What has come of the bytes announced. -/
def declared (w : List UInt8) : List UInt8 := (w.drop 4).take (prefixLen w).toNat

/-- All of them have. -/
def Received (w : List UInt8) : Prop := 4 ≤ w.length ∧ 4 + (prefixLen w).toNat ≤ w.length

/-- What the scanner has of the text after its first byte. -/
def scanned (w : List UInt8) : List UInt8 := (w.drop 5).take ((prefixLen w).toNat - 1)

/-- The text starts with a brace, and if it is not an object then for what it has,
not for what it lacks. -/
def Definite (w : List UInt8) : Prop :=
  ∃ text, declared w = openBrace :: text ∧ ¬ ObjectPart text

section
variable {w : List UInt8} {fields : List JsonField} {p r : Params} {behind : Nat → UInt8}

theorem declared_cons (hmin : 6 ≤ w.length) (hlen : 0 < (prefixLen w).toNat) :
    declared w = window w (fun _ => 0) 4 :: scanned w := by
  have hlt : 4 < w.length := Nat.lt_of_lt_of_le (by decide) hmin
  obtain ⟨n, hn⟩ := Nat.exists_eq_succ_of_ne_zero (Nat.pos_iff_ne_zero.mp hlen)
  unfold declared scanned
  rw [hn, List.drop_eq_getElem_cons hlt, List.take_succ_cons, window_of_lt hlt]
  rfl

theorem length_pos_of_declared {x : UInt8} {text : List UInt8} (h : declared w = x :: text) :
    0 < (prefixLen w).toNat := by
  refine Nat.pos_of_ne_zero fun hzero => ?_
  unfold declared at h
  rw [hzero] at h
  cases h

/-- What is left of the announced text when there is some. -/
theorem declared_min {x : UInt8} {text : List UInt8} (h : declared w = x :: text) (hne : text ≠ [])
    (hw : Received w) : 6 ≤ w.length := by
  have hlen : (declared w).length ≤ w.length - 4 := by
    unfold declared
    rw [List.length_take, List.length_drop]
    exact Nat.min_le_right _ _
  have hpos := List.length_pos_iff.mpr hne
  have hmin := hw.1
  rw [h, List.length_cons] at hlen
  omega

theorem Received.complete {text : List UInt8} (hw : Received w)
    (h : declared w = openBrace :: text) (hne : text ≠ []) : Complete w := by
  have hmin := declared_min h hne hw
  have hpos := length_pos_of_declared h
  refine ⟨hmin, ?_, ?_⟩
  · have hle := hw.2
    rw [UInt32.toNat_add]
    exact Nat.le_trans (Nat.mod_le _ _) hle
  · rw [declared_cons hmin hpos] at h
    exact (List.cons.inj h).1

/-- The parser has the whole text. -/
theorem parse_received (behind : Nat → UInt8) (hw : Received w) (hmin : 6 ≤ w.length) (c : IperfConnectionState) :
    parse (fun i => window w behind (4 + i)) ((prefixLen w).toNat - 1) 1 .start c =
      (feed (scanned w) .start c).resume (fun i => window w behind (4 + i)) 0
        (1 + (scanned w).length) := by
  have hlen : (scanned w).length = (prefixLen w).toNat - 1 := by
    have := hw.2
    unfold scanned
    rw [List.length_take, List.length_drop]
    omega
  have hxs : ∀ j (hj : j < (scanned w).length), window w behind (4 + (1 + j)) = (scanned w)[j] := by
    intro j hj
    have hj' : j < (w.drop 5).length := Nat.lt_of_lt_of_le hj (List.length_take_le' _ _)
    rw [window_text hj']
    exact List.getElem_take.symm
  have hparse := parse_feed (f := fun i => window w behind (4 + i)) hxs 0 .start c
  rw [Nat.add_zero, hlen] at hparse
  rw [hparse, hlen]

/-- An object is what the parser comes to the end of. -/
theorem feed_startsWith (hmin : 6 ≤ w.length) (h : StartsWith (declared w) fields)
    (c : IperfConnectionState) : feed (scanned w) .start c = .done (setFields c fields) := by
  obtain ⟨body, rest, hbody, hdeclared⟩ := h
  rw [declared_cons hmin (length_pos_of_declared hdeclared)] at hdeclared
  rw [(List.cons.inj hdeclared).2]
  exact feed_complete hbody rfl rest c

/-- What is accepted, the scanner has come to an end of. -/
theorem verdict_of_exchange (hover : ¬ Overruns w) (h : exchange p w behind = some (some r)) :
    Complete w ∧ ∃ d, d.params = r ∧ (feed (scanned w) .start (blank p)).verdict (prefixLen w)
      (decide ((w.drop 5).length < (prefixLen w).toNat - 1)) = .ok (some d) := by
  by_cases hw : Complete w
  · have hscan := scan_of_not_overruns hw hover (Vector.replicate 32 0) (Vector.replicate 32 0)
      behind (blank p)
    rw [scan_start hw] at hscan
    rw [exchange_of_complete hw] at h
    obtain ⟨d, hd, hr⟩ := Option.map_eq_some_iff.mp (Option.some.inj h)
    rw [hd] at hscan
    exact ⟨hw, d, hr, hscan⟩
  · rw [exchange_of_not_complete hw] at h
    cases h

/-- An object's values are accepted. -/
theorem exchange_values (hover : ¬ Overruns w) (h : exchange p w behind = some (some r))
    (hobject : StartsWith (declared w) fields) : r = p.with fields := by
  obtain ⟨hw, d, rfl, hscan⟩ := verdict_of_exchange hover h
  rw [feed_startsWith hw.min_le hobject] at hscan
  dsimp only [JsonStep.verdict] at hscan
  split at hscan
  · cases hscan
  · rw [← Option.some.inj (Except.ok.inj hscan)]
    exact setFields_params (blank p) fields

/-- **Nothing but an object is accepted.** -/
theorem exchange_sound (hdef : Received w → Definite w) (hover : ¬ Overruns w)
    (h : exchange p w behind = some (some r)) : ∃ fields, StartsWith (declared w) fields := by
  obtain ⟨hw, d, -, hscan⟩ := verdict_of_exchange hover h
  have hmin := hw.min_le
  rcases feed_cases (q := .start) rfl (scanned w) (blank p) with
    hbad | ⟨hpart, q, e, hnext⟩ | ⟨body, rest, fields, hbody, hxs, hdone⟩
  · rw [hbad] at hscan
    cases hscan
  · -- it has come to the end of the bytes announced
    rw [hnext] at hscan
    dsimp only [JsonStep.verdict] at hscan
    split at hscan
    · split at hscan <;> cases hscan
    rename_i hunread
    have hreceived : Received w := by
      refine ⟨Nat.le_trans (by decide) hmin, ?_⟩
      rw [decide_eq_true_eq, List.length_drop] at hunread
      omega
    obtain ⟨text, htext, hnot⟩ := hdef hreceived
    have htail := htext
    rw [declared_cons hmin (length_pos_of_declared htext)] at htail
    exact absurd ((List.cons.inj htail).2 ▸ hpart) hnot
  · have hpos : 0 < (prefixLen w).toNat := by
      refine Nat.pos_of_ne_zero fun hzero => ?_
      unfold scanned at hdone
      rw [hzero] at hdone
      cases hdone
    refine ⟨fields, body, rest, hbody, ?_⟩
    rw [declared_cons hmin hpos, hw.brace, hxs, List.cons_append]

/-- **What is refused is definite.** -/
theorem definite_of_refused (hw : Received w) (h : exchange p w behind = some none) :
    Definite w := by
  have hcomplete : Complete w := by
    by_contra hnot
    rw [exchange_of_not_complete hnot] at h
    cases h
  have hparse := parse_received behind hw hcomplete.min_le (blank p)
  rw [exchange_of_complete hcomplete, hparse] at h
  have hnone := Option.map_eq_none_iff.mp (Option.some.inj h)
  have hnot : ¬ ObjectPart (scanned w) := by
    intro hpart
    obtain ⟨q, d, hnext⟩ := feed_part hpart (q := .start) rfl (blank p)
    rw [hnext] at hnone
    cases hnone
  have hpos : 0 < (prefixLen w).toNat := by
    refine Nat.pos_of_ne_zero fun hzero => hnot ?_
    unfold scanned
    rw [hzero]
    exact .start
  refine ⟨scanned w, ?_, hnot⟩
  rw [declared_cons hcomplete.min_le hpos, hcomplete.brace]

/-- An object is definite. -/
theorem definite_of_startsWith (h : StartsWith (declared w) fields) : Definite w := by
  obtain ⟨body, rest, hbody, hdeclared⟩ := h
  refine ⟨body ++ rest, hdeclared, fun hpart => ?_⟩
  obtain ⟨q, d, hnext⟩ := feed_part hpart (q := .start) rfl .Clear
  cases hnext.symm.trans (feed_complete hbody rfl rest .Clear)

/-- A text that is overrun has no object in the bytes received. -/
theorem Overruns.not_startsWith (h : Overruns w) : ¬ StartsWith (declared w) fields := by
  intro hobject
  obtain ⟨q, d, hnext, -⟩ := h.unfinished
  have hmin := h.complete.min_le
  have hlt := h.lt
  have hall : scanned w = w.drop 5 := by
    refine List.take_of_length_le ?_
    rw [List.length_drop]
    omega
  have hdone := feed_startsWith hmin hobject .Clear
  rw [hall] at hdone
  cases hnext.symm.trans hdone

end

/-! ## What is made of it -/

namespace Session

/-- The handler moves the connection to the streams. -/
def Creates (socket : TCPTableEntry) (behind : Nat → UInt8) (σ : Session) : Prop :=
  announce socket .CREATE_STREAMS ∈ (σ.OnRxParamExchange socket behind).2.2 ∨
    (σ.OnRxParamExchange socket behind).2.1.conn.m_state = .CREATE_STREAMS

/-- The handler drops the connection. -/
def Drops (socket : TCPTableEntry) (behind : Nat → UInt8) (σ : Session) : Prop :=
  (σ.OnRxParamExchange socket behind).2.1.conn = .Clear ∧
    .CloseSocket socket ∈ (σ.OnRxParamExchange socket behind).2.2

theorem onRxParamExchange_eq {socket : TCPTableEntry} {behind : Nat → UInt8} {σ : Session}
    (hs : σ.conn.m_state = .PARAM_EXCHANGE) :
    σ.OnRxParamExchange socket behind = σ.handle socket behind := by
  unfold handle
  rw [hs]

end Session

/-- Only an object is accepted, with its values, and what is none is refused. -/
structure BlobRule (c : IperfConnectionState) : Prop where
  created : ∀ (σ : Session) (socket : TCPTableEntry) (behind : Nat → UInt8), σ.conn = c →
    σ.Creates socket behind → ∃ fields, StartsWith (declared c.m_rxBuffer.items) fields
  params : ∀ (σ : Session) (socket : TCPTableEntry) (behind : Nat → UInt8), σ.conn = c →
    (σ.OnRxParamExchange socket behind).2.1.conn.m_state = .CREATE_STREAMS →
    ∀ fields, StartsWith (declared c.m_rxBuffer.items) fields →
    (σ.OnRxParamExchange socket behind).2.1.conn.params =
      IperfConnectionState.Clear.params.with fields
  dropped : ∀ (σ : Session) (socket : TCPTableEntry) (behind : Nat → UInt8), σ.conn = c →
    Received c.m_rxBuffer.items → (∀ fields, ¬ StartsWith (declared c.m_rxBuffer.items) fields) →
    σ.Drops socket behind

section
variable {c : IperfConnectionState} {σ : Session} {socket : TCPTableEntry} {behind : Nat → UInt8}

theorem creates_of_exchange (hs : σ.conn.m_state = .PARAM_EXCHANGE) {r : Params}
    (hex : exchange σ.conn.params σ.conn.m_rxBuffer.items behind = some (some r))
    (hst : σ.stack.segment 0 = true) : σ.Creates socket behind := by
  unfold Session.Creates
  rw [Session.onRxParamExchange_eq hs]
  rcases Session.handle_params socket _ hs with
    ⟨hex', -⟩ | ⟨hex', -⟩ | ⟨p, -, es, hlog, -, -⟩
  · cases hex.symm.trans hex'
  · cases hex.symm.trans hex'
  · left
    rw [hlog]
    exact List.mem_append_left _ ((Session.announce_mem_sendState rfl).mpr hst)

theorem exchange_of_creates (hs : σ.conn.m_state = .PARAM_EXCHANGE)
    (h : σ.Creates socket behind) :
    ∃ r, exchange σ.conn.params σ.conn.m_rxBuffer.items behind = some (some r) ∧
      ((σ.OnRxParamExchange socket behind).2.1.conn.m_state = .CREATE_STREAMS →
        (σ.OnRxParamExchange socket behind).2.1.conn.params = r) := by
  unfold Session.Creates at h
  rw [Session.onRxParamExchange_eq hs] at h ⊢
  rcases Session.handle_params socket _ hs with
    ⟨-, heq⟩ | ⟨-, heq⟩ | ⟨p, hex, es, -, -, hconn⟩
  · rw [heq] at h
    rcases h with h | h
    · cases h
    · cases hs.symm.trans h
  · rw [heq] at h
    rcases h with h | h
    · cases List.mem_singleton.mp h
    · cases h
  · refine ⟨p, hex, fun hstate => ?_⟩
    rcases hconn with ⟨-, hconn⟩ | ⟨-, hconn⟩
    · rw [hconn]
      rfl
    · rw [hconn] at hstate
      cases hstate

theorem exchange_of_definite (socket : TCPTableEntry) (behind : Nat → UInt8)
    (hs : σ.conn.m_state = .PARAM_EXCHANGE)
    (hw : Received σ.conn.m_rxBuffer.items) (hdef : Definite σ.conn.m_rxBuffer.items) :
    σ.Drops socket behind ∨
      ∃ r, exchange σ.conn.params σ.conn.m_rxBuffer.items behind = some (some r) := by
  obtain ⟨text, htext, hnot⟩ := hdef
  have hcomplete := hw.complete htext (ne_nil_of_not_part hnot)
  unfold Session.Drops
  rw [Session.onRxParamExchange_eq hs]
  rcases Session.handle_params socket _ hs with ⟨hex, -⟩ | ⟨-, heq⟩ | ⟨p, hex, -⟩
  · rw [exchange_of_complete hcomplete] at hex
    cases hex
  · rw [heq]
    exact .inl ⟨rfl, List.mem_singleton_self _⟩
  · exact .inr ⟨p, hex⟩

/-- **The rule holds** exactly of definite texts that the scanner does not overrun. -/
theorem blobRule_iff (hs : c.m_state = .PARAM_EXCHANGE)
    (hfresh : c.params = IperfConnectionState.Clear.params) :
    BlobRule c ↔ (Received c.m_rxBuffer.items → Definite c.m_rxBuffer.items) ∧
      ¬ Overruns c.m_rxBuffer.items := by
  constructor
  · intro h
    let σ : Session := ⟨c, ready, true⟩
    constructor
    · intro hreceived
      by_cases hobject : ∃ fields, StartsWith (declared c.m_rxBuffer.items) fields
      · obtain ⟨fields, hobject⟩ := hobject
        exact definite_of_startsWith hobject
      · -- it is dropped, so the scanner has found it invalid
        have hnone := not_exists.mp hobject
        obtain ⟨hclear, -⟩ := h.dropped σ ⟨0, 0⟩ (fun _ => 0) rfl hreceived hnone
        rw [Session.onRxParamExchange_eq (σ := σ) hs] at hclear
        rcases Session.handle_params (σ := σ) ⟨0, 0⟩ (fun _ => 0) hs with
          ⟨-, heq⟩ | ⟨hex, -⟩ | ⟨r, hex, -⟩
        · rw [heq] at hclear
          exact absurd (congrArg IperfConnectionState.m_state hclear) (by rw [hs]; exact nofun)
        · exact definite_of_refused hreceived hex
        · obtain ⟨fields, hobject⟩ := h.created σ ⟨0, 0⟩ (fun _ => 0) rfl
            (creates_of_exchange hs hex rfl)
          exact absurd hobject (hnone fields)
    · intro hover
      obtain ⟨-, behind, r, hex, -⟩ := overruns_open hover c.m_rxBuffer.items_le c.params
      obtain ⟨fields, hobject⟩ := h.created σ ⟨0, 0⟩ behind rfl (creates_of_exchange hs hex rfl)
      exact hover.not_startsWith hobject
  · rintro ⟨hdef, hover⟩
    refine ⟨?_, ?_, ?_⟩
    · rintro σ socket behind rfl hcreates
      obtain ⟨r, hex, -⟩ := exchange_of_creates hs hcreates
      exact exchange_sound hdef hover hex
    · rintro σ socket behind rfl hstate fields hobject
      obtain ⟨r, hex, hparams⟩ := exchange_of_creates hs (.inr hstate)
      rw [hparams hstate, exchange_values hover hex hobject, hfresh]
    · rintro σ socket behind rfl hreceived hnone
      rcases exchange_of_definite socket behind hs hreceived
        (hdef hreceived) with hdrops | ⟨r, hex⟩
      · exact hdrops
      · obtain ⟨fields, hobject⟩ := exchange_sound hdef hover hex
        exact absurd hobject (hnone fields)

end

/-- A slot in order stays so while a segment is handled. -/
theorem SlotOk.visited {n : Nat} {ops : List (Op n)} {socket : TCPTableEntry}
    {behind : Nat → UInt8} {σ τ : Session} (h : SlotOk ops σ.conn)
    (hτ : Visits (fun σ => (Except.ok (σ.handle socket behind) : Except Fault _)) σ τ) :
    SlotOk ops τ.conn := by
  induction hτ with
  | refl => exact h
  | @tail τ υ _ hround ih =>
    obtain ⟨es, hround⟩ := hround
    have hmoved : Moved τ.conn (τ.handle socket behind).2.1.conn := τ.handle_moved
    rw [Except.ok.inj hround] at hmoved
    exact ih.moved hmoved

/-- **What the handler is called with**: parameters as cleared, in every run. -/
theorem fresh_of_run {n : Nat} {srv : TCPServer n} {stack : Stack} {ops : List (Op n)}
    {s : Iperf3Server n} {log : List (Entry n)} (h : run (step srv) (.init stack) ops = .ok (s, log))
    {i : Fin n} {socket : TCPTableEntry} (hsocket : s.sockets i = some socket) (fifo : CircularFIFO)
    {behind : Nat → UInt8} {τ : Session}
    (hτ : Visits (fun σ => (Except.ok (σ.handle socket behind) : Except Fault _))
      { s.session i with conn.m_rxBuffer := fifo } τ)
    (hs : τ.conn.m_state = .PARAM_EXCHANGE) :
    τ.conn.params = IperfConnectionState.Clear.params := by
  have hslot := (ok_run h i).received (valid_of_boundTo hsocket) fifo
  exact (SlotOk.visited hslot hτ).fresh (.inr hs)

/-- A connection with a blob in its FIFO. -/
def offered (blob : List UInt8) (h : blob.length ≤ 256) : IperfConnectionState :=
  { IperfConnectionState.Clear.bind client with
    m_state := .PARAM_EXCHANGE
    m_rxBuffer := ⟨blob, h⟩ }

theorem blobRule_client : BlobRule (offered clientBlob (by decide)) := by
  refine (blobRule_iff (c := offered clientBlob (by decide)) rfl rfl).mpr
    ⟨fun _ => ⟨clientBlob.drop 5, by decide, fun hpart => ?_⟩, ?_⟩
  · obtain ⟨q, d, hnext⟩ := feed_part hpart (q := .start) rfl .Clear
    cases hnext
  · intro hover
    exact absurd hover.lt (by decide)

/-- A blob that ends after a field, with the length of what there is. -/
def cutShort : List UInt8 :=
  let json := text "\x7b\"udp\":true,\"reverse\":true,"
  [0, 0, 0, .ofNat json.length] ++ json

theorem cutShort_accepted : ¬ BlobRule (offered cutShort (by decide)) := by
  intro h
  have hcreates : (⟨offered cutShort (by decide), ready, true⟩ : Session).Creates client
      (fun _ => 0) := .inr (by decide)
  obtain ⟨fields, hobject⟩ := h.created _ _ _ rfl hcreates
  exact absurd hobject.closed (by decide)

end EmbeddedPlatform.Services
