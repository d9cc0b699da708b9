import EmbeddedPlatform.Cli.FlashSummary
import EmbeddedPlatform.Lib.Blocks

/-! # The tree in the listing

A line is decided from the two neighbours in the array, deleted or not. So the
heading of a group is lost with its first object, and the end of the tree with its
last one; the rest of the listing is right. -/
namespace EmbeddedPlatform.Cli
open EmbeddedPlatform.Lib

/-! ## Groups -/

/-- What is before the first dot of the key. -/
def KVSListEntry.group (o : KVSListEntry) : Option (List Char) :=
  if '.' ∈ o.key then some (o.key.takeWhile fun c => c ≠ '.') else none

theorem takeWhile_of_split {c : Char} {g k : List Char} (h : c ∉ g) :
    (g ++ c :: k).takeWhile (fun x => x ≠ c) = g := by
  induction g with
  | nil => simp
  | cons a g ih =>
    have ha : a ≠ c := fun hac => h (hac ▸ List.mem_cons_self)
    have hg : c ∉ g := fun hc => h (List.mem_cons_of_mem a hc)
    rw [List.cons_append, List.takeWhile_cons_of_pos (by simpa using ha), ih hg]

theorem group_eq_some_iff {o : KVSListEntry} {g : List Char} :
    o.group = some g ↔ '.' ∉ g ∧ ∃ k, o.key = g ++ '.' :: k := by
  unfold KVSListEntry.group
  constructor
  · intro h
    split at h
    · rename_i hdot
      cases h
      obtain ⟨g, k, hkey, hg⟩ := List.eq_append_cons_of_mem hdot
      rw [hkey, takeWhile_of_split hg]
      exact ⟨hg, k, rfl⟩
    · cases h
  · rintro ⟨hg, k, hkey⟩
    rw [if_pos (by rw [hkey]; simp), hkey, takeWhile_of_split hg]

theorem strchr_of_split {c : Char} {g k : List Char} (h : c ∉ g) :
    strchr (g ++ c :: k) c = some g.length := by
  unfold strchr
  induction g with
  | nil => simp [List.idxOf?_cons]
  | cons a g ih =>
    have ha : a ≠ c := fun hac => h (hac ▸ List.mem_cons_self)
    have hg : c ∉ g := fun hc => h (List.mem_cons_of_mem a hc)
    rw [List.cons_append, List.idxOf?_cons, ih hg]
    simp [ha]

theorem strchr_eq_none {c : Char} {s : List Char} (h : c ∉ s) : strchr s c = none := by
  unfold strchr
  simpa using h

/-- Whether a key begins with the name of a group and a dot. -/
theorem isPrefixOf_iff {o : KVSListEntry} {g : List Char} (hg : '.' ∉ g) :
    (g ++ ['.']).isPrefixOf o.key = true ↔ o.group = some g := by
  rw [List.isPrefixOf_iff_prefix, group_eq_some_iff]
  constructor
  · rintro ⟨k, hk⟩
    exact ⟨hg, k, by rw [← hk]; simp⟩
  · rintro ⟨-, k, hk⟩
    exact ⟨k, by rw [hk]; simp⟩

/-- The neighbour is in the object's group. -/
def Beside (neighbour : Option KVSListEntry) (o : KVSListEntry) : Prop :=
  ∃ n ∈ neighbour, n.group = o.group

theorem any_beside_iff {o : KVSListEntry} {g : List Char} (hg : o.group = some g)
    (neighbour : Option KVSListEntry) :
    (neighbour.any fun n => (g ++ ['.']).isPrefixOf n.key) = true ↔ Beside neighbour o := by
  have hdot : '.' ∉ g := (group_eq_some_iff.mp hg).1
  cases neighbour with
  | none => simp [Beside]
  | some n => simp [Beside, Option.any_some, isPrefixOf_iff hdot, hg]

/-! ## One object -/

/-- All that can be printed for an object. -/
theorem printObject_cases (p : Option KVSListEntry) (o : KVSListEntry) (f : Option KVSListEntry) :
    (o.size = 0 ∧ printObject p o f = []) ∨
    (o.size ≠ 0 ∧ (o.group = none ∨ ¬ Beside p o ∧ ¬ Beside f o) ∧
      printObject p o f = [.entry o.key o.size o.revs]) ∨
    (∃ g k, o.size ≠ 0 ∧ o.group = some g ∧ o.key = g ++ '.' :: k ∧ ¬ Beside p o ∧ Beside f o ∧
      printObject p o f = [.heading g, .node true k o.size o.revs]) ∨
    (∃ g k next, o.size ≠ 0 ∧ o.group = some g ∧ o.key = g ++ '.' :: k ∧ Beside p o ∧
      (next = true ↔ Beside f o) ∧ printObject p o f = [.node next k o.size o.revs]) := by
  by_cases hsize : o.size = 0
  · exact .inl ⟨hsize, by simp [printObject, hsize]⟩
  · by_cases hdot : '.' ∈ o.key
    · obtain ⟨g, k, hkey, hg⟩ := List.eq_append_cons_of_mem hdot
      have hgroup : o.group = some g := group_eq_some_iff.mpr ⟨hg, k, hkey⟩
      have hstr : strchr o.key '.' = some g.length := by rw [hkey, strchr_of_split hg]
      have htake : o.key.take (g.length + 1) = g ++ ['.'] := by
        rw [hkey, List.take_append, List.take_of_length_le (Nat.le_succ _)]
        simp
      have hdrop : o.key.drop (g.length + 1) = k := by
        rw [hkey, List.drop_append]
        simp
      have hname : (g ++ ['.']).take g.length = g := by simp
      have hprint : printObject p o f =
          (if (!p.any fun p => (g ++ ['.']).isPrefixOf p.key) &&
              f.any fun n => (g ++ ['.']).isPrefixOf n.key then [.heading g] else []) ++
          [if (f.any fun n => (g ++ ['.']).isPrefixOf n.key) ||
              !!p.any fun p => (g ++ ['.']).isPrefixOf p.key then
            .node (f.any fun n => (g ++ ['.']).isPrefixOf n.key) k o.size o.revs
          else .entry o.key o.size o.revs] := by
        unfold printObject
        simp only [if_neg hsize, hstr, htake, hdrop, Nat.add_sub_cancel, hname]
      have hp := any_beside_iff hgroup p
      have hf := any_beside_iff hgroup f
      generalize (p.any fun p => (g ++ ['.']).isPrefixOf p.key) = previous at hprint hp
      generalize (f.any fun n => (g ++ ['.']).isPrefixOf n.key) = next at hprint hf
      right
      rw [hprint, ← hp, ← hf]
      cases previous <;> cases next <;> simp [hsize, hgroup, hkey]
    · refine .inr (.inl ⟨hsize, .inl ?_, ?_⟩)
      · simp [KVSListEntry.group, hdot]
      · simp [printObject, hsize, strchr_eq_none hdot]

theorem mem_of_split {p f : Option KVSListEntry} {o : KVSListEntry} {line : Line} {u v : List Line}
    (h : printObject p o f = u ++ line :: v) : line ∈ printObject p o f := by
  rw [h]
  simp

theorem size_ne_zero_of_mem {p f : Option KVSListEntry} {o : KVSListEntry} {line : Line}
    (h : line ∈ printObject p o f) : o.size ≠ 0 := by
  intro hsize
  simp [printObject, hsize] at h

/-- Only the first object of a group puts its heading. -/
theorem heading_mem {p f : Option KVSListEntry} {o : KVSListEntry} {g : List Char}
    (h : .heading g ∈ printObject p o f) : o.group = some g ∧ ¬ Beside p o ∧ Beside f o := by
  rcases printObject_cases p o f with ⟨-, heq⟩ | ⟨-, -, heq⟩ |
    ⟨g', k, -, hg, -, hp, hf, heq⟩ | ⟨g', k, next, -, -, -, -, -, heq⟩
  · simp [heq] at h
  · simp [heq] at h
  · have hgg : g = g' := by simpa [heq] using h
    exact ⟨hgg ▸ hg, hp, hf⟩
  · simp [heq] at h

/-- A node is the last line of its object. It has the heading right above, or it follows
a member of the group. -/
theorem node_split {p f : Option KVSListEntry} {o : KVSListEntry} {next : Bool} {k : List Char}
    {size revs : Nat} {u v : List Line} (h : printObject p o f = u ++ .node next k size revs :: v) :
    v = [] ∧ (next = true ↔ Beside f o) ∧ ∃ g, o.group = some g ∧
      (u = [.heading g] ∧ ¬ Beside p o ∨ u = [] ∧ Beside p o) := by
  rcases printObject_cases p o f with ⟨-, heq⟩ | ⟨-, -, heq⟩ |
    ⟨g, k', -, hg, -, hp, hf, heq⟩ | ⟨g, k', next', -, hg, -, hp, hnext, heq⟩
  · rw [heq] at h
    simp at h
  · rw [heq, List.singleton_eq_append_iff] at h
    simp at h
  · rw [heq] at h
    rcases u with _ | ⟨a, u⟩
    · simp at h
    · rcases u with _ | ⟨b, u⟩
      · obtain ⟨rfl, hnode⟩ := List.cons.inj h
        obtain ⟨hnode, rfl⟩ := List.cons.inj hnode
        cases hnode
        exact ⟨rfl, iff_of_true rfl hf, g, hg, .inl ⟨rfl, hp⟩⟩
      · simp at h
  · rw [heq] at h
    rcases u with _ | ⟨a, u⟩
    · obtain ⟨hnode, rfl⟩ := List.cons.inj h
      cases hnode
      exact ⟨rfl, hnext, g, hg, .inr ⟨rfl, hp⟩⟩
    · simp at h

theorem not_heading_mem_of_split {p f : Option KVSListEntry} {o : KVSListEntry} {g : List Char}
    {u v : List Line} (h : printObject p o f = u ++ .heading g :: v) : .heading g ∉ v := by
  intro hmem
  have hcount : 2 ≤ ((printObject p o f).filter fun line => line = .heading g).length := by
    obtain ⟨v, w, rfl⟩ := List.append_of_mem hmem
    rw [h]
    simp
    omega
  rcases printObject_cases p o f with ⟨-, heq⟩ | ⟨-, -, heq⟩ |
    ⟨g', k, -, -, -, -, -, heq⟩ | ⟨g', k, next, -, -, -, -, -, heq⟩
  · simp [heq] at hcount
  · simp [heq] at hcount
  · rw [heq] at hcount
    by_cases hg : g' = g
    · simp [hg] at hcount
    · simp [hg] at hcount
  · simp [heq] at hcount

/-- An object that follows a member of its group is a node. -/
theorem node_of_beside_previous {p f : Option KVSListEntry} {o : KVSListEntry} (hsize : o.size ≠ 0)
    (hgroup : o.group ≠ none) (hp : Beside p o) :
    ∃ next k, printObject p o f = [.node next k o.size o.revs] := by
  rcases printObject_cases p o f with ⟨h0, -⟩ | ⟨-, hnone | ⟨hnot, -⟩, -⟩ |
    ⟨g, k, -, -, -, hnot, -⟩ | ⟨g, k, next, -, -, -, -, -, heq⟩
  · exact absurd h0 hsize
  · exact absurd hnone hgroup
  · exact absurd hp hnot
  · exact absurd hp hnot
  · exact ⟨next, k, heq⟩

/-- An object that a member of its group follows is a node with a next one. -/
theorem node_of_beside_following {p f : Option KVSListEntry} {o : KVSListEntry}
    (hsize : o.size ≠ 0) (hgroup : o.group ≠ none) (hf : Beside f o) :
    ∃ u k, printObject p o f = u ++ [.node true k o.size o.revs] := by
  rcases printObject_cases p o f with ⟨h0, -⟩ | ⟨-, hnone | ⟨-, hnot⟩, -⟩ |
    ⟨g, k, -, -, -, -, -, heq⟩ | ⟨g, k, next, -, -, -, -, hnext, heq⟩
  · exact absurd h0 hsize
  · exact absurd hnone hgroup
  · exact absurd hf hnot
  · exact ⟨[.heading g], k, heq⟩
  · rw [hnext.mpr hf] at heq
    exact ⟨[], k, heq⟩

/-- An object before which there is no member of its group puts the heading. -/
theorem heading_of_first {p f : Option KVSListEntry} {o : KVSListEntry} {g : List Char}
    (hsize : o.size ≠ 0) (hgroup : o.group = some g) (hp : ¬ Beside p o) (hf : Beside f o) :
    ∃ k, printObject p o f = [.heading g, .node true k o.size o.revs] := by
  rcases printObject_cases p o f with ⟨h0, -⟩ | ⟨-, hnone | ⟨-, hnot⟩, -⟩ |
    ⟨g', k, -, hg, -, -, -, heq⟩ | ⟨g', k, next, -, -, -, hbeside, -⟩
  · exact absurd h0 hsize
  · rw [hgroup] at hnone
    cases hnone
  · exact absurd hf hnot
  · rw [hgroup] at hg
    cases hg
    exact ⟨k, heq⟩
  · exact absurd hbeside hp

/-! ## The lines with the objects they are printed for -/

def printedObjects (previous : Option KVSListEntry) (list : List KVSListEntry)
    (following : Option KVSListEntry) : List (KVSListEntry × Line) :=
  match list with
  | [] => []
  | o :: rest =>
    (printObject previous o (rest.head?.or following)).map (o, ·) ++
      printedObjects (some o) rest following

theorem printedObjects_lines (p : Option KVSListEntry) (list : List KVSListEntry) :
    (printedObjects p list none).map Prod.snd = printObjects p list := by
  induction list generalizing p with
  | nil => rfl
  | cons o rest ih =>
    unfold printedObjects printObjects
    rw [List.map_append, ih, List.map_map, Option.or_none]
    simp [Function.comp_def]

theorem getLast?_cons_or (o : KVSListEntry) (rest : List KVSListEntry) (p : Option KVSListEntry) :
    (o :: rest).getLast?.or p = rest.getLast?.or (some o) := by
  cases rest with
  | nil => rfl
  | cons a rest => simp [List.getLast?_cons]

theorem head?_append_or (xs ys : List KVSListEntry) (f : Option KVSListEntry) :
    (xs ++ ys).head?.or f = xs.head?.or (ys.head?.or f) := by
  cases xs <;> rfl

theorem printedObjects_append (p : Option KVSListEntry) (xs ys : List KVSListEntry)
    (f : Option KVSListEntry) : printedObjects p (xs ++ ys) f =
      printedObjects p xs (ys.head?.or f) ++ printedObjects (xs.getLast?.or p) ys f := by
  induction xs generalizing p with
  | nil => rfl
  | cons o rest ih =>
    rw [List.cons_append, printedObjects, printedObjects, ih, getLast?_cons_or, head?_append_or,
      List.append_assoc]

/-- Where a line comes from. -/
theorem printedObjects_split {p f : Option KVSListEntry} {list : List KVSListEntry}
    {above below : List (KVSListEntry × Line)} {o : KVSListEntry} {line : Line}
    (h : printedObjects p list f = above ++ (o, line) :: below) :
    ∃ xs ys u v, list = xs ++ o :: ys ∧
      printObject (xs.getLast?.or p) o (ys.head?.or f) = u ++ line :: v ∧
      above = printedObjects p xs (some o) ++ u.map (o, ·) ∧
      below = v.map (o, ·) ++ printedObjects (some o) ys f := by
  induction list generalizing p above with
  | nil => simp [printedObjects] at h
  | cons a rest ih =>
    rw [printedObjects] at h
    rcases append_split h with ⟨tail, hmap, rfl⟩ | ⟨init, rfl, hrest⟩
    · obtain ⟨u, lines, hprint, rfl, hlines⟩ := List.map_eq_append_iff.mp hmap
      obtain ⟨line', v, rfl, hline, rfl⟩ := List.map_eq_cons_iff.mp hlines
      cases hline
      exact ⟨[], rest, u, v, rfl, hprint, rfl, rfl⟩
    · obtain ⟨xs, ys, u, v, rfl, hprint, rfl, rfl⟩ := ih hrest
      refine ⟨a :: xs, ys, u, v, rfl, ?_, ?_, rfl⟩
      · rw [getLast?_cons_or, hprint]
      · rw [printedObjects, head?_append_or, List.append_assoc]
        rfl

theorem mem_printedObjects {p f : Option KVSListEntry} {list : List KVSListEntry}
    {x : KVSListEntry × Line} (h : x ∈ printedObjects p list f) :
    ∃ xs ys, list = xs ++ x.1 :: ys ∧
      x.2 ∈ printObject (xs.getLast?.or p) x.1 (ys.head?.or f) := by
  obtain ⟨above, below, heq⟩ := List.append_of_mem h
  obtain ⟨xs, ys, u, v, hlist, hprint, -⟩ := printedObjects_split heq
  exact ⟨xs, ys, hlist, mem_of_split hprint⟩

theorem mem_of_printed {p f : Option KVSListEntry} {list : List KVSListEntry}
    {x : KVSListEntry × Line} (h : x ∈ printedObjects p list f) : x.1 ∈ list := by
  obtain ⟨xs, ys, rfl, -⟩ := mem_printedObjects h
  simp

theorem size_ne_zero_of_split {p f : Option KVSListEntry} {list : List KVSListEntry}
    {above below : List (KVSListEntry × Line)} {o : KVSListEntry} {line : Line}
    (h : printedObjects p list f = above ++ (o, line) :: below) : o.size ≠ 0 := by
  obtain ⟨xs, ys, u, v, -, hprint, -⟩ := printedObjects_split h
  exact size_ne_zero_of_mem (mem_of_split hprint)

theorem size_ne_zero_of_printed {p f : Option KVSListEntry} {list : List KVSListEntry}
    {x : KVSListEntry × Line} (h : x ∈ printedObjects p list f) : x.1.size ≠ 0 := by
  obtain ⟨xs, ys, -, hline⟩ := mem_printedObjects h
  exact size_ne_zero_of_mem hline

/-- The lines of an object stand where the object does. -/
theorem printedObjects_at (xs ys : List KVSListEntry) (o : KVSListEntry) :
    printedObjects none (xs ++ o :: ys) none = printedObjects none xs (some o) ++
      ((printObject xs.getLast? o ys.head?).map (o, ·) ++ printedObjects (some o) ys none) := by
  rw [printedObjects_append, printedObjects, Option.or_none, Option.or_none, Option.or_none]
  rfl

/-- A heading is put by the first object of its group. -/
theorem heading_first {list : List KVSListEntry} {h : KVSListEntry} {g : List Char}
    (htogether : Together KVSListEntry.group list)
    (hmem : (h, .heading g) ∈ printedObjects none list none) :
    h.size ≠ 0 ∧ h.group = some g ∧ ∃ xs ys, list = xs ++ h :: ys ∧ ∀ x ∈ xs, x.group ≠ some g := by
  obtain ⟨xs, ys, rfl, hline⟩ := mem_printedObjects hmem
  rw [Option.or_none] at hline
  obtain ⟨hg, hfirst, -⟩ := heading_mem hline
  refine ⟨size_ne_zero_of_mem hline, hg, xs, ys, rfl, ?_⟩
  rw [← hg]
  exact htogether.first (by simp [hg]) fun p hp hgroup => hfirst ⟨p, hp, hgroup⟩

/-! ## What a listing should be -/

def Line.isObject : Line → Bool
  | .node .. => true
  | .entry .. => true
  | _ => false

/-- A line shows an object with its key, in a tree without the group. -/
inductive Shows (o : KVSListEntry) : Line → Prop where
  | entry : Shows o (.entry o.key o.size o.revs)
  | node (next : Bool) (g k : List Char) (hgroup : o.group = some g) (hkey : o.key = g ++ '.' :: k) :
      Shows o (.node next k o.size o.revs)

/-- The lines end in the heading of a group and lines of its members. -/
def UnderHeading (g : List Char) (above : List (KVSListEntry × Line)) : Prop :=
  ∃ front h between, above = front ++ (h, .heading g) :: between ∧ ∀ x ∈ between, x.1.group = some g

def printed (list : List KVSListEntry) : List (KVSListEntry × Line) := printedObjects none list none

structure TreeListing (list : List KVSListEntry) : Prop where
  lines : (PrintFlashSummary list).dropLast = (printed list).map Prod.snd
  objects : ((printed list).filter fun x => x.2.isObject).map Prod.fst =
    list.filter fun o => o.size ≠ 0
  shows : ∀ x ∈ printed list, x.2.isObject = true → Shows x.1 x.2
  beneath : ∀ above o next k size revs below,
    printed list = above ++ (o, .node next k size revs) :: below →
      ∃ g, o.group = some g ∧ UnderHeading g above
  heading_once : ∀ above o g below, printed list = above ++ (o, .heading g) :: below →
    ∀ x ∈ below, x.2 ≠ .heading g
  closing_last : ∀ above o k size revs below,
    printed list = above ++ (o, .node false k size revs) :: below →
      ∀ x ∈ below, x.2.isObject = true → x.1.group ≠ o.group

/-- The last object that is shown in a tree closes it. -/
def TreesClosed (list : List KVSListEntry) : Prop :=
  ∀ above o next k size revs below, printed list = above ++ (o, .node next k size revs) :: below →
    (∀ x ∈ below, x.2.isObject = true → x.1.group ≠ o.group) → next = false

/-- A group whose first object is deleted has none left. -/
def FirstsLive (list : List KVSListEntry) : Prop :=
  ∀ xs o ys, list = xs ++ o :: ys → o.group ≠ none → (∀ x ∈ xs, x.group ≠ o.group) →
    o.size = 0 → ∀ y ∈ ys, y.group = o.group → y.size = 0

/-- A group whose last object is deleted has none left. -/
def LastsLive (list : List KVSListEntry) : Prop :=
  ∀ xs o ys, list = xs ++ o :: ys → o.group ≠ none → (∀ y ∈ ys, y.group ≠ o.group) →
    o.size = 0 → ∀ x ∈ xs, x.group = o.group → x.size = 0

/-! ## What always holds -/

theorem printFlashSummary_dropLast (list : List KVSListEntry) :
    (PrintFlashSummary list).dropLast = (printed list).map Prod.snd := by
  unfold PrintFlashSummary printed
  rw [List.dropLast_concat, printedObjects_lines]

theorem printObject_objects (p f : Option KVSListEntry) (o : KVSListEntry) :
    (((printObject p o f).map (o, ·)).filter fun x => x.2.isObject).map Prod.fst =
      [o].filter fun o => o.size ≠ 0 := by
  rcases printObject_cases p o f with ⟨hsize, heq⟩ | ⟨hsize, -, heq⟩ |
    ⟨g, k, hsize, -, -, -, -, heq⟩ | ⟨g, k, next, hsize, -, -, -, -, heq⟩
  all_goals simp [heq, hsize, Line.isObject]

theorem printedObjects_objects (p f : Option KVSListEntry) (list : List KVSListEntry) :
    ((printedObjects p list f).filter fun x => x.2.isObject).map Prod.fst =
      list.filter fun o => o.size ≠ 0 := by
  induction list generalizing p with
  | nil => rfl
  | cons o rest ih =>
    rw [printedObjects, List.filter_append, List.map_append, ih, printObject_objects,
      ← List.filter_append]
    rfl

theorem shows_of_mem {p f : Option KVSListEntry} {o : KVSListEntry} {line : Line}
    (h : line ∈ printObject p o f) (hobject : line.isObject = true) : Shows o line := by
  rcases printObject_cases p o f with ⟨-, heq⟩ | ⟨-, -, heq⟩ |
    ⟨g, k, -, hg, hkey, -, -, heq⟩ | ⟨g, k, next, -, hg, hkey, -, -, heq⟩
  · rw [heq] at h
    cases h
  · rw [heq, List.mem_singleton] at h
    subst h
    exact .entry
  · rw [heq, List.mem_pair] at h
    rcases h with rfl | rfl
    · cases hobject
    · exact .node true g k hg hkey
  · rw [heq, List.mem_singleton] at h
    subst h
    exact .node next g k hg hkey

theorem printed_shows {list : List KVSListEntry} {x : KVSListEntry × Line} (h : x ∈ printed list)
    (hobject : x.2.isObject = true) : Shows x.1 x.2 := by
  obtain ⟨xs, ys, -, hline⟩ := mem_printedObjects h
  exact shows_of_mem hline hobject

theorem exists_printed (p f : Option KVSListEntry) {list : List KVSListEntry} {o : KVSListEntry}
    (hmem : o ∈ list) (hsize : o.size ≠ 0) :
    ∃ line, (o, line) ∈ printedObjects p list f ∧ line.isObject = true := by
  have hlive : o ∈ list.filter fun o => o.size ≠ 0 := by simp [hmem, hsize]
  rw [← printedObjects_objects p f list] at hlive
  obtain ⟨⟨o', line⟩, hx, rfl⟩ := List.mem_map.mp hlive
  obtain ⟨hx, hobject⟩ := List.mem_filter.mp hx
  exact ⟨line, hx, hobject⟩

/-! ## Headings -/

variable {list : List KVSListEntry} {above below : List (KVSListEntry × Line)} {o : KVSListEntry}

theorem not_beside_of_first {xs : List KVSListEntry} (h : ∀ x ∈ xs, x.group ≠ o.group) :
    ¬ Beside xs.getLast? o :=
  fun ⟨p, hp, hgroup⟩ => h p (List.mem_of_getLast? hp) hgroup

theorem heading_not_below {g : List Char} (htogether : Together KVSListEntry.group list)
    (h : printed list = above ++ (o, .heading g) :: below) : ∀ x ∈ below, x.2 ≠ .heading g := by
  rintro ⟨o', line⟩ hx hline
  obtain rfl : line = .heading g := hline
  obtain ⟨xs, ys, u, v, rfl, hprint, -, rfl⟩ := printedObjects_split h
  rcases List.mem_append.mp hx with hv | hys
  · obtain ⟨line, hline, heq⟩ := List.mem_map.mp hv
    cases heq
    exact not_heading_mem_of_split hprint hline
  · -- the second one would come from an object that is the first of the group again
    obtain ⟨hg, -, -⟩ := heading_mem (mem_of_split hprint)
    obtain ⟨as, bs, rfl, hline⟩ := mem_printedObjects hys
    obtain ⟨hg', hfirst, -⟩ := heading_mem hline
    have hsame : o'.group = o.group := hg'.trans hg.symm
    obtain ⟨p, hp, hgroup⟩ := htogether.previous (by simp [hg]) hsame
    exact hfirst ⟨p, hp, hgroup⟩

/-- Every node is under its heading if no group has lost its first object only. -/
theorem node_beneath (htogether : Together KVSListEntry.group list) (hlive : FirstsLive list)
    {next : Bool} {k : List Char} {size revs : Nat}
    (h : printed list = above ++ (o, .node next k size revs) :: below) :
    ∃ g, o.group = some g ∧ UnderHeading g above := by
  have hsize : o.size ≠ 0 := size_ne_zero_of_split h
  obtain ⟨xs, ys, u, v, rfl, hprint, rfl, -⟩ := printedObjects_split h
  rw [Option.or_none] at hprint
  obtain ⟨-, -, g, hg, hplace⟩ := node_split hprint
  refine ⟨g, hg, ?_⟩
  rcases hplace with ⟨rfl, -⟩ | ⟨rfl, p, hp, hgroup⟩
  · exact ⟨printedObjects none xs (some o), o, [], by simp, by simp⟩
  · obtain ⟨as, e, bs, rfl, he, has⟩ :=
      exists_first (P := fun x => x.group = o.group) ⟨p, List.mem_of_getLast? hp, hgroup⟩
    rw [List.append_assoc, List.cons_append] at htogether hlive
    rw [← he] at has
    have hne : e.group ≠ none := by simp [he, hg]
    have helive : e.size ≠ 0 := fun h0 =>
      hsize (hlive as e _ rfl hne has h0 o (by simp) he.symm)
    obtain ⟨k', hheading⟩ := heading_of_first helive (he.trans hg) (not_beside_of_first has)
      (htogether.next hne he.symm)
    refine ⟨printedObjects none as (some e), e, (e, .node true k' e.size e.revs) ::
      printedObjects (some e) bs (some o), ?_, ?_⟩
    · rw [printedObjects_append, printedObjects, Option.or_none, hheading]
      simp
    · intro x hx
      rcases List.mem_cons.mp hx with rfl | hx
      · exact he.trans hg
      · have hbs := htogether as e bs o ys rfl hne he.symm x.1 (mem_of_printed hx)
        exact hbs.trans (he.trans hg)

theorem firstsLive_of_beneath (htogether : Together KVSListEntry.group list)
    (h : ∀ above o next k size revs below,
      printed list = above ++ (o, .node next k size revs) :: below →
        ∃ g, o.group = some g ∧ UnderHeading g above) : FirstsLive list := by
  rintro xs e ys rfl hne hxs he y hy hgroup
  by_contra hsize
  obtain ⟨as, bs, rfl⟩ := List.append_of_mem hy
  obtain ⟨next, k, hnode⟩ := node_of_beside_previous (f := bs.head?) hsize (by rw [hgroup]; exact hne)
    (htogether.previous hne hgroup)
  have hprinted : printed (xs ++ e :: (as ++ y :: bs)) =
      printedObjects none (xs ++ e :: as) (some y) ++
        (y, .node next k y.size y.revs) :: printedObjects (some y) bs none := by
    have hlast : (xs ++ e :: as).getLast? = as.getLast?.or (some e) := by
      rw [List.getLast?_append, getLast?_cons_or]
    rw [← List.cons_append, ← List.append_assoc, printed, printedObjects_at, hlast, hnode]
    rfl
  obtain ⟨g, hg, front, e', between, hunder, -⟩ := h _ _ _ _ _ _ _ hprinted
  -- the heading comes from an object that is the first of the group as well
  obtain ⟨he', hg', xs', ys', heq, hxs'⟩ := heading_first htogether (h := e') (g := g) (by
    rw [← printed, hprinted, hunder]
    simp)
  have heg : e.group = some g := hgroup ▸ hg
  rw [heg] at hxs
  have hsame : e = e' := first_unique (P := fun x => x.group = some g) heq heg hg' hxs hxs'
  exact he' (hsame ▸ he)

/-! ## The ends of the trees -/

theorem closing_is_last (htogether : Together KVSListEntry.group list) {k : List Char}
    {size revs : Nat} (h : printed list = above ++ (o, .node false k size revs) :: below) :
    ∀ x ∈ below, x.2.isObject = true → x.1.group ≠ o.group := by
  obtain ⟨xs, ys, u, v, rfl, hprint, -, rfl⟩ := printedObjects_split h
  rw [Option.or_none, Option.or_none] at hprint
  obtain ⟨rfl, hnext, g, hg, -⟩ := node_split hprint
  intro x hx _
  have hys : ∀ y ∈ ys, y.group ≠ o.group :=
    Together.last htogether.right (by simp [hg]) fun n hn hgroup => by
      simpa using hnext.mpr ⟨n, hn, hgroup⟩
  exact hys x.1 (mem_of_printed hx)

theorem treesClosed_of_lastsLive (hlive : LastsLive list) : TreesClosed list := by
  intro above o next k size revs below h hlast
  have hsize : o.size ≠ 0 := size_ne_zero_of_split h
  obtain ⟨xs, ys, u, v, rfl, hprint, -, rfl⟩ := printedObjects_split h
  rw [Option.or_none, Option.or_none] at hprint
  obtain ⟨rfl, hnext, g, hg, -⟩ := node_split hprint
  by_contra htrue
  obtain ⟨n, hn, hgroup⟩ := hnext.mp (by simpa using htrue)
  obtain ⟨as, z, bs, rfl, hz, hbs⟩ :=
    exists_last (P := fun y => y.group = o.group) ⟨n, List.mem_of_head? hn, hgroup⟩
  by_cases hzsize : z.size = 0
  · refine hsize (hlive (xs ++ o :: as) z bs (by simp) (by simp [hz, hg]) ?_ hzsize o (by simp) hz.symm)
    rw [hz]
    exact hbs
  · obtain ⟨line, hmem, hobject⟩ :=
      exists_printed (some o) none (show z ∈ as ++ z :: bs by simp) hzsize
    exact hlast (z, line) hmem hobject hz

theorem lastsLive_of_treesClosed (htogether : Together KVSListEntry.group list)
    (hclosed : TreesClosed list) : LastsLive list := by
  rintro xs e ys rfl hne hys he x hx hgroup
  by_contra hsize
  obtain ⟨as, z, bs, rfl, ⟨hz, hzsize⟩, hbs⟩ :=
    exists_last (P := fun x => x.group = e.group ∧ x.size ≠ 0) ⟨x, hx, hgroup, hsize⟩
  rw [List.append_assoc, List.cons_append] at htogether hclosed
  have hzne : z.group ≠ none := by rw [hz]; exact hne
  have hbeside : Beside (bs ++ e :: ys).head? z := by
    have hnext := htogether.next hzne hz.symm
    rwa [← Option.or_none (o := (bs ++ e :: ys).head?), head?_append_or]
  obtain ⟨u, k, hnode⟩ := node_of_beside_following (p := as.getLast?) hzsize hzne hbeside
  have hprinted : printed (as ++ z :: (bs ++ e :: ys)) =
      (printedObjects none as (some z) ++ u.map (z, ·)) ++
        (z, .node true k z.size z.revs) :: printedObjects (some z) (bs ++ e :: ys) none := by
    rw [printed, printedObjects_at, hnode, List.map_append]
    simp
  have hfalse := hclosed _ _ _ _ _ _ _ hprinted fun y hy hobject hyz => by
    have hylive := size_ne_zero_of_printed hy
    rcases List.mem_append.mp (mem_of_printed hy) with hybs | hye
    · exact hbs y.1 hybs ⟨hyz.trans hz, hylive⟩
    · rcases List.mem_cons.mp hye with hye | hyys
      · exact hylive (hye ▸ he)
      · exact hys y.1 hyys (hyz.trans hz)
  cases hfalse

/-- **When the listing is a tree**: every line is right, and every node is under its
heading, exactly when no group has lost its first object and kept another. The trees
are closed exactly when no group has lost its last object and kept another. -/
theorem printFlashSummary_tree_iff (list : List KVSListEntry)
    (htogether : Together KVSListEntry.group list) :
    (TreeListing list ↔ FirstsLive list) ∧ (TreesClosed list ↔ LastsLive list) := by
  refine ⟨⟨fun h => firstsLive_of_beneath htogether h.beneath, fun h => ?_⟩,
    lastsLive_of_treesClosed htogether, treesClosed_of_lastsLive⟩
  exact {
    lines := printFlashSummary_dropLast list
    objects := printedObjects_objects none none list
    shows := fun x hx hobject => printed_shows hx hobject
    beneath := fun above o next k size revs below heq => node_beneath htogether h heq
    heading_once := fun above o g below heq => heading_not_below htogether heq
    closing_last := fun above o k size revs below heq => closing_is_last htogether heq }

/-- The objects of the time client with the sizes given. -/
def ntpObjects (enable server tzoffset : Nat) : List KVSListEntry :=
  [⟨"ntp.enable".toList, enable, 2⟩, ⟨"ntp.server".toList, server, 1⟩,
    ⟨"ntp.tzoffset".toList, tzoffset, 1⟩]

theorem ntpObjects_group (enable server tzoffset : Nat) :
    ∀ o ∈ ntpObjects enable server tzoffset, o.group = some "ntp".toList := by
  intro o ho
  simp only [ntpObjects, List.mem_cons, List.not_mem_nil, or_false] at ho
  rcases ho with rfl | rfl | rfl <;> rfl

/-- The object in the middle is deleted. -/
theorem printFlashSummary_tree_ntp : TreeListing (ntpObjects 1 0 8) := by
  refine (printFlashSummary_tree_iff (ntpObjects 1 0 8)
    (together_of_forall (ntpObjects_group 1 0 8))).1.mpr ?_
  intro xs o ys heq _ hxs hsize
  have hgroup := ntpObjects_group 1 0 8
  cases xs with
  | nil =>
    cases heq
    cases hsize
  | cons x xs =>
    have hx : x ∈ ntpObjects 1 0 8 := by simp [heq]
    have ho : o ∈ ntpObjects 1 0 8 := by simp [heq]
    exact absurd ((hgroup x hx).trans (hgroup o ho).symm) (hxs x List.mem_cons_self)

/-- The first object is deleted, and what is left of the group has no heading. -/
theorem printFlashSummary_headless : Together KVSListEntry.group (ntpObjects 0 4 8) ∧
    PrintFlashSummary (ntpObjects 0 4 8) =
      [.node true "server".toList 4 1, .node false "tzoffset".toList 8 1, .total 3 0 1] ∧
    ¬ TreeListing (ntpObjects 0 4 8) := by
  refine ⟨together_of_forall (ntpObjects_group 0 4 8), by decide, fun h => ?_⟩
  obtain ⟨g, -, front, e, between, hunder, -⟩ :=
    h.beneath [] ⟨"ntp.server".toList, 4, 1⟩ true "server".toList 4 1 _ rfl
  simp at hunder

/-! ## Reading the listing -/

/-- What a reader makes of the lines. `group` is the last heading. -/
def readListing (group : List Char) : List Line → List KVSListEntry
  | [] => []
  | .heading g :: lines => readListing g lines
  | .node _ k size revs :: lines => ⟨group ++ '.' :: k, size, revs⟩ :: readListing group lines
  | .entry key size revs :: lines => ⟨key, size, revs⟩ :: readListing group lines
  | .total .. :: lines => readListing group lines

def lastHeading (group : List Char) : List Line → List Char
  | [] => group
  | .heading g :: lines => lastHeading g lines
  | _ :: lines => lastHeading group lines

theorem lastHeading_append (group : List Char) (xs ys : List Line) :
    lastHeading group (xs ++ ys) = lastHeading (lastHeading group xs) ys := by
  induction xs generalizing group with
  | nil => rfl
  | cons line xs ih =>
    cases line with
    | heading g => exact ih g
    | node next k size revs => exact ih group
    | entry key size revs => exact ih group
    | total nfound kB hundredths => exact ih group

theorem heading_names {x : KVSListEntry × Line} {g : List Char} (h : x ∈ printed list)
    (hline : x.2 = .heading g) : x.1.group = some g := by
  obtain ⟨xs, ys, -, hmem⟩ := mem_printedObjects h
  rw [hline] at hmem
  exact (heading_mem hmem).1

/-- Between the heading and the node the reader meets no other heading. -/
theorem lastHeading_of_under (group : List Char) {g : List Char} (hmem : ∀ x ∈ above, x ∈ printed list)
    (h : UnderHeading g above) : lastHeading group (above.map Prod.snd) = g := by
  obtain ⟨front, e, between, rfl, hgroup⟩ := h
  rw [List.map_append, lastHeading_append]
  show lastHeading g (between.map Prod.snd) = g
  have hbetween : ∀ x ∈ between, x ∈ printed list := fun x hx => hmem x (by simp [hx])
  clear hmem
  induction between with
  | nil => rfl
  | cons x rest ih =>
    have hrest := ih (fun y hy => hgroup y (List.mem_cons_of_mem x hy))
      (fun y hy => hbetween y (List.mem_cons_of_mem x hy))
    obtain ⟨o, line⟩ := x
    cases line with
    | heading g' =>
      have hnames := heading_names (hbetween _ List.mem_cons_self) rfl
      have hg : some g' = some g := hnames.symm.trans (hgroup _ List.mem_cons_self)
      cases hg
      exact hrest
    | node next k size revs => exact hrest
    | entry key size revs => exact hrest
    | total nfound kB hundredths => exact hrest

theorem readListing_of_tree (h : TreeListing list) (group : List Char)
    (above below : List (KVSListEntry × Line)) (last : Line)
    (hlast : ∀ group, readListing group [last] = []) (heq : printed list = above ++ below) :
    readListing (lastHeading group (above.map Prod.snd)) (below.map Prod.snd ++ [last]) =
      (below.filter fun x => x.2.isObject).map Prod.fst := by
  induction below generalizing above with
  | nil => exact hlast _
  | cons x rest ih =>
    have hrest := ih (above ++ [x]) (by rw [heq]; simp)
    rw [List.map_append, lastHeading_append] at hrest
    have hmem : x ∈ printed list := by simp [heq]
    have habove : ∀ y ∈ above, y ∈ printed list := fun y hy => by simp [heq, hy]
    obtain ⟨o, line⟩ := x
    cases line with
    | heading g => exact hrest
    | total nfound kB hundredths => exact hrest
    | entry key size revs =>
      have hshows : Shows o (.entry key size revs) := h.shows _ hmem rfl
      cases hshows
      exact congrArg (List.cons o) hrest
    | node next k size revs =>
      obtain ⟨g, hg, hunder⟩ := h.beneath above o next k size revs rest heq
      have hheading := lastHeading_of_under group habove hunder
      have hshows : Shows o (.node next k size revs) := h.shows _ hmem rfl
      cases hshows with
      | node _ g' k hgroup hkey =>
        rw [hgroup] at hg
        cases hg
        have hread : (⟨g ++ '.' :: k, o.size, o.revs⟩ : KVSListEntry) = o := by rw [← hkey]
        rw [hheading] at hrest ⊢
        show (⟨g ++ '.' :: k, o.size, o.revs⟩ : KVSListEntry) :: readListing g _ = o :: _
        rw [hread]
        exact congrArg (List.cons o) hrest

/-- The lines, and then the total. -/
theorem printFlashSummary_lines (list : List KVSListEntry) : ∃ nfound kB hundredths,
    PrintFlashSummary list = (printed list).map Prod.snd ++ [.total nfound kB hundredths] :=
  ⟨_, _, _, by rw [PrintFlashSummary, printed, printedObjects_lines]⟩

/-- A tree tells every object with content, with its key, its size and its revisions. -/
theorem readListing_printFlashSummary (h : TreeListing list) (group : List Char) :
    readListing group (PrintFlashSummary list) = list.filter fun o => o.size ≠ 0 := by
  obtain ⟨nfound, kB, hundredths, hlines⟩ := printFlashSummary_lines list
  rw [hlines, ← h.objects]
  exact readListing_of_tree h group [] (printed list) _ (fun _ => rfl) rfl

theorem readListing_append (group : List Char) (xs ys : List Line) :
    readListing group (xs ++ ys) =
      readListing group xs ++ readListing (lastHeading group xs) ys := by
  induction xs generalizing group with
  | nil => rfl
  | cons line xs ih =>
    cases line with
    | heading g => exact ih g
    | node next k size revs => exact congrArg (List.cons _) (ih group)
    | entry key size revs => exact congrArg (List.cons _) (ih group)
    | total nfound kB hundredths => exact ih group

theorem readListing_length (group : List Char) (above : List (KVSListEntry × Line)) :
    (readListing group (above.map Prod.snd)).length =
      ((above.filter fun x => x.2.isObject).map Prod.fst).length := by
  induction above generalizing group with
  | nil => rfl
  | cons x above ih =>
    obtain ⟨o, line⟩ := x
    cases line with
    | heading g => exact ih g
    | node next k size revs => exact congrArg Nat.succ (ih group)
    | entry key size revs => exact congrArg Nat.succ (ih group)
    | total nfound kB hundredths => exact ih group

theorem lastHeading_mem (group : List Char) (above : List (KVSListEntry × Line)) :
    lastHeading group (above.map Prod.snd) = group ∨
      ∃ h, (h, .heading (lastHeading group (above.map Prod.snd))) ∈ above := by
  induction above generalizing group with
  | nil => exact .inl rfl
  | cons x above ih =>
    obtain ⟨o, line⟩ := x
    cases line with
    | heading g =>
      right
      rw [List.map_cons, lastHeading]
      rcases ih g with hsame | ⟨h, hh⟩
      · rw [hsame]
        exact ⟨o, List.mem_cons_self⟩
      · exact ⟨h, List.mem_cons_of_mem _ hh⟩
    | node next k size revs | entry key size revs | total nfound kB hundredths =>
      exact (ih group).imp_right fun ⟨h, hh⟩ => ⟨h, List.mem_cons_of_mem _ hh⟩

/-- A node is read in the group of the last heading. -/
theorem group_of_read (hread : ∀ group,
      readListing group (PrintFlashSummary list) = list.filter fun o => o.size ≠ 0)
    {next : Bool} {k : List Char} (hsplit : printed list =
      above ++ (o, .node next k o.size o.revs) :: below) (group : List Char) :
    o.key = lastHeading group (above.map Prod.snd) ++ '.' :: k := by
  obtain ⟨nfound, kB, hundredths, hlines⟩ := printFlashSummary_lines list
  have hlist := hread group
  rw [hlines, ← printedObjects_objects none none list] at hlist
  change readListing group ((printed list).map Prod.snd ++ _) =
    ((printed list).filter _).map Prod.fst at hlist
  rw [hsplit, List.map_append, List.append_assoc, readListing_append, List.filter_append,
    List.map_append] at hlist
  obtain ⟨-, htail⟩ := List.append_inj hlist (readListing_length group above)
  have hhead := (List.cons.inj htail).1
  exact (congrArg KVSListEntry.key hhead).symm

/-- Between a heading and a member of its group there are members only. -/
theorem under_of_heading_mem (htogether : Together KVSListEntry.group list) {line : Line}
    {g : List Char} {h : KVSListEntry} (hsplit : printed list = above ++ (o, line) :: below)
    (hg : o.group = some g) (hmem : (h, .heading g) ∈ above) : UnderHeading g above := by
  obtain ⟨front, between, rfl⟩ := List.append_of_mem hmem
  refine ⟨front, h, between, rfl, ?_⟩
  rw [List.append_assoc, List.cons_append] at hsplit
  obtain ⟨xs, ys, u, v, rfl, hprint, -, hbelow⟩ := printedObjects_split hsplit
  obtain ⟨hh, -, -⟩ := heading_mem (mem_of_split hprint)
  intro x hx
  rcases append_split hbelow.symm with ⟨tail, hmap, -⟩ | ⟨init, rfl, hrest⟩
  · have hx : x ∈ v.map (h, ·) := by
      rw [hmap]
      exact List.mem_append_left _ hx
    obtain ⟨line', -, rfl⟩ := List.mem_map.mp hx
    exact hh
  · obtain ⟨as, bs, u', v', rfl, -, rfl, -⟩ := printedObjects_split hrest
    rcases List.mem_append.mp hx with hv | hinit
    · obtain ⟨line', -, rfl⟩ := List.mem_map.mp hv
      exact hh
    · rcases List.mem_append.mp hinit with has | hu
      · have hall := htogether xs h as o bs rfl (by simp [hh]) (hg.trans hh.symm)
        exact (hall x.1 (mem_of_printed has)).trans hh
      · obtain ⟨line', -, rfl⟩ := List.mem_map.mp hu
        exact hg

/-- **When the listing can be read back**: whatever was printed above it, the objects
with content can be told from the lines exactly when no group has lost its first object
and kept another. -/
theorem printFlashSummary_readable_iff (list : List KVSListEntry)
    (htogether : Together KVSListEntry.group list) :
    (∀ group, readListing group (PrintFlashSummary list) = list.filter fun o => o.size ≠ 0) ↔
      FirstsLive list := by
  constructor
  · intro hread
    refine firstsLive_of_beneath htogether fun above o next k size revs below hsplit => ?_
    have hmem : (o, .node next k size revs) ∈ printed list := by simp [hsplit]
    have hshows : Shows o (.node next k size revs) := printed_shows hmem rfl
    cases hshows with
    | node _ g k hgroup hkey =>
      refine ⟨g, hgroup, ?_⟩
      -- no group has a dot in its name
      have hdot : '.' ∉ g := (group_eq_some_iff.mp hgroup).1
      have hlast := group_of_read hread hsplit ['.']
      rw [hkey] at hlast
      have hg : g = lastHeading ['.'] (above.map Prod.snd) := List.append_cancel_right hlast
      rcases lastHeading_mem ['.'] above with hnone | ⟨h, hheading⟩
      · rw [hg, hnone] at hdot
        exact absurd List.mem_cons_self hdot
      · rw [← hg] at hheading
        exact under_of_heading_mem htogether hsplit hgroup hheading
  · intro hlive
    exact readListing_printFlashSummary {
      lines := printFlashSummary_dropLast list
      objects := printedObjects_objects none none list
      shows := fun x hx hobject => printed_shows hx hobject
      beneath := fun above o next k size revs below heq => node_beneath htogether hlive heq
      heading_once := fun above o g below heq => heading_not_below htogether heq
      closing_last := fun above o k size revs below heq => closing_is_last htogether heq }

theorem firstsLive_of_forall {g : Option (List Char)} {rest : List KVSListEntry}
    (hgroup : ∀ x ∈ o :: rest, x.group = g) (hsize : o.size ≠ 0) : FirstsLive (o :: rest) := by
  intro xs e ys heq _ hxs he
  cases xs with
  | nil =>
    cases heq
    exact absurd he hsize
  | cons x xs =>
    have hx : x ∈ o :: rest := by simp [heq]
    have he : e ∈ o :: rest := by simp [heq]
    exact absurd ((hgroup x hx).trans (hgroup e he).symm) (hxs x List.mem_cons_self)

/-- The object in the middle is deleted. -/
theorem printFlashSummary_readable_ntp :
    readListing [] (PrintFlashSummary (ntpObjects 1 0 8)) =
      [⟨"ntp.enable".toList, 1, 2⟩, ⟨"ntp.tzoffset".toList, 8, 1⟩] :=
  (printFlashSummary_readable_iff (ntpObjects 1 0 8)
    (together_of_forall (ntpObjects_group 1 0 8))).mpr
    (firstsLive_of_forall (ntpObjects_group 1 0 8) (by decide)) []

end EmbeddedPlatform.Cli
