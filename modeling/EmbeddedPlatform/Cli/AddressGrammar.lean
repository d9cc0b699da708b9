import EmbeddedPlatform.Cli.AddressParser

/-! # What the address parsers accept

Both parsers accumulate runs of digits between separators, modulo 2^32. They take
the strings of the dotted quad notation, and some more. -/
namespace EmbeddedPlatform.Cli
open EmbeddedPlatform.Lib

/-! ## Runs of digits -/

def Digits (f : List UInt8) : Prop := ∀ c ∈ f, isdigit c = true

/-- The number that a run of digits denotes. -/
def decimal (f : List UInt8) : Nat := f.foldl (fun v c => v * 10 + (c - 48).toNat) 0

/-- What `fields[nfield]` becomes. -/
def accumulate (v : UInt32) (c : UInt8) : Option UInt32 :=
  if isdigit c then some (v * 10 + (c - 48).toUInt32) else none

section
variable {f : List UInt8} {v : UInt32}

theorem foldlM_accumulate (hf : Digits f) (n : Nat) :
    f.foldlM accumulate (.ofNat n) =
      some (.ofNat (f.foldl (fun v c => v * 10 + (c - 48).toNat) n)) := by
  induction f generalizing n with
  | nil => rfl
  | cons c f ih =>
    obtain ⟨hc, hf⟩ := List.forall_mem_cons.mp hf
    have hstep : accumulate (.ofNat n) c = some (.ofNat (n * 10 + (c - 48).toNat)) := by
      unfold accumulate
      rw [if_pos hc, UInt32.ofNat_add, UInt32.ofNat_mul, UInt32.ofNat_uInt8ToNat]
      rfl
    show (accumulate (.ofNat n) c).bind (fun v => f.foldlM accumulate v) = _
    rw [hstep]
    exact ih hf _

/-- The value of a field is the number modulo 2^32. -/
theorem accumulate_decimal (hf : Digits f) : f.foldlM accumulate 0 = some (.ofNat (decimal f)) :=
  foldlM_accumulate hf 0

theorem digits_of_accumulate {u : UInt32} (h : f.foldlM accumulate u = some v) : Digits f := by
  induction f generalizing u with
  | nil => exact List.forall_mem_nil _
  | cons c f ih =>
    obtain ⟨w, hw, hrest⟩ := Option.bind_eq_some_iff.mp h
    refine List.forall_mem_cons.mpr ⟨?_, ih hrest⟩
    unfold accumulate at hw
    split at hw
    · assumption
    · cases hw

end

/-! ## The scanners -/

def dots : List UInt8 := [dot, dot, dot]
def dotsAndSlash : List UInt8 := [dot, dot, dot, slash]

theorem isdigit_dotsAndSlash : ∀ c ∈ dotsAndSlash, isdigit c = false := by
  have hall : dotsAndSlash.all (fun c => !isdigit c) = true := by decide
  intro c hc
  exact Bool.not_eq_true' _ ▸ List.all_eq_true.mp hall c hc

theorem isdigit_dots (c : UInt8) (hc : c ∈ dots) : isdigit c = false :=
  isdigit_dotsAndSlash c (List.mem_append_left [slash] hc)

theorem getElem?_dots (n : Nat) (c : UInt8) : dots[n]? = some c ↔ c = dot ∧ n < 3 := by
  match n with
  | 0 | 1 | 2 => exact ⟨fun h => ⟨(Option.some.inj h).symm, by decide⟩, fun h => congrArg some h.1.symm⟩
  | n + 3 => exact ⟨nofun, fun h => absurd h.2 (by omega)⟩

theorem getElem?_dotsAndSlash (n : Nat) (c : UInt8) :
    dotsAndSlash[n]? = some c ↔ (c = dot ∧ n < 3) ∨ (c = slash ∧ n = 3) := by
  match n with
  | 0 | 1 | 2 =>
    exact ⟨fun h => .inl ⟨(Option.some.inj h).symm, by decide⟩,
      fun h => h.elim (fun h => congrArg some h.1.symm) fun h => absurd h.2 (by decide)⟩
  | 3 =>
    exact ⟨fun h => .inr ⟨(Option.some.inj h).symm, rfl⟩,
      fun h => h.elim (fun h => absurd h.2 (by decide)) fun h => congrArg some h.1.symm⟩
  | n + 4 => exact ⟨nofun, fun h => h.elim (fun h => absurd h.2 (by omega)) fun h => absurd h.2 (by omega)⟩

theorem parseAddress_eq : parseAddress = FieldScan.step dots accumulate := by
  funext s c
  unfold parseAddress FieldScan.step
  simp only [getElem?_dots]
  refine if_congr Iff.rfl rfl ?_
  unfold accumulate
  split <;> rfl

theorem parseWithSubnet_eq : parseWithSubnet = FieldScan.step dotsAndSlash accumulate := by
  funext s c
  unfold parseWithSubnet FieldScan.step accumulate
  simp only [getElem?_dotsAndSlash]
  by_cases hdot : c = dot ∧ s.nfield < 3
  · rw [if_pos hdot, if_pos (.inl hdot)]
  · rw [if_neg hdot]
    refine if_congr ⟨.inr, fun h => h.resolve_left hdot⟩ rfl ?_
    split <;> rfl

section
variable {seps : List UInt8} {f : Nat → List UInt8} {st : ParseState}

theorem separate_of_not_digit (h : ∀ c ∈ seps, isdigit c = false) :
    FieldScan.Separate seps accumulate := by
  intro c hc v
  unfold accumulate
  rw [h c hc, if_neg Bool.false_ne_true]

/-- The values of the fields, as the scanners leave them. -/
def values (n : Nat) (f : Nat → List UInt8) : ParseState :=
  .upTo n (fun j => .ofNat (decimal (f j))) 0

theorem values_fields {n j : Nat} (hj : j ≤ n) (f : Nat → List UInt8) :
    (values n f).fields j = .ofNat (decimal (f j)) := if_pos hj

theorem scan_joinFields (seps : List UInt8) (hsep : ∀ c ∈ seps, isdigit c = false)
    (hf : ∀ j ≤ seps.length, Digits (f j)) :
    (joinFields f 0 seps).foldlM (FieldScan.step seps accumulate) (.start 0) =
      some (values seps.length f) := by
  have hjoin := FieldScan.scan_join (separate_of_not_digit hsep) (Nat.le_refl _)
    fun j hj => accumulate_decimal (hf j hj)
  rwa [List.take_length] at hjoin

/-- A string is fields between the separators, or not all of them are met. -/
theorem scan_cases (seps s : List UInt8) :
    (∃ f, s = joinFields f 0 seps ∧ ∀ j ≤ seps.length, Digits (f j)) ∨
      ∀ st, s.foldlM (FieldScan.step seps accumulate) (.start 0) = some st →
        st.nfield ≠ seps.length := by
  refine Classical.or_iff_not_imp_right.mpr fun h => ?_
  simp only [not_forall, not_not] at h
  obtain ⟨st, hst, hfield⟩ := h
  obtain ⟨-, f, hs, hf, -⟩ := FieldScan.hasRead_of_scan hst
  rw [hfield, List.take_length] at hs
  exact ⟨f, hs, fun j hj => digits_of_accumulate (hf j (hfield ▸ hj))⟩

end

/-- A parser that fails unless it is given what it should take. -/
theorem accepts_iff {α : Type} {P : Prop} {r : Bool × α} {x : α} (hcases : P ∨ r = (false, x))
    (hP : P → r.1 = true) : r.1 = true ↔ P := by
  refine ⟨fun h => hcases.resolve_right fun hfalse => ?_, hP⟩
  rw [hfalse] at h
  cases h

/-! ## Addresses -/

/-- Four fields with dots between them. -/
def quad (f : Nat → List UInt8) : List UInt8 :=
  f 0 ++ dot :: (f 1 ++ dot :: (f 2 ++ dot :: f 3))

/-- The fields that `ParseIPAddress` takes. -/
def Passes (f : Nat → List UInt8) : Prop :=
  ∀ i : Fin 4, Digits (f i) ∧ decimal (f i) % UInt32.size ≤ 255

/-- The octets that it makes of them. -/
def octets (f : Nat → List UInt8) : IPv4Address := ⟨fun i => (UInt32.ofNat (decimal (f i))).toUInt8⟩

section
variable {f : Nat → List UInt8} {s : List UInt8}

theorem toNat_ofNat (n : Nat) : (UInt32.ofNat n).toNat = n % UInt32.size := UInt32.toNat_ofNat'

theorem octets_toNat {i : Fin 4} (h : decimal (f i) % UInt32.size ≤ 255) :
    ((octets f).m_octets i).toNat = decimal (f i) % UInt32.size := by
  show (UInt32.ofNat (decimal (f i))).toUInt8.toNat = _
  rw [UInt32.toNat_toUInt8, toNat_ofNat]
  exact Nat.mod_eq_of_lt (Nat.lt_succ_of_le h)

theorem lt_ofNat_iff (n : Nat) : (255 : UInt32) < .ofNat n ↔ ¬ n % UInt32.size ≤ 255 := by
  rw [UInt32.lt_iff_toNat_lt, toNat_ofNat, Nat.not_le]
  exact Iff.rfl

theorem setIP_values {n : Nat} (hn : 3 ≤ n) (f : Nat → List UInt8) : setIP (values n f) = octets f :=
  IPv4Address.ext (funext fun i =>
    congrArg UInt32.toUInt8 (values_fields (Nat.le_trans (Nat.le_of_lt_succ i.isLt) hn) f))

/-- Some octet is out of range. -/
theorem exists_lt_values {n : Nat} (hn : 3 ≤ n) (f : Nat → List UInt8) :
    (∃ i : Fin 4, 255 < (values n f).fields i) ↔ ¬ ∀ i : Fin 4, decimal (f i) % UInt32.size ≤ 255 := by
  rw [not_forall]
  refine exists_congr fun i => ?_
  rw [values_fields (Nat.le_trans (Nat.le_of_lt_succ i.isLt) hn) f]
  exact lt_ofNat_iff _

theorem parseIPAddress_fields (hf : ∀ i : Fin 4, Digits (f i)) (ip : IPv4Address) :
    ParseIPAddress (quad f) ip =
      if ∀ i : Fin 4, decimal (f i) % UInt32.size ≤ 255 then (true, octets f) else (false, ip) := by
  have hscan : (quad f).foldlM parseAddress (.start 0) = some (values 3 f) := by
    rw [parseAddress_eq]
    exact scan_joinFields dots isdigit_dots fun j hj => hf ⟨j, Nat.lt_succ_of_le hj⟩
  have hfield : ¬ (values 3 f).nfield ≠ 3 := not_not.mpr rfl
  unfold ParseIPAddress
  rw [hscan]
  dsimp only
  rw [if_neg hfield, setIP_values (Nat.le_refl 3)]
  by_cases hrange : ∀ i : Fin 4, decimal (f i) % UInt32.size ≤ 255
  · rw [if_pos hrange, if_neg (by rwa [exists_lt_values (Nat.le_refl 3), not_not])]
  · rw [if_neg hrange, if_pos (by rwa [exists_lt_values (Nat.le_refl 3)])]

theorem parseIPAddress_quad (hf : Passes f) (ip : IPv4Address) :
    ParseIPAddress (quad f) ip = (true, octets f) :=
  (parseIPAddress_fields (fun i => (hf i).1) ip).trans (if_pos fun i => (hf i).2)

/-- **What `ParseIPAddress` refuses** leaves the address as it is. -/
theorem parseIPAddress_cases (s : List UInt8) (ip : IPv4Address) :
    (∃ f, s = quad f ∧ Passes f) ∨ ParseIPAddress s ip = (false, ip) := by
  rcases scan_cases dots s with ⟨f, hs, hf⟩ | hfield
  · have hf (i : Fin 4) : Digits (f i) := hf i (Nat.le_of_lt_succ i.isLt)
    by_cases hrange : ∀ i : Fin 4, decimal (f i) % UInt32.size ≤ 255
    · exact .inl ⟨f, hs, fun i => ⟨hf i, hrange i⟩⟩
    · rw [hs]
      exact .inr ((parseIPAddress_fields hf ip).trans (if_neg hrange))
  · refine .inr ?_
    unfold ParseIPAddress
    rw [parseAddress_eq]
    cases hscan : s.foldlM (FieldScan.step dots accumulate) (.start 0) with
    | none => rfl
    | some st => exact if_pos (hfield st hscan)

theorem parseIPAddress_iff {ip : IPv4Address} :
    (ParseIPAddress s ip).1 = true ↔ ∃ f, s = quad f ∧ Passes f := by
  refine accepts_iff (parseIPAddress_cases s ip) ?_
  rintro ⟨f, rfl, hf⟩
  rw [parseIPAddress_quad hf]

end

/-! ## Addresses with the length of the netmask -/

/-- Four fields with dots between them, and a fifth one behind a slash. -/
def quadWithSubnet (f : Nat → List UInt8) : List UInt8 := quad f ++ slash :: f 4

/-- The field that `ParseIPAddressWithSubnet` takes as a length. -/
def PassesLength (m : List UInt8) : Prop :=
  Digits m ∧ 1 ≤ decimal m % UInt32.size ∧ decimal m % UInt32.size ≤ 32

def PassesWithSubnet (f : Nat → List UInt8) : Prop := Passes f ∧ PassesLength (f 4)

/-- The mask of a length. -/
def maskOf (m : List UInt8) : UInt32 := 0xffffffff <<< (32 - UInt32.ofNat (decimal m))

section
variable {f : Nat → List UInt8} {s : List UInt8}

theorem length_out_of_range_iff (m : List UInt8) :
    ((32 : UInt32) < .ofNat (decimal m) ∨ UInt32.ofNat (decimal m) = 0) ↔
      ¬ (1 ≤ decimal m % UInt32.size ∧ decimal m % UInt32.size ≤ 32) := by
  have hzero : UInt32.ofNat (decimal m) = 0 ↔ decimal m % UInt32.size = 0 := by
    rw [← UInt32.toNat_inj, toNat_ofNat]
    exact Iff.rfl
  have hlt : (32 : UInt32) < .ofNat (decimal m) ↔ 32 < decimal m % UInt32.size := by
    rw [UInt32.lt_iff_toNat_lt, toNat_ofNat]
    exact Iff.rfl
  rw [hzero, hlt]
  omega

theorem quadWithSubnet_eq (f : Nat → List UInt8) :
    quadWithSubnet f = joinFields f 0 dotsAndSlash :=
  (joinFields_append_singleton f 0 dots slash).symm

theorem parseWithSubnet_fields (hf : ∀ j ≤ 4, Digits (f j)) (ip : IPv4Address) (mask : UInt32) :
    ParseIPAddressWithSubnet (quadWithSubnet f) ip mask =
      if (∀ i : Fin 4, decimal (f i) % UInt32.size ≤ 255) ∧
          1 ≤ decimal (f 4) % UInt32.size ∧ decimal (f 4) % UInt32.size ≤ 32
      then (true, octets f, maskOf (f 4)) else (false, ip, mask) := by
  have hscan : (quadWithSubnet f).foldlM parseWithSubnet (.start 0) = some (values 4 f) := by
    rw [parseWithSubnet_eq, quadWithSubnet_eq]
    exact scan_joinFields dotsAndSlash isdigit_dotsAndSlash hf
  have hfield : ¬ (values 4 f).nfield ≠ 4 := not_not.mpr rfl
  unfold ParseIPAddressWithSubnet
  rw [hscan]
  dsimp only
  rw [if_neg hfield, setIP_values (by decide), values_fields (Nat.le_refl 4)]
  have hrange_iff := exists_lt_values (n := 4) (by decide) f
  have hlength_iff := length_out_of_range_iff (f 4)
  by_cases hrange : ∀ i : Fin 4, decimal (f i) % UInt32.size ≤ 255
  · rw [if_neg (mt hrange_iff.mp (not_not.mpr hrange))]
    by_cases hlength : 1 ≤ decimal (f 4) % UInt32.size ∧ decimal (f 4) % UInt32.size ≤ 32
    · rw [if_neg (mt hlength_iff.mp (not_not.mpr hlength)), if_pos ⟨hrange, hlength⟩]
      rfl
    · rw [if_pos (hlength_iff.mpr hlength), if_neg fun h => hlength h.2]
  · rw [if_pos (hrange_iff.mpr hrange), if_neg fun h => hrange h.1]

theorem parseWithSubnet_quad (hf : PassesWithSubnet f) (ip : IPv4Address) (mask : UInt32) :
    ParseIPAddressWithSubnet (quadWithSubnet f) ip mask = (true, octets f, maskOf (f 4)) := by
  have hdigits (j : Nat) (hj : j ≤ 4) : Digits (f j) := by
    rcases Nat.lt_or_eq_of_le hj with hj | rfl
    · exact (hf.1 ⟨j, hj⟩).1
    · exact hf.2.1
  exact (parseWithSubnet_fields hdigits ip mask).trans (if_pos ⟨fun i => (hf.1 i).2, hf.2.2⟩)

/-- **What `ParseIPAddressWithSubnet` refuses** leaves the address and the mask as
they are. -/
theorem parseWithSubnet_cases (s : List UInt8) (ip : IPv4Address) (mask : UInt32) :
    (∃ f, s = quadWithSubnet f ∧ PassesWithSubnet f) ∨
      ParseIPAddressWithSubnet s ip mask = (false, ip, mask) := by
  rcases scan_cases dotsAndSlash s with ⟨f, hs, hf⟩ | hfield
  · rw [← quadWithSubnet_eq] at hs
    by_cases hrange : (∀ i : Fin 4, decimal (f i) % UInt32.size ≤ 255) ∧
        1 ≤ decimal (f 4) % UInt32.size ∧ decimal (f 4) % UInt32.size ≤ 32
    · refine .inl ⟨f, hs, fun i => ⟨hf i ?_, hrange.1 i⟩, hf 4 (Nat.le_refl 4), hrange.2⟩
      exact Nat.le_of_lt (i.isLt)
    · rw [hs]
      exact .inr ((parseWithSubnet_fields hf ip mask).trans (if_neg hrange))
  · refine .inr ?_
    unfold ParseIPAddressWithSubnet
    rw [parseWithSubnet_eq]
    cases hscan : s.foldlM (FieldScan.step dotsAndSlash accumulate) (.start 0) with
    | none => rfl
    | some st => exact if_pos (hfield st hscan)

theorem parseWithSubnet_iff {ip : IPv4Address} {mask : UInt32} :
    (ParseIPAddressWithSubnet s ip mask).1 = true ↔
      ∃ f, s = quadWithSubnet f ∧ PassesWithSubnet f := by
  refine accepts_iff (parseWithSubnet_cases s ip mask) ?_
  rintro ⟨f, rfl, hf⟩
  rw [parseWithSubnet_quad hf]

end

end EmbeddedPlatform.Cli
