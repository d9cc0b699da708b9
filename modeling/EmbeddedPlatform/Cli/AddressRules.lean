import Mathlib.Data.Nat.Bitwise
import EmbeddedPlatform.Cli.AddressGrammar

/-! # Addresses that are what they say

A string in dotted quad notation is taken for the address it denotes. So are some
others: a field may be empty, and a number may be too great by a multiple of 2^32.
The two parsers agree on all of them, and a configuration is set as a whole. -/
namespace EmbeddedPlatform.Cli
open EmbeddedPlatform.Lib

section
variable {f g : Nat → List UInt8}

theorem notMem_of_digits {seps l : List UInt8} (hsep : ∀ c ∈ seps, isdigit c = false)
    (hl : Digits l) : ∀ c ∈ l, c ∉ seps := by
  intro c hc hmem
  have hdigit := hl c hc
  rw [hsep c hmem] at hdigit
  cases hdigit

/-- The fields of an address are unique. -/
theorem quad_unique (hf : ∀ i : Fin 4, Digits (f i)) (hg : ∀ i : Fin 4, Digits (g i))
    (h : quad f = quad g) (i : Fin 4) : f i = g i := by
  have hjoin : joinFields f 0 dots = joinFields g 0 dots := h
  refine joinFields_unique (fun j hj => ?_) (fun j hj => ?_) hjoin (Nat.le_of_lt_succ i.isLt)
  · exact notMem_of_digits isdigit_dots (hf ⟨j, Nat.lt_succ_of_le hj⟩)
  · exact notMem_of_digits isdigit_dots (hg ⟨j, Nat.lt_succ_of_le hj⟩)

theorem quadWithSubnet_unique (hf : ∀ j ≤ 4, Digits (f j)) (hg : ∀ j ≤ 4, Digits (g j))
    (h : quadWithSubnet f = quadWithSubnet g) {j : Nat} (hj : j ≤ 4) : f j = g j := by
  rw [quadWithSubnet_eq, quadWithSubnet_eq] at h
  exact joinFields_unique (fun j hj => notMem_of_digits isdigit_dotsAndSlash (hf j hj))
    (fun j hj => notMem_of_digits isdigit_dotsAndSlash (hg j hj)) h hj

end

/-! ## The grammar -/

/-- Four non-empty runs of digits, each for a number of 255 at most. -/
def IsQuad (f : Nat → List UInt8) : Prop :=
  ∀ i : Fin 4, f i ≠ [] ∧ Digits (f i) ∧ decimal (f i) ≤ 255

/-- A run of digits for a number from 1 to 32. -/
def IsLength (m : List UInt8) : Prop := m ≠ [] ∧ Digits m ∧ 1 ≤ decimal m ∧ decimal m ≤ 32

/-- An address is taken if it is in dotted quad notation, and for what it denotes. -/
def AddressRule (s : List UInt8) : Prop :=
  ∀ ip, ((ParseIPAddress s ip).1 = true ↔ ∃ f, s = quad f ∧ IsQuad f) ∧
    ∀ f, s = quad f → IsQuad f →
      ∀ i : Fin 4, ((ParseIPAddress s ip).2.m_octets i).toNat = decimal (f i)

/-- The same with the length of the netmask behind it. -/
def SubnetRule (s : List UInt8) : Prop :=
  ∀ ip mask,
    ((ParseIPAddressWithSubnet s ip mask).1 = true ↔
      ∃ f, s = quadWithSubnet f ∧ IsQuad f ∧ IsLength (f 4)) ∧
    ∀ f, s = quadWithSubnet f → IsQuad f → IsLength (f 4) →
      ∀ i : Fin 4, ((ParseIPAddressWithSubnet s ip mask).2.1.m_octets i).toNat = decimal (f i)

section
variable {f g : Nat → List UInt8} {s m : List UInt8}

theorem IsQuad.mod {i : Fin 4} (h : IsQuad f) : decimal (f i) % UInt32.size = decimal (f i) :=
  Nat.mod_eq_of_lt (Nat.lt_of_le_of_lt (h i).2.2 (by decide))

theorem IsQuad.passes (h : IsQuad f) : Passes f :=
  fun i => ⟨(h i).2.1, h.mod.symm ▸ (h i).2.2⟩

theorem Passes.isQuad (h : Passes f) (hf : ∀ i : Fin 4, f i ≠ [] ∧ decimal (f i) < UInt32.size) :
    IsQuad f := by
  intro i
  have hrange := (h i).2
  rw [Nat.mod_eq_of_lt (hf i).2] at hrange
  exact ⟨(hf i).1, (h i).1, hrange⟩

theorem IsLength.passes (h : IsLength m) : PassesLength m := by
  have hmod : decimal m % UInt32.size = decimal m :=
    Nat.mod_eq_of_lt (Nat.lt_of_le_of_lt h.2.2.2 (by decide))
  exact ⟨h.2.1, hmod.symm ▸ h.2.2⟩

theorem PassesLength.isLength (h : PassesLength m) (hm : decimal m < UInt32.size) : IsLength m := by
  have hrange := h.2
  rw [Nat.mod_eq_of_lt hm] at hrange
  refine ⟨?_, h.1, hrange⟩
  rintro rfl
  exact absurd hrange.1 (by decide)

theorem IsQuad.octets (h : IsQuad f) (i : Fin 4) :
    ((octets f).m_octets i).toNat = decimal (f i) :=
  (octets_toNat (h.passes i).2).trans h.mod

theorem addressRule_iff (s : List UInt8) :
    AddressRule s ↔ ∀ f, s = quad f → Passes f →
      ∀ i : Fin 4, f i ≠ [] ∧ decimal (f i) < UInt32.size := by
  constructor
  · rintro h f rfl hf i
    obtain ⟨g, hg, hquad⟩ := (h ⟨fun _ => 0⟩).1.mp (parseIPAddress_iff.mpr ⟨f, rfl, hf⟩)
    rw [quad_unique (fun i => (hf i).1) (fun i => (hquad i).2.1) hg i]
    exact ⟨(hquad i).1, Nat.lt_of_le_of_lt (hquad i).2.2 (by decide)⟩
  · intro h ip
    refine ⟨parseIPAddress_iff.trans (exists_congr fun f => and_congr_right fun hs => ?_), ?_⟩
    · exact ⟨fun hf => hf.isQuad (h f hs hf), IsQuad.passes⟩
    · rintro f rfl hf i
      rw [parseIPAddress_quad hf.passes]
      exact hf.octets i

theorem PassesWithSubnet.digits (h : PassesWithSubnet f) : ∀ j ≤ 4, Digits (f j) := by
  intro j hj
  rcases Nat.lt_or_eq_of_le hj with hj | rfl
  · exact (h.1 ⟨j, hj⟩).1
  · exact h.2.1

theorem subnetRule_iff (s : List UInt8) :
    SubnetRule s ↔ ∀ f, s = quadWithSubnet f → PassesWithSubnet f →
      (∀ i : Fin 4, f i ≠ [] ∧ decimal (f i) < UInt32.size) ∧ decimal (f 4) < UInt32.size := by
  constructor
  · rintro h f rfl hf
    obtain ⟨g, hg, hquad, hlength⟩ := (h ⟨fun _ => 0⟩ 0).1.mp (parseWithSubnet_iff.mpr ⟨f, rfl, hf⟩)
    have heq := fun j => quadWithSubnet_unique (j := j) hf.digits
      (PassesWithSubnet.digits ⟨hquad.passes, hlength.passes⟩) hg
    refine ⟨fun i => ?_, ?_⟩
    · rw [heq i (Nat.le_of_lt i.isLt)]
      exact ⟨(hquad i).1, Nat.lt_of_le_of_lt (hquad i).2.2 (by decide)⟩
    · rw [heq 4 (Nat.le_refl 4)]
      exact Nat.lt_of_le_of_lt hlength.2.2.2 (by decide)
  · intro h ip mask
    refine ⟨parseWithSubnet_iff.trans (exists_congr fun f => and_congr_right fun hs => ?_), ?_⟩
    · refine ⟨fun hf => ?_, fun hf => ⟨hf.1.passes, hf.2.passes⟩⟩
      obtain ⟨hfields, hlength⟩ := h f hs hf
      exact ⟨hf.1.isQuad hfields, hf.2.isLength hlength⟩
    · rintro f rfl hquad hlength i
      rw [parseWithSubnet_quad ⟨hquad.passes, hlength.passes⟩]
      exact hquad.octets i

/-- **Where the notation is met exactly**: unless an empty field is taken for 0, or a
number for what is left of it modulo 2^32. -/
theorem addresses_exact_iff (s : List UInt8) :
    (AddressRule s ↔ ∀ f, s = quad f → Passes f →
      ∀ i : Fin 4, f i ≠ [] ∧ decimal (f i) < UInt32.size) ∧
    (SubnetRule s ↔ ∀ f, s = quadWithSubnet f → PassesWithSubnet f →
      (∀ i : Fin 4, f i ≠ [] ∧ decimal (f i) < UInt32.size) ∧ decimal (f 4) < UInt32.size) :=
  ⟨addressRule_iff s, subnetRule_iff s⟩

/-- Three dots are an address. -/
theorem dots_are_taken : ¬ AddressRule [dot, dot, dot] := by
  intro h
  obtain ⟨f, hf, hquad⟩ := (h ⟨fun _ => 9⟩).1.mp (by decide)
  have hlen := congrArg List.length hf
  have hpos : 0 < (f 0).length := List.length_pos_of_ne_nil (hquad 0).1
  simp only [quad, List.length_append, List.length_cons, List.length_nil] at hlen
  omega

end

/-! ## The two parsers -/

section
variable {f : Nat → List UInt8} {s a m : List UInt8}

/-- The bits of the mask, from the bottom. -/
theorem maskOf_testBit (hm : PassesLength m) (k : Nat) :
    (maskOf m).toNat.testBit k = decide (32 - decimal m % UInt32.size ≤ k ∧ k < 32) := by
  have hlen : (UInt32.ofNat (decimal m)).toNat = decimal m % UInt32.size := toNat_ofNat _
  have hle : UInt32.ofNat (decimal m) ≤ 32 := UInt32.le_iff_toNat_le.mpr (hlen ▸ hm.2.2)
  have hshift : (32 - UInt32.ofNat (decimal m)).toNat = 32 - decimal m % UInt32.size := by
    rw [UInt32.toNat_sub_of_le _ _ hle, hlen]
    rfl
  have hlt : 32 - decimal m % UInt32.size < 32 := Nat.sub_lt (by decide) hm.2.1
  have hones : (0xffffffff : UInt32).toNat = 2 ^ 32 - 1 := rfl
  unfold maskOf
  rw [UInt32.toNat_shiftLeft, hshift, Nat.mod_eq_of_lt hlt, hones, Nat.testBit_mod_two_pow,
    Nat.testBit_shiftLeft, Nat.testBit_two_pow_sub_one]
  grind

/-- An address with a length behind it. -/
theorem quadWithSubnet_update (f : Nat → List UInt8) (m : List UInt8) :
    quadWithSubnet (Function.update f 4 m) = quad f ++ slash :: m := rfl

theorem passes_update (f : Nat → List UInt8) (m : List UInt8) :
    Passes (Function.update f 4 m) ↔ Passes f := by
  refine forall_congr' fun i => ?_
  rw [Function.update_of_ne (Nat.ne_of_lt i.isLt)]

theorem octets_update (f : Nat → List UInt8) (m : List UInt8) :
    octets (Function.update f 4 m) = octets f :=
  IPv4Address.ext (funext fun i =>
    congrArg (fun l => (UInt32.ofNat (decimal l)).toUInt8)
      (Function.update_of_ne (Nat.ne_of_lt i.isLt) ..))

/-- What is read of an address with a length behind it. -/
theorem parseWithSubnet_of_address (hf : Passes f) (hm : PassesLength m) (ip : IPv4Address)
    (mask : UInt32) :
    ParseIPAddressWithSubnet (quad f ++ slash :: m) ip mask = (true, octets f, maskOf m) := by
  have hpasses : PassesWithSubnet (Function.update f 4 m) :=
    ⟨(passes_update f m).mpr hf, by rwa [Function.update_self]⟩
  have hparse := parseWithSubnet_quad hpasses ip mask
  rwa [quadWithSubnet_update, octets_update, Function.update_self] at hparse

/-- **The two parsers agree**, and what either refuses leaves its arguments alone. -/
theorem parsers_agree (s : List UInt8) (ip : IPv4Address) (mask : UInt32) :
    ((ParseIPAddressWithSubnet s ip mask).1 = true ↔
      ∃ a m, s = a ++ slash :: m ∧ (ParseIPAddress a ip).1 = true ∧ Digits m ∧
        1 ≤ decimal m % UInt32.size ∧ decimal m % UInt32.size ≤ 32) ∧
    (∀ a m, s = a ++ slash :: m → (ParseIPAddress a ip).1 = true → Digits m →
      1 ≤ decimal m % UInt32.size → decimal m % UInt32.size ≤ 32 →
        (ParseIPAddressWithSubnet s ip mask).2.1 = (ParseIPAddress a ip).2 ∧
        ∀ k, (ParseIPAddressWithSubnet s ip mask).2.2.toNat.testBit k =
          decide (32 - decimal m % UInt32.size ≤ k ∧ k < 32)) ∧
    ((ParseIPAddressWithSubnet s ip mask).1 = false →
      (ParseIPAddressWithSubnet s ip mask).2 = (ip, mask)) ∧
    ((ParseIPAddress s ip).1 = false → (ParseIPAddress s ip).2 = ip) := by
  refine ⟨parseWithSubnet_iff.trans ⟨?_, ?_⟩, ?_, fun h => ?_, fun h => ?_⟩
  · rintro ⟨f, rfl, hf, hm⟩
    exact ⟨quad f, f 4, rfl, parseIPAddress_iff.mpr ⟨f, rfl, hf⟩, hm⟩
  · rintro ⟨a, m, rfl, ha, hm⟩
    obtain ⟨f, rfl, hf⟩ := parseIPAddress_iff.mp ha
    refine ⟨Function.update f 4 m, (quadWithSubnet_update f m).symm, (passes_update f m).mpr hf, ?_⟩
    rwa [Function.update_self]
  · rintro a m rfl ha hm hpos hle
    obtain ⟨f, rfl, hf⟩ := parseIPAddress_iff.mp ha
    have hlength : PassesLength m := ⟨hm, hpos, hle⟩
    rw [parseWithSubnet_of_address hf hlength, parseIPAddress_quad hf]
    exact ⟨rfl, maskOf_testBit hlength⟩
  · rcases parseWithSubnet_cases s ip mask with ⟨f, rfl, hf⟩ | hfalse
    · rw [parseWithSubnet_quad hf] at h
      cases h
    · rw [hfalse]
  · rcases parseIPAddress_cases s ip with ⟨f, rfl, hf⟩ | hfalse
    · rw [parseIPAddress_quad hf] at h
      cases h
    · rw [hfalse]

end

/-! ## The configuration -/

/-- A bit of an address, from the top. -/
def IPv4Address.bit (ip : IPv4Address) (j : Fin 32) : Bool :=
  (ip.m_octets ⟨j / 8, by omega⟩).toNat.testBit (7 - j % 8)

/-- The first `n` bits and no others. -/
def IsMask (ip : IPv4Address) (n : Nat) : Prop := n ≤ 32 ∧ ∀ j, ip.bit j = decide ((j : Nat) < n)

/-- What is set is what is given, or nothing is set. -/
def ConfigRule (s : List UInt8) : Prop :=
  ∀ g_ipConfig, SetIPAddress s g_ipConfig = (false, g_ipConfig) ∨
    ∃ f config, SetIPAddress s g_ipConfig = (true, config) ∧ s = quadWithSubnet f ∧
      (∀ j ≤ 4, Digits (f j)) ∧ IsMask config.m_netmask (decimal (f 4)) ∧
      (∀ i : Fin 4, (config.m_address.m_octets i).toNat = decimal (f i)) ∧
      (∀ j : Fin 32, config.m_broadcast.bit j =
        if (j : Nat) < decimal (f 4) then config.m_address.bit j else true) ∧
      config.m_gateway = g_ipConfig.m_gateway

section
variable {f : Nat → List UInt8} {m : List UInt8}

theorem maskOctets_toNat (mask : UInt32) (i : Fin 4) :
    ((maskOctets mask).m_octets i).toNat = mask.toNat >>> (24 - 8 * (i : Nat)) % 2 ^ 8 := by
  have hoctet (shift : UInt32) :
      (mask >>> shift).toUInt8.toNat = mask.toNat >>> (shift.toNat % 32) % 2 ^ 8 := by
    rw [UInt32.toNat_toUInt8, UInt32.toNat_shiftRight]
  match i with
  | 0 => exact hoctet 24
  | 1 => exact hoctet 16
  | 2 => exact hoctet 8
  | 3 => exact hoctet 0

theorem maskOctets_bit (mask : UInt32) (j : Fin 32) :
    (maskOctets mask).bit j = mask.toNat.testBit (31 - (j : Nat)) := by
  have hbit : 7 - (j : Nat) % 8 < 8 := by omega
  have hplace : 24 - 8 * ((j : Nat) / 8) + (7 - (j : Nat) % 8) = 31 - (j : Nat) := by omega
  unfold IPv4Address.bit
  rw [maskOctets_toNat, Nat.testBit_mod_two_pow, Nat.testBit_shiftRight, decide_eq_true hbit,
    Bool.true_and, hplace]

theorem isMask_maskOctets (hm : PassesLength m) :
    IsMask (maskOctets (maskOf m)) (decimal m % UInt32.size) := by
  refine ⟨hm.2.2, fun j => ?_⟩
  rw [maskOctets_bit, maskOf_testBit hm, decide_eq_decide]
  have hj := j.isLt
  omega

/-- The address where the mask has ones, and ones elsewhere. -/
theorem broadcast_bit (address mask : IPv4Address) (j : Fin 32) :
    IPv4Address.bit ⟨fun i => address.m_octets i ||| ~~~mask.m_octets i⟩ j =
      (address.bit j || !mask.bit j) := by
  have hbit : 7 - (j : Nat) % 8 < 8 := by omega
  have hnot (x : UInt8) : (~~~x).toNat = 2 ^ 8 - (x.toNat + 1) := by
    rw [UInt8.toNat_not, Nat.sub_sub, Nat.add_comm]
    rfl
  unfold IPv4Address.bit
  dsimp only
  rw [UInt8.toNat_or, Nat.testBit_or, hnot, Nat.testBit_two_pow_sub_succ (UInt8.toNat_lt _),
    decide_eq_true hbit, Bool.true_and]

theorem setIPAddress_quad (hf : PassesWithSubnet f) (g_ipConfig : IPv4Config) :
    SetIPAddress (quadWithSubnet f) g_ipConfig = (true,
      { g_ipConfig with
        m_address := octets f
        m_netmask := maskOctets (maskOf (f 4))
        m_broadcast :=
          ⟨fun i => (octets f).m_octets i ||| ~~~(maskOctets (maskOf (f 4))).m_octets i⟩ }) := by
  unfold SetIPAddress
  rw [parseWithSubnet_quad hf]
  rfl

/-- A configuration is set, for the numbers modulo 2^32, or it stays as it is. -/
theorem setIPAddress_cases (s : List UInt8) (g_ipConfig : IPv4Config) :
    (∃ f, s = quadWithSubnet f ∧ PassesWithSubnet f) ∨
      SetIPAddress s g_ipConfig = (false, g_ipConfig) := by
  rcases parseWithSubnet_cases s g_ipConfig.m_address 0 with hf | hfalse
  · exact .inl hf
  · refine .inr ?_
    unfold SetIPAddress
    rw [hfalse]
    rfl

/-- **Where the configuration is what is given**: unless a number is taken for what is
left of it modulo 2^32. -/
theorem configRule_iff (s : List UInt8) :
    ConfigRule s ↔ ∀ f, s = quadWithSubnet f → PassesWithSubnet f →
      ∀ j ≤ 4, decimal (f j) < UInt32.size := by
  constructor
  · rintro h f rfl hf j hj
    let g_ipConfig : IPv4Config := ⟨⟨fun _ => 0⟩, ⟨fun _ => 0⟩, ⟨fun _ => 0⟩, ⟨fun _ => 0⟩⟩
    rcases h g_ipConfig with hset | ⟨g, config, hset, hg, hdigits, hmask, haddress, -⟩
    · rw [setIPAddress_quad hf] at hset
      cases hset
    · rw [quadWithSubnet_unique hf.digits hdigits hg hj]
      rcases Nat.lt_or_eq_of_le hj with hj | rfl
      · rw [← haddress ⟨j, hj⟩]
        exact Nat.lt_trans (UInt8.toNat_lt _) (by decide)
      · exact Nat.lt_of_le_of_lt hmask.1 (by decide)
  · intro h g_ipConfig
    rcases setIPAddress_cases s g_ipConfig with ⟨f, rfl, hf⟩ | hfalse
    · have hmod (j : Nat) (hj : j ≤ 4) : decimal (f j) % UInt32.size = decimal (f j) :=
        Nat.mod_eq_of_lt (h f rfl hf j hj)
      have hmask := isMask_maskOctets hf.2
      rw [hmod 4 (Nat.le_refl 4)] at hmask
      refine .inr ⟨f, _, setIPAddress_quad hf g_ipConfig, rfl, hf.digits, hmask, fun i => ?_,
        fun j => ?_, rfl⟩
      · exact (octets_toNat (hf.1 i).2).trans (hmod i (Nat.le_of_lt i.isLt))
      · show IPv4Address.bit ⟨_⟩ j = _
        rw [broadcast_bit, hmask.2]
        by_cases hj : (j : Nat) < decimal (f 4)
        · rw [decide_eq_true hj, if_pos hj, Bool.not_true, Bool.or_false]
        · rw [decide_eq_false hj, if_neg hj, Bool.not_false, Bool.or_true]
    · exact .inl hfalse

/-- The fields of 1.2.3.4/4294967320. -/
def overlongFields (j : Nat) : List UInt8 :=
  [[49], [50], [51], [52], [52, 50, 57, 52, 57, 54, 55, 51, 50, 48]].getD j []

/-- It is taken for 1.2.3.4/24. -/
theorem overlong_length_is_taken : ¬ ConfigRule (quadWithSubnet overlongFields) := by
  intro h
  have hall : ∀ j ≤ 4, (overlongFields j).all isdigit = true := by decide
  have hdigits : ∀ j ≤ 4, Digits (overlongFields j) := fun j hj => List.all_eq_true.mp (hall j hj)
  rcases h ⟨⟨fun _ => 0⟩, ⟨fun _ => 0⟩, ⟨fun _ => 0⟩, ⟨fun _ => 0⟩⟩ with
    hset | ⟨f, config, -, hf, hfdigits, hmask, -⟩
  · have htaken := congrArg Prod.fst hset
    revert htaken
    decide +kernel
  · have hle := hmask.1
    have hlength : decimal (overlongFields 4) = 4294967320 := by decide +kernel
    rw [← quadWithSubnet_unique hdigits hfdigits hf (Nat.le_refl 4), hlength] at hle
    exact absurd hle (by decide)

end

end EmbeddedPlatform.Cli
