import Mathlib.Data.ZMod.Basic
import EmbeddedPlatform.Fpga.HostSignature

/-! # A reference for the curve library

What signing and verifying rely on can be had: over the field of the curve, for
any group of its order whose points have unique packed encodings. -/
namespace EmbeddedPlatform.Fpga
open EmbeddedPlatform.Lib

/-! ## The field -/

/-- 2^255 - 19 -/
def fieldPrime : Nat :=
  57896044618658097711785492504343953926634992332820282019728792003956564819949

/-- The order of the base point. -/
def groupOrder : Nat :=
  7237005577332262213973186563042994240857116359379907606001950938285454250989

abbrev Coordinate := ZMod fieldPrime

instance : NeZero fieldPrime := ⟨by decide⟩

def littleEndian {m : Nat} (n : Nat) : Bytes m := fun i => .ofNat (n / 256 ^ (i : Nat))

theorem value_littleEndian {m n : Nat} (h : n < 256 ^ m) :
    Bytes.value (littleEndian n : Bytes m) = n := by
  have hdigits : Bytes.value (littleEndian n : Bytes m) =
      limbValue 256 fun i : Fin m => n / 256 ^ (i : Nat) % 256 := rfl
  rw [hdigits, limbValue_digits, Nat.mod_eq_of_lt h]

/-- A coordinate from its bytes; the sign bit is not one of it. -/
def coordinate (b : Bytes 32) : Coordinate := (Bytes.value b % 2 ^ 255 : Nat)

theorem coordinate_littleEndian (v : Coordinate) : coordinate (littleEndian v.val) = v := by
  have hlt := ZMod.val_lt v
  have hprime : fieldPrime < 2 ^ 255 := by decide
  unfold coordinate
  rw [value_littleEndian (by omega), Nat.mod_eq_of_lt (by omega), ZMod.natCast_zmod_val]

/-! ## The group -/

/-- The point that is meant, if there is one. -/
noncomputable def pointOf {G : Type} (P : G → Prop) : Option G :=
  open Classical in if h : ∃ g, P g then some h.choose else none

theorem pointOf_eq {G : Type} {P : G → Prop} {g : G} (hg : P g) (hunique : ∀ k, P k → k = g) :
    pointOf P = some g := by
  have h : ∃ g, P g := ⟨g, hg⟩
  unfold pointOf
  rw [dif_pos h, hunique _ h.choose_spec]

/-- A curve in the encoding of the library. -/
def curve25519 {G : Type} (x y : G → Coordinate) (B : G) : EdwardsCurve Coordinate G where
  x := x
  y := y
  bytes v := littleEndian v.val
  parity v := .ofNat (v.val % 2)
  B := B
  order := groupOrder

namespace EdwardsCurve

variable {G : Type} {E : EdwardsCurve Coordinate G}

theorem projective_coordinates (E : EdwardsCurve Coordinate G) (g : G) :
    E.Projective id (E.coordinates g) g :=
  ⟨1, isUnit_one, fun _ => (mul_one _).symm⟩

/-- Points with the same coordinates have the same encoding. -/
theorem eq_of_coordinates (hunique : Function.Injective E.encode) {g k : G} (hx : E.x g = E.x k)
    (hy : E.y g = E.y k) : g = k := by
  refine hunique ?_
  unfold encode
  rw [hx, hy]

theorem Projective.unique (hunique : Function.Injective E.encode) {p : Fin 4 → Coordinate} {g k : G}
    (hg : E.Projective id p g) (hk : E.Projective id p k) : g = k := by
  obtain ⟨z, hz, hg⟩ := hg
  obtain ⟨w, -, hk⟩ := hk
  obtain rfl : z = w := by
    have hone : 1 * z = 1 * w := (hg 2).symm.trans (hk 2)
    rwa [one_mul, one_mul] at hone
  exact eq_of_coordinates hunique (hz.mul_right_cancel ((hg 0).symm.trans (hk 0)))
    (hz.mul_right_cancel ((hg 1).symm.trans (hk 1)))

theorem pointOf_projective (hunique : Function.Injective E.encode) {p : Fin 4 → Coordinate} {g : G}
    (hg : E.Projective id p g) : pointOf (E.Projective id p) = some g :=
  pointOf_eq hg fun _ hk => hk.unique hunique hg

/-- The blocks that the accelerator gives for a point. -/
def blocks (E : EdwardsCurve Coordinate G) (g : G) (i : Fin 4) : Bytes 32 :=
  littleEndian (E.coordinates g i).val

theorem projective_blocks (E : EdwardsCurve Coordinate G) (g : G) :
    E.Projective id (fun i => coordinate (blocks E g i)) g := by
  have hblocks : (fun i => coordinate (blocks E g i)) = E.coordinates g :=
    funext fun i => coordinate_littleEndian (E.coordinates g i)
  rw [hblocks]
  exact E.projective_coordinates g

/-- The sign bit is above the bits of the coordinate. -/
theorem sign_bit : ∀ b < 128, ∀ p < 2,
    (UInt8.ofNat b ^^^ UInt8.ofNat p <<< 7).toNat = b + 128 * p := by decide +kernel

theorem val_lt_pow (v : Coordinate) : v.val < 256 ^ 31 * 128 :=
  Nat.lt_trans (ZMod.val_lt v) (by decide)

theorem encode_top {x y : G → Coordinate} {B : G} (g : G) :
    ((curve25519 x y B).encode g 31).toNat = (y g).val / 256 ^ 31 + 128 * ((x g).val % 2) := by
  have htop : (y g).val / 256 ^ 31 < 128 := Nat.div_lt_of_lt_mul (val_lt_pow (y g))
  have hparity : (x g).val % 2 < 2 := Nat.mod_lt _ (by decide)
  unfold encode
  rw [Function.update_self]
  exact sign_bit _ htop _ hparity

/-- Equal encodings have equal coordinates, the first up to its sign bit. -/
theorem encode_eq {x y : G → Coordinate} {B : G} {g k : G}
    (h : (curve25519 x y B).encode g = (curve25519 x y B).encode k) :
    y g = y k ∧ (x g).val % 2 = (x k).val % 2 := by
  have htop := congrArg UInt8.toNat (congrFun h 31)
  rw [encode_top, encode_top] at htop
  have hg : (y g).val / 256 ^ 31 < 128 := Nat.div_lt_of_lt_mul (val_lt_pow (y g))
  have hk : (y k).val / 256 ^ 31 < 128 := Nat.div_lt_of_lt_mul (val_lt_pow (y k))
  have hbytes : (littleEndian (y g).val : Bytes 32) = littleEndian (y k).val := by
    funext i
    by_cases hi : i = 31
    · subst hi
      have hdiv : (y g).val / 256 ^ 31 = (y k).val / 256 ^ 31 := by omega
      exact congrArg UInt8.ofNat hdiv
    · have hrest := congrFun h i
      unfold encode at hrest
      rw [Function.update_of_ne hi, Function.update_of_ne hi] at hrest
      exact hrest
  refine ⟨?_, by omega⟩
  rw [← coordinate_littleEndian (y g), hbytes, coordinate_littleEndian]

/-- A coordinate and its opposite differ in parity, as the prime is odd. -/
theorem eq_of_parity {u v : Coordinate} (h : u = v ∨ u = -v) (hparity : u.val % 2 = v.val % 2) :
    u = v := by
  obtain h | rfl := h
  · exact h
  · by_cases hv : v = 0
    · rw [hv, neg_zero]
    · rw [ZMod.neg_val, if_neg hv] at hparity
      have hlt := ZMod.val_lt v
      have hodd : fieldPrime % 2 = 1 := by decide
      omega

/-- **Encodings are unique** when a point is known by its coordinates, and the
first of them by the other up to its sign. -/
theorem encode_injective {x y : G → Coordinate} {B : G}
    (hxy : ∀ g k, x g = x k → y g = y k → g = k)
    (hy : ∀ g k, y g = y k → x g = x k ∨ x g = -x k) :
    Function.Injective (curve25519 x y B).encode := by
  intro g k h
  obtain ⟨hyeq, hparity⟩ := encode_eq h
  exact hxy g k (eq_of_parity (hy g k hyeq) hparity) hyeq

end EdwardsCurve

section
variable {G : Type} [AddCommGroup G]

/-- The operations, by what they are for. -/
noncomputable def reference (E : EdwardsCurve Coordinate G)
    (crypto_hash : {n : Nat} → Bytes n → Bytes 64) : Curve25519 Coordinate where
  crypto_hash := crypto_hash
  reduce b := Fin.append (littleEndian (Bytes.value b % groupOrder)) fun _ : Fin 32 => 0
  modL x := littleEndian (limbsValue x % groupOrder)
  unpack25519 := coordinate
  pack25519 v := littleEndian v.val
  inv25519 v := v⁻¹
  M u v := u * v
  par25519 v := .ofNat (v.val % 2)
  add p q := ((pointOf (E.Projective id p)).bind fun g =>
    (pointOf (E.Projective id q)).map fun k => E.coordinates (g + k)).getD p
  pack p := ((pointOf (E.Projective id p)).map E.encode).getD fun _ => 0
  unpackneg b := (pointOf fun g => E.encode g = b).map fun g => E.coordinates (-g)
  crypto_verify_32 u v := if u = v then 0 else -1
  scalarmult e q0 q1 := ((pointOf fun g => coordinate q0 = E.x g ∧ coordinate q1 = E.y g).map
    fun g => E.blocks (Bytes.value e • g)).getD fun _ _ => 0
  scalarbase e _ := E.blocks (Bytes.value e • E.B)

/-- **The operations meet what is relied on.** -/
theorem implements_reference {x y : G → Coordinate} {B : G} (hB : groupOrder • B = 0)
    (hunique : Function.Injective (curve25519 x y B).encode)
    (crypto_hash : {n : Nat} → Bytes n → Bytes 64) :
    Implements (reference (curve25519 x y B) crypto_hash) (curve25519 x y B) id where
  order_base := hB
  modL x _ := by
    have hlt : limbsValue x % groupOrder < groupOrder := Nat.mod_lt _ (by decide)
    exact value_littleEndian (Nat.lt_trans hlt (by decide))
  pack25519 _ := rfl
  unpack25519 := coordinate_littleEndian
  inv25519 a ha := ZMod.mul_inv_of_unit a ha
  M _ _ := rfl
  par25519 _ := rfl
  add p q g k hg hk := by
    unfold reference
    dsimp only
    rw [EdwardsCurve.pointOf_projective hunique hg, EdwardsCurve.pointOf_projective hunique hk]
    exact EdwardsCurve.projective_coordinates _ _
  pack p g hg := by
    unfold reference
    dsimp only
    rw [EdwardsCurve.pointOf_projective hunique hg]
    rfl
  unpackneg g := by
    have hpoint := pointOf_eq (P := fun k => (curve25519 x y B).encode k =
      (curve25519 x y B).encode g) rfl fun k hk => hunique hk
    refine ⟨(curve25519 x y B).coordinates (-g), ?_, rfl, rfl⟩
    unfold reference
    dsimp only
    rw [hpoint]
    rfl
  crypto_verify_32 u v := by
    show (if u = v then (0 : Int) else -1) = 0 ↔ u = v
    split
    · rename_i huv
      exact ⟨fun _ => huv, fun _ => rfl⟩
    · rename_i huv
      exact ⟨nofun, fun h => absurd h huv⟩
  scalarmult e q0 q1 g hx hy := by
    have hpoint := pointOf_eq (P := fun k => coordinate q0 = (curve25519 x y B).x k ∧
      coordinate q1 = (curve25519 x y B).y k) ⟨hx, hy⟩ fun k hk =>
        EdwardsCurve.eq_of_coordinates hunique (hk.1.symm.trans hx) (hk.2.symm.trans hy)
    unfold reference
    dsimp only
    rw [hpoint]
    exact EdwardsCurve.projective_blocks _ _
  scalarbase e := EdwardsCurve.projective_blocks _ _

end

/-! ## A signature -/

/-- A multiple of the base point and its coordinates. -/
structure KnownPoint where
  scalar : ZMod groupOrder
  x : Coordinate
  y : Coordinate

instance : NeZero groupOrder := ⟨by decide⟩

/-- The points of one signature: the neutral one and the base point, the public key
and its opposite, the commitment, and the two whose sum that is. -/
def knownPoints : List KnownPoint :=
  [⟨0, 0, 1⟩,
    ⟨1,
      15112221349535400772501151409588531511454012693041857206046113283949847762202,
      46316835694926478169428394003475163141307993866256225615783033603165251855960⟩,
    ⟨7196903412274038802701538263280187907152860435200743670699908441353638128764,
      38815646466658113194383306759739515082307681141926459231621296960732224964046,
      11903303657706407974989296177215005343713679411332034699907763981919547054807⟩,
    ⟨40102165058223411271648299762806333704255924179163935302042496931816122225,
      19080398151999984517402185744604438844327311190893822788107495043224339855903,
      11903303657706407974989296177215005343713679411332034699907763981919547054807⟩,
    ⟨4250190425609519033762804219052131665164931043705351345350911458412355776652,
      20123734661785918436278770699929957180849550984064639799392105615992921958798,
      46332978706030522579161407767518229282638720621484133950645979818543659335936⟩,
    ⟨4240017396218627121426361982169124859667717063101141492248260454460536599353,
      9095940209977919772895554397478989735779330304287049436340963507796554263904,
      47325629066307885786515576505347556500791062542299999876872646530848578754821⟩,
    ⟨10173029390891912336442236883006805497213980604209853102651003951819177299,
      29933870946923211649719770415439571443546794424699518993157609657065098408793,
      46068485734344169683654136577871697312142408223007069800975576421487427862394⟩]

def knownPoint (g : ZMod groupOrder) : Option KnownPoint :=
  knownPoints.find? fun e => e.scalar = g

def knownX (g : ZMod groupOrder) : Coordinate := ((knownPoint g).map KnownPoint.x).getD 0

/-- Points that are not met get coordinates of their own. -/
def knownY (g : ZMod groupOrder) : Coordinate :=
  ((knownPoint g).map KnownPoint.y).getD (g.val + 2 : Nat)

theorem known_or_other (g : ZMod groupOrder) :
    (∃ e ∈ knownPoints, e.scalar = g ∧ knownX g = e.x ∧ knownY g = e.y) ∨
      (knownX g = 0 ∧ knownY g = (g.val + 2 : Nat)) := by
  unfold knownX knownY
  cases h : knownPoint g with
  | none => exact .inr ⟨rfl, rfl⟩
  | some e =>
    have hscalar := List.find?_some h
    exact .inl ⟨e, List.mem_of_find?_eq_some h, of_decide_eq_true hscalar, rfl, rfl⟩

theorem val_other (g : ZMod groupOrder) : ((g.val + 2 : Nat) : Coordinate).val = g.val + 2 := by
  have hlt := ZMod.val_lt g
  have hprime : groupOrder + 2 < fieldPrime := by decide
  rw [ZMod.val_natCast, Nat.mod_eq_of_lt (by omega)]

theorem knownPoints_outside : ∀ e ∈ knownPoints, e.y.val < 2 ∨ groupOrder + 2 ≤ e.y.val := by
  decide +kernel

theorem known_ne_other {e : KnownPoint} (he : e ∈ knownPoints) (g : ZMod groupOrder) :
    e.y ≠ (g.val + 2 : Nat) := by
  intro h
  have hlt := ZMod.val_lt g
  have hval := congrArg ZMod.val h
  rw [val_other] at hval
  have houtside := knownPoints_outside e he
  omega

theorem knownPoints_distinct : ∀ e ∈ knownPoints, ∀ f ∈ knownPoints, e.y = f.y →
    (e.x = f.x ∨ e.x = -f.x) ∧ (e.x = f.x → e.scalar = f.scalar) := by
  decide +kernel

theorem known_distinct {g k : ZMod groupOrder} (h : knownY g = knownY k) :
    (knownX g = knownX k ∨ knownX g = -knownX k) ∧ (knownX g = knownX k → g = k) := by
  obtain ⟨e, he, rfl, hex, hey⟩ | ⟨hgx, hgy⟩ := known_or_other g <;>
    obtain ⟨f, hf, rfl, hfx, hfy⟩ | ⟨hkx, hky⟩ := known_or_other k
  · rw [hex, hfx]
    exact knownPoints_distinct e he f hf (hey.symm.trans (h.trans hfy))
  · exact absurd (hey.symm.trans (h.trans hky)) (known_ne_other he k)
  · exact absurd (hfy.symm.trans (h.symm.trans hgy)) (known_ne_other hf g)
  · have hval := congrArg ZMod.val (hgy.symm.trans (h.trans hky))
    rw [val_other, val_other] at hval
    exact ⟨.inl (hgx.trans hkx.symm), fun _ => ZMod.val_injective _ (Nat.add_right_cancel hval)⟩

/-- The curve as one signature sees it. -/
def knownCurve : EdwardsCurve Coordinate (ZMod groupOrder) := curve25519 knownX knownY 1

theorem knownCurve_encode_injective : Function.Injective knownCurve.encode :=
  EdwardsCurve.encode_injective (fun _ _ hx hy => (known_distinct hy).2 hx)
    fun _ _ hy => (known_distinct hy).1

/-- SHA-512 of what is hashed for the signature: the seed, the second half of its own
hash with the message, and what the signature is of. -/
def knownHash {n : Nat} (_ : Bytes n) : Bytes 64 :=
  littleEndian (
    if n = 32 then
      7496039341941261757086370812145144201687131300977448198326011492468381147072957380151816307945363008053352834963924500125734224656659236037903842577447989
    else if n = 64 then
      10368915725817076311034104363438225429035451772195080085023716655482036165659496187016304618590924507844903172217623178375161392254237309360216624009643371
    else
      10206421018221773520770983251763153810040703704771746409829624049533264928527315495094344272617508882741019155101017085023599181828398836318381076205635976)

def knownSeed : Bytes 32 :=
  ![0x9d, 0x61, 0xb1, 0x9d, 0xef, 0xfd, 0x5a, 0x60, 0xba, 0x84, 0x4a, 0xf4, 0x92, 0xec, 0x2c, 0xc4,
    0x44, 0x49, 0xc5, 0x69, 0x7b, 0x32, 0x69, 0x19, 0x70, 0x3b, 0xac, 0x03, 0x1c, 0xae, 0x7f, 0x60]

def knownKey : Bytes 32 :=
  ![0xd7, 0x5a, 0x98, 0x01, 0x82, 0xb1, 0x0a, 0xb7, 0xd5, 0x4b, 0xfe, 0xd3, 0xc9, 0x64, 0x07, 0x3a,
    0x0e, 0xe1, 0x72, 0xf3, 0xda, 0xa6, 0x23, 0x25, 0xaf, 0x02, 0x1a, 0x68, 0xf7, 0x07, 0x51, 0x1a]

/-- The clamped secret, modulo the order. -/
theorem knownSecret : Bytes.value (slice (clamp (knownHash knownSeed)) 0 32 (by decide)) =
    36144925721603087658594284515452164870581325872720374094707712194495455132720 := by
  decide +kernel

theorem knownKey_eq : knownKey = knownCurve.encode
    (Bytes.value (slice (clamp (knownHash knownSeed)) 0 32 (by decide)) • knownCurve.B) := by
  rw [knownSecret]
  have hB : knownCurve.B = 1 := rfl
  rw [hB, nsmul_one]
  decide +kernel

theorem implements_knownCurve :
    Implements (reference knownCurve knownHash) knownCurve id := by
  refine implements_reference ?_ knownCurve_encode_injective knownHash
  rw [nsmul_one, ZMod.natCast_self]

/-- A signature of the bytes 0, 1, ..., 31. -/
theorem host_signature_verifies_known :
    knownKey = knownCurve.encode
        (Bytes.value (slice (clamp (knownHash knownSeed)) 0 32 (by decide)) • knownCurve.B) ∧
      VerifySignature (reference knownCurve knownHash)
        (Fin.append (SignExchangeHash (reference knownCurve knownHash) knownSeed knownKey
          (fun i => .ofNat i) fun _ => 0) fun i => .ofNat (i : Fin 32))
        knownKey (fun _ => 0) (fun _ => 0) = true :=
  ⟨knownKey_eq, host_signature_verifies implements_knownCurve knownSeed knownKey _ _ _ _ knownKey_eq⟩

end EmbeddedPlatform.Fpga
