import Mathlib.Algebra.Group.Units.Basic
import Mathlib.Algebra.Module.NatInt
import Mathlib.Tactic.Abel
import EmbeddedPlatform.Lib.Limbs
import EmbeddedPlatform.Fpga.AcceleratedCryptoEngine

/-! # Host signatures verify

Signing and verifying put three buffers together for the hash, each in its own
way, and divide the work on the curve between the library and the accelerator.
What they rely on of these is `Implements`; then a signature satisfies the
equation that is checked. -/
namespace EmbeddedPlatform.Fpga
open EmbeddedPlatform.Lib

/-! ## The bignum -/

/-- The little-endian number in some bytes. -/
def Bytes.value {n : Nat} (b : Bytes n) : Nat := limbValue 256 fun i => (b i).toNat

/-- The number in the limbs. -/
def limbsValue (x : Fin 64 → UInt64) : Nat := limbValue 256 fun k => (x k).toNat

/-- No limb of the bignum gets greater. -/
def maxLimb : Nat := 255 + 65025 * 32

section
variable {msgHash privkeyHash : Bytes 64} {i j : Fin 32} {x : Fin 64 → UInt64} {b : Nat}

theorem product_le (u v : UInt8) : u.toNat * v.toNat ≤ 65025 :=
  Nat.mul_le_mul (Nat.le_of_lt_succ u.toNat_lt) (Nat.le_of_lt_succ v.toNat_lt)

/-- A sum that does not wrap around. -/
theorem add_product_toNat {y : UInt64} (hy : y.toNat ≤ b) (hb : b + 65025 < 2 ^ 64) (u v : UInt8) :
    (y + u.toUInt64 * v.toUInt64).toNat = y.toNat + u.toNat * v.toNat := by
  have hle := product_le u v
  rw [UInt64.toNat_add, UInt64.toNat_mul, UInt8.toNat_toUInt64, UInt8.toNat_toUInt64,
    Nat.mod_eq_of_lt (a := u.toNat * v.toNat) (by omega)]
  exact Nat.mod_eq_of_lt (by omega)

theorem addProduct_toNat (hx : (x (limbAt i j)).toNat ≤ b) (hb : b + 65025 < 2 ^ 64) :
    (fun k => (addProduct msgHash privkeyHash i j x k).toNat) =
      Function.update (fun k => (x k).toNat) (limbAt i j)
        ((x (limbAt i j)).toNat + (lowByte msgHash i).toNat * (lowByte privkeyHash j).toNat) := by
  show UInt64.toNat ∘ Function.update x (limbAt i j) (x (limbAt i j) + _ * _) = _
  rw [Function.comp_update, add_product_toNat hx hb]
  rfl

/-- One product is added to the number. -/
theorem addProduct_value (hx : (x (limbAt i j)).toNat ≤ b) (hb : b + 65025 < 2 ^ 64) :
    limbsValue (addProduct msgHash privkeyHash i j x) = limbsValue x +
      (lowByte msgHash i).toNat * (lowByte privkeyHash j).toNat * 256 ^ ((i : Nat) + (j : Nat)) := by
  unfold limbsValue
  rw [addProduct_toNat hx hb]
  exact limbValue_update_add 256 (fun k => (x k).toNat) (limbAt i j) _

theorem addProduct_le (hx : (x (limbAt i j)).toNat ≤ b) (hb : b + 65025 < 2 ^ 64)
    (hall : ∀ k, (x k).toNat ≤ b + 65025) (k : Fin 64) :
    (addProduct msgHash privkeyHash i j x k).toNat ≤ b + 65025 := by
  rw [congrFun (addProduct_toNat hx hb) k]
  by_cases hk : k = limbAt i j
  · rw [hk, Function.update_self]
    exact Nat.add_le_add hx (product_le _ _)
  · rw [Function.update_of_ne hk]
    exact hall k

theorem addProduct_other {j' : Fin 32} (hne : j' ≠ j) :
    addProduct msgHash privkeyHash i j x (limbAt i j') = x (limbAt i j') := by
  refine Function.update_of_ne (fun h => hne (Fin.ext ?_)) _ _
  exact Nat.add_left_cancel (Fin.mk.inj h)

/-- **The inner loop** adds to each limb once at most. -/
theorem inner_value (hb : b + 65025 < 2 ^ 64) {js : List (Fin 32)} (hjs : js.Nodup)
    (hall : ∀ k, (x k).toNat ≤ b + 65025) (hrest : ∀ j ∈ js, (x (limbAt i j)).toNat ≤ b) :
    limbsValue (js.foldl (fun x j => addProduct msgHash privkeyHash i j x) x) = limbsValue x +
        (js.map fun j => (lowByte msgHash i).toNat * (lowByte privkeyHash j).toNat *
          256 ^ ((i : Nat) + (j : Nat))).sum ∧
      ∀ k, (js.foldl (fun x j => addProduct msgHash privkeyHash i j x) x k).toNat ≤ b + 65025 := by
  induction js generalizing x with
  | nil =>
    rw [List.foldl_nil, List.map_nil, List.sum_nil, Nat.add_zero]
    exact ⟨rfl, hall⟩
  | cons j js ih =>
    obtain ⟨hj, hjs⟩ := List.nodup_cons.mp hjs
    obtain ⟨hx, hrest⟩ := List.forall_mem_cons.mp hrest
    have hnext : ∀ j' ∈ js,
        (addProduct msgHash privkeyHash i j x (limbAt i j')).toNat ≤ b := by
      intro j' hj'
      have hne : j' ≠ j := fun h => hj (h ▸ hj')
      rw [addProduct_other hne]
      exact hrest j' hj'
    obtain ⟨hvalue, hle⟩ := ih hjs (addProduct_le hx hb hall) hnext
    rw [List.foldl_cons, List.map_cons, List.sum_cons]
    refine ⟨?_, hle⟩
    rw [hvalue, addProduct_value hx hb, Nat.add_assoc]

/-- **The outer loop.** -/
theorem outer_value {is : List (Fin 32)} (hb : b + 65025 * is.length < 2 ^ 64)
    (hall : ∀ k, (x k).toNat ≤ b) :
    limbsValue (is.foldl (fun x i =>
        (List.finRange 32).foldl (fun x j => addProduct msgHash privkeyHash i j x) x) x) =
      limbsValue x + (is.map fun i => ((List.finRange 32).map fun j =>
        (lowByte msgHash i).toNat * (lowByte privkeyHash j).toNat * 256 ^ ((i : Nat) + (j : Nat))).sum).sum ∧
      ∀ k, (is.foldl (fun x i =>
        (List.finRange 32).foldl (fun x j => addProduct msgHash privkeyHash i j x) x) x k).toNat ≤
          b + 65025 * is.length := by
  induction is generalizing x b with
  | nil =>
    rw [List.foldl_nil, List.map_nil, List.sum_nil, Nat.add_zero]
    exact ⟨rfl, hall⟩
  | cons i is ih =>
    have hbound : b + 65025 + 65025 * is.length = b + 65025 * (i :: is).length := by
      rw [List.length_cons, Nat.mul_add_one, Nat.add_assoc, Nat.add_comm 65025]
    have hall' (k : Fin 64) : (x k).toNat ≤ b + 65025 := Nat.le_add_right_of_le (hall k)
    rw [← hbound] at hb ⊢
    obtain ⟨hvalue, hle⟩ := inner_value (i := i) (Nat.lt_of_le_of_lt (Nat.le_add_right _ _) hb)
      (List.nodup_finRange 32) hall' fun j _ => hall (limbAt i j)
    obtain ⟨hvalue', hle'⟩ := ih hb hle
    rw [List.foldl_cons, List.map_cons, List.sum_cons]
    refine ⟨?_, hle'⟩
    rw [hvalue', hvalue, Nat.add_assoc]

/-- **The bignum** is what it is meant to be, and its limbs are small. -/
theorem bignum_value (bufferHash msgHash privkeyHash : Bytes 64) :
    limbsValue (bignum bufferHash msgHash privkeyHash) =
        Bytes.value (slice bufferHash 0 32 (by decide)) +
          Bytes.value (slice msgHash 0 32 (by decide)) *
            Bytes.value (slice privkeyHash 0 32 (by decide)) ∧
      ∀ k, (bignum bufferHash msgHash privkeyHash k).toNat ≤ maxLimb := by
  let x₀ : Fin 64 → UInt64 := fun k => if k < 32 then (bufferHash k).toUInt64 else 0
  have hx₀ : ∀ k, (x₀ k).toNat ≤ 255 := by
    intro k
    show (if k < 32 then (bufferHash k).toUInt64 else 0 : UInt64).toNat ≤ 255
    split
    · rw [UInt8.toNat_toUInt64]
      exact Nat.le_of_lt_succ (bufferHash k).toNat_lt
    · exact Nat.zero_le _
  have hlen : 255 + 65025 * (List.finRange 32).length < 2 ^ 64 := by
    rw [List.length_finRange]
    decide
  obtain ⟨hvalue, hle⟩ := outer_value hlen hx₀
  rw [List.length_finRange] at hle
  refine ⟨hvalue.trans ?_, hle⟩
  have hlow (b : Bytes 64) : limbValue 256 (fun i => (lowByte b i).toNat) = Bytes.value (slice b 0 32 (by decide)) := by
    refine congrArg (limbValue 256) (funext fun i => ?_)
    exact congrArg (fun k => (b k).toNat) (Fin.ext (Nat.zero_add _).symm)
  have hstart : limbsValue x₀ = limbValue 256 fun i => (lowByte bufferHash i).toNat := by
    rw [← limbValue_append_zero (m := 32)]
    refine congrArg (limbValue 256) (funext fun k => ?_)
    refine Fin.addCases (m := 32) (n := 32) (fun k => ?_) (fun k => ?_) k
    · rw [Fin.append_left]
      have hk : Fin.castAdd 32 k < 32 := k.isLt
      exact (congrArg UInt64.toNat (if_pos hk)).trans (UInt8.toNat_toUInt64 _)
    · rw [Fin.append_right]
      have hk : ¬ Fin.natAdd 32 k < 32 := Nat.not_lt.mpr (Nat.le_add_right 32 k)
      exact congrArg UInt64.toNat (if_neg hk)
  rw [hstart, hlow bufferHash, ← hlow msgHash, ← hlow privkeyHash, ← sum_limb_products]
  rfl

end

/-! ## The curve -/

/-- A group of points with affine coordinates, and the bytes and the parity of a
coordinate. -/
structure EdwardsCurve (F G : Type) where
  x : G → F
  y : G → F
  bytes : F → Bytes 32
  parity : F → UInt8
  B : G
  order : Nat

namespace EdwardsCurve

variable {F G gf : Type} (E : EdwardsCurve F G)

/-- The packed encoding of a point. -/
def encode (g : G) : Bytes 32 :=
  Function.update (E.bytes (E.y g)) 31 (E.bytes (E.y g) 31 ^^^ E.parity (E.x g) <<< 7)

/-- The extended coordinates of a point, with 1 for its denominator. -/
def coordinates [CommRing F] (g : G) : Fin 4 → F := ![E.x g, E.y g, 1, E.x g * E.y g]

/-- Projective coordinates of a point, as field elements of the library. -/
def Projective [CommRing F] (val : gf → F) (p : Fin 4 → gf) (g : G) : Prop :=
  ∃ z, IsUnit z ∧ ∀ i, val (p i) = E.coordinates g i * z

end EdwardsCurve

/-- What signing and verifying rely on. `val` is the value of a field element of
the library; `modL` is given limbs as small as those of the bignum. -/
structure Implements {F G gf : Type} [CommRing F] [AddCommGroup G] (c : Curve25519 gf)
    (E : EdwardsCurve F G) (val : gf → F) : Prop where
  order_base : E.order • E.B = 0
  modL : ∀ x, (∀ k, (x k).toNat ≤ maxLimb) → Bytes.value (c.modL x) = limbsValue x % E.order
  pack25519 : ∀ a, c.pack25519 a = E.bytes (val a)
  unpack25519 : ∀ a, val (c.unpack25519 (c.pack25519 a)) = val a
  inv25519 : ∀ a, IsUnit (val a) → val a * val (c.inv25519 a) = 1
  M : ∀ a b, val (c.M a b) = val a * val b
  par25519 : ∀ a, c.par25519 a = E.parity (val a)
  add : ∀ p q g h, E.Projective val p g → E.Projective val q h →
    E.Projective val (c.add p q) (g + h)
  pack : ∀ p g, E.Projective val p g → c.pack p = E.encode g
  unpackneg : ∀ g, ∃ q, c.unpackneg (E.encode g) = some q ∧ val (q 0) = E.x (-g) ∧
    val (q 1) = E.y (-g)
  crypto_verify_32 : ∀ u v, c.crypto_verify_32 u v = 0 ↔ u = v
  scalarmult : ∀ e q0 q1 g, val (c.unpack25519 q0) = E.x g → val (c.unpack25519 q1) = E.y g →
    E.Projective val (fun i => c.unpack25519 (c.scalarmult e q0 q1 i)) (Bytes.value e • g)
  scalarbase : ∀ e, E.Projective val
    (fun i => c.unpack25519
      (c.scalarbase e (slice g_curve25519BasePointUnpacked 0 32 (by decide)) i))
    (Bytes.value e • E.B)

section
variable {F G gf : Type} [CommRing F] [AddCommGroup G] {c : Curve25519 gf} {E : EdwardsCurve F G}
  {val : gf → F}

/-- A coordinate divided out again. -/
theorem Implements.divide (h : Implements c E val) {a b : gf} {z u : F} (hz : IsUnit z)
    (hb : val b = z) (ha : val a = u * z) : val (c.M a (c.inv25519 b)) = u := by
  have hinv := h.inv25519 b (hb ▸ hz)
  rw [h.M, ha, mul_assoc, ← hb, hinv, mul_one]

theorem mod_nsmul {n : Nat} {g : G} (h : n • g = 0) (k : Nat) : (k % n) • g = k • g := by
  conv_rhs => rw [← Nat.div_add_mod k n, add_nsmul, mul_comm, mul_nsmul', h, smul_zero, zero_add]

/-! ## The buffers -/

/-- What is hashed with the message: the packed commitment, the public key and the
message. -/
def hashInput (r pub message : Bytes 32) : Bytes 96 := Fin.append (Fin.append r pub) message

theorem hashInput_of_slices {n : Nat} {buf : Bytes n} {r pub message : Bytes 32} (h : 0 + 96 ≤ n)
    (hr : slice buf 0 32 (by omega) = r) (hpub : slice buf 32 32 (by omega) = pub)
    (hmessage : slice buf 64 32 (by omega) = message) :
    slice buf 0 96 h = hashInput r pub message := by
  subst hr hpub hmessage
  have houter := slice_add buf 0 64 32 h
  have hinner := slice_add buf 0 32 32 (by omega)
  exact houter.trans (congrArg (fun u => Fin.append u _) hinner)

/-- **Packing in place** is packing. -/
theorem packInPlace_eq (h : Implements c E val) {p : Fin 4 → gf} {g : G}
    (hp : E.Projective val p g) (sm : Bytes 128) :
    packInPlace c (fun i => p (i.castLE (by decide))) sm = memcpy sm 0 (E.encode g) (by decide) := by
  obtain ⟨z, hz, hp⟩ := hp
  have hpz : val (p 2) = z := (hp 2).trans (one_mul z)
  have hdivx : val (c.M (p 0) (c.inv25519 (p 2))) = E.x g := h.divide hz hpz (hp 0)
  have hdivy : val (c.M (p 1) (c.inv25519 (p 2))) = E.y g := h.divide hz hpz (hp 1)
  have hpack : c.pack25519 (c.M (p 1) (c.inv25519 (p 2))) = E.bytes (E.y g) := by
    rw [h.pack25519, hdivy]
  have hpar : c.par25519 (c.M (p 0) (c.inv25519 (p 2))) = E.parity (E.x g) := by
    rw [h.par25519, hdivx]
  have hbyte : memcpy sm 0 (E.bytes (E.y g)) (by decide) 31 = E.bytes (E.y g) 31 :=
    memcpy_of_mem _ (Nat.zero_le _) (by decide)
  show Function.update (memcpy sm 0 (c.pack25519 (c.M (p 1) (c.inv25519 (p 2)))) (by decide)) 31
    (memcpy sm 0 (c.pack25519 (c.M (p 1) (c.inv25519 (p 2)))) (by decide) 31 ^^^
      c.par25519 (c.M (p 0) (c.inv25519 (p 2))) <<< 7) = _
  rw [hpack, hpar, hbyte]
  have h31 : 0 + 32 ≤ 128 := by decide
  exact update_memcpy h31 31 _

/-- What the signature is. -/
theorem signExchangeHash_spec (h : Implements c E val)
    (m_hostkeyPriv m_hostkeyPub exchangeHash : Bytes 32) (sm : Bytes 128) :
    ∃ (r : Nat) (s : Bytes 32),
      SignExchangeHash c m_hostkeyPriv m_hostkeyPub exchangeHash sm =
        Fin.append (E.encode (r • E.B)) s ∧
      Bytes.value s = (r + Bytes.value (slice (c.reduce (c.crypto_hash
          (hashInput (E.encode (r • E.B)) m_hostkeyPub exchangeHash))) 0 32 (by decide)) *
        Bytes.value (slice (clamp (c.crypto_hash m_hostkeyPriv)) 0 32 (by decide))) % E.order := by
  unfold SignExchangeHash
  dsimp only
  generalize clamp (c.crypto_hash m_hostkeyPriv) = privkeyHash
  -- what is under the commitment and the public key
  have hmessage : slice (memcpy (memcpy sm 64 exchangeHash (by decide)) 32
      (slice privkeyHash 32 32 (by decide)) (by decide)) 64 32 (by decide) = exchangeHash := by
    rw [slice_memcpy_of_ge _ _ (by decide), slice_memcpy]
  generalize memcpy (memcpy sm 64 exchangeHash _) 32 (slice privkeyHash 32 32 _) _ = sm₁ at hmessage ⊢
  generalize c.reduce (c.crypto_hash (slice sm₁ 32 64 _)) = bufferHash
  rw [packInPlace_eq h (h.scalarbase (slice bufferHash 0 32 (by decide)))]
  generalize hr : Bytes.value (slice bufferHash 0 32 _) = r
  have hinput : slice (memcpy (memcpy sm₁ 0 (E.encode (r • E.B)) (by decide)) 32 m_hostkeyPub
      (by decide)) 0 96 (by decide) = hashInput (E.encode (r • E.B)) m_hostkeyPub exchangeHash := by
    refine hashInput_of_slices _ ?_ ?_ ?_
    · rw [slice_memcpy_of_le _ _ (by decide), slice_memcpy]
    · rw [slice_memcpy]
    · rw [slice_memcpy_of_ge _ _ (by decide), slice_memcpy_of_ge _ _ (by decide), hmessage]
  rw [hinput]
  let msgHash := c.reduce (c.crypto_hash (hashInput (E.encode (r • E.B)) m_hostkeyPub exchangeHash))
  obtain ⟨hvalue, hlimbs⟩ := bignum_value bufferHash msgHash privkeyHash
  refine ⟨r, c.modL (bignum bufferHash msgHash privkeyHash), ?_, ?_⟩
  · refine (slice_add _ 0 32 32 (by decide)).trans ?_
    rw [slice_memcpy_of_le _ _ (by decide), slice_memcpy_of_le _ _ (by decide), slice_memcpy]
    exact congrArg (Fin.append _) (slice_memcpy _)
  · rw [h.modL _ hlimbs, hvalue, hr]

/-- **Host signatures verify**, whatever the seed, the hash function and the
message. -/
theorem host_signature_verifies (h : Implements c E val)
    (m_hostkeyPriv m_hostkeyPub exchangeHash : Bytes 32) (sm : Bytes 128) (tmpbuf : Bytes 1024)
    (qref : Bytes 64)
    (hpub : m_hostkeyPub = E.encode
      (Bytes.value (slice (clamp (c.crypto_hash m_hostkeyPriv)) 0 32 (by decide)) • E.B)) :
    VerifySignature c
      (Fin.append (SignExchangeHash c m_hostkeyPriv m_hostkeyPub exchangeHash sm) exchangeHash)
      m_hostkeyPub tmpbuf qref = true := by
  obtain ⟨r, s, hsig, hs⟩ := signExchangeHash_spec h m_hostkeyPriv m_hostkeyPub exchangeHash sm
  rw [hsig]
  generalize Bytes.value (slice (clamp (c.crypto_hash m_hostkeyPriv)) 0 32 _) = a at hpub hs
  -- the parts of the signed message
  let signedMessage : Bytes (64 + 32) := Fin.append (Fin.append (E.encode (r • E.B)) s) exchangeHash
  have hsigned : slice signedMessage 0 64 (by decide) = Fin.append (E.encode (r • E.B)) s :=
    slice_append_left ..
  have hR : slice signedMessage 0 32 (by decide) = E.encode (r • E.B) := by
    have hinner : slice (slice signedMessage 0 64 (by decide)) 0 32 (by decide) =
        slice signedMessage 0 32 (by decide) := slice_slice ..
    rw [hsigned, slice_append_left] at hinner
    exact hinner.symm
  have hS : slice signedMessage 32 32 (by decide) = s := by
    have hinner : slice (slice signedMessage 0 64 (by decide)) 32 32 (by decide) =
        slice signedMessage 32 32 (by decide) := slice_slice ..
    rw [hsigned, slice_append_right] at hinner
    exact hinner.symm
  have hmessage : slice signedMessage 64 32 (by decide) = exchangeHash := slice_append_right ..
  -- the same bytes are hashed
  have hinput : slice (memcpy (memcpy tmpbuf 0 signedMessage (by decide)) 32 m_hostkeyPub (by decide))
      0 (64 + 32) (by decide) = hashInput (E.encode (r • E.B)) m_hostkeyPub exchangeHash := by
    refine hashInput_of_slices _ ?_ ?_ ?_
    · rw [slice_memcpy_of_le _ _ (by decide)]
      exact (slice_memcpy_within _ _ (by decide)).trans hR
    · rw [slice_memcpy]
    · rw [slice_memcpy_of_ge _ _ (by decide)]
      exact (slice_memcpy_within _ _ (by decide)).trans hmessage
  -- and the key is that of the signer
  obtain ⟨q, hunpack, hqx, hqy⟩ := h.unpackneg (a • E.B)
  rw [← hpub] at hunpack
  have hq0 : slice (memcpy (memcpy qref 0 (c.pack25519 (q 0)) (by decide)) 32 (c.pack25519 (q 1))
      (by decide)) 0 32 (by decide) = c.pack25519 (q 0) := by
    rw [slice_memcpy_of_le _ _ (by decide), slice_memcpy]
  have hq1 : slice (memcpy (memcpy qref 0 (c.pack25519 (q 0)) (by decide)) 32 (c.pack25519 (q 1))
      (by decide)) 32 32 (by decide) = c.pack25519 (q 1) := slice_memcpy _
  show VerifySignature c signedMessage m_hostkeyPub tmpbuf qref = true
  unfold VerifySignature
  rw [dif_neg (by decide), dif_neg (by decide)]
  dsimp only
  rw [hinput, hunpack]
  dsimp only
  rw [hq0, hq1, hS, hR]
  generalize slice (c.reduce (c.crypto_hash (hashInput (E.encode (r • E.B)) m_hostkeyPub
    exchangeHash))) 0 32 _ = e at hs ⊢
  have hmult := h.scalarmult e (c.pack25519 (q 0)) (c.pack25519 (q 1)) (-(a • E.B))
    ((h.unpack25519 (q 0)).trans hqx) ((h.unpack25519 (q 1)).trans hqy)
  have hsum := h.add _ _ _ _ hmult (h.scalarbase s)
  -- `s • B - e • (a • B) = r • B`
  have hpoint : Bytes.value e • -(a • E.B) + Bytes.value s • E.B = r • E.B := by
    rw [hs, mod_nsmul h.order_base, add_nsmul, mul_nsmul', smul_neg]
    abel
  rw [hpoint] at hsum
  rw [h.pack _ _ hsum, beq_iff_eq]
  exact (h.crypto_verify_32 _ _).mpr rfl

end

end EmbeddedPlatform.Fpga
