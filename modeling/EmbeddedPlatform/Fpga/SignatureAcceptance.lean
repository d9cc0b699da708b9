import EmbeddedPlatform.Fpga.ReferenceCurve

/-! # Which signatures are accepted

The check of a signed message of any length, with any bytes in the signature, the key
and the buffers: it comes down to one equation between points. The scalar of a
signature is not compared with the order, so another one with the same remainder does
as well. -/
namespace EmbeddedPlatform.Fpga
open EmbeddedPlatform.Lib

section
variable {F G gf : Type} [CommRing F] [AddCommGroup G] {c : Curve25519 gf} {E : EdwardsCurve F G}
  {val : gf → F} {decode : Bytes 32 → Option G} {n : Nat}

/-- Which bytes `unpackneg` takes for which point. There may be several for one. -/
structure Decodes (c : Curve25519 gf) (E : EdwardsCurve F G) (val : gf → F)
    (decode : Bytes 32 → Option G) : Prop where
  refused : ∀ b, decode b = none → c.unpackneg b = none
  point : ∀ b g, decode b = some g →
    ∃ q, c.unpackneg b = some q ∧ val (q 0) = E.x (-g) ∧ val (q 1) = E.y (-g)

/-- The commitment, the first half of the signature. -/
def commitment (signedMessage : Bytes n) (h : 64 ≤ n) : Bytes 32 :=
  slice signedMessage 0 32 (by omega)

/-- The scalar, the second half. -/
def scalar (signedMessage : Bytes n) (h : 64 ≤ n) : Bytes 32 :=
  slice signedMessage 32 32 (by omega)

theorem half_of_hash : 0 + 32 ≤ 64 := by decide

/-- What the key is multiplied with: the hash of the commitment, the key and the
message. The key stands where the scalar is in the signed message. -/
def challenge (c : Curve25519 gf) (signedMessage : Bytes n) (publicKey : Bytes 32) (h : 64 ≤ n) :
    Bytes 32 :=
  slice (c.reduce (c.crypto_hash (memcpy signedMessage 32 publicKey (by omega)))) 0 32 half_of_hash

/-- The equation of a signature. -/
def SignatureEquation (c : Curve25519 gf) (E : EdwardsCurve F G) (signedMessage : Bytes n)
    (publicKey : Bytes 32) (key : G) (h : 64 ≤ n) : Prop :=
  commitment signedMessage h = E.encode (Bytes.value (scalar signedMessage h) • E.B -
    Bytes.value (challenge c signedMessage publicKey h) • key)

/-- The buffer that is hashed. -/
theorem slice_tmpbuf (tmpbuf : Bytes 1024) (signedMessage : Bytes n) (publicKey : Bytes 32)
    (hmin : 64 ≤ n) (hmax : n ≤ 1024) :
    slice (memcpy (memcpy tmpbuf 0 signedMessage (by omega)) 32 publicKey (by decide)) 0 n
      (by omega) = memcpy signedMessage 32 publicKey (by omega) := by
  funext i
  show memcpy _ 32 publicKey _ ⟨0 + i, _⟩ = _
  by_cases hin : 32 ≤ (i : Nat) ∧ (i : Nat) < 32 + 32
  · have hle : 32 ≤ 0 + (i : Nat) := by omega
    have hlt : 0 + (i : Nat) < 32 + 32 := by omega
    rw [memcpy_of_mem _ hin.1 hin.2, memcpy_of_mem _ hle hlt]
    exact congrArg publicKey (Fin.ext (congrArg (· - 32) (Nat.zero_add (i : Nat))))
  · have hout : ¬ (32 ≤ 0 + (i : Nat) ∧ 0 + (i : Nat) < 32 + 32) := by omega
    have hlt : 0 + (i : Nat) < 0 + n := by omega
    refine (dif_neg hout).trans (Eq.trans ?_ (dif_neg hin).symm)
    rw [memcpy_of_mem _ (Nat.zero_le _) hlt]
    exact congrArg signedMessage (Fin.ext (Nat.zero_add (i : Nat)))

/-- What the two multiplications and the addition come to, for a key that is a point. -/
theorem verifySignature_point (h : Implements c E val) (hd : Decodes c E val decode)
    {signedMessage : Bytes n} {publicKey : Bytes 32} {key : G} (hkey : decode publicKey = some key)
    (hmin : 64 ≤ n) (hmax : n ≤ 1024) (tmpbuf : Bytes 1024) (qref : Bytes 64) :
    VerifySignature c signedMessage publicKey tmpbuf qref = true ↔
      SignatureEquation c E signedMessage publicKey key hmin := by
  obtain ⟨q, hunpack, hqx, hqy⟩ := hd.point _ _ hkey
  have hq0 : slice (memcpy (memcpy qref 0 (c.pack25519 (q 0)) (by decide)) 32 (c.pack25519 (q 1))
      (by decide)) 0 32 (by decide) = c.pack25519 (q 0) := by
    rw [slice_memcpy_of_le _ _ (by decide), slice_memcpy]
  have hq1 : slice (memcpy (memcpy qref 0 (c.pack25519 (q 0)) (by decide)) 32 (c.pack25519 (q 1))
      (by decide)) 32 32 (by decide) = c.pack25519 (q 1) := slice_memcpy _
  unfold VerifySignature
  rw [dif_neg (Nat.not_lt.mpr hmax), dif_neg (Nat.not_lt.mpr hmin), hunpack]
  dsimp only
  rw [slice_tmpbuf tmpbuf signedMessage publicKey hmin hmax, hq0, hq1]
  have hmult := h.scalarmult (challenge c signedMessage publicKey hmin) (c.pack25519 (q 0))
    (c.pack25519 (q 1)) (-key) ((h.unpack25519 (q 0)).trans hqx) ((h.unpack25519 (q 1)).trans hqy)
  have hsum := h.add _ _ _ _ hmult (h.scalarbase (scalar signedMessage hmin))
  have hpoint : Bytes.value (challenge c signedMessage publicKey hmin) • -key +
      Bytes.value (scalar signedMessage hmin) • E.B =
        Bytes.value (scalar signedMessage hmin) • E.B -
          Bytes.value (challenge c signedMessage publicKey hmin) • key := by
    rw [smul_neg]
    abel
  rw [hpoint] at hsum
  rw [beq_iff_eq, h.crypto_verify_32]
  exact iff_of_eq (congrArg _ (h.pack _ _ hsum))

omit [CommRing F] in
/-- Of the wrong size, or under a key that is no point. -/
theorem verifySignature_refused (hd : Decodes c E val decode) {signedMessage : Bytes n}
    {publicKey : Bytes 32} (hbad : 1024 < n ∨ n < 64 ∨ decode publicKey = none)
    (tmpbuf : Bytes 1024) (qref : Bytes 64) :
    VerifySignature c signedMessage publicKey tmpbuf qref = false := by
  unfold VerifySignature
  by_cases hmax : 1024 < n
  · exact dif_pos hmax
  by_cases hmin : n < 64
  · exact (dif_neg hmax).trans (dif_pos hmin)
  · have hkey := (hbad.resolve_left hmax).resolve_left hmin
    rw [dif_neg hmax, dif_neg hmin, hd.refused _ hkey]

/-- **Acceptance.** Exactly these are accepted: 64 to 1024 bytes, under a key that
decodes to a point, with the commitment that the equation asks for. -/
theorem verifySignature_iff (h : Implements c E val) (hd : Decodes c E val decode)
    (signedMessage : Bytes n) (publicKey : Bytes 32) (tmpbuf : Bytes 1024) (qref : Bytes 64) :
    VerifySignature c signedMessage publicKey tmpbuf qref = true ↔
      n ≤ 1024 ∧ ∃ hmin : 64 ≤ n, ∃ key, decode publicKey = some key ∧
        commitment signedMessage hmin = E.encode
          (Bytes.value (scalar signedMessage hmin) • E.B -
            Bytes.value (challenge c signedMessage publicKey hmin) • key) := by
  by_cases hbad : 1024 < n ∨ n < 64 ∨ decode publicKey = none
  · rw [verifySignature_refused hd hbad]
    refine ⟨nofun, ?_⟩
    rintro ⟨hmax, hmin, key, hkey, -⟩
    rcases hbad with hbad | hbad | hbad
    · exact absurd hbad (Nat.not_lt.mpr hmax)
    · exact absurd hbad (Nat.not_lt.mpr hmin)
    · cases hbad.symm.trans hkey
  · simp only [not_or, Nat.not_lt] at hbad
    obtain ⟨hmax, hmin, hkey⟩ := hbad
    obtain ⟨key, hkey⟩ := Option.ne_none_iff_exists'.mp hkey
    rw [verifySignature_point h hd hkey hmin hmax]
    constructor
    · exact fun heq => ⟨hmax, hmin, key, hkey, heq⟩
    · rintro ⟨-, _, key', hkey', heq⟩
      obtain rfl := Option.some.inj (hkey.symm.trans hkey')
      exact heq

/-! ## Another scalar -/

/-- The signed message with another scalar. -/
def withScalar (signedMessage : Bytes n) (s : Bytes 32) (h : 64 ≤ n) : Bytes n :=
  memcpy signedMessage 32 s (by omega)

theorem withScalar_equation (h : Implements c E val) {signedMessage : Bytes n}
    {publicKey s : Bytes 32} {key : G} (hmin : 64 ≤ n)
    (hs : Bytes.value s % E.order = Bytes.value (scalar signedMessage hmin) % E.order) :
    SignatureEquation c E (withScalar signedMessage s hmin) publicKey key hmin ↔
      SignatureEquation c E signedMessage publicKey key hmin := by
  have hcommitment : commitment (withScalar signedMessage s hmin) hmin =
      commitment signedMessage hmin := slice_memcpy_of_le _ _ (Nat.le_refl _)
  have hscalar : scalar (withScalar signedMessage s hmin) hmin = s := slice_memcpy _
  have hchallenge : challenge c (withScalar signedMessage s hmin) publicKey hmin =
      challenge c signedMessage publicKey hmin := by
    unfold challenge withScalar
    rw [memcpy_again]
  have hpoint : Bytes.value s • E.B = Bytes.value (scalar signedMessage hmin) • E.B := by
    rw [← mod_nsmul h.order_base, hs, mod_nsmul h.order_base]
  unfold SignatureEquation
  rw [hcommitment, hscalar, hchallenge, hpoint]

/-- **Malleability.** A signature that is accepted, with its scalar below the order,
can be turned into another one that is accepted for the same message and key, without
the secret. -/
theorem signature_malleable (h : Implements c E val) (hd : Decodes c E val decode)
    (hpos : 0 < E.order) (hroom : 2 * E.order ≤ 256 ^ 32) (hmin : 64 ≤ n)
    (signedMessage : Bytes n) (publicKey : Bytes 32) (tmpbuf : Bytes 1024) (qref : Bytes 64)
    (hlt : Bytes.value (scalar signedMessage hmin) < E.order)
    (haccepted : VerifySignature c signedMessage publicKey tmpbuf qref = true) :
    ∃ s, s ≠ scalar signedMessage hmin ∧
      VerifySignature c (withScalar signedMessage s hmin) publicKey tmpbuf qref = true := by
  let s : Bytes 32 := littleEndian (Bytes.value (scalar signedMessage hmin) + E.order)
  have hs : Bytes.value s = Bytes.value (scalar signedMessage hmin) + E.order :=
    value_littleEndian (by omega)
  refine ⟨s, fun heq => ?_, ?_⟩
  · rw [heq] at hs
    omega
  · have hgood : ¬ (1024 < n ∨ n < 64 ∨ decode publicKey = none) := by
      intro hbad
      rw [verifySignature_refused hd hbad] at haccepted
      cases haccepted
    simp only [not_or, Nat.not_lt] at hgood
    obtain ⟨hmax, -, hkey⟩ := hgood
    obtain ⟨key, hkey⟩ := Option.ne_none_iff_exists'.mp hkey
    rw [verifySignature_point h hd hkey hmin hmax] at haccepted ⊢
    refine (withScalar_equation h hmin ?_).mpr haccepted
    rw [hs, Nat.add_mod_right]

end

/-! ## A signature -/

section
variable {G : Type} [AddCommGroup G]

/-- The reference takes the encodings of points and nothing else. -/
theorem decodes_reference {x y : G → Coordinate} {B : G}
    (crypto_hash : {n : Nat} → Bytes n → Bytes 64) :
    Decodes (reference (curve25519 x y B) crypto_hash) (curve25519 x y B) id
      fun b => pointOf fun g => (curve25519 x y B).encode g = b where
  refused b hb := by
    show Option.map _ (pointOf _) = none
    rw [hb]
    rfl
  point b g hg := by
    refine ⟨(curve25519 x y B).coordinates (-g), ?_, rfl, rfl⟩
    show Option.map _ (pointOf _) = _
    rw [hg]
    rfl

/-- A host signature satisfies the equation. -/
theorem signExchangeHash_equation {F gf : Type} [CommRing F] {c : Curve25519 gf}
    {E : EdwardsCurve F G} {val : gf → F} (h : Implements c E val)
    {m_hostkeyPriv : Bytes 32} (m_hostkeyPub exchangeHash : Bytes 32) (sm : Bytes 128) {a : Nat}
    (ha : Bytes.value (slice (clamp (c.crypto_hash m_hostkeyPriv)) 0 32 (by decide)) = a) :
    let signed : Bytes (64 + 32) :=
      Fin.append (SignExchangeHash c m_hostkeyPriv m_hostkeyPub exchangeHash sm) exchangeHash
    SignatureEquation c E signed m_hostkeyPub (a • E.B) (by decide) ∧
      ∃ k, Bytes.value (scalar signed (by decide)) = k % E.order := by
  obtain ⟨r, s, hsig, hs⟩ := signExchangeHash_spec h m_hostkeyPriv m_hostkeyPub exchangeHash sm
  rw [ha] at hs
  rw [hsig]
  dsimp only
  let signed : Bytes (64 + 32) := Fin.append (Fin.append (E.encode (r • E.B)) s) exchangeHash
  have hparts : slice signed 0 64 (by decide) = Fin.append (E.encode (r • E.B)) s :=
    slice_append_left ..
  have hR : commitment signed (by decide) = E.encode (r • E.B) := by
    have hinner : slice (slice signed 0 64 (by decide)) 0 32 (by decide) =
        slice signed 0 32 (by decide) := slice_slice ..
    rw [hparts, slice_append_left] at hinner
    exact hinner.symm
  have hS : scalar signed (by decide) = s := by
    have hinner : slice (slice signed 0 64 (by decide)) 32 32 (by decide) =
        slice signed 32 32 (by decide) := slice_slice ..
    rw [hparts, slice_append_right] at hinner
    exact hinner.symm
  have hinput : memcpy signed 32 m_hostkeyPub (by decide) =
      hashInput (E.encode (r • E.B)) m_hostkeyPub exchangeHash := by
    rw [← slice_self (memcpy signed 32 m_hostkeyPub (by decide)) (by decide)]
    refine hashInput_of_slices _ ?_ (slice_memcpy _) ?_
    · rw [slice_memcpy_of_le _ _ (by decide)]
      exact hR
    · rw [slice_memcpy_of_ge _ _ (by decide)]
      exact slice_append_right ..
  refine ⟨?_, _, by rw [hS, hs]⟩
  show commitment signed _ = E.encode (Bytes.value (scalar signed _) • E.B -
    Bytes.value (challenge c signed m_hostkeyPub _) • (a • E.B))
  unfold challenge
  rw [hR, hS, hinput, hs, mod_nsmul h.order_base, add_nsmul, mul_nsmul', add_sub_cancel_right]

end

/-- The key of the known signature is a point. -/
theorem decode_knownKey : pointOf (fun g => knownCurve.encode g = knownKey) = some
    (36144925721603087658594284515452164870581325872720374094707712194495455132720 •
      knownCurve.B) := by
  have hkey := knownKey_eq
  rw [knownSecret] at hkey
  exact pointOf_eq hkey.symm fun k hk => knownCurve_encode_injective (hk.trans hkey)

/-- The bytes 0, 1, ..., 31 and their signature. -/
def knownSigned (c : Curve25519 Coordinate) : Bytes (64 + 32) :=
  Fin.append (SignExchangeHash c knownSeed knownKey (fun i => .ofNat i) fun _ => 0)
    fun i => .ofNat (i : Fin 32)

theorem verifySignature_iff_known :
    VerifySignature (reference knownCurve knownHash) (knownSigned (reference knownCurve knownHash))
        knownKey (fun _ => 0) (fun _ => 0) = true ↔
      64 + 32 ≤ 1024 ∧ ∃ hmin : 64 ≤ 64 + 32, ∃ key,
        pointOf (fun g => knownCurve.encode g = knownKey) = some key ∧
        commitment (knownSigned (reference knownCurve knownHash)) hmin = knownCurve.encode
          (Bytes.value (scalar (knownSigned (reference knownCurve knownHash)) hmin) • knownCurve.B -
            Bytes.value (challenge (reference knownCurve knownHash)
              (knownSigned (reference knownCurve knownHash)) knownKey hmin) • key) :=
  verifySignature_iff implements_knownCurve (decodes_reference knownHash) _ _ _ _

/-- The known signature is accepted, and so is another one. -/
theorem signature_malleable_known :
    ∃ s, s ≠ scalar (knownSigned (reference knownCurve knownHash)) (by decide) ∧
      VerifySignature (reference knownCurve knownHash)
        (withScalar (knownSigned (reference knownCurve knownHash)) s (by decide)) knownKey
        (fun _ => 0) (fun _ => 0) = true := by
  obtain ⟨hequation, k, hk⟩ := signExchangeHash_equation implements_knownCurve
    knownKey (fun i => .ofNat i) (fun _ => 0) knownSecret
  refine signature_malleable implements_knownCurve (decodes_reference knownHash) (by decide)
    (by decide) (by decide) _ _ _ _ ?_ ?_
  · have hlt : k % knownCurve.order < knownCurve.order := Nat.mod_lt k (by decide)
    rwa [← hk] at hlt
  · exact (verifySignature_point implements_knownCurve (decodes_reference knownHash)
      decode_knownKey (by decide) (by decide) _ _).mpr hequation

end EmbeddedPlatform.Fpga
