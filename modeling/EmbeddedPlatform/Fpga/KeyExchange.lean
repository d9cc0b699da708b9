import EmbeddedPlatform.Lib.Run
import EmbeddedPlatform.Fpga.ReferenceCurve

/-! # The key exchange

A device keeps a private key for the exchange, publishes the public key for it, and
makes the shared secret from the public key of its peer. The accelerator does the
multiplications; its registers keep what was written to them. -/
namespace EmbeddedPlatform.Fpga
open EmbeddedPlatform.Lib

/-- The accelerator's registers that take part, and the private key. -/
structure AcceleratedCryptoEngine where
  m_ephemeralkeyPriv : Bytes 32
  e : Bytes 32
  work : Bytes 32
  data_out : Bytes 32

/-- The base point of the exchange. -/
def basepoint : Bytes 32 := fun i => if (i : Nat) = 0 then 9 else 0

def modifyByte (k : Bytes 32) (j : Nat) (f : UInt8 → UInt8) : Bytes 32 :=
  fun i => if (i : Nat) = j then f (k i) else k i

/-- A few bits need well-defined values. -/
def clampKey (random : Bytes 32) : Bytes 32 :=
  let k := modifyByte random 0 (· &&& 0xf8)
  let k := modifyByte k 31 (· &&& 0x7f)
  modifyByte k 31 (· ||| 0x40)

namespace AcceleratedCryptoEngine

/-- `CMD_CRYPTO_SCALARMULT`, and the wait for its end. -/
def scalarmult (x25519 : Bytes 32 → Bytes 32 → Bytes 32) (s : AcceleratedCryptoEngine) :
    AcceleratedCryptoEngine :=
  { s with data_out := x25519 s.e s.work }

def SharedSecret (x25519 : Bytes 32 → Bytes 32 → Bytes 32) (clientPublicKey : Bytes 32)
    (s : AcceleratedCryptoEngine) : AcceleratedCryptoEngine × Bytes 32 :=
  let s := { s with e := s.m_ephemeralkeyPriv, work := clientPublicKey }
  let s := s.scalarmult x25519
  (s, s.data_out)

/-- `random` is what the generator gives. -/
def GenerateX25519KeyPair (x25519 : Bytes 32 → Bytes 32 → Bytes 32) (random : Bytes 32)
    (s : AcceleratedCryptoEngine) : AcceleratedCryptoEngine × Bytes 32 :=
  let s := { s with m_ephemeralkeyPriv := clampKey random }
  let s := { s with e := s.m_ephemeralkeyPriv, work := basepoint }
  let s := s.scalarmult x25519
  (s, s.data_out)

end AcceleratedCryptoEngine

/-! ## Runs -/

inductive ExchangeOp where
  | GenerateX25519KeyPair (random : Bytes 32)
  | SharedSecret (clientPublicKey : Bytes 32)

inductive ExchangeEvent where
  | publicKey (key : Bytes 32)
  | sharedSecret (secret : Bytes 32)

def exchangeStep (x25519 : Bytes 32 → Bytes 32 → Bytes 32) (s : AcceleratedCryptoEngine) :
    ExchangeOp → Except Empty (AcceleratedCryptoEngine × List ExchangeEvent)
  | .GenerateX25519KeyPair random =>
    let (s, pub) := s.GenerateX25519KeyPair x25519 random
    .ok (s, [.publicKey pub])
  | .SharedSecret clientPublicKey =>
    let (s, secret) := s.SharedSecret x25519 clientPublicKey
    .ok (s, [.sharedSecret secret])

def ExchangeEvent.key? : ExchangeEvent → Option (Bytes 32)
  | publicKey key => some key
  | sharedSecret _ => none

/-- The public key that was published last. -/
def published (log : List ExchangeEvent) : Option (Bytes 32) :=
  (log.filterMap ExchangeEvent.key?).getLast?

/-! ## Private keys -/

/-- Numbers that private keys stand for. -/
structure ValidKey (k : Bytes 32) : Prop where
  cofactor : 8 ∣ Bytes.value k
  low : 2 ^ 254 ≤ Bytes.value k
  high : Bytes.value k < 2 ^ 255

theorem clamped_bits : ∀ b < 256, (UInt8.ofNat b &&& 0xf8).toNat % 8 = 0 ∧
    64 ≤ (UInt8.ofNat b &&& 0x7f ||| 0x40).toNat ∧
    (UInt8.ofNat b &&& 0x7f ||| 0x40).toNat < 128 := by decide +kernel

theorem clampKey_first (random : Bytes 32) : (clampKey random 0).toNat % 8 = 0 := by
  have hbits := (clamped_bits _ (random 0).toNat_lt).1
  rwa [UInt8.ofNat_toNat] at hbits

theorem clampKey_last (random : Bytes 32) :
    64 ≤ (clampKey random 31).toNat ∧ (clampKey random 31).toNat < 128 := by
  have hbits := (clamped_bits _ (random 31).toNat_lt).2
  rwa [UInt8.ofNat_toNat] at hbits

theorem dvd_limbValue {n : Nat} {x : Fin (n + 1) → Nat} (h : 8 ∣ x 0) : 8 ∣ limbValue 256 x := by
  have hsum : limbValue 256 x = x 0 * 256 ^ 0 + ∑ i : Fin n, x i.succ * 256 ^ ((i : Nat) + 1) :=
    Fin.sum_univ_succ _
  rw [hsum]
  refine Nat.dvd_add (Dvd.dvd.mul_right h _) (Finset.dvd_sum fun i _ => ?_)
  rw [Nat.pow_succ]
  exact Dvd.dvd.mul_left (Dvd.dvd.mul_left (by decide) _) _

theorem clampKey_valid (random : Bytes 32) : ValidKey (clampKey random) := by
  have hsum : Bytes.value (clampKey random) =
      limbValue 256 (fun i : Fin 31 => (clampKey random i.castSucc).toNat) +
        (clampKey random 31).toNat * 256 ^ 31 := Fin.sum_univ_castSucc _
  have hlow : limbValue 256 (fun i : Fin 31 => (clampKey random i.castSucc).toNat) < 256 ^ 31 :=
    limbValue_lt fun i => (clampKey random i.castSucc).toNat_lt
  obtain ⟨hge, hlt⟩ := clampKey_last random
  refine ⟨dvd_limbValue (Nat.dvd_of_mod_eq_zero (clampKey_first random)), ?_, ?_⟩
  · rw [hsum]
    omega
  · rw [hsum]
    omega

/-! ## Agreement -/

section
variable {G : Type} [AddCommGroup G] {x25519 : Bytes 32 → Bytes 32 → Bytes 32} {u : G → Bytes 32}
  {B : G} {s : AcceleratedCryptoEngine} {log : List ExchangeEvent}

/-- Multiplication of points, as their public bytes, by private keys. -/
structure Multiplies (x25519 : Bytes 32 → Bytes 32 → Bytes 32) (u : G → Bytes 32) (B : G) : Prop where
  base : u B = basepoint
  scalarmult : ∀ k g, ValidKey k → x25519 k (u g) = u (Bytes.value k • g)

/-- The private key belongs to the public key that was published last. -/
def KeyPair (x25519 : Bytes 32 → Bytes 32 → Bytes 32) (s : AcceleratedCryptoEngine)
    (log : List ExchangeEvent) : Prop :=
  ∀ pub, published log = some pub →
    ValidKey s.m_ephemeralkeyPriv ∧ pub = x25519 s.m_ephemeralkeyPriv basepoint

theorem published_append (log es : List ExchangeEvent) :
    published (log ++ es) = (published es).or (published log) := by
  unfold published
  rw [List.filterMap_append, List.getLast?_append]

theorem exchangeStep_keyPair {op : ExchangeOp} {t : AcceleratedCryptoEngine}
    {es : List ExchangeEvent} (h : KeyPair x25519 s log)
    (hs : exchangeStep x25519 s op = .ok (t, es)) : KeyPair x25519 t (log ++ es) := by
  intro pub hpub
  rw [published_append] at hpub
  cases op with
  | GenerateX25519KeyPair random =>
    cases hs
    obtain rfl := Option.some.inj hpub
    exact ⟨clampKey_valid random, rfl⟩
  | SharedSecret clientPublicKey =>
    cases hs
    exact h pub hpub

theorem run_keyPair {s t : AcceleratedCryptoEngine} {ops : List ExchangeOp}
    (hr : run (exchangeStep x25519) s ops = .ok (t, log)) : KeyPair x25519 t log := by
  have h := run_rule (C := fun _ _ => True) (l := []) (b := [])
    (J := fun s log _ => KeyPair x25519 s log)
    (fun _ _ _ _ _ _ h _ hs => exchangeStep_keyPair h hs) (fun _ hpub => nomatch hpub)
    (allSteps_true _ _) hr
  rwa [List.nil_append] at h

end

/-! ## An exchange -/

/-- Points of one exchange, up to their sign, with their coordinates: the neutral one, the
base point, the two public keys and the secret. -/
def knownKeys : List (ZMod groupOrder × Nat) :=
  [(0, 0), (1, 9),
    (6837899049069078941396364617405590513699287822755093839798858826868510219615,
      43040781892050427594145608265502699427324224701665063692814682666944625459343),
    (399106528263183272576821945637403726824920723296345523772868857926340249450,
      9883189261367187259361010393992601034106500622863711872302551461753603406910),
    (6430005567326417118699506274516136368969045468698963862097112992103299645105,
      27641978549128510829810396160983159826310580635854241985004266816403507323184)]

/-- Points that are not met get numbers that no coordinate has. -/
def knownNumber (g : ZMod groupOrder) : Nat :=
  ((knownKeys.find? fun e => e.1 = g ∨ e.1 = -g).map Prod.snd).getD
    (2 ^ 255 + min g.val (-g).val)

theorem knownNumber_cases (g : ZMod groupOrder) :
    (∃ e ∈ knownKeys, (e.1 = g ∨ e.1 = -g) ∧ knownNumber g = e.2) ∨
      knownNumber g = 2 ^ 255 + min g.val (-g).val := by
  unfold knownNumber
  cases h : knownKeys.find? fun e => e.1 = g ∨ e.1 = -g with
  | none => exact .inr rfl
  | some e =>
    have hfound := List.find?_some h
    exact .inl ⟨e, List.mem_of_find?_eq_some h, of_decide_eq_true hfound, rfl⟩

theorem knownKeys_small : ∀ e ∈ knownKeys, e.2 < 2 ^ 255 := by decide +kernel

theorem knownKeys_distinct : ∀ e ∈ knownKeys, ∀ f ∈ knownKeys, e.2 = f.2 → e.1 = f.1 := by
  decide +kernel

theorem knownNumber_lt (g : ZMod groupOrder) : knownNumber g < 256 ^ 32 := by
  have horder : groupOrder < 2 ^ 255 := by decide
  have hlt := ZMod.val_lt g
  obtain ⟨e, he, -, heq⟩ | heq := knownNumber_cases g <;> rw [heq]
  · exact Nat.lt_trans (knownKeys_small e he) (by decide)
  · have hmin := Nat.min_le_left g.val (-g).val
    omega

theorem knownNumber_neg (g : ZMod groupOrder) : knownNumber (-g) = knownNumber g := by
  unfold knownNumber
  simp only [neg_neg, or_comm, Nat.min_comm]

theorem knownNumber_inj {g k : ZMod groupOrder} (h : knownNumber g = knownNumber k) :
    g = k ∨ g = -k := by
  obtain ⟨e, he, heg, hg⟩ | hg := knownNumber_cases g <;>
    obtain ⟨f, hf, hfk, hk⟩ | hk := knownNumber_cases k <;> rw [hg, hk] at h
  · have hef := knownKeys_distinct e he f hf h
    rcases heg with heg | heg <;> rcases hfk with hfk | hfk <;> rw [heg, hfk] at hef
    · exact .inl hef
    · exact .inr hef
    · exact .inr (neg_eq_iff_eq_neg.mp hef)
    · exact .inl (neg_inj.mp hef)
  · have := knownKeys_small e he
    omega
  · have := knownKeys_small f hf
    omega
  · have hvals : g.val = k.val ∨ g.val = (-k).val ∨ (-g).val = k.val ∨ (-g).val = (-k).val := by
      omega
    rcases hvals with hv | hv | hv | hv <;> have heq := ZMod.val_injective _ hv
    · exact .inl heq
    · exact .inr heq
    · exact .inr (neg_eq_iff_eq_neg.mp heq)
    · exact .inl (neg_inj.mp heq)

def knownU (g : ZMod groupOrder) : Bytes 32 := littleEndian (knownNumber g)

theorem knownU_inj {g k : ZMod groupOrder} (h : knownU g = knownU k) : g = k ∨ g = -k := by
  refine knownNumber_inj ?_
  have hvalue := congrArg Bytes.value h
  unfold knownU at hvalue
  rwa [value_littleEndian (knownNumber_lt g), value_littleEndian (knownNumber_lt k)] at hvalue

/-- The multiplication, by what it is for. -/
noncomputable def knownX25519 (k point : Bytes 32) : Bytes 32 :=
  ((pointOf fun g => knownU g = point).map fun g => knownU (Bytes.value k • g)).getD fun _ => 0

theorem multiplies_known : Multiplies knownX25519 knownU 1 where
  base := by
    funext i
    revert i
    decide +kernel
  scalarmult k g _ := by
    have hex : ∃ h, knownU h = knownU g := ⟨g, rfl⟩
    have hpoint : pointOf (fun h => knownU h = knownU g) = some hex.choose := dif_pos hex
    unfold knownX25519
    rw [hpoint]
    show knownU (Bytes.value k • hex.choose) = knownU (Bytes.value k • g)
    rcases knownU_inj hex.choose_spec with heq | heq <;> rw [heq]
    unfold knownU
    rw [smul_neg, knownNumber_neg]

end EmbeddedPlatform.Fpga
