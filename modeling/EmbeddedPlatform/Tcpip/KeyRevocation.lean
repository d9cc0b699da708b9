import EmbeddedPlatform.Tcpip.KeyPlacement
import EmbeddedPlatform.Tcpip.KeyStorage

/-! # Revoking a key

A key is revoked by clearing the slot `FindKey` names, which is enough as long
as no second slot holds it. That is an invariant of the table together with the
table last saved, because loading brings the saved one back. The zero key is
left out: every cleared slot holds it. -/
namespace EmbeddedPlatform.Tcpip
open EmbeddedPlatform.Lib

variable {c : KeyConfig}

/-! ## At most one slot -/

/-- No key but the zero key is in two places. -/
def UniqueKeys {n : Nat} (keys : Fin n → PublicKey) : Prop :=
  ∀ key, key ≠ Vector.replicate 32 0 → ∀ i j, keys i = key → keys j = key → i = j

theorem UniqueKeys.cleared {n : Nat} {keys keys' : Fin n → PublicKey} (h : UniqueKeys keys)
    (hle : ∀ i, keys' i = keys i ∨ keys' i = Vector.replicate 32 0) : UniqueKeys keys' := by
  intro key hkey i j hi hj
  rcases hle i with hi' | hi'
  · rcases hle j with hj' | hj'
    · exact h key hkey i j (hi' ▸ hi) (hj' ▸ hj)
    · exact absurd (hj.symm.trans hj') hkey
  · exact absurd (hi.symm.trans hi') hkey

theorem UniqueKeys.added {n : Nat} {keys keys' : Fin n → PublicKey} (h : UniqueKeys keys)
    (s : Fin n) (hkeep : ∀ j, j ≠ s → keys' j = keys j) (hnew : ∀ j, j ≠ s → keys j ≠ keys' s) :
    UniqueKeys keys' := by
  intro key hkey i j hi hj
  by_cases his : i = s
  · by_cases hjs : j = s
    · rw [his, hjs]
    · exact absurd ((hkeep j hjs).symm.trans (hj.trans (his ▸ hi).symm)) (hnew j hjs)
  · by_cases hjs : j = s
    · exact absurd ((hkeep i his).symm.trans (hi.trans (hjs ▸ hj).symm)) (hnew i his)
    · exact h key hkey i j ((hkeep i his).symm.trans hi) ((hkeep j hjs).symm.trans hj)

namespace SSHKeyManager

variable {m : SSHKeyManager c} {key : PublicKey}

/-- The keys of the table. -/
def keys (m : SSHKeyManager c) (i : Fin c.MAX_SSH_KEYS) : PublicKey :=
  (m.m_authorizedKeys i).m_pubkey

/-- No key is twice in the table, nor in the table that loading would give. -/
structure KeysUnique (m : SSHKeyManager c) : Prop where
  table : UniqueKeys m.keys
  saved : UniqueKeys m.LoadFromKVS.keys

theorem init_keysUnique : (init c).KeysUnique := by
  have hzero : UniqueKeys (n := c.MAX_SSH_KEYS) fun _ => Vector.replicate 32 0 := by
    intro key hkey i j hi
    exact absurd hi.symm hkey
  exact ⟨hzero, hzero⟩

/-! ## The operations -/

theorem loadFromKVS_keysUnique (h : m.KeysUnique) : m.LoadFromKVS.KeysUnique :=
  ⟨h.saved, h.saved⟩

theorem KeysUnique.setSlot (h : m.KeysUnique) {i : Fin c.MAX_SSH_KEYS} {k : AuthorizedKey c}
    (hk : UniqueKeys (m.setSlot i k).keys) : (m.setSlot i k).KeysUnique :=
  ⟨hk, h.saved⟩

theorem removePublicKey_keysUnique (slot : Int) (h : m.KeysUnique) :
    (m.RemovePublicKey slot).KeysUnique := by
  unfold RemovePublicKey
  split
  · refine h.setSlot (h.table.cleared fun j => ?_)
    by_cases hj : j = ⟨slot.toNat, by omega⟩
    · subst hj
      right
      simp [keys, AuthorizedKey.zero]
    · left
      simp only [keys, setSlot_of_ne hj]
  · exact h

theorem commitToKVS_keysUnique {ok : Nat → Bool} (hok : ∀ i, ok i = true) (h : m.KeysUnique) :
    (m.CommitToKVS ok).KeysUnique := by
  have htable : UniqueKeys (m.CommitToKVS ok).keys := by
    refine h.table.cleared fun i => ?_
    simp only [keys, commitToKVS_slot]
    exact AuthorizedKey.wiped_pubkey _
  refine ⟨htable, ?_⟩
  have hload : (m.CommitToKVS ok).LoadFromKVS.keys = (m.CommitToKVS ok).keys := by
    funext i
    exact congrArg AuthorizedKey.m_pubkey (loadFromKVS_commitToKVS m hok i)
  rw [hload]
  exact htable

theorem addPublicKey_keysUnique (base64_decode_block : List UInt8 → List UInt8)
    (keyType keyBlobBase64 keyDesc : CString) (h : m.KeysUnique) :
    (m.AddPublicKey base64_decode_block keyType keyBlobBase64 keyDesc).2.KeysUnique := by
  rcases addPublicKey_cases base64_decode_block keyType keyBlobBase64 keyDesc m with
    ⟨hadd, -⟩ | ⟨key, -, ⟨i, hadd, -, -⟩ | ⟨i, hadd, hfirst, hnone⟩⟩
  · rw [hadd]
    exact h
  · -- a rename keeps the key of the slot
    rw [hadd]
    refine h.setSlot (h.table.cleared fun j => ?_)
    left
    by_cases hj : j = i
    · subst hj
      simp [keys, AuthorizedKey.setNickname]
    · simp only [keys, setSlot_of_ne hj]
  · -- the free slot is the only one that was not compared
    rw [hadd]
    refine h.setSlot (h.table.added i (fun j hj => ?_) (fun j hj => ?_))
    · simp only [keys, setSlot_of_ne hj]
    · intro he
      refine hnone j ⟨hfirst.compared_of_ne hj, ?_⟩
      rw [keys, keys, setSlot_self] at he
      exact he

/-- The stores of the operation take effect. -/
def Op.StoresSucceed : Op → Prop
  | .CommitToKVS ok => ∀ i, ok i = true
  | _ => True

theorem step_keysUnique {base64_decode_block : List UInt8 → List UInt8} {op : Op}
    {t : SSHKeyManager c} {es : List Empty} (h : m.KeysUnique) (hop : op.StoresSucceed)
    (hs : step base64_decode_block m op = .ok (t, es)) : t.KeysUnique := by
  cases op with
  | AddPublicKey keyType keyBlobBase64 keyDesc => cases hs; exact addPublicKey_keysUnique _ _ _ _ h
  | RemovePublicKey slot => cases hs; exact removePublicKey_keysUnique slot h
  | CommitToKVS ok => cases hs; exact commitToKVS_keysUnique hop h
  | LoadFromKVS => cases hs; exact loadFromKVS_keysUnique h

/-! ## A key that is gone -/

theorem findKey_eq_none_iff : m.FindKey key = none ↔ ∀ i, m.keys i ≠ key := by
  simp [FindKey, keys]

/-- What `FindKey` returns. -/
def slotNumber {n : Nat} : Option (Fin n) → Int
  | none => -1
  | some i => i.val

/-- The operation puts the key into the table: `AddPublicKey` accepts it, or the
table that is loaded has it. -/
def BringsBack (base64_decode_block : List UInt8 → List UInt8) (key : PublicKey)
    (m : SSHKeyManager c) : Op → Prop
  | .AddPublicKey keyType keyBlobBase64 keyDesc =>
    decodeKey base64_decode_block keyType keyBlobBase64 = some key ∧
      (m.AddPublicKey base64_decode_block keyType keyBlobBase64 keyDesc).1 = true
  | .LoadFromKVS => ∃ i, m.LoadFromKVS.keys i = key
  | _ => False

theorem step_absent {base64_decode_block : List UInt8 → List UInt8}
    (hkey : key ≠ Vector.replicate 32 0) {op : Op} {t : SSHKeyManager c} {es : List Empty}
    (h : ∀ i, m.keys i ≠ key) (hop : ¬ BringsBack base64_decode_block key m op)
    (hs : step base64_decode_block m op = .ok (t, es)) : ∀ i, t.keys i ≠ key := by
  cases op with
  | AddPublicKey keyType keyBlobBase64 keyDesc =>
    cases hs
    rcases addPublicKey_cases base64_decode_block keyType keyBlobBase64 keyDesc m with
      ⟨hadd, -⟩ | ⟨added, hadded, ⟨i, hadd, -, -⟩ | ⟨i, hadd, -, -⟩⟩
    · rw [hadd]
      exact h
    · rw [hadd]
      intro j
      by_cases hj : j = i
      · subst hj
        simpa [keys, AuthorizedKey.setNickname] using h j
      · simpa [keys, setSlot_of_ne hj] using h j
    · have hne : added ≠ key := by
        intro he
        exact hop ⟨he ▸ hadded, by rw [hadd]⟩
      rw [hadd]
      intro j
      by_cases hj : j = i
      · subst hj
        simpa [keys, AuthorizedKey.setNickname] using hne
      · simpa [keys, setSlot_of_ne hj] using h j
  | RemovePublicKey slot =>
    cases hs
    unfold RemovePublicKey
    split
    · intro j
      by_cases hj : j = ⟨slot.toNat, by omega⟩
      · subst hj
        simpa [keys, AuthorizedKey.zero] using hkey.symm
      · simpa [keys, setSlot_of_ne hj] using h j
    · exact h
  | CommitToKVS ok =>
    cases hs
    intro j hj
    simp only [keys, commitToKVS_slot] at hj
    rcases AuthorizedKey.wiped_pubkey (m.m_authorizedKeys j) with he | he
    · exact h j (he.symm.trans hj)
    · exact hkey (hj.symm.trans he)
  | LoadFromKVS =>
    cases hs
    intro j hj
    exact hop ⟨j, hj⟩

theorem removePublicKey_findKey (hkey : key ≠ Vector.replicate 32 0) (h : UniqueKeys m.keys) :
    ∀ i, (m.RemovePublicKey (slotNumber (m.FindKey key))).keys i ≠ key := by
  rcases hfind : m.FindKey key with _ | s
  · exact findKey_eq_none_iff.mp hfind
  · have hs : m.keys s = key := findKey_some hfind
    intro i
    have hremove : m.RemovePublicKey (slotNumber (some s)) = m.setSlot s (.zero c) := by
      simp [RemovePublicKey, slotNumber]
    rw [hremove]
    by_cases hi : i = s
    · subst hi
      simpa [keys, AuthorizedKey.zero] using hkey.symm
    · intro he
      rw [keys, setSlot_of_ne hi] at he
      exact hi (h key hkey i s he hs)

/-- **Uniqueness and revocation.** In every run whose stores take effect, no key
but the zero key is in two slots; and once the slot `FindKey` names is removed,
the key is not found again in any run that neither adds it nor loads a table
that has it. -/
theorem keys_unique_and_revocable (c : KeyConfig) (base64_decode_block : List UInt8 → List UInt8)
    (ops : List Op) (hops : ∀ op ∈ ops, op.StoresSucceed) (m : SSHKeyManager c) (log : List Empty)
    (hr : run (step base64_decode_block) (init c) ops = .ok (m, log)) :
    ∀ key, key ≠ Vector.replicate 32 0 →
      (∀ i j, (m.m_authorizedKeys i).m_pubkey = key → (m.m_authorizedKeys j).m_pubkey = key → i = j) ∧
      ∀ later t log',
        AllSteps (step base64_decode_block) (fun s op => ¬ BringsBack base64_decode_block key s op)
          (m.RemovePublicKey (slotNumber (m.FindKey key))) later →
        run (step base64_decode_block) (m.RemovePublicKey (slotNumber (m.FindKey key))) later
          = .ok (t, log') →
        t.FindKey key = none := by
  have hstores : AllSteps (step base64_decode_block) (fun _ op => op.StoresSucceed) (init c) ops :=
    allSteps_of_forall hops
  have hunique : m.KeysUnique :=
    run_invariant (fun _ _ _ _ h hop hs => step_keysUnique h hop hs) init_keysUnique hstores hr
  intro key hkey
  refine ⟨hunique.table key hkey, fun later t log' hlater hrun => findKey_eq_none_iff.mpr ?_⟩
  exact run_invariant (J := fun s => ∀ i, s.keys i ≠ key)
    (fun _ _ _ _ h hop hs => step_absent hkey h hop hs)
    (removePublicKey_findKey hkey hunique.table) hlater hrun

/-- A table of two slots. -/
def twoSlots : KeyConfig := ⟨2, 16, 32, by decide, by decide⟩

/-- A key is added, saved and revoked; a second save makes the revocation last. -/
theorem keys_unique_and_revocable_sample :
    ∃ m t : SSHKeyManager twoSlots,
      (m.FindKey sampleKey).isSome = true ∧ t.FindKey sampleKey = none := by
  obtain ⟨⟨m, log⟩, hr, hfind⟩ := exists_of_returns
    (P := fun p => (p.1.FindKey sampleKey).isSome)
    (r := run (step sampleDecode) (init twoSlots)
      [.AddPublicKey keyType sampleBlob root, .CommitToKVS fun _ => true]) (by decide +kernel)
  have hops : ∀ op ∈ [Op.AddPublicKey keyType sampleBlob root, .CommitToKVS fun _ => true],
      op.StoresSucceed := by
    intro op hop
    rcases List.mem_cons.mp hop with rfl | hop
    · trivial
    · cases List.mem_singleton.mp hop
      exact fun _ => rfl
  have hall := keys_unique_and_revocable twoSlots sampleDecode _ hops m log hr sampleKey (by decide)
  refine ⟨m, _, hfind, hall.2 [.CommitToKVS fun _ => true] _ _ ?_ rfl⟩
  exact ⟨fun h => h, fun _ _ _ => trivial⟩

end SSHKeyManager

end EmbeddedPlatform.Tcpip
