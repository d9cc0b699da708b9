import EmbeddedPlatform.Tcpip.KeyPlacement
import EmbeddedPlatform.Tcpip.KeyStorage

/-! # What an acknowledged key is worth

`AddPublicKey` returns true when it has put the key into a slot. The description
becomes the slot's nickname, and a slot with an empty nickname is free: the next
save wipes it and the next added key may take it. So the answer can be relied on
exactly when the description is not empty, but for a key that is in a second
slot as well. -/
namespace EmbeddedPlatform.Tcpip
open EmbeddedPlatform.Lib
namespace SSHKeyManager

variable {c : KeyConfig} {m : SSHKeyManager c} {key : PublicKey}

/-- An authorized key: one in an occupied slot. -/
def Holds (m : SSHKeyManager c) (key : PublicKey) : Prop :=
  ∃ i, (m.m_authorizedKeys i).occupied = true ∧ (m.m_authorizedKeys i).m_pubkey = key

/-- The table `t` differs from `m` in one slot at most, has the key in an
occupied slot and every other authorized key of `m` where it was, and the key is
found after the table was saved and loaded. -/
structure Acknowledged (key : PublicKey) (m t : SSHKeyManager c) : Prop where
  one_slot : ∃ i, ∀ j, j ≠ i → t.m_authorizedKeys j = m.m_authorizedKeys j
  holds : t.Holds key
  others : ∀ j, (m.m_authorizedKeys j).occupied = true → (m.m_authorizedKeys j).m_pubkey ≠ key →
    t.m_authorizedKeys j = m.m_authorizedKeys j
  durable : ∀ ok : Nat → Bool, (∀ i, ok i = true) →
    ((t.CommitToKVS ok).LoadFromKVS.FindKey key).isSome = true

/-- The answer of `AddPublicKey` can be relied on. -/
def AddsDurably (base64_decode_block : List UInt8 → List UInt8)
    (keyType keyBlobBase64 keyDesc : CString) (m : SSHKeyManager c) : Prop :=
  let r := m.AddPublicKey base64_decode_block keyType keyBlobBase64 keyDesc
  (r.1 = true → ∃ key, decodeKey base64_decode_block keyType keyBlobBase64 = some key ∧
    Acknowledged key m r.2) ∧
  (r.1 = false → r.2 = m)

/-- The key is also in an occupied slot behind the first one that matches. -/
def SecondCopy (key : PublicKey) (m : SSHKeyManager c) : Prop :=
  ∃ i j, i < j ∧ m.Matches key i ∧ (m.m_authorizedKeys j).occupied = true ∧
    (m.m_authorizedKeys j).m_pubkey = key

/-! ## Changing one slot -/

theorem findKey_isSome {i : Fin c.MAX_SSH_KEYS} (h : (m.m_authorizedKeys i).m_pubkey = key) :
    (m.FindKey key).isSome = true := by
  rw [FindKey, List.find?_isSome]
  exact ⟨i, List.mem_finRange i, by simpa using h⟩

theorem Holds.durable (h : m.Holds key) (ok : Nat → Bool) (hok : ∀ i, ok i = true) :
    ((m.CommitToKVS ok).LoadFromKVS.FindKey key).isSome = true := by
  obtain ⟨i, hocc, hkey⟩ := h
  refine findKey_isSome (i := i) ?_
  rw [loadFromKVS_commitToKVS m hok, commitToKVS_slot, AuthorizedKey.wiped_of_occupied hocc]
  exact hkey

/-- Writing one slot acknowledges a key iff the key is in an occupied slot
afterwards, when the slot held no other authorized key. -/
theorem acknowledged_setSlot_iff {i : Fin c.MAX_SSH_KEYS} {k : AuthorizedKey c}
    (hslot : (m.m_authorizedKeys i).occupied = true → (m.m_authorizedKeys i).m_pubkey = key) :
    Acknowledged key m (m.setSlot i k) ↔ (m.setSlot i k).Holds key := by
  constructor
  · intro h
    exact h.holds
  · intro h
    refine ⟨⟨i, fun j hj => setSlot_of_ne hj⟩, h, fun j hocc hne => ?_, h.durable⟩
    refine setSlot_of_ne fun hj => hne ?_
    subst hj
    exact hslot hocc

theorem holds_setSlot_iff {i : Fin c.MAX_SSH_KEYS} {k : AuthorizedKey c} :
    (m.setSlot i k).Holds key ↔ (k.occupied = true ∧ k.m_pubkey = key) ∨
      ∃ j, j ≠ i ∧ (m.m_authorizedKeys j).occupied = true ∧ (m.m_authorizedKeys j).m_pubkey = key := by
  constructor
  · intro h
    obtain ⟨j, hocc, hkey⟩ := h
    by_cases hj : j = i
    · subst hj
      rw [setSlot_self] at hocc hkey
      exact .inl ⟨hocc, hkey⟩
    · rw [setSlot_of_ne hj] at hocc hkey
      exact .inr ⟨j, hj, hocc, hkey⟩
  · intro h
    rcases h with ⟨hocc, hkey⟩ | ⟨j, hj, hocc, hkey⟩
    · exact ⟨i, by rw [setSlot_self]; exact hocc, by rw [setSlot_self]; exact hkey⟩
    · exact ⟨j, by rw [setSlot_of_ne hj]; exact hocc, by rw [setSlot_of_ne hj]; exact hkey⟩

theorem setNickname_blank {k : AuthorizedKey c} {d : CString} (hd : d.bytes = []) :
    (k.setNickname d).occupied = false := by
  simp [AuthorizedKey.occupied, AuthorizedKey.setNickname, c.namelen_pos, hd]

theorem setNickname_occupied_iff {k : AuthorizedKey c} {d : CString} :
    (k.setNickname d).occupied = true ↔ d.bytes ≠ [] := by
  constructor
  · intro h hd
    rw [setNickname_blank hd] at h
    cases h
  · exact AuthorizedKey.setNickname_occupied k d

/-- A renamed slot: the key stays authorized iff it has a name now or is in
another occupied slot, which can only be one further on. -/
theorem holds_renamed_iff {i : Fin c.MAX_SSH_KEYS} {d : CString} (hmatch : m.Matches key i)
    (hfirst : ∀ j < i, ¬ m.Matches key j) :
    (m.setSlot i ((m.m_authorizedKeys i).setNickname d)).Holds key ↔
      d.bytes ≠ [] ∨ SecondCopy key m := by
  rw [holds_setSlot_iff, setNickname_occupied_iff]
  have hname : ((m.m_authorizedKeys i).setNickname d).m_pubkey = key := hmatch.2
  constructor
  · intro h
    rcases h with ⟨hd, -⟩ | ⟨j, hj, hocc, hkey⟩
    · exact .inl hd
    · have hge : i ≤ j := Nat.le_of_not_lt fun hlt => hfirst j hlt ⟨.inl hocc, hkey⟩
      have hgt : i < j := Nat.lt_of_le_of_ne hge fun he => hj (Fin.ext he.symm)
      exact .inr ⟨i, j, hgt, hmatch, hocc, hkey⟩
  · intro h
    rcases h with hd | ⟨i', j, hlt, hmatch', hocc, hkey⟩
    · exact .inl ⟨hd, hname⟩
    · have hle : i ≤ i' := Nat.le_of_not_lt fun h => hfirst i' h hmatch'
      have hgt : i < j := Nat.lt_of_le_of_lt hle hlt
      exact .inr ⟨j, fun he => absurd hgt (by rw [he]; exact Nat.lt_irrefl _), hocc, hkey⟩

/-- A newly taken slot: no other slot holds the key. -/
theorem holds_added_iff {i : Fin c.MAX_SSH_KEYS} {d : CString} (hnone : ∀ j, ¬ m.Matches key j) :
    (m.setSlot i ({ m.m_authorizedKeys i with m_pubkey := key }.setNickname d)).Holds key ↔
      d.bytes ≠ [] := by
  rw [holds_setSlot_iff, setNickname_occupied_iff]
  constructor
  · intro h
    rcases h with ⟨hd, -⟩ | ⟨j, -, hocc, hkey⟩
    · exact hd
    · exact absurd ⟨.inl hocc, hkey⟩ (hnone j)
  · intro hd
    exact .inl ⟨hd, rfl⟩

/-! ## The answer -/

theorem addsDurably_of_true {base64_decode_block : List UInt8 → List UInt8}
    {keyType keyBlobBase64 keyDesc : CString} {t : SSHKeyManager c}
    (hadd : m.AddPublicKey base64_decode_block keyType keyBlobBase64 keyDesc = (true, t))
    (hdec : decodeKey base64_decode_block keyType keyBlobBase64 = some key) :
    AddsDurably base64_decode_block keyType keyBlobBase64 keyDesc m ↔ Acknowledged key m t := by
  unfold AddsDurably
  rw [hadd, hdec]
  constructor
  · intro h
    obtain ⟨added, hadded, hack⟩ := h.1 rfl
    cases hadded
    exact hack
  · intro h
    exact ⟨fun _ => ⟨key, rfl, h⟩, fun hf => Bool.noConfusion hf⟩

theorem addsBlank_iff {base64_decode_block : List UInt8 → List UInt8}
    {keyType keyBlobBase64 keyDesc : CString}
    (hdec : decodeKey base64_decode_block keyType keyBlobBase64 = some key)
    (hroom : ∃ i, (m.m_authorizedKeys i).occupied = false ∨ (m.m_authorizedKeys i).m_pubkey = key)
    {P : PublicKey → Prop} :
    (∀ k, AddsBlank base64_decode_block k m (.AddPublicKey keyType keyBlobBase64 keyDesc) → P k) ↔
      (keyDesc.bytes ≠ [] ∨ P key) := by
  constructor
  · intro h
    by_cases hd : keyDesc.bytes = []
    · exact .inr (h key ⟨hdec, hd, hroom⟩)
    · exact .inl hd
  · intro h k hk
    rcases h with hd | hP
    · exact absurd hk.2.1 hd
    · have he : key = k := Option.some.inj (hdec.symm.trans hk.1)
      exact he ▸ hP

/-- **When the answer can be relied on.** For every table and store, and every
type, blob and description: `AddPublicKey` keeps its word iff the call does not
give a key to a slot and leave it without a nickname, unless the key is also in
an occupied slot behind. -/
theorem addPublicKey_durable_iff (base64_decode_block : List UInt8 → List UInt8)
    (keyType keyBlobBase64 keyDesc : CString) (m : SSHKeyManager c) :
    AddsDurably base64_decode_block keyType keyBlobBase64 keyDesc m ↔
      ∀ key, AddsBlank base64_decode_block key m (.AddPublicKey keyType keyBlobBase64 keyDesc) →
        SecondCopy key m := by
  rcases addPublicKey_cases base64_decode_block keyType keyBlobBase64 keyDesc m with
    ⟨hadd, hfull⟩ | ⟨key, hdec, ⟨i, hadd, hmatch, hfirst⟩ | ⟨i, hadd, hfree, hnone⟩⟩
  · constructor
    · intro _ key hblank
      obtain ⟨hdec, -, i, hi⟩ := hblank
      obtain ⟨hocc, hne⟩ := hfull key hdec i
      rcases hi with hi | hi
      · rw [hocc] at hi; cases hi
      · exact absurd hi hne
    · intro _
      unfold AddsDurably
      rw [hadd]
      exact ⟨fun hf => Bool.noConfusion hf, fun _ => rfl⟩
  · rw [addsDurably_of_true hadd hdec, addsBlank_iff hdec ⟨i, .inr hmatch.2⟩,
      acknowledged_setSlot_iff fun _ => hmatch.2]
    exact holds_renamed_iff hmatch hfirst
  · have hslot : (m.m_authorizedKeys i).occupied = true → (m.m_authorizedKeys i).m_pubkey = key := by
      intro hocc
      rw [hfree.1] at hocc
      cases hocc
    have hcopy : ¬ SecondCopy key m := by
      intro h
      obtain ⟨i', -, -, hmatch, -⟩ := h
      exact hnone i' hmatch
    rw [addsDurably_of_true hadd hdec, addsBlank_iff hdec ⟨i, .inl hfree.1⟩,
      acknowledged_setSlot_iff hslot, holds_added_iff hnone]
    exact ⟨.inl, fun h => h.resolve_right hcopy⟩

/-- An empty description. -/
def noDesc : CString where
  bytes := []
  nonul := List.not_mem_nil

/-- The first key added to a fresh table, without a description. -/
theorem addPublicKey_not_durable :
    ¬ AddsDurably sampleDecode keyType sampleBlob noDesc (init ⟨32, 16, 32, by decide, by decide⟩) := by
  intro h
  obtain ⟨key, -, hack⟩ := h.1 (by decide +kernel)
  obtain ⟨i, hocc, -⟩ := hack.holds
  have hblank : ∀ i, (((init ⟨32, 16, 32, by decide, by decide⟩).AddPublicKey sampleDecode keyType
      sampleBlob noDesc).2.m_authorizedKeys i).occupied = false := by decide +kernel
  rw [hblank i] at hocc
  cases hocc

end SSHKeyManager

end EmbeddedPlatform.Tcpip
