import EmbeddedPlatform.Tcpip.KeyAuthorization

/-! # Where an added key goes

`AddPublicKey` makes one pass over the slots. It notes the first free slot
without looking at its key and compares every other slot, so which slot it takes
depends on what the free slots still hold. Everything a call can do is said once
here, in `addPublicKey_cases`. -/
namespace EmbeddedPlatform.Tcpip
namespace SSHKeyManager

variable {c : KeyConfig} {m : SSHKeyManager c} {key : PublicKey}

/-- The first slot without a nickname. -/
def FirstFree (m : SSHKeyManager c) (i : Fin c.MAX_SSH_KEYS) : Prop :=
  (m.m_authorizedKeys i).occupied = false ∧ ∀ f < i, (m.m_authorizedKeys f).occupied = true

/-- The slot's key is looked at: the slot is not the first free one. -/
def Compared (m : SSHKeyManager c) (i : Fin c.MAX_SSH_KEYS) : Prop :=
  (m.m_authorizedKeys i).occupied = true ∨ ∃ f < i, (m.m_authorizedKeys f).occupied = false

/-- A slot that is looked at and holds the key. -/
def Matches (m : SSHKeyManager c) (key : PublicKey) (i : Fin c.MAX_SSH_KEYS) : Prop :=
  m.Compared i ∧ (m.m_authorizedKeys i).m_pubkey = key

theorem FirstFree.compared_of_ne {i j : Fin c.MAX_SSH_KEYS} (h : m.FirstFree i) (hne : j ≠ i) :
    m.Compared j := by
  rcases Nat.lt_or_gt_of_ne fun he => hne (Fin.ext he) with hlt | hgt
  · exact .inl (h.2 j hlt)
  · exact .inr ⟨i, hgt, h.1⟩

/-! ## The search -/

theorem mem_iff_lt_of_split {n : Nat} {pre rest : List (Fin n)} {s : Fin n}
    (h : List.finRange n = pre ++ s :: rest) (j : Fin n) : j ∈ pre ↔ j < s := by
  have hsorted : (pre ++ s :: rest).Pairwise (· < ·) := h ▸ List.pairwise_lt_finRange n
  obtain ⟨-, hrest, hpre⟩ := List.pairwise_append.mp hsorted
  constructor
  · intro hj
    exact hpre j hj s (List.mem_cons_self ..)
  · intro hlt
    have hmem : j ∈ pre ++ s :: rest := h ▸ List.mem_finRange j
    rcases List.mem_append.mp hmem with hj | hj
    · exact hj
    · rcases List.mem_cons.mp hj with rfl | hj
      · exact absurd hlt (Nat.lt_irrefl _)
      · exact absurd (Nat.lt_trans hlt ((List.pairwise_cons.mp hrest).1 j hj)) (Nat.lt_irrefl _)

/-- What the loop knows of the slots behind it. -/
structure Searched (m : SSHKeyManager c) (key : PublicKey) (pre : List (Fin c.MAX_SSH_KEYS))
    (freeSlot : Option (Fin c.MAX_SSH_KEYS)) : Prop where
  none_matches : ∀ j ∈ pre, ¬ m.Matches key j
  first : ∀ i, freeSlot = some i → i ∈ pre ∧ m.FirstFree i
  full : freeSlot = none → ∀ j ∈ pre, (m.m_authorizedKeys j).occupied = true

theorem findSlot_cases (slots pre : List (Fin c.MAX_SSH_KEYS))
    (freeSlot : Option (Fin c.MAX_SSH_KEYS)) (hsplit : List.finRange c.MAX_SSH_KEYS = pre ++ slots)
    (h : Searched m key pre freeSlot) :
    (∃ i freeSlot', m.findSlot key slots freeSlot = (some i, freeSlot') ∧
      m.Matches key i ∧ ∀ j < i, ¬ m.Matches key j) ∨
    (∃ freeSlot', m.findSlot key slots freeSlot = (none, freeSlot') ∧
      Searched m key (List.finRange c.MAX_SSH_KEYS) freeSlot') := by
  induction slots generalizing pre freeSlot with
  | nil =>
    rw [List.append_nil] at hsplit
    exact .inr ⟨freeSlot, rfl, hsplit ▸ h⟩
  | cons s slots ih =>
    have hnext : List.finRange c.MAX_SSH_KEYS = (pre ++ [s]) ++ slots := by simpa using hsplit
    have hbehind := mem_iff_lt_of_split hsplit
    have hcompared : m.Compared s ↔ ¬ (freeSlot = none ∧ (m.m_authorizedKeys s).occupied = false) := by
      constructor
      · intro hc hnote
        rcases hc with hocc | ⟨f, hlt, hblank⟩
        · rw [hnote.2] at hocc; cases hocc
        · rw [h.full hnote.1 f ((hbehind f).mpr hlt)] at hblank; cases hblank
      · intro hnot
        rcases hfree : freeSlot with _ | i
        · exact .inl (by simpa [hfree] using hnot)
        · obtain ⟨hi, hfirst⟩ := h.first i hfree
          exact .inr ⟨i, (hbehind i).mp hi, hfirst.1⟩
    unfold findSlot
    by_cases hnote : freeSlot = none ∧ (m.m_authorizedKeys s).occupied = false
    · -- the first free slot is noted and not compared
      rw [if_pos (by simp [hnote])]
      refine ih (pre ++ [s]) (some s) hnext ⟨?_, ?_, fun hn => by cases hn⟩
      · intro j hj hm
        rcases List.mem_append.mp hj with hj | hj
        · exact h.none_matches j hj hm
        · exact hcompared.mp (List.mem_singleton.mp hj ▸ hm.1) hnote
      · intro i hi
        cases hi
        refine ⟨by simp, hnote.2, fun f hf => ?_⟩
        exact h.full hnote.1 f ((hbehind f).mpr hf)
    · rw [if_neg (by simpa using hnote)]
      by_cases hkey : (m.m_authorizedKeys s).m_pubkey = key
      · rw [if_pos hkey]
        refine .inl ⟨s, freeSlot, rfl, ⟨hcompared.mpr hnote, hkey⟩, fun j hj => ?_⟩
        exact h.none_matches j ((hbehind j).mpr hj)
      · rw [if_neg hkey]
        refine ih (pre ++ [s]) freeSlot hnext ⟨?_, ?_, ?_⟩
        · intro j hj hm
          rcases List.mem_append.mp hj with hj | hj
          · exact h.none_matches j hj hm
          · exact hkey (List.mem_singleton.mp hj ▸ hm.2)
        · intro i hi
          obtain ⟨hmem, hfirst⟩ := h.first i hi
          exact ⟨List.mem_append_left _ hmem, hfirst⟩
        · intro hn j hj
          rcases List.mem_append.mp hj with hj | hj
          · exact h.full hn j hj
          · rw [List.mem_singleton.mp hj]
            simpa [hn] using hnote

/-! ## The call -/

/-- **Outcomes of AddPublicKey.** It refuses the key and changes nothing, renames
the first slot that matches, or takes the first free slot when none does. -/
theorem addPublicKey_cases (base64_decode_block : List UInt8 → List UInt8)
    (keyType keyBlobBase64 keyDesc : CString) (m : SSHKeyManager c) :
    (m.AddPublicKey base64_decode_block keyType keyBlobBase64 keyDesc = (false, m) ∧
      ∀ key, decodeKey base64_decode_block keyType keyBlobBase64 = some key →
        ∀ i, (m.m_authorizedKeys i).occupied = true ∧ (m.m_authorizedKeys i).m_pubkey ≠ key) ∨
    ∃ key, decodeKey base64_decode_block keyType keyBlobBase64 = some key ∧
      ((∃ i, m.AddPublicKey base64_decode_block keyType keyBlobBase64 keyDesc =
          (true, m.setSlot i ((m.m_authorizedKeys i).setNickname keyDesc)) ∧
        m.Matches key i ∧ ∀ j < i, ¬ m.Matches key j) ∨
      (∃ i, m.AddPublicKey base64_decode_block keyType keyBlobBase64 keyDesc =
          (true, m.setSlot i ({ m.m_authorizedKeys i with m_pubkey := key }.setNickname keyDesc)) ∧
        m.FirstFree i ∧ ∀ j, ¬ m.Matches key j)) := by
  unfold AddPublicKey
  rcases decodeKey base64_decode_block keyType keyBlobBase64 with _ | key
  · exact .inl ⟨rfl, fun key h => nomatch h⟩
  · have hstart : Searched m key [] none :=
      ⟨fun j hj => (nomatch hj), fun i hi => (nomatch hi), fun _ j hj => (nomatch hj)⟩
    rcases findSlot_cases (List.finRange c.MAX_SSH_KEYS) [] none rfl hstart with
      ⟨i, freeSlot, hfind, hmatch⟩ | ⟨freeSlot, hfind, hall⟩
    · refine .inr ⟨key, rfl, .inl ⟨i, ?_, hmatch⟩⟩
      simp only [hfind]
    · have hnone : ∀ j, ¬ m.Matches key j := fun j => hall.none_matches j (List.mem_finRange j)
      rcases freeSlot with _ | i
      · refine .inl ⟨by simp only [hfind], ?_⟩
        intro added hadded i
        cases hadded
        have hocc := hall.full rfl i (List.mem_finRange i)
        exact ⟨hocc, fun hk => hnone i ⟨.inl hocc, hk⟩⟩
      · refine .inr ⟨key, rfl, .inr ⟨i, ?_, (hall.first i rfl).2, hnone⟩⟩
        simp only [hfind]

end SSHKeyManager

end EmbeddedPlatform.Tcpip
