import EmbeddedPlatform.Tcpip.KeyStorage

/-! # The key table survives saving and loading

After a save the table and the objects agree slot by slot, so that another save
has nothing to write, and each slot has an object of its own. -/
namespace EmbeddedPlatform.Tcpip
open EmbeddedPlatform.Lib

variable {c : KeyConfig}

theorem AuthorizedKey.wiped_wiped (k : AuthorizedKey c) : k.wiped.wiped = k.wiped := by
  cases hocc : k.occupied with
  | true => rw [wiped_of_occupied hocc, wiped_of_occupied hocc]
  | false =>
    have hzero : k.wiped = zero c := by
      unfold wiped
      rw [hocc]
      rfl
    rw [hzero]
    exact ite_self _

namespace SSHKeyManager

variable {m m' : SSHKeyManager c} {ok : Nat → Bool}

/-! ## Saving again -/

/-- A slot's object is not stored over itself. -/
theorem storeObjectIfNecessary_stored (kvs : Kvs) (ok : Bool) (i : Fin c.MAX_SSH_KEYS) :
    kvs.StoreObjectIfNecessary ok (keyname i) (stored (c := c) kvs i).toBytes
      (AuthorizedKey.zero c).toBytes = kvs := by
  refine if_pos ?_
  rw [AuthorizedKey.toBytes_length]
  unfold Kvs.ReadObject
  cases ho : kvs.FindObject (keyname i) with
  | none => rw [stored_none kvs ho]
  | some o =>
    rw [stored_some kvs ho, AuthorizedKey.ofPtr_toBytes]
    rfl

/-- The table is what loading would make of it, and has no stale entries. -/
structure Synced (m : SSHKeyManager c) : Prop where
  stored : ∀ i, stored m.g_kvs i = m.m_authorizedKeys i
  wiped : ∀ i, (m.m_authorizedKeys i).wiped = m.m_authorizedKeys i

theorem synced_commitToKVS (m : SSHKeyManager c) (hok : ∀ j, ok j = true) :
    (m.CommitToKVS ok).Synced where
  stored i := loadFromKVS_commitToKVS m hok i
  wiped i := by rw [commitToKVS_slot, AuthorizedKey.wiped_wiped]

theorem Synced.commitSlot (h : m.Synced) (ok : Nat → Bool) (i : Fin c.MAX_SSH_KEYS) :
    m.commitSlot ok i = m := by
  have hslot : m.setSlot i (m.m_authorizedKeys i) = m := by
    unfold setSlot
    rw [Function.update_eq_self]
  rw [commitSlot_eq, h.wiped]
  dsimp only
  rw [hslot]
  split
  · rfl
  · have hkvs := storeObjectIfNecessary_stored (c := c) m.g_kvs (ok i) i
    rw [h.stored] at hkvs
    rw [hkvs]

theorem Synced.commitToKVS (h : m.Synced) (ok : Nat → Bool) : m.CommitToKVS ok = m := by
  unfold CommitToKVS
  generalize List.finRange c.MAX_SSH_KEYS = slots
  induction slots with
  | nil => rfl
  | cons i slots ih => rw [List.foldl_cons, h.commitSlot, ih]

/-! ## One object for one slot -/

/-- What saving makes of an object depends on nothing else in the store. -/
theorem storeObjectIfNecessary_congr {kvs kvs' : Kvs} {name : String} (h : kvs name = kvs' name)
    (ok : Bool) (value dflt : List UInt8) :
    kvs.StoreObjectIfNecessary ok name value dflt name =
      kvs'.StoreObjectIfNecessary ok name value dflt name := by
  have hread : kvs.ReadObject name value.length dflt = kvs'.ReadObject name value.length dflt := by
    unfold Kvs.ReadObject Kvs.FindObject
    rw [h]
  unfold Kvs.StoreObjectIfNecessary
  rw [hread]
  split
  · exact h
  · split
    · rw [Kvs.store_self, Kvs.store_self]
    · exact h

/-- Two managers with the same entry in a slot and the same object for it. -/
def Agree (i : Fin c.MAX_SSH_KEYS) (m m' : SSHKeyManager c) : Prop :=
  m.m_authorizedKeys i = m'.m_authorizedKeys i ∧ m.g_kvs (keyname i) = m'.g_kvs (keyname i)

theorem Agree.commitSlot {i : Fin c.MAX_SSH_KEYS} (h : Agree i m m') (ok : Nat → Bool)
    (j : Fin c.MAX_SSH_KEYS) : Agree i (m.commitSlot ok j) (m'.commitSlot ok j) := by
  obtain ⟨hslot, hobj⟩ := h
  by_cases hij : i = j
  · subst hij
    refine ⟨by rw [commitSlot_self, commitSlot_self, hslot], ?_⟩
    rw [commitSlot_eq, commitSlot_eq, hslot]
    dsimp only
    rw [hobj]
    split
    · exact hobj
    · exact storeObjectIfNecessary_congr hobj ..
  · exact ⟨by rw [commitSlot_of_ne hij, commitSlot_of_ne hij, hslot],
      by rw [commitSlot_kvs_of_ne hij, commitSlot_kvs_of_ne hij, hobj]⟩

theorem Agree.commitToKVS {i : Fin c.MAX_SSH_KEYS} (h : Agree i m m') (ok : Nat → Bool) :
    Agree i (m.CommitToKVS ok) (m'.CommitToKVS ok) := by
  unfold CommitToKVS
  generalize List.finRange c.MAX_SSH_KEYS = slots
  induction slots generalizing m m' with
  | nil => exact h
  | cons j slots ih => exact ih (h.commitSlot ok j)

theorem commitSlot_other {name : String} {i : Fin c.MAX_SSH_KEYS} (h : name ≠ keyname i) :
    (m.commitSlot ok i).g_kvs name = m.g_kvs name := by
  rw [commitSlot_eq]
  show (ite _ _ _ : Kvs) name = _
  split
  · rfl
  · rcases Kvs.storeObjectIfNecessary_cases m.g_kvs (ok i) (keyname i)
      (m.m_authorizedKeys i).wiped.toBytes (AuthorizedKey.zero c).toBytes with he | he
    · rw [he]
    · rw [he]
      exact Kvs.store_of_ne h

/-- Saving leaves the objects that are no slot's alone. -/
theorem commitToKVS_other (m : SSHKeyManager c) (ok : Nat → Bool) {name : String}
    (h : ∀ i : Fin c.MAX_SSH_KEYS, name ≠ keyname i) :
    (m.CommitToKVS ok).g_kvs name = m.g_kvs name := by
  unfold CommitToKVS
  generalize List.finRange c.MAX_SSH_KEYS = slots
  induction slots generalizing m with
  | nil => rfl
  | cons i slots ih => rw [List.foldl_cons, ih, commitSlot_other (h i)]

/-- Two digits are enough, so the names are of one length and none is cut. -/
theorem keyname_length : ∀ i < 100, (keyname i).length = 13 := by decide

/-- **Round trip of the key table.** With stores that take effect, saving leaves
the table with its entries without a nickname wiped, and loading brings the same
table back; saving again writes nothing. A slot's object is written from this slot
alone and read into it alone, under a name of its own. -/
theorem commitToKVS_roundTrip (hmax : c.MAX_SSH_KEYS ≤ 100) (m : SSHKeyManager c)
    (hok : ∀ j, ok j = true) :
    (∀ i, (m.CommitToKVS ok).m_authorizedKeys i =
      if (m.m_authorizedKeys i).occupied then m.m_authorizedKeys i else .zero c) ∧
    (m.CommitToKVS ok).LoadFromKVS = m.CommitToKVS ok ∧
    (∀ ok', ((m.CommitToKVS ok).CommitToKVS ok').g_kvs = (m.CommitToKVS ok).g_kvs) ∧
    (∀ name, (∀ i : Fin c.MAX_SSH_KEYS, name ≠ keyname i) →
      (m.CommitToKVS ok).g_kvs name = m.g_kvs name) ∧
    ∀ i : Fin c.MAX_SSH_KEYS,
      (keyname i).length = 13 ∧ (∀ j : Fin c.MAX_SSH_KEYS, keyname j = keyname i → j = i) ∧
      ∀ m' : SSHKeyManager c, m'.g_kvs (keyname i) = m.g_kvs (keyname i) →
        m'.LoadFromKVS.m_authorizedKeys i = m.LoadFromKVS.m_authorizedKeys i ∧
        (m'.m_authorizedKeys i = m.m_authorizedKeys i →
          (m'.CommitToKVS ok).g_kvs (keyname i) = (m.CommitToKVS ok).g_kvs (keyname i)) := by
  refine ⟨commitToKVS_slot m ok, ?_, fun ok' => ?_, fun name => commitToKVS_other m ok, fun i => ?_⟩
  · have hslots := funext (loadFromKVS_commitToKVS m hok)
    exact congrArg (SSHKeyManager.mk · (m.CommitToKVS ok).g_kvs) hslots
  · rw [(synced_commitToKVS m hok).commitToKVS]
  · refine ⟨keyname_length i (Nat.lt_of_lt_of_le i.isLt hmax),
      fun j hj => Fin.ext (keyname_injective hj), fun m' hobj => ⟨stored_congr hobj, fun hslot => ?_⟩⟩
    exact (Agree.commitToKVS ⟨hslot, hobj⟩ ok).2

/-- A table with a stale entry, over objects of an earlier save. -/
def staleTable : SSHKeyManager ⟨2, 15, 24, by decide, by decide⟩ :=
  let saved := (((init _).AddPublicKey sampleDecode keyType sampleBlob root).2).CommitToKVS fun _ => true
  let first : Fin 2 := ⟨0, by decide⟩
  saved.setSlot first { saved.m_authorizedKeys first with m_nickname := Vector.replicate 24 0 }

theorem commitToKVS_roundTrip_stale :
    (staleTable.m_authorizedKeys 0).m_pubkey ≠ Vector.replicate 32 0 ∧
      (staleTable.CommitToKVS fun _ => true).LoadFromKVS.m_authorizedKeys 0 = .zero _ := by
  have hok : ∀ j, (fun _ : Nat => true) j = true := fun _ => rfl
  have h := commitToKVS_roundTrip (by decide) staleTable hok
  refine ⟨by decide +kernel, ?_⟩
  rw [h.2.1, h.1 0]
  exact if_neg (by decide +kernel)

end SSHKeyManager

end EmbeddedPlatform.Tcpip
