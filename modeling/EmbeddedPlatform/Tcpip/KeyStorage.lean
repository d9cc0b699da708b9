import EmbeddedPlatform.Tcpip.KeyAuthorization

/-! # Keys in the key-value store

Slots and objects correspond one to one, so that saving the table and loading
it are inverse up to the entries without a nickname, which saving wipes. The
other half of the agreement, that an object holds exactly one entry, is not
checked by `LoadFromKVS`: it copies a whole entry from whatever the object's
length is. -/
namespace EmbeddedPlatform.Tcpip
open EmbeddedPlatform.Lib

variable {c : KeyConfig}

/-! ## Entries as bytes -/

namespace AuthorizedKey

/-- `sizeof(AuthorizedKey)` -/
def sizeof (c : KeyConfig) : Nat := 32 + c.MAX_TOKEN_LEN

theorem toBytes_length (k : AuthorizedKey c) : k.toBytes.length = sizeof c := by
  simp [toBytes, sizeof]

theorem toBytes_injective {k l : AuthorizedKey c} (h : k.toBytes = l.toBytes) : k = l := by
  obtain ⟨kp, kn⟩ := k
  obtain ⟨lp, ln⟩ := l
  obtain ⟨hp, hn⟩ := List.append_inj h (by simp)
  simp only [mk.injEq]
  exact ⟨Vector.toList_inj.mp hp, Vector.toList_inj.mp hn⟩

theorem ofFn_toList (n : Nat) (f : Nat → UInt8) :
    (Vector.ofFn fun i : Fin n => f i).toList = (List.range n).map f := by
  apply List.ext_getElem
  · simp
  · intro i h₁ h₂
    simp

theorem ofPtr_toBytes (c : KeyConfig) (ptr : Nat → UInt8) :
    (ofPtr c ptr).toBytes = (List.range (sizeof c)).map ptr := by
  have hkey : (ofPtr c ptr).m_pubkey.toList = (List.range 32).map ptr := ofFn_toList 32 ptr
  have hname : (ofPtr c ptr).m_nickname.toList =
      (List.range c.MAX_TOKEN_LEN).map fun i => ptr (32 + i) :=
    ofFn_toList c.MAX_TOKEN_LEN fun i => ptr (32 + i)
  rw [toBytes, hkey, hname, sizeof, List.range_add, List.map_append, List.map_map]
  rfl

theorem ofPtr_eq_iff {k : AuthorizedKey c} {ptr : Nat → UInt8} :
    ofPtr c ptr = k ↔ (List.range (sizeof c)).map ptr = k.toBytes := by
  rw [← ofPtr_toBytes]
  exact ⟨congrArg toBytes, toBytes_injective⟩

theorem ofPtr_congr {p q : Nat → UInt8} (h : ∀ i < sizeof c, p i = q i) : ofPtr c p = ofPtr c q := by
  rw [ofPtr_eq_iff, ofPtr_toBytes]
  exact List.map_congr_left fun i hi => h i (List.mem_range.mp hi)

theorem eq_of_ofPtr_eq {p q : Nat → UInt8} (h : ofPtr c p = ofPtr c q) {i : Nat}
    (hi : i < sizeof c) : p i = q i := by
  rw [ofPtr_eq_iff, ofPtr_toBytes] at h
  exact List.map_inj_left.mp h i (List.mem_range.mpr hi)

/-- What saving leaves of an entry: all of it, or nothing if it has no nickname. -/
def wiped (k : AuthorizedKey c) : AuthorizedKey c := if k.occupied then k else zero c

theorem wiped_of_occupied {k : AuthorizedKey c} (h : k.occupied = true) : k.wiped = k := if_pos h

theorem wiped_pubkey (k : AuthorizedKey c) :
    k.wiped.m_pubkey = k.m_pubkey ∨ k.wiped.m_pubkey = Vector.replicate 32 0 := by
  unfold wiped
  split
  · exact .inl rfl
  · exact .inr rfl

end AuthorizedKey

namespace SSHKeyManager

/-! ## Objects and slots -/

theorem keyname_injective {i j : Nat} (h : keyname i = keyname j) : i = j := by
  have hlist := congrArg String.toList h
  simp only [keyname, String.append_assoc, String.toList_append] at hlist
  have htail := List.append_cancel_left hlist
  have hnum := congrArg (fun ds => Nat.ofDigitChars 10 ds 0) htail
  have hpad : ∀ n : Nat,
      Nat.ofDigitChars 10 ((if n < 10 then "0" else "").toList ++ (toString n).toList) 0 = n := by
    intro n
    by_cases hn : n < 10 <;> simp [hn, Nat.ofDigitChars_cons]
  simpa only [hpad] using hnum

/-- The entry `LoadFromKVS` makes of the object of slot `i`. -/
def stored (kvs : Kvs) (i : Fin c.MAX_SSH_KEYS) : AuthorizedKey c :=
  match kvs.FindObject (keyname i) with
  | none => .zero c
  | some entry => .ofPtr c entry.ptr

@[simp] theorem loadFromKVS_slot (m : SSHKeyManager c) (i : Fin c.MAX_SSH_KEYS) :
    m.LoadFromKVS.m_authorizedKeys i = stored m.g_kvs i := rfl

theorem stored_none (kvs : Kvs) {i : Fin c.MAX_SSH_KEYS} (h : kvs (keyname i) = none) :
    stored (c := c) kvs i = .zero c := by simp [stored, Kvs.FindObject, h]

theorem stored_some (kvs : Kvs) {i : Fin c.MAX_SSH_KEYS} {o : KvsObject}
    (h : kvs (keyname i) = some o) : stored (c := c) kvs i = .ofPtr c o.ptr := by
  simp [stored, Kvs.FindObject, h]

theorem stored_congr {kvs kvs' : Kvs} {i : Fin c.MAX_SSH_KEYS}
    (h : kvs (keyname i) = kvs' (keyname i)) : stored (c := c) kvs i = stored kvs' i := by
  simp [stored, Kvs.FindObject, h]

/-- What loading finds in a slot's object after it was saved. -/
theorem stored_storeObjectIfNecessary (kvs : Kvs) (i : Fin c.MAX_SSH_KEYS) (k : AuthorizedKey c) :
    stored (kvs.StoreObjectIfNecessary true (keyname i) k.toBytes (AuthorizedKey.zero c).toBytes) i
      = k := by
  unfold Kvs.StoreObjectIfNecessary
  rw [AuthorizedKey.toBytes_length]
  split
  · rename_i hread
    unfold Kvs.ReadObject at hread
    rcases ho : kvs.FindObject (keyname i) with _ | o
    · rw [ho] at hread
      rw [stored_none kvs ho]
      exact AuthorizedKey.toBytes_injective hread
    · rw [ho] at hread
      rw [stored_some kvs ho]
      exact AuthorizedKey.ofPtr_eq_iff.mpr hread
  · rw [if_pos rfl, stored_some _ (Kvs.store_self ..)]
    exact AuthorizedKey.ofPtr_ofBytes k

/-! ## Saving the table -/

variable {m : SSHKeyManager c} {ok : Nat → Bool}

theorem setSlot_of_ne {i j : Fin c.MAX_SSH_KEYS} {k : AuthorizedKey c} (h : j ≠ i) :
    (m.setSlot i k).m_authorizedKeys j = m.m_authorizedKeys j := by simp [setSlot, h]

@[simp] theorem setSlot_self {i : Fin c.MAX_SSH_KEYS} {k : AuthorizedKey c} :
    (m.setSlot i k).m_authorizedKeys i = k := by simp [setSlot]

/-- One turn of the loop wipes the slot if it is free, and then saves it unless
it is free and was never saved. -/
theorem commitSlot_eq (i : Fin c.MAX_SSH_KEYS) :
    m.commitSlot ok i =
      let k := (m.m_authorizedKeys i).wiped
      { m.setSlot i k with
        g_kvs := if (m.m_authorizedKeys i).occupied = false ∧ m.g_kvs (keyname i) = none then m.g_kvs
          else m.g_kvs.StoreObjectIfNecessary (ok i) (keyname i) k.toBytes
            (AuthorizedKey.zero c).toBytes } := by
  unfold commitSlot AuthorizedKey.wiped
  by_cases hocc : (m.m_authorizedKeys i).occupied = true
  · simp [hocc, setSlot]
  · by_cases hobj : m.g_kvs (keyname i) = none
    · simp [hocc, hobj, Kvs.FindObject, setSlot]
    · simp [hocc, hobj, Kvs.FindObject, setSlot]

theorem commitSlot_self (i : Fin c.MAX_SSH_KEYS) :
    (m.commitSlot ok i).m_authorizedKeys i = (m.m_authorizedKeys i).wiped := by
  rw [commitSlot_eq]
  exact setSlot_self

theorem commitSlot_of_ne {i j : Fin c.MAX_SSH_KEYS} (h : j ≠ i) :
    (m.commitSlot ok i).m_authorizedKeys j = m.m_authorizedKeys j := by
  rw [commitSlot_eq]
  exact setSlot_of_ne h

theorem commitSlot_kvs_of_ne {i j : Fin c.MAX_SSH_KEYS} (h : j ≠ i) :
    (m.commitSlot ok i).g_kvs (keyname j) = m.g_kvs (keyname j) := by
  have hname : keyname j ≠ keyname i := fun he => h (Fin.ext (keyname_injective he))
  rw [commitSlot_eq]
  show (ite _ _ _ : Kvs) (keyname j) = _
  split
  · rfl
  · rcases Kvs.storeObjectIfNecessary_cases m.g_kvs (ok i) (keyname i)
      (m.m_authorizedKeys i).wiped.toBytes (AuthorizedKey.zero c).toBytes with he | he
    · rw [he]
    · rw [he]; exact Kvs.store_of_ne hname

theorem stored_commitSlot (i : Fin c.MAX_SSH_KEYS) (hok : ok i = true) :
    stored (m.commitSlot ok i).g_kvs i = (m.m_authorizedKeys i).wiped := by
  rw [commitSlot_eq]
  show stored (ite _ _ _ : Kvs) i = _
  split
  · rename_i hskip
    rw [stored_none _ hskip.2, AuthorizedKey.wiped, hskip.1]
    rfl
  · rw [hok]
    exact stored_storeObjectIfNecessary ..

/-- The loop of `CommitToKVS` over any of the slots. -/
theorem foldl_commitSlot (m : SSHKeyManager c) (ok : Nat → Bool)
    (slots : List (Fin c.MAX_SSH_KEYS)) (hnodup : slots.Nodup) (i : Fin c.MAX_SSH_KEYS) :
    (i ∉ slots → (slots.foldl (commitSlot ok) m).m_authorizedKeys i = m.m_authorizedKeys i ∧
      stored (slots.foldl (commitSlot ok) m).g_kvs i = stored m.g_kvs i) ∧
    (i ∈ slots →
      (slots.foldl (commitSlot ok) m).m_authorizedKeys i = (m.m_authorizedKeys i).wiped ∧
      ((∀ j, ok j = true) →
        stored (slots.foldl (commitSlot ok) m).g_kvs i = (m.m_authorizedKeys i).wiped)) := by
  induction slots generalizing m with
  | nil =>
    refine ⟨fun _ => ⟨rfl, rfl⟩, fun hi => ?_⟩
    cases hi
  | cons j slots ih =>
    obtain ⟨hj, hrest⟩ := List.nodup_cons.mp hnodup
    obtain ⟨hout, hin⟩ := ih (m.commitSlot ok j) hrest
    rw [List.foldl_cons]
    constructor
    · intro hi
      have hij : i ≠ j := fun h => hi (h ▸ List.mem_cons_self)
      obtain ⟨hslot, hstored⟩ := hout fun h => hi (List.mem_cons_of_mem _ h)
      rw [hslot, hstored, commitSlot_of_ne hij, stored_congr (commitSlot_kvs_of_ne hij)]
      exact ⟨rfl, rfl⟩
    · intro hi
      rcases List.mem_cons.mp hi with rfl | hi
      · obtain ⟨hslot, hstored⟩ := hout hj
        rw [hslot, hstored, commitSlot_self]
        exact ⟨rfl, fun hok => stored_commitSlot i (hok i)⟩
      · have hij : i ≠ j := fun h => hj (h ▸ hi)
        obtain ⟨hslot, hstored⟩ := hin hi
        rw [commitSlot_of_ne hij] at hslot hstored
        exact ⟨hslot, hstored⟩

/-- Saving wipes the entries without a nickname and keeps the others. -/
theorem commitToKVS_slot (m : SSHKeyManager c) (ok : Nat → Bool) (i : Fin c.MAX_SSH_KEYS) :
    (m.CommitToKVS ok).m_authorizedKeys i = (m.m_authorizedKeys i).wiped := by
  exact ((foldl_commitSlot m ok _ (List.nodup_finRange _) i).2 (List.mem_finRange i)).1

/-- **Saved tables load back.** If the stores take effect, loading after saving
restores every slot. -/
theorem loadFromKVS_commitToKVS (m : SSHKeyManager c) (hok : ∀ j, ok j = true)
    (i : Fin c.MAX_SSH_KEYS) :
    (m.CommitToKVS ok).LoadFromKVS.m_authorizedKeys i =
      (m.CommitToKVS ok).m_authorizedKeys i := by
  rw [commitToKVS_slot, loadFromKVS_slot]
  exact ((foldl_commitSlot m ok _ (List.nodup_finRange _) i).2 (List.mem_finRange i)).2 hok

/-! ## Objects of any length -/

/-- Two stores with the same objects; what memory holds behind an object may
differ. -/
def SameObjects (kvs kvs' : Kvs) : Prop :=
  ∀ name, Option.Rel (fun o o' => o.m_len = o'.m_len ∧ ∀ k < o.m_len, o.ptr k = o'.ptr k)
    (kvs.FindObject name) (kvs'.FindObject name)

/-- Loading copies the objects that are entries, makes an empty slot of
everything else, and depends on no byte outside an object. -/
structure LoadsObjects (m : SSHKeyManager c) : Prop where
  absent : ∀ i : Fin c.MAX_SSH_KEYS, m.g_kvs.FindObject (keyname i) = none →
    m.LoadFromKVS.m_authorizedKeys i = .zero c
  foreign : ∀ (i : Fin c.MAX_SSH_KEYS) o, m.g_kvs.FindObject (keyname i) = some o →
    o.m_len ≠ AuthorizedKey.sizeof c → m.LoadFromKVS.m_authorizedKeys i = .zero c
  whole : ∀ (i : Fin c.MAX_SSH_KEYS) o, m.g_kvs.FindObject (keyname i) = some o →
    o.m_len = AuthorizedKey.sizeof c →
      (m.LoadFromKVS.m_authorizedKeys i).toBytes = o.read (AuthorizedKey.sizeof c)
  within : ∀ kvs', SameObjects m.g_kvs kvs' → ∀ i,
    (LoadFromKVS { m with g_kvs := kvs' }).m_authorizedKeys i = m.LoadFromKVS.m_authorizedKeys i

/-- The object is an entry, or long enough for one and blank as far as it is
copied. -/
def Loadable (c : KeyConfig) (o : KvsObject) : Prop :=
  o.m_len = AuthorizedKey.sizeof c ∨
    (AuthorizedKey.sizeof c < o.m_len ∧ ∀ k < AuthorizedKey.sizeof c, o.ptr k = 0)

theorem Loadable.sizeof_le {o : KvsObject} (h : Loadable c o) : AuthorizedKey.sizeof c ≤ o.m_len := by
  rcases h with h | h
  · exact Nat.le_of_eq h.symm
  · exact Nat.le_of_lt h.1

theorem zero_toBytes : (AuthorizedKey.zero c).toBytes = List.replicate (AuthorizedKey.sizeof c) 0 := by
  show (Vector.replicate 32 0).toList ++ (Vector.replicate c.MAX_TOKEN_LEN 0).toList = _
  rw [Vector.toList_replicate, Vector.toList_replicate, List.replicate_append_replicate]
  rfl

theorem ofPtr_eq_zero_iff {ptr : Nat → UInt8} :
    AuthorizedKey.ofPtr c ptr = .zero c ↔ ∀ k < AuthorizedKey.sizeof c, ptr k = 0 := by
  rw [AuthorizedKey.ofPtr_eq_iff, zero_toBytes, List.eq_replicate_iff]
  simp

/-- The same store with one byte behind an object changed. -/
def poke (kvs : Kvs) (name : String) (o : KvsObject) : Kvs :=
  Function.update kvs name (some { o with ptr := Function.update o.ptr o.m_len (o.ptr o.m_len + 1) })

theorem sameObjects_poke {kvs : Kvs} {name : String} {o : KvsObject}
    (h : kvs.FindObject name = some o) : SameObjects kvs (poke kvs name o) := by
  intro other
  by_cases hn : other = name
  · subst hn
    rw [h]
    simp only [poke, Kvs.FindObject, Function.update_self]
    refine .some ⟨rfl, fun k hk => ?_⟩
    exact (Function.update_of_ne (Nat.ne_of_lt hk) _ _).symm
  · simp only [poke, Kvs.FindObject, Function.update_of_ne hn]
    cases kvs other with
    | none => exact .none
    | some o' => exact .some ⟨rfl, fun _ _ => rfl⟩

/-- An object shorter than an entry has bytes behind it copied. -/
theorem LoadsObjects.long_enough {m : SSHKeyManager c} (h : m.LoadsObjects) {i : Fin c.MAX_SSH_KEYS}
    {o : KvsObject} (ho : m.g_kvs.FindObject (keyname i) = some o) :
    AuthorizedKey.sizeof c ≤ o.m_len := by
  by_contra hlt
  have hlt : o.m_len < AuthorizedKey.sizeof c := Nat.lt_of_not_le hlt
  have hsame := h.within _ (sameObjects_poke ho) i
  rw [loadFromKVS_slot, loadFromKVS_slot, stored_some m.g_kvs ho,
    stored_some (poke m.g_kvs (keyname i) o) (Function.update_self ..)] at hsame
  have hbyte : o.ptr o.m_len + 1 = o.ptr o.m_len :=
    (Function.update_self ..).symm.trans (AuthorizedKey.eq_of_ofPtr_eq hsame hlt)
  simp at hbyte

/-- **What loading trusts.** Loading keeps to the stored objects iff every
object of a slot is as long as an entry, or longer and blank. -/
theorem loadFromKVS_objects_iff (m : SSHKeyManager c) :
    m.LoadsObjects ↔
      ∀ (i : Fin c.MAX_SSH_KEYS) o, m.g_kvs.FindObject (keyname i) = some o → Loadable c o := by
  constructor
  · intro h i o ho
    rcases Nat.eq_or_lt_of_le (h.long_enough ho) with he | hlt
    · exact .inl he.symm
    · have hzero := h.foreign i o ho (Nat.ne_of_gt hlt)
      rw [loadFromKVS_slot, stored_some m.g_kvs ho] at hzero
      exact .inr ⟨hlt, ofPtr_eq_zero_iff.mp hzero⟩
  · intro h
    refine ⟨fun i ho => stored_none _ ho, fun i o ho hlen => ?_, fun i o ho _ => ?_, fun kvs' hsame i => ?_⟩
    · rcases h i o ho with he | ⟨-, hblank⟩
      · exact absurd he hlen
      · rw [loadFromKVS_slot, stored_some m.g_kvs ho]
        exact ofPtr_eq_zero_iff.mpr hblank
    · rw [loadFromKVS_slot, stored_some m.g_kvs ho]
      exact AuthorizedKey.ofPtr_toBytes c o.ptr
    · have hrel := hsame (keyname i)
      rw [loadFromKVS_slot, loadFromKVS_slot]
      rcases ho : m.g_kvs.FindObject (keyname i) with _ | o
      · rw [ho] at hrel
        rcases ho' : kvs'.FindObject (keyname i) with _ | o'
        · rw [stored_none m.g_kvs ho, stored_none kvs' ho']
        · rw [ho'] at hrel; cases hrel
      · rw [ho] at hrel
        rcases ho' : kvs'.FindObject (keyname i) with _ | o'
        · rw [ho'] at hrel; cases hrel
        · rw [ho'] at hrel
          cases hrel with
          | some hbytes =>
            rw [stored_some m.g_kvs ho, stored_some kvs' ho']
            refine AuthorizedKey.ofPtr_congr fun k hk => ?_
            exact (hbytes.2 k (Nat.lt_of_lt_of_le hk (h i o ho).sizeof_le)).symm

/-- The CLI's deletion of an object: it is overwritten with one of no bytes. -/
def RemoveFlashKey (kvs : Kvs) (ok : Bool) (key : String) : Kvs :=
  if (kvs.FindObject key).isSome && ok then kvs.store key [] else kvs

/-- No table loads as it should once the object of a slot was deleted. -/
theorem removeFlashKey_not_loadsObjects {m : SSHKeyManager c} {i : Fin c.MAX_SSH_KEYS}
    (h : (m.g_kvs.FindObject (keyname i)).isSome = true) :
    ¬ LoadsObjects { m with g_kvs := RemoveFlashKey m.g_kvs true (keyname i) } := by
  intro hload
  have ho : (RemoveFlashKey m.g_kvs true (keyname i)).FindObject (keyname i) =
      some (.ofBytes []) := by
    rw [RemoveFlashKey, if_pos (by simp [h])]
    exact Kvs.store_self ..
  have hlen := hload.long_enough ho
  have hpos : 0 < AuthorizedKey.sizeof c := Nat.lt_of_lt_of_le (by decide) (Nat.le_add_right 32 _)
  exact absurd hlen (Nat.not_le_of_lt hpos)

/-- A key is added, saved and deleted in the CLI. -/
theorem deleted_key_loaded :
    ∃ m : SSHKeyManager ⟨32, 16, 32, by decide, by decide⟩,
      run (step sampleDecode) (init _)
        [.AddPublicKey keyType sampleBlob root, .CommitToKVS fun _ => true] = .ok (m, []) ∧
      ¬ LoadsObjects { m with g_kvs := RemoveFlashKey m.g_kvs true (keyname 0) } := by
  refine ⟨_, rfl, removeFlashKey_not_loadsObjects (i := 0) ?_⟩
  decide +kernel

end SSHKeyManager

end EmbeddedPlatform.Tcpip
