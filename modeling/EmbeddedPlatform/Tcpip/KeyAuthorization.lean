import EmbeddedPlatform.Tcpip.SSHKeyManager

/-! # Which keys can log in

`FindKey` compares all slots, `AddPublicKey` calls a slot free by its nickname.
The two agree on a key as long as no free slot is left holding it, which is the
invariant here: a wiped slot holds the zero key, and a key added without a
description sits in a slot that counts as free. -/
namespace EmbeddedPlatform.Tcpip
open EmbeddedPlatform.Lib

variable {c : KeyConfig}

/-! ## Entries -/

namespace AuthorizedKey

theorem zero_occupied (c : KeyConfig) : (zero c).occupied = false := by
  simp [zero, occupied]

theorem ofPtr_ofBytes (k : AuthorizedKey c) : ofPtr c (KvsObject.ofBytes k.toBytes).ptr = k := by
  obtain ⟨pubkey, nickname⟩ := k
  simp only [ofPtr, KvsObject.ofBytes, toBytes, mk.injEq]
  constructor
  · ext i hi
    simp [List.getD_eq_getElem?_getD, List.getElem?_append_left]
  · ext i hi
    simp [List.getD_eq_getElem?_getD]

theorem setNickname_occupied (k : AuthorizedKey c) (d : CString) (hd : d.bytes ≠ []) :
    (k.setNickname d).occupied = true := by
  obtain ⟨_ | ⟨a, rest⟩, hnul⟩ := d
  · exact absurd rfl hd
  · have ha : a ≠ 0 := fun h => hnul (by simp [h])
    simp [occupied, setNickname, c.namelen_pos, ha]

end AuthorizedKey

/-- A free slot that still holds the key. -/
def Stale (key : PublicKey) (k : AuthorizedKey c) : Prop := k.occupied = false ∧ k.m_pubkey = key

theorem zero_not_stale {key : PublicKey} (hkey : key ≠ Vector.replicate 32 0) :
    ¬ Stale key (AuthorizedKey.zero c) := fun h => hkey h.2.symm

theorem setNickname_not_stale {key : PublicKey} {k : AuthorizedKey c} {d : CString}
    (h : d.bytes = [] → k.m_pubkey ≠ key) : ¬ Stale key (k.setNickname d) := by
  rintro ⟨hfree, hkey⟩
  by_cases hd : d.bytes = []
  · exact h hd hkey
  · rw [AuthorizedKey.setNickname_occupied k d hd] at hfree; cases hfree

namespace SSHKeyManager

/-! ## The invariant -/

/-- No free slot holds the key, in the table or in an object it could be loaded
from. -/
structure NoStale (key : PublicKey) (m : SSHKeyManager c) : Prop where
  slots : ∀ i, ¬ Stale key (m.m_authorizedKeys i)
  objects : ∀ name o, m.g_kvs name = some o → ¬ Stale key (AuthorizedKey.ofPtr c o.ptr)

variable {key : PublicKey} {m : SSHKeyManager c}

theorem NoStale.setSlot (h : m.NoStale key) (i : Fin c.MAX_SSH_KEYS) {k : AuthorizedKey c}
    (hk : ¬ Stale key k) : (m.setSlot i k).NoStale key := by
  refine ⟨fun j => ?_, h.objects⟩
  by_cases hj : j = i
  · subst hj; simpa [SSHKeyManager.setSlot] using hk
  · simpa [SSHKeyManager.setSlot, hj] using h.slots j

theorem NoStale.store (h : m.NoStale key) (name : String) {k : AuthorizedKey c}
    (hk : ¬ Stale key k) : NoStale key { m with g_kvs := m.g_kvs.store name k.toBytes } := by
  refine ⟨h.slots, fun other o ho => ?_⟩
  dsimp only at ho
  by_cases hn : other = name
  · subst hn
    simp only [Kvs.store_self, Option.some.injEq] at ho
    rw [← ho, AuthorizedKey.ofPtr_ofBytes]; exact hk
  · rw [Kvs.store_of_ne hn] at ho
    exact h.objects other o ho

theorem init_noStale (hkey : key ≠ Vector.replicate 32 0) : (init c).NoStale key :=
  ⟨fun _ => zero_not_stale hkey, fun _ _ ho => (nomatch ho)⟩

theorem loadFromKVS_noStale (hkey : key ≠ Vector.replicate 32 0) (h : m.NoStale key) :
    m.LoadFromKVS.NoStale key := by
  refine ⟨fun i => ?_, h.objects⟩
  simp only [LoadFromKVS, Kvs.FindObject]
  split
  · exact zero_not_stale hkey
  · rename_i o ho; exact h.objects _ o ho

theorem commitSlot_noStale (hkey : key ≠ Vector.replicate 32 0) (ok : Nat → Bool)
    (i : Fin c.MAX_SSH_KEYS) (h : m.NoStale key) : (m.commitSlot ok i).NoStale key := by
  unfold commitSlot
  extract_lets blank m' kvs
  have h' : m'.NoStale key := by
    show (if blank then m.setSlot i (.zero c) else m).NoStale key
    split
    · exact h.setSlot i (zero_not_stale hkey)
    · exact h
  split
  · exact h'
  · have hkvs : kvs = m'.g_kvs ∨ kvs = m'.g_kvs.store (keyname i) (m'.m_authorizedKeys i).toBytes :=
      Kvs.storeObjectIfNecessary_cases ..
    rcases hkvs with he | he <;> rw [he]
    · exact h'
    · exact h'.store _ (h'.slots i)

theorem commitToKVS_noStale (hkey : key ≠ Vector.replicate 32 0) (ok : Nat → Bool)
    (h : m.NoStale key) : (m.CommitToKVS ok).NoStale key := by
  unfold CommitToKVS
  generalize List.finRange c.MAX_SSH_KEYS = slots
  induction slots generalizing m with
  | nil => exact h
  | cons i slots ih => exact ih (commitSlot_noStale hkey ok i h)

theorem removePublicKey_noStale (hkey : key ≠ Vector.replicate 32 0) (slot : Int)
    (h : m.NoStale key) : (m.RemovePublicKey slot).NoStale key := by
  unfold RemovePublicKey
  split
  · exact h.setSlot _ (zero_not_stale hkey)
  · exact h

/-! ## Adding a key -/

/-- The slot `AddPublicKey` finds has the key, the free slot it notes is free. -/
theorem findSlot_spec {search : PublicKey} (slots : List (Fin c.MAX_SSH_KEYS))
    (freeSlot : Option (Fin c.MAX_SSH_KEYS))
    (hfree : ∀ i, freeSlot = some i → (m.m_authorizedKeys i).occupied = false) :
    (∀ i, (m.findSlot search slots freeSlot).1 = some i →
      (m.m_authorizedKeys i).m_pubkey = search) ∧
    (∀ i, (m.findSlot search slots freeSlot).2 = some i →
      (m.m_authorizedKeys i).occupied = false) := by
  induction slots generalizing freeSlot with
  | nil => exact ⟨fun i h => (nomatch h), hfree⟩
  | cons j slots ih =>
    unfold findSlot
    split
    · rename_i hj
      refine ih (some j) fun i hi => ?_
      cases hi
      simpa using (Bool.and_eq_true_iff.mp hj).2
    · split
      · rename_i hj
        exact ⟨fun i hi => by cases hi; exact hj, hfree⟩
      · exact ih freeSlot hfree

/-- The call gives the key to a slot and leaves the slot without a nickname. -/
def AddsBlank (base64_decode_block : List UInt8 → List UInt8) (key : PublicKey)
    (m : SSHKeyManager c) : Op → Prop
  | .AddPublicKey keyType keyBlobBase64 keyDesc =>
    decodeKey base64_decode_block keyType keyBlobBase64 = some key ∧ keyDesc.bytes = [] ∧
      ∃ i, (m.m_authorizedKeys i).occupied = false ∨ (m.m_authorizedKeys i).m_pubkey = key
  | _ => False

theorem addPublicKey_noStale {base64_decode_block : List UInt8 → List UInt8}
    {keyType keyBlobBase64 keyDesc : CString} (h : m.NoStale key)
    (hop : ¬ AddsBlank base64_decode_block key m (.AddPublicKey keyType keyBlobBase64 keyDesc)) :
    (m.AddPublicKey base64_decode_block keyType keyBlobBase64 keyDesc).2.NoStale key := by
  unfold AddPublicKey
  split
  · exact h
  · rename_i added hadded
    have hspec := @findSlot_spec _ m added (List.finRange c.MAX_SSH_KEYS) none
      (fun i hi => by cases hi)
    split
    · rename_i i _ hslot
      have hi : (m.m_authorizedKeys i).m_pubkey = added := hspec.1 i (by rw [hslot])
      refine h.setSlot i (setNickname_not_stale fun hd hk => hop ?_)
      exact ⟨hadded.trans (congrArg some (hi.symm.trans hk)), hd, i, .inr hk⟩
    · rename_i i hslot
      have hi : (m.m_authorizedKeys i).occupied = false := hspec.2 i (by rw [hslot])
      refine h.setSlot i (setNickname_not_stale fun hd hk => hop ?_)
      exact ⟨hadded.trans (congrArg some hk), hd, i, .inl hi⟩
    · exact h

theorem step_noStale {base64_decode_block : List UInt8 → List UInt8}
    (hkey : key ≠ Vector.replicate 32 0) {op : Op} {t : SSHKeyManager c} {es : List Empty}
    (h : m.NoStale key) (hop : ¬ AddsBlank base64_decode_block key m op)
    (hs : step base64_decode_block m op = .ok (t, es)) : t.NoStale key := by
  cases op with
  | AddPublicKey keyType keyBlobBase64 keyDesc => cases hs; exact addPublicKey_noStale h hop
  | RemovePublicKey slot => cases hs; exact removePublicKey_noStale hkey slot h
  | CommitToKVS ok => cases hs; exact commitToKVS_noStale hkey ok h
  | LoadFromKVS => cases hs; exact loadFromKVS_noStale hkey h

/-! ## Logins -/

/-- The login is the configured user's and the key is in an occupied slot. -/
def Authorized (m : SSHKeyManager c) (m_username username : List UInt8) (key : PublicKey) : Prop :=
  username = m_username ∧
    ∃ i, (m.m_authorizedKeys i).occupied = true ∧ (m.m_authorizedKeys i).m_pubkey = key

theorem findKey_some {search : PublicKey} {i : Fin c.MAX_SSH_KEYS}
    (h : m.FindKey search = some i) : (m.m_authorizedKeys i).m_pubkey = search := by
  simpa using List.find?_some h

theorem authorized_of_noStale {StringMatchWithLength : List UInt8 → List UInt8 → Bool}
    (hmatch : ∀ a b, StringMatchWithLength a b = true → b = a) {m_username username : List UInt8}
    (h : m.NoStale key) (hc : m.CanUseKey StringMatchWithLength m_username username key = true) :
    m.Authorized m_username username key := by
  unfold CanUseKey at hc
  split at hc
  · cases hc
  · rename_i hu
    split at hc
    · cases hc
    · rename_i i hi
      have hkey := findKey_some hi
      refine ⟨hmatch _ _ (by simpa using hu), i, ?_, hkey⟩
      by_contra hfree
      exact h.slots i ⟨by simpa using hfree, hkey⟩

/-- **Only added keys log in.** In every run in which no `AddPublicKey` gives
the key to a slot without a nickname, a login with the key, unless it is the
zero key, is granted to the configured user only and for an occupied slot. -/
theorem canUseKey_authorized (c : KeyConfig) (base64_decode_block : List UInt8 → List UInt8)
    (StringMatchWithLength : List UInt8 → List UInt8 → Bool)
    (hmatch : ∀ a b, StringMatchWithLength a b = true → b = a)
    (key : PublicKey) (hkey : key ≠ Vector.replicate 32 0) (ops : List Op)
    (hops : AllSteps (step base64_decode_block)
      (fun m op => ¬ AddsBlank base64_decode_block key m op) (init c) ops)
    (m : SSHKeyManager c) (log : List Empty)
    (hr : run (step base64_decode_block) (init c) ops = .ok (m, log))
    (m_username username : List UInt8)
    (hc : m.CanUseKey StringMatchWithLength m_username username key = true) :
    m.Authorized m_username username key :=
  authorized_of_noStale hmatch
    (run_invariant (fun _ _ _ _ h hop hs => step_noStale hkey h hop hs) (init_noStale hkey) hops hr)
    hc

/-- The blob of the key 01 02 .. 20 as an authorized_keys line has it. -/
def sampleBlob : CString where
  bytes := [65, 65, 65, 65, 67, 51, 78, 122, 97, 67, 49, 108, 90, 68, 73, 49, 78, 84, 69, 53,
    65, 65, 65, 65, 73, 65, 69, 67, 65, 119, 81, 70, 66, 103, 99, 73, 67, 81, 111, 76, 68, 65,
    48, 79, 68, 120, 65, 82, 69, 104, 77, 85, 70, 82, 89, 88, 71, 66, 107, 97, 71, 120, 119,
    100, 72, 104, 56, 103]
  nonul := by decide

def sampleKey : PublicKey := Vector.ofFn fun i => (i.val + 1).toUInt8

/-- What decoding `sampleBlob` yields. -/
def sampleDecode (_ : List UInt8) : List UInt8 :=
  [0, 0, 0, 11] ++ sshEd25519 ++ [0, 0, 0, 32] ++ sampleKey.toList

def keyType : CString where
  bytes := sshEd25519
  nonul := by decide

def root : CString where
  bytes := [114, 111, 111, 116]
  nonul := by decide

/-- A key added under a nickname, then looked up for a login of its user. -/
theorem canUseKey_authorized_sample :
    ∃ m, Authorized (c := ⟨2, 16, 32, by decide, by decide⟩) m root.bytes root.bytes sampleKey :=
  ⟨_, canUseKey_authorized ⟨2, 16, 32, by decide, by decide⟩ sampleDecode
    (fun a b => decide (b = a)) (fun _ _ h => of_decide_eq_true h) sampleKey (by decide)
    [.AddPublicKey keyType sampleBlob root, .CommitToKVS fun _ => true, .LoadFromKVS]
    ⟨fun h => (nomatch h.2.1), fun _ _ _ =>
      ⟨fun h => h, fun _ _ _ => ⟨fun h => h, fun _ _ _ => trivial⟩⟩⟩
    _ _ rfl root.bytes root.bytes (by decide)⟩

/-- The table of a fresh board, in which no key was ever added, lets the zero
key in. -/
theorem zero_key_authorized :
    ∃ (m : SSHKeyManager ⟨32, 16, 32, by decide, by decide⟩) (log : List Empty),
      run (step sampleDecode) (init _) [] = .ok (m, log) ∧
      m.CanUseKey (fun a b => decide (b = a)) root.bytes root.bytes (Vector.replicate 32 0) = true ∧
      ¬ m.Authorized root.bytes root.bytes (Vector.replicate 32 0) := by
  refine ⟨_, _, rfl, by decide, fun h => ?_⟩
  obtain ⟨-, i, hi, -⟩ := h
  simp only [init, AuthorizedKey.zero_occupied] at hi
  cases hi

end SSHKeyManager

end EmbeddedPlatform.Tcpip
