import Mathlib.Algebra.Group.Nat.Defs
import EmbeddedPlatform.Kvs
import EmbeddedPlatform.Lib.Run

/-! # The SSH key table

`SSHKeyManager` keeps a fixed table of authorized keys in RAM and saves it to
the key-value store on request; `KeyManagerPubkeyAuthenticator` consults it for
a login. A slot is free when its nickname is empty. The base64 decoder and the
user name comparison belong to the SSH library and are parameters. -/
namespace EmbeddedPlatform.Tcpip
open EmbeddedPlatform.Lib

/-- A C string: the bytes before the terminator. -/
structure CString where
  bytes : List UInt8
  nonul : 0 ∉ bytes

/-- Sizes fixed when the firmware is built. The last two come from the CLI and
KVS libraries; a nickname must hold `KVS_NAMELEN` bytes and their terminator. -/
structure KeyConfig where
  MAX_SSH_KEYS : Nat
  KVS_NAMELEN : Nat
  MAX_TOKEN_LEN : Nat
  namelen_pos : 0 < KVS_NAMELEN
  namelen_lt : KVS_NAMELEN < MAX_TOKEN_LEN

abbrev PublicKey := Vector UInt8 32

/-- A single entry in the authorized_keys list. -/
structure AuthorizedKey (c : KeyConfig) where
  m_pubkey : PublicKey
  m_nickname : Vector UInt8 c.MAX_TOKEN_LEN
deriving DecidableEq

namespace AuthorizedKey
variable {c : KeyConfig}

/-- A slot after memset. -/
def zero (c : KeyConfig) : AuthorizedKey c where
  m_pubkey := Vector.replicate 32 0
  m_nickname := Vector.replicate c.MAX_TOKEN_LEN 0

/-- The test for a free slot, `m_nickname[0] == '\0'`, negated. -/
def occupied (k : AuthorizedKey c) : Bool :=
  k.m_nickname[(⟨0, Nat.lt_trans c.namelen_pos c.namelen_lt⟩ : Fin c.MAX_TOKEN_LEN)] != 0

def toBytes (k : AuthorizedKey c) : List UInt8 := k.m_pubkey.toList ++ k.m_nickname.toList

/-- memcpy of a whole entry from `ptr`. -/
def ofPtr (c : KeyConfig) (ptr : Nat → UInt8) : AuthorizedKey c where
  m_pubkey := Vector.ofFn fun i => ptr i
  m_nickname := Vector.ofFn fun i => ptr (32 + i)

/-- strncpy of at most `KVS_NAMELEN` bytes, then the terminator behind them. -/
def setNickname (k : AuthorizedKey c) (keyDesc : CString) : AuthorizedKey c :=
  { k with
    m_nickname := Vector.ofFn fun i =>
      if i.val < c.KVS_NAMELEN then keyDesc.bytes.getD i.val 0
      else if i.val = c.KVS_NAMELEN then 0
      else k.m_nickname[i] }

end AuthorizedKey

/-! ## The key blob -/

/-- The fields of a decoded blob after `ByteSwap`. -/
structure SSHCurve25519KeyBlob where
  m_keyTypeLength : Nat
  m_keyType : List UInt8
  m_pubKeyLength : Nat
  m_pubKey : PublicKey

/-- A big endian word in memory. -/
def word32 (ptr : Nat → UInt8) (at' : Nat) : Nat :=
  (ptr at').toNat * 2 ^ 24 + (ptr (at' + 1)).toNat * 2 ^ 16 +
    (ptr (at' + 2)).toNat * 2 ^ 8 + (ptr (at' + 3)).toNat

/-- The packed layout: two length-prefixed fields of 11 and 32 bytes. -/
def SSHCurve25519KeyBlob.ofPtr (ptr : Nat → UInt8) : SSHCurve25519KeyBlob where
  m_keyTypeLength := word32 ptr 0
  m_keyType := (List.range 11).map fun i => ptr (4 + i)
  m_pubKeyLength := word32 ptr 15
  m_pubKey := Vector.ofFn fun i => ptr (19 + i)

/-- "ssh-ed25519" -/
def sshEd25519 : List UInt8 := [115, 115, 104, 45, 101, 100, 50, 53, 53, 49, 57]

/-- The checks at the head of `AddPublicKey`, and the key they let through. -/
def decodeKey (base64_decode_block : List UInt8 → List UInt8) (keyType keyBlobBase64 : CString) :
    Option PublicKey :=
  if keyType.bytes ≠ sshEd25519 then none
  else if keyBlobBase64.bytes.length > 84 then none
  else
    let decoded := base64_decode_block keyBlobBase64.bytes
    if decoded.length ≠ 51 then none
    else
      let blob := SSHCurve25519KeyBlob.ofPtr fun i => decoded.getD i 0
      if blob.m_keyTypeLength ≠ 11 then none
      else if blob.m_keyType ≠ sshEd25519 then none
      else if blob.m_pubKeyLength ≠ 32 then none
      else some blob.m_pubKey

/-! ## The table -/

structure SSHKeyManager (c : KeyConfig) where
  m_authorizedKeys : Fin c.MAX_SSH_KEYS → AuthorizedKey c
  g_kvs : Kvs

namespace SSHKeyManager
variable {c : KeyConfig}

/-- Empty table, empty KVS. -/
def init (c : KeyConfig) : SSHKeyManager c where
  m_authorizedKeys := fun _ => .zero c
  g_kvs := .empty

def setSlot (m : SSHKeyManager c) (i : Fin c.MAX_SSH_KEYS) (k : AuthorizedKey c) :
    SSHKeyManager c :=
  { m with m_authorizedKeys := Function.update m.m_authorizedKeys i k }

/-- The object name of a slot, "ssh.authkey%02d". -/
def keyname (i : Nat) : String := "ssh.authkey" ++ (if i < 10 then "0" else "") ++ toString i

/-- The table is cleared, then every slot that has an object is copied over. -/
def LoadFromKVS (m : SSHKeyManager c) : SSHKeyManager c :=
  { m with
    m_authorizedKeys := fun i =>
      match m.g_kvs.FindObject (keyname i) with
      | none => .zero c
      | some entry => .ofPtr c entry.ptr }

/-- One turn of the loop of `CommitToKVS`. -/
def commitSlot (ok : Nat → Bool) (m : SSHKeyManager c) (i : Fin c.MAX_SSH_KEYS) :
    SSHKeyManager c :=
  let blank := !(m.m_authorizedKeys i).occupied
  let m := if blank then m.setSlot i (.zero c) else m
  if blank && (m.g_kvs.FindObject (keyname i)).isNone then m
  else
    let kvs := m.g_kvs.StoreObjectIfNecessary (ok i) (keyname i)
      (m.m_authorizedKeys i).toBytes (AuthorizedKey.zero c).toBytes
    { m with g_kvs := kvs }

/-- `ok` says which of the stores take effect. -/
def CommitToKVS (ok : Nat → Bool) (m : SSHKeyManager c) : SSHKeyManager c :=
  (List.finRange c.MAX_SSH_KEYS).foldl (commitSlot ok) m

/-- Where the loop of `AddPublicKey` stops: at a slot that already has the key,
or at the end with the first free slot, if any. The first free slot itself is
not compared. -/
def findSlot (m : SSHKeyManager c) (key : PublicKey) :
    List (Fin c.MAX_SSH_KEYS) → Option (Fin c.MAX_SSH_KEYS) →
      Option (Fin c.MAX_SSH_KEYS) × Option (Fin c.MAX_SSH_KEYS)
  | [], freeSlot => (none, freeSlot)
  | i :: rest, freeSlot =>
    if freeSlot.isNone && !(m.m_authorizedKeys i).occupied then findSlot m key rest (some i)
    else if (m.m_authorizedKeys i).m_pubkey = key then (some i, freeSlot)
    else findSlot m key rest freeSlot

def AddPublicKey (base64_decode_block : List UInt8 → List UInt8)
    (keyType keyBlobBase64 keyDesc : CString) (m : SSHKeyManager c) : Bool × SSHKeyManager c :=
  match decodeKey base64_decode_block keyType keyBlobBase64 with
  | none => (false, m)
  | some key =>
    match m.findSlot key (List.finRange c.MAX_SSH_KEYS) none with
    | (some i, _) => (true, m.setSlot i ((m.m_authorizedKeys i).setNickname keyDesc))
    | (none, some i) =>
      (true, m.setSlot i ({ m.m_authorizedKeys i with m_pubkey := key }.setNickname keyDesc))
    | (none, none) => (false, m)

def RemovePublicKey (slot : Int) (m : SSHKeyManager c) : SSHKeyManager c :=
  if h : 0 ≤ slot ∧ slot < c.MAX_SSH_KEYS then
    m.setSlot ⟨slot.toNat, by omega⟩ (.zero c)
  else m

/-- The first slot with the key; `none` stands for a negative result. -/
def FindKey (m : SSHKeyManager c) (search : PublicKey) : Option (Fin c.MAX_SSH_KEYS) :=
  (List.finRange c.MAX_SSH_KEYS).find? fun i => (m.m_authorizedKeys i).m_pubkey = search

/-- `KeyManagerPubkeyAuthenticator::CanUseKey` -/
def CanUseKey (StringMatchWithLength : List UInt8 → List UInt8 → Bool) (m_username : List UInt8)
    (m : SSHKeyManager c) (username : List UInt8) (m_pubKey : PublicKey) : Bool :=
  if !StringMatchWithLength m_username username then false
  else
    match m.FindKey m_pubKey with
    | none => false
    | some _ => true

/-! ## The public operations -/

inductive Op where
  | AddPublicKey (keyType keyBlobBase64 keyDesc : CString)
  | RemovePublicKey (slot : Int)
  | CommitToKVS (ok : Nat → Bool)
  | LoadFromKVS

/-- None of the operations fails to return, and none logs an event. -/
def step (base64_decode_block : List UInt8 → List UInt8) (m : SSHKeyManager c) :
    Op → Except Empty (SSHKeyManager c × List Empty)
  | .AddPublicKey keyType keyBlobBase64 keyDesc =>
    .ok ((m.AddPublicKey base64_decode_block keyType keyBlobBase64 keyDesc).2, [])
  | .RemovePublicKey slot => .ok (m.RemovePublicKey slot, [])
  | .CommitToKVS ok => .ok (m.CommitToKVS ok, [])
  | .LoadFromKVS => .ok (m.LoadFromKVS, [])

end SSHKeyManager

end EmbeddedPlatform.Tcpip
