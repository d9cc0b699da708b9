import Mathlib.Algebra.Group.Nat.Defs
import EmbeddedPlatform.Kvs

/-! # The bootloader's image check

The bootloader keeps two records about the application it last accepted, the
build id and the CRC of the partition, as two objects of the key-value store.
`ValidateAppPartition` compares them with the partition and rewrites them when
the build id is new. The CRC unit is a parameter; power may fail at either
store. -/
namespace EmbeddedPlatform.Bootloader

/-- What a board fixes: the size of the application partition, the place of the
version string in it, and the CRC unit. -/
structure Platform where
  g_appImageSize : Nat
  g_appVersionOffset : Nat
  Checksum : List UInt8 → UInt32

/-- Flash from `g_appVector` on. -/
abbrev Partition := Nat → UInt8

/-- A little endian word in memory. -/
def readWord (ptr : Nat → UInt8) : UInt32 :=
  .ofNat ((ptr 0).toNat + (ptr 1).toNat * 2 ^ 8 + (ptr 2).toNat * 2 ^ 16 + (ptr 3).toNat * 2 ^ 24)

/-- The bytes a word is stored as. -/
def wordBytes (w : UInt32) : List UInt8 :=
  [.ofNat w.toNat, .ofNat (w.toNat / 2 ^ 8), .ofNat (w.toNat / 2 ^ 16), .ofNat (w.toNat / 2 ^ 24)]

def g_imageVersionKey : String := "firmware.imageVersion"
def g_imageCRCKey : String := "firmware.crc"

/-- The note header: name size, descriptor size, type and "GNU". -/
def g_gnuBuildIdHeader : List UInt8 :=
  [0x04, 0x00, 0x00, 0x00, 0x14, 0x00, 0x00, 0x00, 0x03, 0x00, 0x00, 0x00, 71, 78, 85, 0]

def GNU_BUILD_ID_HEX_SIZE : Nat := 41

/-- One of "0123456789abcdef". -/
def hexDigit (n : Nat) : UInt8 := .ofNat (if n < 10 then 48 + n else 87 + n)

/-- `FormatBuildID`: the 20 bytes behind the header in hex, and a terminator. -/
def FormatBuildID (buildID : Nat → UInt8) : List UInt8 :=
  ((List.range 20).flatMap fun i =>
    [hexDigit ((buildID (16 + i)).toNat / 16), hexDigit ((buildID (16 + i)).toNat % 16)]) ++ [0]

/-- A C string in a buffer: the bytes before the first zero. -/
def cstr (buf : List UInt8) : List UInt8 := buf.takeWhile (· != 0)

variable (P : Platform)

def firmwareVer (appVector : Partition) : Nat → UInt8 :=
  fun i => appVector (P.g_appVersionOffset + i)

/-- The partition has a .gnu.build-id header where one is expected. -/
def validVersion (appVector : Partition) : Bool :=
  (List.range 16).map (firmwareVer P appVector) == g_gnuBuildIdHeader

def IsAppUpdated (kvs : Kvs) (appVector : Partition) : Bool :=
  if !validVersion P appVector then false
  else
    let firmwareVerHex := FormatBuildID (firmwareVer P appVector)
    match kvs.FindObject g_imageVersionKey with
    | some hlog =>
      if hlog.m_len = GNU_BUILD_ID_HEX_SIZE then
        -- strcmp of the record against the fresh string
        cstr (hlog.read GNU_BUILD_ID_HEX_SIZE) != cstr firmwareVerHex
      else true
    | none => true

/-- What becomes of a `StoreObject` call. Each store is atomic. -/
inductive StoreOutcome where
  | stored
  | refused
  | lostBefore
  | lostAfter
deriving DecidableEq

def StoreOutcome.takesEffect : StoreOutcome → Bool
  | .stored | .lostAfter => true
  | .refused | .lostBefore => false

def StoreOutcome.returns : StoreOutcome → Bool
  | .stored | .refused => true
  | .lostBefore | .lostAfter => false

def StoreObject (o : StoreOutcome) (kvs : Kvs) (name : String) (data : List UInt8) : Kvs :=
  if o.takesEffect then kvs.store name data else kvs

/-- What one pass through `ValidateAppPartition` meets: an uncorrectable ECC
error while the partition is read, and the fate of its two stores. -/
structure Faults where
  ecc : Bool
  version : StoreOutcome
  crc : StoreOutcome

/-- CRC of the entire application partition, blank space included. -/
def imageCRC (appVector : Partition) : UInt32 :=
  P.Checksum ((List.range P.g_appImageSize).map appVector)

/-- The rewrite of both records; `none` when power is lost on the way. A store
that fails is only logged. -/
def updateRecords (f : Faults) (kvs : Kvs) (appVector : Partition) : Kvs × Option Bool :=
  let kvs := StoreObject f.version kvs g_imageVersionKey (FormatBuildID (firmwareVer P appVector))
  if !f.version.returns then (kvs, none)
  else
    let kvs := StoreObject f.crc kvs g_imageCRCKey (wordBytes (imageCRC P appVector))
    if !f.crc.returns then (kvs, none) else (kvs, some true)

def ValidateAppPartition (f : Faults) (kvs : Kvs) (appVector : Partition) : Kvs × Option Bool :=
  if readWord appVector = 0xffffffff then (kvs, some false)
  else
    let expectedCRC :=
      if IsAppUpdated P kvs appVector then none
      else (kvs.FindObject g_imageCRCKey).map fun hlog => readWord hlog.ptr
    if f.ecc then (kvs, some false)
    else
      match expectedCRC with
      -- updated via JTAG, or a version on record without a CRC
      | none => updateRecords P f kvs appVector
      | some expected => (kvs, some (imageCRC P appVector == expected))

end EmbeddedPlatform.Bootloader
