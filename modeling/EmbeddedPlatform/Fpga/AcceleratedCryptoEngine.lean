import EmbeddedPlatform.Lib.Buffer
import Mathlib.Data.Fin.VecNotation
import Mathlib.Data.List.FinRange
import Mathlib.Logic.Function.Basic

/-! # The crypto engine with a curve accelerator

Host signatures are made and verified partly in software, by a library for the
curve, and partly by the accelerator in the FPGA. Both are external: they are the
fields of `Curve25519`, the accelerator's registers the arguments of its two
operations. What local arrays hold before they are written is an argument of each
function. -/
namespace EmbeddedPlatform.Fpga
open EmbeddedPlatform.Lib

abbrev Bytes (n : Nat) := Fin n → UInt8

/-- The library and the accelerator, over the library's field elements. Of
`unpackneg` a failure is `none`; the accelerator's results are the four blocks
read from `data_out`. -/
structure Curve25519 (gf : Type) where
  crypto_hash : {n : Nat} → Bytes n → Bytes 64
  reduce : Bytes 64 → Bytes 64
  modL : (Fin 64 → UInt64) → Bytes 32
  unpack25519 : Bytes 32 → gf
  pack25519 : gf → Bytes 32
  inv25519 : gf → gf
  M : gf → gf → gf
  par25519 : gf → UInt8
  add : (Fin 4 → gf) → (Fin 4 → gf) → Fin 4 → gf
  pack : (Fin 4 → gf) → Bytes 32
  unpackneg : Bytes 32 → Option (Fin 4 → gf)
  crypto_verify_32 : Bytes 32 → Bytes 32 → Int
  scalarmult : (e q0 q1 : Bytes 32) → Fin 4 → Bytes 32
  scalarbase : (e base_q0 : Bytes 32) → Fin 4 → Bytes 32

/-- The coordinates of the base point. -/
def g_curve25519BasePointUnpacked : Bytes 64 :=
  ![0x1a, 0xd5, 0x25, 0x8f, 0x60, 0x2d, 0x56, 0xc9, 0xb2, 0xa7, 0x25, 0x95, 0x60, 0xc7, 0x2c, 0x69,
    0x5c, 0xdc, 0xd6, 0xfd, 0x31, 0xe2, 0xa4, 0xc0, 0xfe, 0x53, 0x6e, 0xcd, 0xd3, 0x36, 0x69, 0x21,
    0x58, 0x66, 0x66, 0x66, 0x66, 0x66, 0x66, 0x66, 0x66, 0x66, 0x66, 0x66, 0x66, 0x66, 0x66, 0x66,
    0x66, 0x66, 0x66, 0x66, 0x66, 0x66, 0x66, 0x66, 0x66, 0x66, 0x66, 0x66, 0x66, 0x66, 0x66, 0x66]

/-! ## Signing -/

/-- What is done to the hash of the private key. -/
def clamp (privkeyHash : Bytes 64) : Bytes 64 :=
  let p := Function.update privkeyHash 0 (privkeyHash 0 &&& 248)
  let p := Function.update p 31 (p 31 &&& 127)
  Function.update p 31 (p 31 ||| 64)

/-- The limb that a product is added to. -/
def limbAt (i j : Fin 32) : Fin 64 := ⟨i + j, by omega⟩

/-- A byte of the first half. -/
def lowByte (b : Bytes 64) (i : Fin 32) : UInt8 := b (i.castLE (by decide))

/-- The inner body of the loop over the limbs. They are declared signed, but the
product is not, and with it the sum. -/
def addProduct (msgHash privkeyHash : Bytes 64) (i j : Fin 32) (x : Fin 64 → UInt64) :
    Fin 64 → UInt64 :=
  Function.update x (limbAt i j)
    (x (limbAt i j) + (lowByte msgHash i).toUInt64 * (lowByte privkeyHash j).toUInt64)

/-- The bignum: `bufferHash` plus `msgHash` times `privkeyHash`, of the first 32
bytes of each. -/
def bignum (bufferHash msgHash privkeyHash : Bytes 64) : Fin 64 → UInt64 :=
  (List.finRange 32).foldl
    (fun x i => (List.finRange 32).foldl (fun x j => addProduct msgHash privkeyHash i j x) x)
    fun k => if k < 32 then (bufferHash k).toUInt64 else 0

section
variable {gf : Type}

/-- What `pack` does, done in place with the coordinates it needs. -/
def packInPlace (c : Curve25519 gf) (p : Fin 3 → gf) (sm : Bytes 128) : Bytes 128 :=
  let zi := c.inv25519 (p 2)
  let tx := c.M (p 0) zi
  let ty := c.M (p 1) zi
  let sm := memcpy sm 0 (c.pack25519 ty) (by decide)
  Function.update sm 31 (sm 31 ^^^ c.par25519 tx <<< 7)

def SignExchangeHash (c : Curve25519 gf) (m_hostkeyPriv m_hostkeyPub exchangeHash : Bytes 32)
    (sm : Bytes 128) : Bytes 64 :=
  let privkeyHash := clamp (c.crypto_hash m_hostkeyPriv)
  -- the buffer to be signed
  let sm := memcpy sm 64 exchangeHash (by decide)
  let sm := memcpy sm 32 (slice privkeyHash 32 32 (by decide)) (by decide)
  let bufferHash := c.reduce (c.crypto_hash (slice sm 32 64 (by decide)))
  let pfpga := c.scalarbase (slice bufferHash 0 32 (by decide))
    (slice g_curve25519BasePointUnpacked 0 32 (by decide))
  let p (i : Fin 3) := c.unpack25519 (pfpga (i.castLE (by decide)))
  let sm := packInPlace c p sm
  let sm := memcpy sm 32 m_hostkeyPub (by decide)
  let msgHash := c.reduce (c.crypto_hash (slice sm 0 96 (by decide)))
  let x := bignum bufferHash msgHash privkeyHash
  let sm := memcpy sm 32 (c.modL x) (by decide)
  slice sm 0 64 (by decide)

/-! ## Verifying -/

/-- `n` is `lengthIncludingSignature`. -/
def VerifySignature (c : Curve25519 gf) {n : Nat} (signedMessage : Bytes n) (publicKey : Bytes 32)
    (tmpbuf : Bytes 1024) (qref : Bytes 64) : Bool :=
  if hmax : 1024 < n then false
  else if hmin : n < 64 then false
  else
    let tmpbuf := memcpy tmpbuf 0 signedMessage (by omega)
    let tmpbuf := memcpy tmpbuf 32 publicKey (by decide)
    let hash := c.reduce (c.crypto_hash (slice tmpbuf 0 n (by omega)))
    match c.unpackneg publicKey with
    | none => false
    | some q =>
      let qref := memcpy qref 0 (c.pack25519 (q 0)) (by decide)
      let qref := memcpy qref 32 (c.pack25519 (q 1)) (by decide)
      let pfpga := c.scalarmult (slice hash 0 32 (by decide)) (slice qref 0 32 (by decide))
        (slice qref 32 32 (by decide))
      let qfpga := c.scalarbase (slice signedMessage 32 32 (by omega))
        (slice g_curve25519BasePointUnpacked 0 32 (by decide))
      let p (i : Fin 4) := c.unpack25519 (pfpga i)
      let q (i : Fin 4) := c.unpack25519 (qfpga i)
      let t := c.pack (c.add p q)
      c.crypto_verify_32 (slice signedMessage 0 32 (by omega)) t == 0

end

end EmbeddedPlatform.Fpga
