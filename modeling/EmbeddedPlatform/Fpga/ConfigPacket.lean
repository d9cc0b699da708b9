import Mathlib.Tactic.IntervalCases
import EmbeddedPlatform.Fpga.Bitstream

/-! # Configuration packets

The packets of a bitstream as the data sheet of the FPGA has them, with the
words they are sent as, and what the updater reads in those. -/
namespace EmbeddedPlatform.Fpga

/-- A packet whose reserved bits are zero: a type 1 packet that writes a register
or does nothing, or a type 2 packet. -/
inductive Packet where
  | write (reg : Nat) (words : List UInt32) (reg_lt : reg < 32) (length_le : words.length ≤ 1023)
  | nop (reg : Nat) (reg_lt : reg < 32)
  | big (op : Nat) (words : List UInt32) (op_lt : op < 4) (length_lt : words.length < 0x8000000)

/-- A word in the order it is sent in. -/
def bigEndian (w : UInt32) : List UInt8 :=
  [(w >>> 24).toUInt8, (w >>> 16).toUInt8, (w >>> 8).toUInt8, w.toUInt8]

def wordBytes (ws : List UInt32) : List UInt8 := ws.flatMap bigEndian

namespace Packet

def words : Packet → List UInt32
  | write _ words _ _ => words
  | nop _ _ => []
  | big _ words _ _ => words

def header : Packet → UInt32
  | write reg words _ _ => .ofNat (0x30000000 + 0x2000 * reg + words.length)
  | nop reg _ => .ofNat (0x20000000 + 0x2000 * reg)
  | big op words _ _ => .ofNat (0x40000000 + 0x8000000 * op + words.length)

def isBig : Packet → Bool
  | write .. | nop .. => false
  | big .. => true

/-- The packet ends the bitstream: it writes one word to the command register,
with DESYNC in its low bits. -/
def ends : Packet → Bool
  | write reg [w] _ _ => reg == 4 && w &&& 0x1f == 0x0d
  | write _ _ _ _ | nop .. | big .. => false

def bytes (p : Packet) : List UInt8 := wordBytes (p.header :: p.words)

end Packet

/-- What is sent for some packets. -/
def packetBytes (ps : List Packet) : List UInt8 := ps.flatMap Packet.bytes

/-! ## Words -/

@[simp] theorem length_bigEndian (w : UInt32) : (bigEndian w).length = 4 := rfl

@[simp] theorem length_wordBytes (ws : List UInt32) : (wordBytes ws).length = 4 * ws.length := by
  induction ws with
  | nil => rfl
  | cons w ws ih =>
    show (bigEndian w ++ wordBytes ws).length = _
    rw [List.length_append, ih, length_bigEndian, List.length_cons]
    omega

theorem wordBytes_drop (ws : List UInt32) (n : Nat) :
    wordBytes (ws.drop n) = (wordBytes ws).drop (4 * n) := by
  induction ws generalizing n with
  | nil => simp [wordBytes]
  | cons w ws ih =>
    cases n with
    | zero => rfl
    | succ n => exact ih n

theorem bswap32_bigEndian (w : UInt32) (more : List UInt8) : bswap32 (bigEndian w ++ more) = w := by
  show (w >>> 24).toUInt8.toUInt32 <<< 24 ||| (w >>> 16).toUInt8.toUInt32 <<< 16 |||
    (w >>> 8).toUInt8.toUInt32 <<< 8 ||| w.toUInt8.toUInt32 = w
  apply UInt32.toBitVec_inj.mp
  ext i hi
  interval_cases i <;> simp [-UInt32.toUInt32_toUInt8]

theorem packetType_bigEndian (w : UInt32) (more : List UInt8) :
    (packetType (bigEndian w ++ more)).toNat = w.toNat / 0x20000000 := by
  have hlt := w.toNat_lt
  show ((w >>> 24).toUInt8 >>> 5).toNat = _
  rw [UInt8.toNat_shiftRight, UInt32.toNat_toUInt8, UInt32.toNat_shiftRight]
  show (w.toNat >>> 24 % 256) >>> 5 = _
  rw [Nat.shiftRight_eq_div_pow, Nat.shiftRight_eq_div_pow]
  omega

/-! ## Headers -/

theorem packetLen_toNat (w : UInt32) : (packetLen w).toNat = w.toNat % 1024 := by
  rw [packetLen, UInt32.toNat_and]
  exact Nat.and_two_pow_sub_one_eq_mod _ 10

theorem packetBigLen_toNat (w : UInt32) : (packetBigLen w).toNat = w.toNat % 0x8000000 := by
  rw [packetBigLen, UInt32.toNat_and]
  exact Nat.and_two_pow_sub_one_eq_mod _ 27

theorem packetOp_toNat (w : UInt32) : (packetOp w).toNat = w.toNat / 0x8000000 % 4 := by
  rw [packetOp, UInt32.toNat_and, UInt32.toNat_shiftRight]
  show w.toNat >>> 27 &&& 3 = _
  rw [Nat.shiftRight_eq_div_pow]
  exact Nat.and_two_pow_sub_one_eq_mod _ 2

theorem packetReg_toNat (w : UInt32) : (packetReg w).toNat = w.toNat / 0x2000 % 256 := by
  rw [packetReg, UInt32.toNat_and, UInt32.toNat_shiftRight]
  show w.toNat >>> 13 &&& 255 = _
  rw [Nat.shiftRight_eq_div_pow]
  exact Nat.and_two_pow_sub_one_eq_mod _ 8

namespace Packet

theorem header_small {p : Packet} (h : p.isBig = false) :
    p.header.toNat / 0x20000000 = 1 ∧ p.header.toNat % 1024 = p.words.length := by
  cases p with
  | write reg words hreg hlen =>
    have hnat : (header (.write reg words hreg hlen)).toNat =
        0x30000000 + 0x2000 * reg + words.length := UInt32.toNat_ofNat_of_lt' (by
      show _ < 4294967296
      omega)
    rw [hnat]
    show _ ∧ _ = words.length
    omega
  | nop reg hreg =>
    have hnat : (header (.nop reg hreg)).toNat = 0x20000000 + 0x2000 * reg :=
      UInt32.toNat_ofNat_of_lt' (by
        show _ < 4294967296
        omega)
    rw [hnat]
    show _ ∧ _ = 0
    omega
  | big => cases h

theorem header_big {p : Packet} (h : p.isBig = true) :
    p.header.toNat / 0x20000000 = 2 ∧ p.header.toNat % 0x8000000 = p.words.length := by
  cases p with
  | write | nop => cases h
  | big op words hop hlen =>
    have hnat : (header (.big op words hop hlen)).toNat =
        0x40000000 + 0x8000000 * op + words.length := UInt32.toNat_ofNat_of_lt' (by
      show _ < 4294967296
      omega)
    rw [hnat]
    show _ ∧ _ = words.length
    omega

theorem bytes_eq (p : Packet) : p.bytes = bigEndian p.header ++ wordBytes p.words := rfl

@[simp] theorem length_bytes (p : Packet) : p.bytes.length = 4 * (p.words.length + 1) := by
  rw [bytes_eq, List.length_append, length_bigEndian, length_wordBytes]
  omega

/-! ## What the updater reads -/

variable {p : Packet} {more : List UInt8}

theorem packetType_small (h : p.isBig = false) (more : List UInt8) :
    packetType (bigEndian p.header ++ more) = 1 :=
  UInt8.toNat_inj.mp ((packetType_bigEndian ..).trans (header_small h).1)

theorem packetType_big (h : p.isBig = true) (more : List UInt8) :
    packetType (bigEndian p.header ++ more) = 2 :=
  UInt8.toNat_inj.mp ((packetType_bigEndian ..).trans (header_big h).1)

/-- The size of a type 1 packet is that of the whole packet. -/
theorem packetSize_small (h : p.isBig = false) : (packetSize p.header).toNat = p.bytes.length := by
  rw [packetSize_toNat, packetLen_toNat, (header_small h).2, length_bytes]

theorem packetBigLen_big (h : p.isBig = true) :
    (packetBigLen p.header).toNat = p.words.length := by
  rw [packetBigLen_toNat, (header_big h).2]

theorem bswap32_bytes (p : Packet) (more : List UInt8) : bswap32 (p.bytes ++ more) = p.header := by
  rw [bytes_eq, List.append_assoc]
  exact bswap32_bigEndian ..

theorem drop_bytes (p : Packet) (more : List UInt8) :
    (p.bytes ++ more).drop 4 = wordBytes p.words ++ more := by
  rw [bytes_eq, List.append_assoc]
  rfl

theorem packetLen_eq_one_iff (h : p.isBig = false) :
    packetLen p.header = 1 ↔ p.words.length = 1 := by
  rw [← UInt32.toNat_inj, packetLen_toNat, (header_small h).2]
  rfl

theorem ends_of_length_ne (hlen : p.words.length ≠ 1) : p.ends = false := by
  cases p with
  | write reg words hreg hle =>
    cases words with
    | nil => rfl
    | cons w ws =>
      cases ws with
      | nil => exact absurd rfl hlen
      | cons w' ws => rfl
  | nop | big => rfl

/-- A packet that writes one word. -/
theorem isDesync_one {reg : Nat} {w : UInt32} (hreg : reg < 32) (hle : [w].length ≤ 1023)
    (more : List UInt8) :
    isDesync ((write reg [w] hreg hle).bytes ++ more) = (write reg [w] hreg hle).ends := by
  have hnat : (header (.write reg [w] hreg hle)).toNat = 0x30000000 + 0x2000 * reg + 1 :=
    UInt32.toNat_ofNat_of_lt' (by
      show _ < 4294967296
      omega)
  have hop : packetOp (header (.write reg [w] hreg hle)) ≠ 0 := by
    rw [Ne, ← UInt32.toNat_inj, packetOp_toNat, hnat]
    show ¬ _ = 0
    omega
  have hcmd : (packetReg (header (.write reg [w] hreg hle)) == REG_CMD) = (reg == 4) := by
    rw [Bool.eq_iff_iff, beq_iff_eq, beq_iff_eq, ← UInt32.toNat_inj, packetReg_toNat, hnat]
    show _ = 4 ↔ _
    omega
  have hword : bswap32 (wordBytes [w] ++ more) = w := bswap32_bigEndian ..
  unfold isDesync
  rw [bswap32_bytes, drop_bytes, (packetLen_eq_one_iff rfl).mpr rfl, hcmd, bne_iff_ne.mpr hop]
  show (true && true && _ && (bswap32 (wordBytes [w] ++ more) &&& 0x1f == CMD_DESYNC)) = _
  rw [hword]
  rfl

/-- The test for the end of the bitstream goes by the packet. -/
theorem isDesync_bytes (h : p.isBig = false) (more : List UInt8) :
    isDesync (p.bytes ++ more) = p.ends := by
  by_cases hone : p.words.length = 1
  · cases p with
    | write reg words hreg hle =>
      obtain ⟨w, rfl⟩ := List.length_eq_one_iff.mp hone
      exact isDesync_one hreg hle more
    | nop => cases hone
    | big => cases h
  · unfold isDesync
    rw [bswap32_bytes, beq_false_of_ne (mt (packetLen_eq_one_iff h).mp hone), ends_of_length_ne hone]
    simp

end Packet

end EmbeddedPlatform.Fpga
