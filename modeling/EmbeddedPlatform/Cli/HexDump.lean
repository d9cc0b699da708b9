import EmbeddedPlatform.Lib.Hex
import EmbeddedPlatform.Lib.Rounds

/-! # The hex dump of an object

`PrintFlashDetails` prints an object sixteen bytes a line: the offset, the bytes in hex
and the bytes as text. The offset is a 32-bit counter. What is printed can be read back,
does not put anything but text on the terminal, and is aligned while four digits are
enough for the offset. The lines above the dump are left out. -/
namespace EmbeddedPlatform.Cli
open EmbeddedPlatform.Lib

def linelen : UInt32 := 16

/-- `isprint` -/
def isprint (c : UInt8) : Bool := 0x20 ≤ c && c ≤ 0x7e

section
variable (m_len : UInt32) (pdata : Nat → UInt8)

/-- The hex part prints blanks where the object has ended. -/
def printHex (i j : UInt32) : List Char :=
  if i + j ≥ m_len then [' ', ' ', ' ']
  else hexPadded 2 (pdata (i + j).toNat).toNat ++ [' ']

/-- The text part ends there. -/
def printText (i : UInt32) : List UInt32 → List Char
  | [] => []
  | j :: js =>
    if i + j ≥ m_len then []
    else
      let c := pdata (i + j).toNat
      (if isprint c then Char.ofNat c.toNat else '.') :: printText i js

/-- The values of `j`. -/
def columns : List UInt32 := (List.range linelen.toNat).map UInt32.ofNat

def printLine (i : UInt32) : List Char :=
  hexPadded 4 i.toNat ++ [' ', ' ', ' '] ++ columns.flatMap (printHex m_len pdata i) ++ [' ', ' '] ++
    printText m_len pdata i columns ++ ['\n']

inductive DumpError where
  | stuck
deriving DecidableEq

/-- A round of the loop over the lines. -/
def dumpRound (i : UInt32) : Except DumpError (Bool × UInt32 × List (List Char)) :=
  if i < m_len then .ok (true, i + linelen, [printLine m_len pdata i]) else .ok (false, i, [])

def hexdump (fuel : Nat) : Except DumpError (UInt32 × List (List Char)) :=
  rounds (dumpRound m_len pdata) .stuck fuel 0

end

/-! ## Reading a dump -/

/-- The bytes of up to so many cells. -/
def readCells : Nat → List Char → List UInt8
  | 0, _ => []
  | n + 1, high :: low :: _ :: rest =>
    match hexVal high, hexVal low with
    | some h, some l => .ofNat (16 * h + l) :: readCells n rest
    | _, _ => []
  | _, _ => []

/-- The digits in front. -/
def lineOffset (line : List Char) : List Char := line.takeWhile (· ≠ ' ')

/-- The bytes of a line, from its hex part. -/
def readLine (line : List Char) : List UInt8 := readCells 16 (line.drop ((lineOffset line).length + 3))

/-! ## A line -/

section
variable {m_len : UInt32} {pdata : Nat → UInt8} {i : UInt32}

/-- The offset of a line and a column do not add up to more than 32 bits. -/
theorem column_toNat (hi : i.toNat % 16 = 0) {j : Nat} (hj : j < 16) :
    (i + UInt32.ofNat j).toNat = i.toNat + j := by
  have hlt := i.toNat_lt
  rw [UInt32.toNat_add, UInt32.toNat_ofNat', Nat.mod_eq_of_lt (a := j) (by omega)]
  exact Nat.mod_eq_of_lt (by omega)

/-- How many bytes a line has. -/
def lineBytes (m_len i : UInt32) : Nat := min 16 (m_len.toNat - i.toNat)

theorem printHex_of_lt (hi : i.toNat % 16 = 0) {j : Nat} (hj : j < lineBytes m_len i) :
    printHex m_len pdata i (.ofNat j) =
      [((pdata (i.toNat + j)).toNat / 16).digitChar, ((pdata (i.toNat + j)).toNat % 16).digitChar,
        ' '] := by
  unfold lineBytes at hj
  have hcol := column_toNat hi (j := j) (by omega)
  unfold printHex
  rw [if_neg, hcol, hexPadded_two (pdata _).toNat_lt]
  · rfl
  · rw [ge_iff_le, UInt32.le_iff_toNat_le, hcol]
    omega

theorem printHex_of_ge (hi : i.toNat % 16 = 0) {j : Nat} (hj : j < 16)
    (hge : lineBytes m_len i ≤ j) : printHex m_len pdata i (.ofNat j) = [' ', ' ', ' '] := by
  unfold lineBytes at hge
  unfold printHex
  rw [if_pos]
  rw [ge_iff_le, UInt32.le_iff_toNat_le, column_toNat hi hj]
  omega

/-- The cells from some column on give the bytes from there to the end of the line. -/
theorem readCells_printHex (hi : i.toNat % 16 = 0) (rest : List Char) (n j : Nat) (hn : j + n = 16) :
    readCells n (((List.range' j n).map UInt32.ofNat).flatMap (printHex m_len pdata i) ++ rest) =
      (List.range' j (lineBytes m_len i - j)).map fun j => pdata (i.toNat + j) := by
  induction n generalizing j with
  | zero =>
    have hnone : lineBytes m_len i - j = 0 := by
      unfold lineBytes
      omega
    rw [hnone]
    rfl
  | succ n ih =>
    rw [List.range'_succ, List.map_cons, List.flatMap_cons]
    by_cases hj : j < lineBytes m_len i
    · have hmore : lineBytes m_len i - j = lineBytes m_len i - (j + 1) + 1 := by omega
      have hbyte : UInt8.ofNat (16 * ((pdata (i.toNat + j)).toNat / 16) +
          (pdata (i.toNat + j)).toNat % 16) = pdata (i.toNat + j) := by
        rw [Nat.div_add_mod]
        exact UInt8.ofNat_toNat
      have hlt := (pdata (i.toNat + j)).toNat_lt
      rw [printHex_of_lt hi hj, hmore, List.range'_succ, List.map_cons, ← ih (j + 1) (by omega)]
      show (match hexVal _, hexVal _ with | some h, some l => _ | _, _ => _) = _
      rw [hexVal_digitChar _ (by omega), hexVal_digitChar _ (by omega)]
      exact congrArg (· :: _) hbyte
    · have hnone : lineBytes m_len i - j = 0 := by omega
      rw [printHex_of_ge hi (by omega) (Nat.le_of_not_lt hj), hnone]
      rfl

/-- A byte as it is printed among the text. -/
def asText (c : UInt8) : Char := if isprint c then Char.ofNat c.toNat else '.'

theorem printText_eq (hi : i.toNat % 16 = 0) (n j : Nat) (hn : j + n = 16) :
    printText m_len pdata i ((List.range' j n).map UInt32.ofNat) =
      (List.range' j (lineBytes m_len i - j)).map fun j => asText (pdata (i.toNat + j)) := by
  induction n generalizing j with
  | zero =>
    have hnone : lineBytes m_len i - j = 0 := by
      unfold lineBytes
      omega
    rw [hnone]
    rfl
  | succ n ih =>
    have hcol := column_toNat hi (j := j) (by omega)
    rw [List.range'_succ, List.map_cons]
    unfold printText
    by_cases hj : j < lineBytes m_len i
    · have hmore : lineBytes m_len i - j = lineBytes m_len i - (j + 1) + 1 := by omega
      have hlt : ¬ i + UInt32.ofNat j ≥ m_len := by
        unfold lineBytes at hj
        rw [ge_iff_le, UInt32.le_iff_toNat_le, hcol]
        omega
      rw [if_neg hlt, hmore, List.range'_succ, List.map_cons, ← ih (j + 1) (by omega), hcol]
      rfl
    · have hnone : lineBytes m_len i - j = 0 := by omega
      have hge : i + UInt32.ofNat j ≥ m_len := by
        unfold lineBytes at hj
        rw [ge_iff_le, UInt32.le_iff_toNat_le, hcol]
        omega
      rw [if_pos hge, hnone]
      rfl

theorem columns_eq : columns = (List.range' 0 16).map UInt32.ofNat :=
  congrArg (List.map UInt32.ofNat) List.range_eq_range'

/-- The hex part has sixteen cells in any case. -/
theorem length_printHex (hi : i.toNat % 16 = 0) :
    (columns.flatMap (printHex m_len pdata i)).length = 48 := by
  have hcell : ∀ j ∈ columns, (printHex m_len pdata i j).length = 3 := by
    intro j hj
    rw [columns_eq] at hj
    obtain ⟨j, hmem, rfl⟩ := List.mem_map.mp hj
    have hlt : j < 16 := by
      have := List.mem_range'_1.mp hmem
      omega
    by_cases hbyte : j < lineBytes m_len i
    · rw [printHex_of_lt hi hbyte]
      rfl
    · rw [printHex_of_ge hi hlt (Nat.le_of_not_lt hbyte)]
      rfl
  rw [List.length_flatMap, List.map_congr_left hcell]
  rfl

theorem lineOffset_printLine : lineOffset (printLine m_len pdata i) = hexPadded 4 i.toNat := by
  unfold lineOffset printLine
  rw [List.append_assoc, List.append_assoc, List.append_assoc, List.append_assoc,
    List.takeWhile_append_of_pos, List.takeWhile_append]
  · exact List.append_nil _
  · intro c hc
    obtain ⟨d, hd, rfl⟩ := digit_of_mem_hexPadded hc
    have hdigit : ∀ d < 16, decide (d.digitChar ≠ ' ') = true := by decide
    exact hdigit d hd

theorem readLine_printLine (hi : i.toNat % 16 = 0) :
    readLine (printLine m_len pdata i) =
      (List.range (lineBytes m_len i)).map fun j => pdata (i.toNat + j) := by
  unfold readLine
  rw [lineOffset_printLine]
  unfold printLine
  rw [List.append_assoc, List.append_assoc, List.append_assoc,
    List.drop_left' (by rw [List.length_append]; rfl), columns_eq]
  rw [readCells_printHex hi _ 16 0 rfl, List.range_eq_range', Nat.sub_zero]

/-! ## What is printed -/

/-- Blanks and graphic characters. -/
def Printable (c : Char) : Prop := ' ' ≤ c ∧ c ≤ '~'

theorem digit_printable : ∀ d < 16, Printable d.digitChar := by
  unfold Printable
  decide

theorem asText_printable (c : UInt8) : Printable (asText c) := by
  have hall : ∀ n < 256, ' ' ≤ asText (.ofNat n) ∧ asText (.ofNat n) ≤ '~' := by decide +kernel
  have hc := hall c.toNat c.toNat_lt
  rwa [UInt8.ofNat_toNat] at hc

theorem cell_printable (hi : i.toNat % 16 = 0) {j : UInt32} (hj : j ∈ columns) {c : Char}
    (hc : c ∈ printHex m_len pdata i j) : Printable c := by
  have hblank : Printable ' ' := ⟨by decide, by decide⟩
  rw [columns_eq] at hj
  obtain ⟨j, hmem, rfl⟩ := List.mem_map.mp hj
  have hlt := List.mem_range'_1.mp hmem
  by_cases hbyte : j < lineBytes m_len i
  · have hbound := (pdata (i.toNat + j)).toNat_lt
    rw [printHex_of_lt hi hbyte, List.mem_cons, List.mem_cons, List.mem_singleton] at hc
    rcases hc with rfl | rfl | rfl
    · exact digit_printable _ (by omega)
    · exact digit_printable _ (by omega)
    · exact hblank
  · rw [printHex_of_ge hi (by omega) (Nat.le_of_not_lt hbyte)] at hc
    rwa [List.eq_of_mem_replicate (n := 3) hc]

/-- A line of a dump: the offset, the bytes in columns of their own, and the bytes again
as text. -/
structure GoodLine (k : Nat) (line : List Char) : Prop where
  offset : ofHex (lineOffset line) = 16 * k
  aligned : (lineOffset line).length = 4 ↔ k < 4096
  text : ∃ hex, line = hex ++ (readLine line).map asText ++ ['\n'] ∧
    hex.length = (lineOffset line).length + 53
  printable : ∃ body, line = body ++ ['\n'] ∧ ∀ c ∈ body, Printable c

theorem printLine_good {k : Nat} (hk : i.toNat = 16 * k) : GoodLine k (printLine m_len pdata i) := by
  have hi : i.toNat % 16 = 0 := by omega
  have htext : printText m_len pdata i columns = (readLine (printLine m_len pdata i)).map asText := by
    rw [readLine_printLine hi, columns_eq, printText_eq hi 16 0 rfl, Nat.sub_zero, List.map_map,
      List.range_eq_range']
    rfl
  refine ⟨?_, ?_, ⟨hexPadded 4 i.toNat ++ [' ', ' ', ' '] ++ columns.flatMap (printHex m_len pdata i) ++
    [' ', ' '], ?_, ?_⟩, ⟨_, rfl, ?_⟩⟩
  · rw [lineOffset_printLine, ofHex_hexPadded, hk]
  · rw [lineOffset_printLine, length_hexPadded (by decide), hk]
    omega
  · rw [← htext]
    rfl
  · rw [lineOffset_printLine, List.length_append, List.length_append, List.length_append,
      length_printHex hi]
    rfl
  · have hblank : Printable ' ' := ⟨by decide, by decide⟩
    intro c hc
    rw [htext] at hc
    simp only [List.mem_append, List.mem_flatMap, List.mem_map] at hc
    rcases hc with (((hc | hc) | hc) | hc) | hc
    · obtain ⟨d, hd, rfl⟩ := digit_of_mem_hexPadded hc
      exact digit_printable d hd
    · rwa [List.eq_of_mem_replicate (n := 3) hc]
    · obtain ⟨j, hj, hc⟩ := hc
      exact cell_printable hi hj hc
    · rwa [List.eq_of_mem_replicate (n := 2) hc]
    · obtain ⟨b, -, rfl⟩ := hc
      exact asText_printable b

/-! ## The loop -/

/-- The offset of a line. -/
def offsetOf (k : Nat) : UInt32 := .ofNat (16 * k)

theorem offsetOf_toNat {k : Nat} (hk : 16 * k < 4294967296) : (offsetOf k).toNat = 16 * k :=
  Nat.mod_eq_of_lt hk

theorem offsetOf_succ (k : Nat) : offsetOf k + linelen = offsetOf (k + 1) := by
  apply UInt32.toNat_inj.mp
  rw [UInt32.toNat_add]
  show (16 * k % 2 ^ 32 + 16) % 2 ^ 32 = 16 * (k + 1) % 2 ^ 32
  omega

/-- How many lines there are, if there is an end to them. -/
def dumpLines (m_len : UInt32) : Nat := (m_len.toNat + 15) / 16

/-- With an end the counter does not overflow. -/
theorem dump_from (hlen : m_len ≤ 0xfffffff0) (d k fuel : Nat) (hk : k + d = dumpLines m_len)
    (hfuel : d < fuel) :
    rounds (dumpRound m_len pdata) .stuck fuel (offsetOf k) =
      .ok (offsetOf (dumpLines m_len),
        (List.range' k d).map fun k => printLine m_len pdata (offsetOf k)) := by
  have hle : m_len.toNat ≤ 0xfffffff0 := UInt32.le_iff_toNat_le.mp hlen
  obtain ⟨fuel, rfl⟩ : ∃ n, fuel = n + 1 := ⟨fuel - 1, by omega⟩
  unfold dumpLines at hk
  have hnat : (offsetOf k).toNat = 16 * k := offsetOf_toNat (by omega)
  induction d generalizing k fuel with
  | zero =>
    have hend : dumpRound m_len pdata (offsetOf k) = .ok (false, offsetOf k, []) := by
      unfold dumpRound
      rw [if_neg]
      rw [UInt32.lt_iff_toNat_lt, hnat]
      omega
    rw [rounds_last hend, ← Nat.add_zero k, hk]
    rfl
  | succ d ih =>
    have hline : dumpRound m_len pdata (offsetOf k) =
        .ok (true, offsetOf (k + 1), [printLine m_len pdata (offsetOf k)]) := by
      unfold dumpRound
      rw [if_pos, offsetOf_succ]
      rw [UInt32.lt_iff_toNat_lt, hnat]
      omega
    obtain ⟨fuel, rfl⟩ : ∃ n, fuel = n + 1 := ⟨fuel - 1, by omega⟩
    rw [List.range'_succ]
    exact rounds_more hline (ih (k + 1) (by omega) fuel (by omega) (offsetOf_toNat (by omega)))

/-- Behind the last offset there is no end. -/
theorem dump_stuck (hlen : 0xfffffff0 < m_len) (fuel k : Nat) :
    rounds (dumpRound m_len pdata) .stuck fuel (offsetOf k) = .error .stuck := by
  have hlt : 0xfffffff0 < m_len.toNat := UInt32.lt_iff_toNat_lt.mp hlen
  induction fuel generalizing k with
  | zero => rfl
  | succ fuel ih =>
    have hline : dumpRound m_len pdata (offsetOf k) =
        .ok (true, offsetOf (k + 1), [printLine m_len pdata (offsetOf k)]) := by
      unfold dumpRound
      rw [if_pos, offsetOf_succ]
      rw [UInt32.lt_iff_toNat_lt]
      show 16 * k % 2 ^ 32 < m_len.toNat
      omega
    unfold rounds
    simp only [hline, ih]

/-- The lines together have all the bytes. -/
theorem readLines (hlen : m_len ≤ 0xfffffff0) (n : Nat) (hn : n ≤ dumpLines m_len) :
    ((List.range n).map fun k => printLine m_len pdata (offsetOf k)).flatMap readLine =
      (List.range (min (16 * n) m_len.toNat)).map pdata := by
  have hle : m_len.toNat ≤ 0xfffffff0 := UInt32.le_iff_toNat_le.mp hlen
  unfold dumpLines at hn
  induction n with
  | zero => rfl
  | succ n ih =>
    have hnat : (offsetOf n).toNat = 16 * n := offsetOf_toNat (by omega)
    have hlow : min (16 * n) m_len.toNat = 16 * n := Nat.min_eq_left (by omega)
    have hsum : min (16 * (n + 1)) m_len.toNat = 16 * n + lineBytes m_len (offsetOf n) := by
      unfold lineBytes
      rw [hnat]
      omega
    rw [List.range_succ, List.map_append, List.flatMap_append, ih (by omega), hlow, hsum,
      List.range_add, List.map_append, List.map_map]
    refine congrArg (_ ++ ·) ?_
    show readLine (printLine m_len pdata (offsetOf n)) ++ [] = _
    rw [List.append_nil, readLine_printLine (by omega), hnat]
    rfl

end

end EmbeddedPlatform.Cli
