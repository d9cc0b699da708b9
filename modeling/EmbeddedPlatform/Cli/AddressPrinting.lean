import EmbeddedPlatform.Cli.AddressRules

/-! # Printing the configuration

`PrintIPAddress` and `PrintDefaultRoute` show the configuration of the device in dotted
quad notation. What they show can be typed in again. -/
namespace EmbeddedPlatform.Cli
open EmbeddedPlatform.Lib

def text (s : String) : List UInt8 := s.toList.map fun c => .ofNat c.toNat

/-- `%d` of a number that is not negative. -/
def decimalText (n : Nat) : List UInt8 := (Nat.toDigits 10 n).map fun c => .ofNat c.toNat

def IPv4Address.octet (ip : IPv4Address) (i : Nat) : UInt8 :=
  ip.m_octets ⟨i % 4, Nat.mod_lt i (Nat.succ_pos 3)⟩

/-- `%d.%d.%d.%d` -/
def printAddress (ip : IPv4Address) : List UInt8 := quad fun i => decimalText (ip.octet i).toNat

/-- The calls of `Printf`, with what each prints. -/
def PrintIPAddress (g_ipConfig : IPv4Config) : List (List UInt8) :=
  [text "IPv4 address: " ++ printAddress g_ipConfig.m_address ++ text "\n",
    text "Subnet mask:  " ++ printAddress g_ipConfig.m_netmask ++ text "\n",
    text "Broadcast:    " ++ printAddress g_ipConfig.m_broadcast ++ text "\n"]

def PrintDefaultRoute (g_ipConfig : IPv4Config) : List (List UInt8) :=
  [text "IPv4 routing table\n", text "Destination     Gateway\n",
    text "0.0.0.0         " ++ printAddress g_ipConfig.m_gateway ++ text "\n"]

/-! ## Decimals -/

/-- The byte of a digit. -/
theorem digit_byte : ∀ d < 10, isdigit (.ofNat d.digitChar.toNat) = true ∧
    (UInt8.ofNat d.digitChar.toNat - 48).toNat = d := by
  decide

theorem decimal_append (f g : List UInt8) :
    decimal (f ++ g) = g.foldl (fun v c => v * 10 + (c - 48).toNat) (decimal f) := List.foldl_append

theorem decimalText_digit (d : Nat) (hd : d < 10) :
    decimalText d = [.ofNat d.digitChar.toNat] := by
  unfold decimalText
  rw [Nat.toDigits_of_lt_base hd]
  rfl

theorem decimalText_append {m d : Nat} (hm : 0 < m) (hd : d < 10) :
    decimalText (10 * m + d) = decimalText m ++ decimalText d := by
  unfold decimalText
  rw [← Nat.toDigits_append_toDigits (by decide) hm hd, List.map_append]

theorem decimal_decimalText (n : Nat) : decimal (decimalText n) = n := by
  induction n using Nat.base_induction 10 (by decide) with
  | single d hd =>
    rw [decimalText_digit d hd]
    show 0 * 10 + (UInt8.ofNat d.digitChar.toNat - 48).toNat = d
    rw [(digit_byte d hd).2, Nat.zero_mul, Nat.zero_add]
  | digit m d hd hm ih =>
    rw [decimalText_append hm hd, decimal_append, ih, decimalText_digit d hd]
    show m * 10 + (UInt8.ofNat d.digitChar.toNat - 48).toNat = 10 * m + d
    rw [(digit_byte d hd).2, Nat.mul_comm]

theorem digits_decimalText (n : Nat) : Digits (decimalText n) := by
  induction n using Nat.base_induction 10 (by decide) with
  | single d hd =>
    rw [decimalText_digit d hd]
    exact List.forall_mem_singleton.mpr (digit_byte d hd).1
  | digit m d hd hm ih =>
    rw [decimalText_append hm hd, decimalText_digit d hd]
    exact List.forall_mem_append.mpr ⟨ih, List.forall_mem_singleton.mpr (digit_byte d hd).1⟩

theorem decimal_decimalText_mod {n : Nat} (hn : n < UInt32.size) :
    decimal (decimalText n) % UInt32.size = n := by
  rw [decimal_decimalText]
  exact Nat.mod_eq_of_lt hn

/-! ## Addresses -/

section
variable (ip : IPv4Address)

theorem octet_of_fin (i : Fin 4) : ip.octet i = ip.m_octets i :=
  congrArg ip.m_octets (Fin.ext (Nat.mod_eq_of_lt i.isLt))

theorem printAddress_passes : Passes fun i => decimalText (ip.octet i).toNat := by
  intro i
  have hoctet := (ip.octet i).toNat_lt
  refine ⟨digits_decimalText _, ?_⟩
  rw [decimal_decimalText_mod (Nat.lt_trans hoctet (by decide))]
  exact Nat.le_of_lt_succ hoctet

theorem octets_printAddress : octets (fun i => decimalText (ip.octet i).toNat) = ip := by
  refine IPv4Address.ext (funext fun i => UInt8.toNat_inj.mp ?_)
  have hoctet := (ip.octet i).toNat_lt
  rw [octets_toNat (printAddress_passes ip i).2,
    decimal_decimalText_mod (Nat.lt_trans hoctet (by decide)), octet_of_fin]

theorem parse_printAddress (old : IPv4Address) : ParseIPAddress (printAddress ip) old = (true, ip) := by
  have hparse := parseIPAddress_quad (printAddress_passes ip) old
  rwa [octets_printAddress] at hparse

end

/-- What is left of a line without its label and its end. -/
def shown (label : Nat) (line : List UInt8) : List UInt8 := (line.drop label).dropLast

theorem shown_line {label : List UInt8} (l : List UInt8) :
    shown label.length (label ++ l ++ text "\n") = l := by
  unfold shown
  rw [List.append_assoc, List.drop_left]
  exact List.dropLast_concat

/-! ## What is shown can be set -/

/-- The number of ones at the beginning of a mask. -/
theorem maskOf_decimalText {m : List UInt8} {n : Nat} (hn : decimal m % UInt32.size = n) :
    maskOf (decimalText n) = maskOf m := by
  unfold maskOf
  rw [decimal_decimalText, ← hn]
  refine congrArg (fun k : UInt32 => (0xffffffff : UInt32) <<< (32 - k)) (UInt32.toNat_inj.mp ?_)
  rw [toNat_ofNat, toNat_ofNat]
  exact Nat.mod_mod ..

/-- An address that is set can be set again, as it is printed. -/
theorem set_printed {s : List UInt8} {g_ipConfig config : IPv4Config}
    (h : SetIPAddress s g_ipConfig = (true, config)) :
    ∃ n, 1 ≤ n ∧ IsMask config.m_netmask n ∧ ∀ other : IPv4Config,
      SetIPAddress (printAddress config.m_address ++ slash :: decimalText n) other =
        (true, { config with m_gateway := other.m_gateway }) := by
  rcases setIPAddress_cases s g_ipConfig with ⟨f, rfl, hf⟩ | hfalse
  · rw [setIPAddress_quad hf] at h
    cases h
    refine ⟨decimal (f 4) % UInt32.size, hf.2.2.1, isMask_maskOctets hf.2, fun other => ?_⟩
    have hn : decimal (f 4) % UInt32.size < UInt32.size := Nat.mod_lt _ (by decide)
    let g : Nat → List UInt8 := fun i =>
      if i = 4 then decimalText (decimal (f 4) % UInt32.size)
      else decimalText ((octets f).octet i).toNat
    have hg : PassesWithSubnet g := by
      constructor
      · intro i
        have hne : (i : Nat) ≠ 4 := Nat.ne_of_lt i.isLt
        show Digits (if _ then _ else _) ∧ decimal (if _ then _ else _) % _ ≤ 255
        rw [if_neg hne]
        exact printAddress_passes (octets f) i
      · refine ⟨digits_decimalText _, ?_⟩
        show 1 ≤ decimal (decimalText _) % UInt32.size ∧ decimal (decimalText _) % UInt32.size ≤ 32
        rw [decimal_decimalText_mod hn]
        exact hf.2.2
    have hquad : octets g = octets f := by
      rw [← octets_printAddress (octets f)]
      refine IPv4Address.ext (funext fun i => ?_)
      have hne : (i : Nat) ≠ 4 := Nat.ne_of_lt i.isLt
      show (UInt32.ofNat (decimal (if _ then _ else _))).toUInt8 = _
      rw [if_neg hne]
      rfl
    have hset := setIPAddress_quad hg other
    have hmask : maskOf (g 4) = maskOf (f 4) := maskOf_decimalText rfl
    rw [hquad, hmask] at hset
    exact hset
  · rw [hfalse] at h
    cases h

/-- **What is shown can be typed in.** Every address that the commands print is parsed
to itself. And a configuration that `SetIPAddress` made, from whatever it was given, is
made again from the address that is printed and the length of the mask that is printed. -/
theorem printed_configuration (g_ipConfig : IPv4Config) (old : IPv4Address) :
    ((PrintIPAddress g_ipConfig).map fun line => ParseIPAddress (shown 14 line) old) =
      [(true, g_ipConfig.m_address), (true, g_ipConfig.m_netmask), (true, g_ipConfig.m_broadcast)] ∧
    (PrintDefaultRoute g_ipConfig).getLast?.map (fun line => ParseIPAddress (shown 16 line) old) =
      some (true, g_ipConfig.m_gateway) ∧
    ∀ s config, SetIPAddress s g_ipConfig = (true, config) →
      ∃ n, 1 ≤ n ∧ IsMask config.m_netmask n ∧ ∀ other : IPv4Config,
        SetIPAddress (printAddress config.m_address ++ slash :: decimalText n) other =
          (true, { config with m_gateway := other.m_gateway }) := by
  have hline : ∀ (label : List UInt8) (ip : IPv4Address),
      ParseIPAddress (shown label.length (label ++ printAddress ip ++ text "\n")) old =
        (true, ip) := by
    intro label ip
    rw [shown_line]
    exact parse_printAddress ip old
  refine ⟨?_, ?_, fun s config h => set_printed h⟩
  · have haddress := hline (text "IPv4 address: ") g_ipConfig.m_address
    have hnetmask := hline (text "Subnet mask:  ") g_ipConfig.m_netmask
    have hbroadcast := hline (text "Broadcast:    ") g_ipConfig.m_broadcast
    exact congrArg₂ List.cons haddress (congrArg₂ List.cons hnetmask
      (congrArg₂ List.cons hbroadcast rfl))
  · exact congrArg some (hline (text "0.0.0.0         ") g_ipConfig.m_gateway)

end EmbeddedPlatform.Cli
