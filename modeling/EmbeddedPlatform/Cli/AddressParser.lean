import Mathlib.Data.Fin.VecNotation
import Mathlib.Data.UInt
import EmbeddedPlatform.Lib.FieldScanner

/-! # Parsing IPv4 addresses

The commands that set the address of the device read it with two scanners, one for
an address alone and one for an address with the length of its netmask. A string is
the bytes before its terminator; what a function writes through a reference it
takes and returns. -/
namespace EmbeddedPlatform.Cli
open EmbeddedPlatform.Lib

@[ext] structure IPv4Address where
  m_octets : Fin 4 → UInt8

structure IPv4Config where
  m_address : IPv4Address
  m_netmask : IPv4Address
  m_broadcast : IPv4Address
  m_gateway : IPv4Address

def dot : UInt8 := 46
def slash : UInt8 := 47

def isdigit (c : UInt8) : Bool := 48 ≤ c && c ≤ 57

/-- `nfield` and `fields`. -/
abbrev ParseState := FieldScan UInt32

/-- Digit = update current field -/
def ParseState.digit (s : ParseState) (c : UInt8) : ParseState :=
  { s with fields :=
      Function.update s.fields s.nfield (s.fields s.nfield * 10 + (c - 48).toUInt32) }

/-- The body of the loop in `ParseIPAddress`. -/
def parseAddress (s : ParseState) (c : UInt8) : Option ParseState :=
  if c = dot ∧ s.nfield < 3 then some { s with nfield := s.nfield + 1 }
  else if isdigit c then some (s.digit c)
  else none

/-- The body of the loop in `ParseIPAddressWithSubnet`; the netmask is field 4. -/
def parseWithSubnet (s : ParseState) (c : UInt8) : Option ParseState :=
  if c = dot ∧ s.nfield < 3 then some { s with nfield := s.nfield + 1 }
  else if c = slash ∧ s.nfield = 3 then some { s with nfield := s.nfield + 1 }
  else if isdigit c then some (s.digit c)
  else none

def setIP (s : ParseState) : IPv4Address := ⟨fun i => (s.fields i).toUInt8⟩

def ParseIPAddress (addr : List UInt8) (ip : IPv4Address) : Bool × IPv4Address :=
  match addr.foldlM parseAddress (.start 0) with
  | none => (false, ip)
  | some s =>
    if s.nfield ≠ 3 then (false, ip)
    else if ∃ i : Fin 4, 255 < s.fields i then (false, ip)
    else (true, setIP s)

def ParseIPAddressWithSubnet (addr : List UInt8) (ip : IPv4Address) (mask : UInt32) :
    Bool × IPv4Address × UInt32 :=
  match addr.foldlM parseWithSubnet (.start 0) with
  | none => (false, ip, mask)
  | some s =>
    if s.nfield ≠ 4 then (false, ip, mask)
    else if ∃ i : Fin 4, 255 < s.fields i then (false, ip, mask)
    else if 32 < s.fields 4 ∨ s.fields 4 = 0 then (false, ip, mask)
    else (true, setIP s, 0xffffffff <<< (32 - s.fields 4))

/-- The netmask's octets, from the top. -/
def maskOctets (mask : UInt32) : IPv4Address :=
  ⟨![(mask >>> 24).toUInt8, (mask >>> 16).toUInt8, (mask >>> 8).toUInt8, (mask >>> 0).toUInt8]⟩

/-- With whether the address is taken; else the usage is printed. -/
def SetIPAddress (addr : List UInt8) (g_ipConfig : IPv4Config) : Bool × IPv4Config :=
  let (ok, m_address, mask) := ParseIPAddressWithSubnet addr g_ipConfig.m_address 0
  let g_ipConfig := { g_ipConfig with m_address }
  if !ok then (false, g_ipConfig)
  else
    let m_netmask := maskOctets mask
    (true, { g_ipConfig with
      m_netmask
      m_broadcast := ⟨fun i => m_address.m_octets i ||| ~~~m_netmask.m_octets i⟩ })

end EmbeddedPlatform.Cli
