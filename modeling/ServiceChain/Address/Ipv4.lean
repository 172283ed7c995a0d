import ServiceChain.Address.Error
import ServiceChain.Address.Netmask
import ServiceChain.Text.Blank
import ServiceChain.Text.Cut
import ServiceChain.Text.Numeral

/-!
# IPv4 addresses and networks

An address is written as four decimal octets joined by dots, without leading zeros, and read back
from exactly that form.  A network is an address whose bits beyond its length are zero, so two
spellings of one network are equal; it is read from a bare address (a network of one host), or from
an address and, after a slash, a length or a dotted netmask.
-/

namespace ServiceChain

/-- A 32-bit Internet address. -/
structure Ipv4Addr where
  bits : BitVec 32
  deriving DecidableEq, Repr, Inhabited

namespace Ipv4Addr

/-- The address of four octets, first octet highest. -/
def ofOctets (a b c d : BitVec 8) : Ipv4Addr := ⟨a ++ b ++ c ++ d⟩

/-- The four octets, highest first. -/
def octets (address : Ipv4Addr) : List (BitVec 8) :=
  [address.bits.extractLsb' 24 8, address.bits.extractLsb' 16 8, address.bits.extractLsb' 8 8,
    address.bits.extractLsb' 0 8]

/-- Four decimal octets joined by dots. -/
def chars (address : Ipv4Addr) : List Char :=
  ['.'].intercalate (address.octets.map fun o => Text.decimal o.toNat)

/-- The written form of an address. -/
def text (address : Ipv4Addr) : String := String.ofList address.chars

/-- An octet in decimal: at most three digits, no zero before another digit. -/
def octet? (group : List Char) : Option (BitVec 8) :=
  if group.length ≤ 3 ∧ (group.head? ≠ some '0' ∨ group.length = 1) then
    ((Text.digits? 10 group).filter (· < 256)).map (BitVec.ofNat 8)
  else none

/-- The address written by a text. -/
def ofChars? (cs : List Char) : Option Ipv4Addr :=
  match cs.splitOn '.' with
  | [a, b, c, d] => do return ofOctets (← octet? a) (← octet? b) (← octet? c) (← octet? d)
  | _ => none

end Ipv4Addr

/-- A network of Internet addresses: those whose first `length` bits are the ones of `address`. -/
structure Ipv4Net where
  address : Ipv4Addr
  length : Nat
  length_le : length ≤ 32
  network_eq : network length address.bits = address.bits
  deriving DecidableEq, Repr

namespace Ipv4Net

/-- The network of the given length around an address. -/
def around (address : Ipv4Addr) (length : Nat) (h : length ≤ 32) : Ipv4Net where
  address := ⟨network length address.bits⟩
  length
  length_le := h
  network_eq := network_network length address.bits

/-- The network of a single host. -/
def host (address : Ipv4Addr) : Ipv4Net := around address 32 (by decide)

/-- The network of all addresses. -/
def any : Ipv4Net := around ⟨0⟩ 0 (by decide)

instance : Inhabited Ipv4Net := ⟨any⟩

/-- Networks are ordered by address, then by length. -/
instance : Ord Ipv4Net := ⟨compareLex (compareOn (·.address.bits)) (compareOn length)⟩

instance : Std.TransOrd Ipv4Net :=
  inferInstanceAs (Std.TransCmp (compareLex (compareOn (·.address.bits)) (compareOn length)))

instance : Std.LawfulEqOrd Ipv4Net where
  eq_of_compare {a b} h := by
    obtain ⟨h₁, h₂⟩ := Ordering.then_eq_eq.1 h
    have h₁ : a.address.bits = b.address.bits := Std.compare_eq_iff_eq.mp h₁
    have h₂ : a.length = b.length := Std.compare_eq_iff_eq.mp h₂
    obtain ⟨⟨_⟩, _, _, _⟩ := a
    obtain ⟨⟨_⟩, _, _, _⟩ := b
    simp_all

/-- The netmask as an address. -/
def mask (net : Ipv4Net) : Ipv4Addr := ⟨netmask 32 net.length⟩

/-- The network spans all addresses. -/
def isAny (net : Ipv4Net) : Bool := net.length == 0

/-- The address lies in the network. -/
def contains (net : Ipv4Net) (address : Ipv4Addr) : Bool :=
  network net.length address.bits == net.address.bits

/-- The network of the given length around an address, refused beyond 32 bits. -/
def of (address : Ipv4Addr) (length : Nat) : Except AddressError Ipv4Net :=
  if h : length ≤ 32 then .ok (around address length h)
  else .error (.subnet (address.text ++ "/" ++ toString length ++ " (length exceeds 32)"))

/-! ## Text -/

/-- The address, a slash and the length. -/
def chars (net : Ipv4Net) : List Char := net.address.chars ++ '/' :: Text.decimal net.length

/-- The written form of a network. -/
def text (net : Ipv4Net) : String := String.ofList net.chars

/-- A length of at most eight bits, or a dotted netmask. -/
def length? (cs : List Char) : Option Nat :=
  if cs.contains '.' then (Ipv4Addr.ofChars? cs).bind fun mask => netmaskLength? mask.bits
  else Text.numeral? 10 256 cs

/-- The address and the length that a text names; the length is not yet checked against 32. -/
def parts? (cs : List Char) : Option (Ipv4Addr × Nat) :=
  match Text.cut? '/' (Text.trim cs) with
  | none => (Ipv4Addr.ofChars? (Text.trim cs)).map (·, 32)
  | some (address, length) => do return (← Ipv4Addr.ofChars? address, ← length? length)

/-- Reads a network; the error repeats the text. -/
def parse (s : String) : Except AddressError Ipv4Net :=
  match parts? s.toList with
  | some (address, length) => of address length
  | none => .error (.subnet s)

end Ipv4Net

end ServiceChain
