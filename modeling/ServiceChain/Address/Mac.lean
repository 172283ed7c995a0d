import ServiceChain.Address.Error
import ServiceChain.Text.Numeral

/-!
# Ethernet addresses

An address is six octets.  It is written as six groups of two lower case hexadecimal digits joined
by colons; it is read from six groups of one or two characters joined by colons, or by hyphens when
the text has a hyphen.
-/

namespace ServiceChain

/-- A 48-bit Ethernet address, first octet on the wire first. -/
structure MacAddress where
  octets : Vector UInt8 6
  deriving DecidableEq, Repr

namespace MacAddress

instance : Inhabited MacAddress := ⟨⟨#v[0, 0, 0, 0, 0, 0]⟩⟩

/-- Addresses are ordered octet by octet. -/
instance : Ord MacAddress := ⟨compareOn octets⟩

instance : Std.TransOrd MacAddress := inferInstanceAs (Std.TransCmp (compareOn octets))

instance : Std.LawfulEqOrd MacAddress where
  eq_of_compare {a b} h := by
    have : a.octets = b.octets := Std.compare_eq_iff_eq.mp h
    cases a; cases b; simp_all

/-- The address of six octets, `none` for any other number of them. -/
def ofList? (octets : List UInt8) : Option MacAddress :=
  if h : octets.length = 6 then some ⟨⟨octets.toArray, by simpa using h⟩⟩ else none

/-- The group bit of the first octet is set. -/
def isMulticast (mac : MacAddress) : Bool := mac.octets[0] &&& 1 != 0

/-! ## Text -/

/-- Six groups of two digits joined by colons. -/
def chars (mac : MacAddress) : List Char :=
  [':'].intercalate (mac.octets.toList.map fun o => Text.hexPadded 2 o.toNat)

/-- The written form of an address. -/
def text (mac : MacAddress) : String := String.ofList mac.chars

/-- The octet written by a group of at most two characters. -/
def octet? (group : List Char) : Option UInt8 :=
  if group.length ≤ 2 then (Text.numeral? 16 256 group).map UInt8.ofNat else none

/-- The separator that a text uses. -/
def separator (cs : List Char) : Char := if cs.contains '-' then '-' else ':'

/-- The address written by a text. -/
def ofChars? (cs : List Char) : Option MacAddress :=
  ((cs.splitOn (separator cs)).mapM octet?).bind ofList?

/-- Reads an address; the error repeats the text. -/
def parse (s : String) : Except AddressError MacAddress :=
  match ofChars? s.toList with
  | some mac => .ok mac
  | none => .error (.mac s)

end MacAddress

end ServiceChain
