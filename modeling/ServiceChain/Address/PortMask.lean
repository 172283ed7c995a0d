import ServiceChain.Address.Error
import ServiceChain.Text.Cut
import ServiceChain.Text.Numeral

/-!
# Masked ports

A value and a mask match every port that agrees with the value on the bits of the mask.
-/

namespace ServiceChain

/-- A value and a mask; no bit of the value lies outside the mask. -/
structure PortMask where
  value : UInt16
  mask : UInt16
  value_and_mask : value &&& mask = value
  deriving DecidableEq, Repr

namespace PortMask

/-- The mask with the bits of a value under it. -/
def of (value mask : UInt16) : PortMask where
  value := value &&& mask
  mask
  value_and_mask := by rw [UInt16.and_assoc, UInt16.and_self]

/-- Matches every port. -/
def wildcard : PortMask := of 0 0

/-- Matches one port. -/
def exact (port : UInt16) : PortMask := of port 0xffff

instance : Inhabited PortMask := ⟨wildcard⟩

/-- Port masks are ordered by value, then by mask. -/
instance : Ord PortMask := ⟨compareLex (compareOn value) (compareOn mask)⟩

instance : Std.TransOrd PortMask :=
  inferInstanceAs (Std.TransCmp (compareLex (compareOn value) (compareOn mask)))

instance : Std.LawfulEqOrd PortMask where
  eq_of_compare {a b} h := by
    obtain ⟨h₁, h₂⟩ := Ordering.then_eq_eq.1 h
    have h₁ : a.value = b.value := Std.compare_eq_iff_eq.mp h₁
    have h₂ : a.mask = b.mask := Std.compare_eq_iff_eq.mp h₂
    cases a; cases b; simp_all

/-- No bit is compared. -/
def isWildcard (m : PortMask) : Bool := m.mask == 0

/-- The port agrees with the value on the mask. -/
def covers (m : PortMask) (port : UInt16) : Bool := port &&& m.mask == m.value

/-- The number of ports covered: each bit outside the mask doubles it. -/
def span (m : PortMask) : Nat :=
  1 <<< ((List.range 16).countP fun i => !m.mask.toBitVec.getLsbD i)

/-! ## Text -/

/-- The value in decimal, a slash, and the mask in hexadecimal after `0x`. -/
def chars (m : PortMask) : List Char :=
  Text.decimal m.value.toNat ++ "/0x".toList ++ Text.hex m.mask.toNat

/-- The written form of a port mask. -/
def text (m : PortMask) : String := String.ofList m.chars

/-- The mask after its `0x`. -/
def mask? : List Char → Option Nat
  | '0' :: 'x' :: cs => Text.numeral? 16 65536 cs
  | _ => none

/-- The port mask written by a text. -/
def ofChars? (cs : List Char) : Option PortMask := do
  let (value, mask) ← Text.cut? '/' cs
  let value ← Text.numeral? 10 65536 value
  let mask ← mask? mask
  return of (UInt16.ofNat value) (UInt16.ofNat mask)

/-- Reads a port mask; the error repeats the text. -/
def parse (s : String) : Except AddressError PortMask :=
  match ofChars? s.toList with
  | some m => .ok m
  | none => .error (.portMask s)

end PortMask

end ServiceChain
