/-!
# Numerals

Numbers are written with the fewest digits of their base and read back under a bound.  A numeral is
at least one digit, of either case, possibly after a single plus sign; leading zeros are allowed.
-/

namespace ServiceChain.Text

/-- The value of an ASCII digit or letter as a digit of the given base. -/
def digit? (base : Nat) (c : Char) : Option Nat :=
  let v :=
    if '0' ≤ c ∧ c ≤ '9' then c.toNat - '0'.toNat
    else if 'a' ≤ c ∧ c ≤ 'z' then c.toNat - 'a'.toNat + 10
    else if 'A' ≤ c ∧ c ≤ 'Z' then c.toNat - 'A'.toNat + 10
    else base
  if v < base then some v else none

/-- The value of a digit string, most significant digit first, on top of what was read before. -/
def digitsFrom? (base : Nat) : Nat → List Char → Option Nat
  | acc, [] => some acc
  | acc, c :: cs => (digit? base c).bind fun d => digitsFrom? base (acc * base + d) cs

/-- The value of a nonempty digit string. -/
def digits? (base : Nat) (cs : List Char) : Option Nat :=
  if cs.isEmpty then none else digitsFrom? base 0 cs

/-- Drops one leading plus sign. -/
def dropPlus : List Char → List Char
  | '+' :: cs => cs
  | cs => cs

/-- Reads a numeral whose value is below `bound`. -/
def numeral? (base bound : Nat) (cs : List Char) : Option Nat :=
  (digits? base (dropPlus cs)).filter (· < bound)

/-- The digits of a number in base ten. -/
def decimal (n : Nat) : List Char := Nat.toDigits 10 n

/-- The digits of a number in base sixteen, in lower case. -/
def hex (n : Nat) : List Char := Nat.toDigits 16 n

/-- The digits of a number in base sixteen, filled with zeros up to the given width. -/
def hexPadded (width n : Nat) : List Char :=
  List.replicate (width - (hex n).length) '0' ++ hex n

end ServiceChain.Text
