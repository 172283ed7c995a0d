import ServiceChain.Address.PortMask

/-!
# Port ranges

A range of ports is split into the fewest blocks that a mask can match: aligned blocks of a power of
two.  Going up from the low end, each block is the largest one that starts there and stays inside.
-/

namespace ServiceChain

/-- The ports from `min` to `max`, both included. -/
structure PortRange where
  min : UInt16
  max : UInt16
  min_le : min ≤ max
  deriving DecidableEq, Repr

/-- The bounds of a range are in the wrong order. -/
structure InvertedRange where
  min : UInt16
  max : UInt16
  deriving DecidableEq, Repr

namespace PortRange

/-- The range between two bounds. -/
def of (min max : UInt16) : Except InvertedRange PortRange :=
  if h : min ≤ max then .ok ⟨min, max, h⟩ else .error ⟨min, max⟩

/-- The range that a classifier's bounds mean, a bound of zero being as good as none: no bound is no
range, a lone upper bound starts at 1, a lone lower bound ends at 65535. -/
def ofBounds (min max : Option UInt16) : Except InvertedRange (Option PortRange) :=
  match min.filter (· != 0), max.filter (· != 0) with
  | none, none => .ok none
  | none, some max => (of 1 max).map some
  | some min, none => (of min 0xffff).map some
  | some min, some max => (of min max).map some

/-! ## Blocks -/

/-- The largest exponent up to `k` of a block that starts at `lo`, is aligned there, and ends at
`hi` or before. -/
def blockExponent (lo hi : Nat) : Nat → Nat
  | 0 => 0
  | k + 1 =>
    if lo % (1 <<< (k + 1)) = 0 ∧ lo + (1 <<< (k + 1)) ≤ hi + 1 then k + 1
    else blockExponent lo hi k

/-- Start and exponent of the blocks that make up the numbers from `lo` to `hi`. -/
def blocks (lo hi : Nat) : List (Nat × Nat) :=
  if lo ≤ hi then (lo, blockExponent lo hi 16) :: blocks (lo + (1 <<< blockExponent lo hi 16)) hi
  else []
termination_by hi + 1 - lo
decreasing_by
  have := Nat.two_pow_pos (blockExponent lo hi 16)
  rw [Nat.one_shiftLeft]
  omega

/-- The mask of the block of `2 ^ exponent` ports at `start`. -/
def blockMask (start exponent : Nat) : PortMask :=
  PortMask.of (UInt16.ofNat start) (UInt16.ofNat ((1 <<< 16) - (1 <<< exponent)))

/-- The masks whose ports are the ones of the range. -/
def masks (r : PortRange) : List PortMask :=
  (blocks r.min.toNat r.max.toNat).map fun (start, exponent) => blockMask start exponent

end PortRange

/-- The masks of a classifier's bounds; without bounds, the wildcard. -/
def portMasks (min max : Option UInt16) : Except InvertedRange (List PortMask) :=
  (PortRange.ofBounds min max).map fun
    | some range => range.masks
    | none => [PortMask.wildcard]

end ServiceChain
