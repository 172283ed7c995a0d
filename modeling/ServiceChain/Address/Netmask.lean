/-!
# Netmasks

A netmask of a word is a run of ones at its high end.  Clearing the bits outside of it leaves the
network that an address belongs to.
-/

namespace ServiceChain

/-- The word of width `w` whose first `length` bits are ones and the others zeros. -/
def netmask (w length : Nat) : BitVec w := BitVec.allOnes w <<< (w - length)

/-- The number of ones in front of the first zero of a word. -/
def leadingOnes {w : Nat} (word : BitVec w) : Nat := (~~~word).clz.toNat

/-- The length of the run of ones, if the word is a netmask: nothing is left of the word once its leading ones
are shifted out. -/
def netmaskLength? {w : Nat} (word : BitVec w) : Option Nat :=
  if word <<< leadingOnes word = 0 then some (leadingOnes word) else none

/-- The bits of a word under a netmask. -/
def network {w : Nat} (length : Nat) (word : BitVec w) : BitVec w := word &&& netmask w length

theorem network_network {w : Nat} (length : Nat) (word : BitVec w) :
    network length (network length word) = network length word := by
  simp [network, BitVec.and_assoc]

theorem network_full {w : Nat} (word : BitVec w) : network w word = word := by
  simp [network, netmask]

end ServiceChain
