import Mathlib.Algebra.Group.Nat.Defs
import Mathlib.Data.List.Basic
import ServiceChain.Classifier.PortRange

/-!
# The blocks of a range

A block is aligned at its start and ends inside the range (`blockExponent_spec`), so each number of
the range lies in exactly one of its blocks, and no other number in any (`countP_blocks`).  The mask
of an aligned block covers the ports of the block (`covers_blockMask`).  Together, each port of a
range is covered by exactly one of its masks (`countP_masks`).
-/

namespace ServiceChain

namespace PortRange

/-- The number lies in the block with the given start and exponent. -/
def inBlock (n : Nat) (block : Nat × Nat) : Bool := block.1 ≤ n && n < block.1 + 2 ^ block.2

/-- A block that can be masked: aligned at its start, and inside the sixteen bits of a port. -/
structure IsAligned (block : Nat × Nat) : Prop where
  aligned : block.1 % 2 ^ block.2 = 0
  inside : block.1 + 2 ^ block.2 ≤ 2 ^ 16

theorem inBlock_iff {n : Nat} {block : Nat × Nat} :
    inBlock n block ↔ block.1 ≤ n ∧ n < block.1 + 2 ^ block.2 := by
  simp [inBlock]

theorem blockExponent_spec {lo hi : Nat} (h : lo ≤ hi) (k : Nat) :
    lo % 2 ^ blockExponent lo hi k = 0 ∧ lo + 2 ^ blockExponent lo hi k ≤ hi + 1 := by
  induction k with
  | zero =>
    simp only [blockExponent, Nat.pow_zero]
    omega
  | succ k ih =>
    rw [blockExponent]
    split
    · rename_i hfits
      rwa [Nat.one_shiftLeft] at hfits
    · exact ih

theorem isAligned_of_mem_blocks {lo hi : Nat} (hhi : hi < 2 ^ 16) {block : Nat × Nat}
    (hblock : block ∈ blocks lo hi) : IsAligned block := by
  fun_induction blocks lo hi with
  | case1 lo hle ih =>
    obtain ⟨haligned, hend⟩ := blockExponent_spec hle 16
    rcases List.mem_cons.1 hblock with rfl | hrest
    · exact ⟨haligned, by simp only; omega⟩
    · exact ih hrest
  | case2 => cases hblock

/-- Each number of the range lies in exactly one block, and no other number in any. -/
theorem countP_blocks (lo hi n : Nat) :
    (blocks lo hi).countP (inBlock n) = if lo ≤ n ∧ n ≤ hi then 1 else 0 := by
  fun_induction blocks lo hi with
  | case1 lo hle ih =>
    obtain ⟨-, hend⟩ := blockExponent_spec hle 16
    have hpos := Nat.two_pow_pos (blockExponent lo hi 16)
    rw [List.countP_cons, ih, Nat.one_shiftLeft]
    simp only [inBlock_iff]
    -- below the first block, in it, and above it
    by_cases hlow : lo ≤ n
    · by_cases hhigh : n < lo + 2 ^ blockExponent lo hi 16
      · rw [if_neg (by omega), if_pos ⟨hlow, hhigh⟩, if_pos (by omega)]
      · rw [if_neg (by omega : ¬(lo ≤ n ∧ n < lo + 2 ^ blockExponent lo hi 16))]
        by_cases hn : n ≤ hi
        · rw [if_pos (by omega), if_pos (by omega)]
        · rw [if_neg (by omega), if_neg (by omega)]
    · rw [if_neg (by omega), if_neg (by omega), if_neg (by omega)]
  | case2 lo hgt =>
    rw [List.countP_nil, if_neg (by omega)]

/-! ## Masks -/

/-- Of a sixteen-bit number, the bits from the `k`-th on are the multiple of `2 ^ k` below it. -/
theorem and_two_pow_sub_two_pow {x k : Nat} (hx : x < 2 ^ 16) (hk : k ≤ 16) :
    x &&& (2 ^ 16 - 2 ^ k) = x / 2 ^ k * 2 ^ k := by
  have hmask : 2 ^ 16 - 2 ^ k = (2 ^ (16 - k) - 1) <<< k := by
    rw [Nat.shiftLeft_eq, Nat.sub_mul, ← Nat.pow_add, Nat.sub_add_cancel hk, Nat.one_mul]
  rw [hmask, ← Nat.shiftLeft_eq, ← Nat.shiftRight_eq_div_pow]
  apply Nat.eq_of_testBit_eq
  intro i
  simp only [Nat.testBit_and, Nat.testBit_shiftLeft, Nat.testBit_shiftRight,
    Nat.testBit_two_pow_sub_one]
  by_cases hi : k ≤ i
  · rw [Nat.add_sub_cancel' hi]
    by_cases hbit : i - k < 16 - k
    · simp [hi, hbit]
    · have hout : x.testBit i = false := by
        apply Nat.testBit_lt_two_pow
        exact Nat.lt_of_lt_of_le hx (Nat.pow_le_pow_right (by decide) (by omega))
      simp [hout]
  · simp [hi]

theorem IsAligned.le_sixteen {block : Nat × Nat} (h : IsAligned block) : block.2 ≤ 16 := by
  have hinside := h.inside
  exact (Nat.pow_le_pow_iff_right (by decide : 1 < 2)).1 (by omega)

theorem toNat_mask_blockMask (start k : Nat) :
    (blockMask start k).mask.toNat = 2 ^ 16 - 2 ^ k := by
  have hpos := Nat.two_pow_pos k
  show (UInt16.ofNat ((1 <<< 16) - (1 <<< k))).toNat = 2 ^ 16 - 2 ^ k
  rw [Nat.one_shiftLeft, Nat.one_shiftLeft, UInt16.toNat_ofNat']
  exact Nat.mod_eq_of_lt (by omega)

/-- An aligned start has no bit outside the mask. -/
theorem toNat_value_blockMask {block : Nat × Nat} (h : IsAligned block) :
    (blockMask block.1 block.2).value.toNat = block.1 := by
  have hinside := h.inside
  have hpos := Nat.two_pow_pos block.2
  have hstart : (UInt16.ofNat block.1).toNat = block.1 := by
    rw [UInt16.toNat_ofNat']
    exact Nat.mod_eq_of_lt (by omega)
  show (UInt16.ofNat block.1 &&& (blockMask block.1 block.2).mask).toNat = block.1
  rw [UInt16.toNat_and, toNat_mask_blockMask, hstart,
    and_two_pow_sub_two_pow (by omega) h.le_sixteen]
  exact Nat.div_mul_cancel (Nat.dvd_of_mod_eq_zero h.aligned)

theorem covers_blockMask {block : Nat × Nat} (h : IsAligned block) (port : UInt16) :
    (blockMask block.1 block.2).covers port ↔ inBlock port.toNat block := by
  have hpos := Nat.two_pow_pos block.2
  have hport : port.toNat < 2 ^ 16 := port.toNat_lt
  rw [PortMask.covers, beq_iff_eq, inBlock_iff, ← UInt16.toNat_inj, UInt16.toNat_and,
    toNat_mask_blockMask, toNat_value_blockMask h, and_two_pow_sub_two_pow hport h.le_sixteen]
  obtain ⟨q, hq⟩ : ∃ q, block.1 = q * 2 ^ block.2 :=
    ⟨block.1 / 2 ^ block.2, (Nat.div_mul_cancel (Nat.dvd_of_mod_eq_zero h.aligned)).symm⟩
  -- both sides say that the port has the same quotient as the start of the block
  have hquot : port.toNat / 2 ^ block.2 = q ↔
      q * 2 ^ block.2 ≤ port.toNat ∧ port.toNat < q * 2 ^ block.2 + 2 ^ block.2 := by
    rw [Nat.div_eq_iff hpos]
    omega
  rw [hq, ← hquot]
  exact ⟨fun h => Nat.eq_of_mul_eq_mul_right hpos h, fun h => by rw [h]⟩

/-- Each port of the range is covered by exactly one of its masks, and no other port by any. -/
theorem countP_masks (range : PortRange) (port : UInt16) :
    range.masks.countP (·.covers port) = if range.min ≤ port ∧ port ≤ range.max then 1 else 0 := by
  have hmax : range.max.toNat < 2 ^ 16 := range.max.toNat_lt
  have hcount := countP_blocks range.min.toNat range.max.toNat port.toNat
  simp only [← UInt16.le_iff_toNat_le] at hcount
  rw [masks, List.countP_map, ← hcount]
  apply List.countP_congr
  intro block hblock
  rw [Function.comp_apply, covers_blockMask (isAligned_of_mem_blocks hmax hblock)]

end PortRange

end ServiceChain
