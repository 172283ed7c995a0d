import ServiceChain.Proofs.Classifier.Fewest

/-!
# The split on machine words

The split of a range by a loop on 32-bit words.  A block starts with the largest size that is aligned at its
start, read off the trailing zeros of the word, and the size is halved until the block ends in the range.  Sums,
differences and shifts are checked here, the start of a block must fit in the sixteen bits of a port, and a
loop that would not move on gives no result.

On the words of small numbers each operation is the one on numbers, so none of the checks fails and the
loop goes through the blocks of the range (`loop?_eq`).  With the theory of these, its result is the split of
the range into the fewest blocks (`masks_split`).
-/

namespace ServiceChain

namespace PortRange

namespace Word

/-! ## Checked operations -/

/-- The sum, unless it overflows. -/
def add? (a b : UInt32) : Option UInt32 := if a.toNat + b.toNat < UInt32.size then some (a + b) else none

/-- The difference, unless it is negative. -/
def sub? (a b : UInt32) : Option UInt32 := if b ≤ a then some (a - b) else none

/-- One, shifted by less than the width of a word. -/
def bit? (k : Nat) : Option UInt32 := if k < 32 then some (1 <<< UInt32.ofNat k) else none

/-- The lower half of a word, unless a bit of the upper half is lost. -/
def narrow? (a : UInt32) : Option UInt16 := if a.toNat < UInt16.size then some a.toUInt16 else none

/-- The number of zero bits below the lowest one. -/
def trailingZeros (a : UInt32) : Nat := a.toBitVec.ctz.toNat

/-! ## The loop -/

/-- The largest size of a block that starts at `lo` and is aligned there. -/
def firstSize? (lo : UInt32) : Option UInt32 := bit? (if lo = 0 then 16 else trailingZeros lo)

/-- The size, halved until a block of it that starts at `lo` ends at `hi` or before. -/
def shrink? (lo hi size : UInt32) : Option UInt32 :=
  if size = 0 then none
  else do
    let stop ← add? lo size
    let last ← sub? stop 1
    if hi < last then shrink? lo hi (size >>> 1) else some size
termination_by size.toNat
decreasing_by
  have hpos : size.toNat ≠ 0 := fun hzero => ‹¬size = 0› (UInt32.toNat_inj.1 hzero)
  rw [UInt32.toNat_shiftRight]
  show size.toNat >>> 1 < size.toNat
  rw [Nat.shiftRight_eq_div_pow]
  omega

/-- The masks from `lo` on. -/
def loop? (lo hi : UInt32) : Option (List PortMask) :=
  if lo ≤ hi then do
    let size ← shrink? lo hi (← firstSize? lo)
    let value ← narrow? lo
    let low ← sub? size 1
    let next ← add? lo size
    if lo < next then
      let rest ← loop? next hi
      some (PortMask.of value (~~~low).toUInt16 :: rest)
    else none
  else some []
termination_by hi.toNat + 1 - lo.toNat
decreasing_by
  simp only [UInt32.le_iff_toNat_le, UInt32.lt_iff_toNat_lt] at *
  omega

/-! ## On the words of small numbers -/

variable {a b k lo hi : Nat}

theorem ofNat_ne_zero (hpos : 0 < a) (ha : a < 2 ^ 32) : UInt32.ofNat a ≠ 0 := by
  intro hzero
  have hnat := congrArg UInt32.toNat hzero
  rw [UInt32.toNat_ofNat_of_lt' ha, UInt32.toNat_zero] at hnat
  omega

theorem add?_ofNat (h : a + b < 2 ^ 32) :
    add? (UInt32.ofNat a) (UInt32.ofNat b) = some (UInt32.ofNat (a + b)) := by
  have ha : a < 2 ^ 32 := by omega
  have hb : b < 2 ^ 32 := by omega
  rw [add?, UInt32.toNat_ofNat_of_lt' ha, UInt32.toNat_ofNat_of_lt' hb, UInt32.ofNat_add]
  exact if_pos h

theorem sub?_ofNat (hb : b ≤ a) (ha : a < 2 ^ 32) :
    sub? (UInt32.ofNat a) (UInt32.ofNat b) = some (UInt32.ofNat (a - b)) := by
  have hb' : b < 2 ^ 32 := by omega
  rw [sub?, if_pos ((UInt32.ofNat_le_iff_le hb' ha).2 hb), UInt32.ofNat_sub hb]

theorem narrow?_ofNat (ha : a < 2 ^ 16) : narrow? (UInt32.ofNat a) = some (UInt16.ofNat a) := by
  have ha' : a < 2 ^ 32 := by omega
  rw [narrow?, UInt32.toNat_ofNat_of_lt' ha', UInt32.toUInt16_ofNat']
  exact if_pos ha

theorem bit?_eq (hk : k < 32) : bit? k = some (UInt32.ofNat (2 ^ k)) := by
  rw [bit?, if_pos hk, ← Nat.one_shiftLeft, UInt32.ofNat_shiftLeft 1 k hk]
  rfl

theorem half_two_pow (hk : k + 1 < 32) :
    UInt32.ofNat (2 ^ (k + 1)) >>> 1 = UInt32.ofNat (2 ^ k) := by
  have hlt : 2 ^ (k + 1) < 2 ^ 32 := Nat.pow_lt_pow_right (by decide) hk
  have hlt' : 2 ^ k < 2 ^ 32 := Nat.pow_lt_pow_right (by decide) (by omega)
  rw [← UInt32.toNat_inj, UInt32.toNat_shiftRight, UInt32.toNat_ofNat_of_lt' hlt,
    UInt32.toNat_ofNat_of_lt' hlt']
  show 2 ^ (k + 1) >>> 1 = 2 ^ k
  rw [Nat.shiftRight_eq_div_pow, Nat.pow_succ]
  omega

/-- The lower half of the complement of the lowest `k` bits is the mask of a block of `2 ^ k` ports. -/
theorem complement_low (hk : k ≤ 16) :
    (~~~UInt32.ofNat (2 ^ k - 1)).toUInt16 = UInt16.ofNat ((1 <<< 16) - (1 <<< k)) := by
  have hle : 2 ^ k ≤ 2 ^ 16 := Nat.pow_le_pow_right (by decide) hk
  have hlow : 2 ^ k - 1 < 2 ^ 32 := by omega
  have hpos := Nat.two_pow_pos k
  rw [← UInt16.toNat_inj, UInt32.toNat_toUInt16, UInt32.toNat_not, UInt32.toNat_ofNat_of_lt' hlow,
    UInt16.toNat_ofNat', Nat.one_shiftLeft, Nat.one_shiftLeft]
  simp only [UInt32.size]
  omega

/-! ## Sizes -/

theorem aligned_iff_testBit : lo % 2 ^ k = 0 ↔ ∀ i < k, lo.testBit i = false := by
  constructor
  · intro haligned i hi
    have hbit := Nat.testBit_mod_two_pow lo k i
    rw [haligned, Nat.zero_testBit, decide_eq_true hi, Bool.true_and] at hbit
    exact hbit.symm
  · intro hzero
    apply Nat.eq_of_testBit_eq
    intro i
    rw [Nat.testBit_mod_two_pow, Nat.zero_testBit]
    by_cases hi : i < k
    · rw [hzero i hi, Bool.and_false]
    · rw [decide_eq_false hi, Bool.false_and]

/-- The lowest set bit of a word: it is aligned there, and not one bit further. -/
theorem trailingZeros_spec (hpos : 0 < lo) (hlo : lo < 2 ^ 32) :
    lo % 2 ^ trailingZeros (UInt32.ofNat lo) = 0 ∧
      lo % 2 ^ (trailingZeros (UInt32.ofNat lo) + 1) ≠ 0 := by
  have hbits : ∀ i, lo.testBit i = (UInt32.ofNat lo).toBitVec.getLsbD i := by
    intro i
    show lo.testBit i = (UInt32.ofNat lo).toNat.testBit i
    rw [UInt32.toNat_ofNat_of_lt' hlo]
  have hnonzero : (UInt32.ofNat lo).toBitVec ≠ 0#32 :=
    fun hzero => ofNat_ne_zero hpos hlo (UInt32.toBitVec_inj.1 hzero)
  constructor
  · rw [aligned_iff_testBit]
    intro i hi
    rw [hbits]
    exact BitVec.getLsbD_false_of_lt_ctz hi
  · intro haligned
    have hclear := aligned_iff_testBit.1 haligned _ (Nat.lt_succ_self _)
    rw [hbits] at hclear
    exact Bool.false_ne_true (hclear.symm.trans (BitVec.getLsbD_true_ctz_of_ne_zero hnonzero))

/-- A size that the low end is not aligned to is passed over. -/
theorem blockExponent_add (h : lo % 2 ^ (k + 1) ≠ 0) (j : Nat) :
    blockExponent lo hi (k + j) = blockExponent lo hi k := by
  induction j with
  | zero => rfl
  | succ j ih =>
    have hodd : lo % 2 ^ (k + j + 1) ≠ 0 := fun haligned => h (aligned_of_le (by omega) haligned)
    rw [← Nat.add_assoc, blockExponent, Nat.one_shiftLeft, if_neg (fun hfits => hodd hfits.1), ih]

/-- A block starts with a size it is aligned to, and no larger one gives the block of the split. -/
theorem exists_firstSize? (lo hi : Nat) (hlo : lo < 2 ^ 16) : ∃ k, k ≤ 16 ∧ lo % 2 ^ k = 0 ∧
    firstSize? (UInt32.ofNat lo) = some (UInt32.ofNat (2 ^ k)) ∧
    blockExponent lo hi 16 = blockExponent lo hi k := by
  rcases Nat.eq_zero_or_pos lo with rfl | hpos
  · exact ⟨16, Nat.le_refl 16, Nat.zero_mod _, bit?_eq (by decide), rfl⟩
  · obtain ⟨haligned, hodd⟩ := trailingZeros_spec hpos (by omega)
    have hlt : trailingZeros (UInt32.ofNat lo) < 16 := by
      have hle := Nat.le_of_dvd hpos (Nat.dvd_of_mod_eq_zero haligned)
      exact (Nat.pow_lt_pow_iff_right (by decide : 1 < 2)).1 (by omega)
    obtain ⟨j, hj⟩ := Nat.exists_eq_add_of_le (Nat.le_of_lt hlt)
    refine ⟨_, Nat.le_of_lt hlt, haligned, ?_, ?_⟩
    · rw [firstSize?, if_neg (ofNat_ne_zero hpos (by omega)), bit?_eq (by omega)]
    · rw [hj, blockExponent_add hodd]

/-- One round of the halving. -/
theorem shrink?_two_pow (hlo : lo < 2 ^ 16) (hhi : hi < 2 ^ 16) (hk : k ≤ 16) :
    shrink? (UInt32.ofNat lo) (UInt32.ofNat hi) (UInt32.ofNat (2 ^ k)) =
      if lo + 2 ^ k ≤ hi + 1 then some (UInt32.ofNat (2 ^ k))
      else shrink? (UInt32.ofNat lo) (UInt32.ofNat hi) (UInt32.ofNat (2 ^ k) >>> 1) := by
  have hsize : 2 ^ k ≤ 2 ^ 16 := Nat.pow_le_pow_right (by decide) hk
  have hpos := Nat.two_pow_pos k
  have hlast : sub? (UInt32.ofNat (lo + 2 ^ k)) 1 = some (UInt32.ofNat (lo + 2 ^ k - 1)) :=
    sub?_ofNat (b := 1) (by omega) (by omega)
  have hexceeds : UInt32.ofNat hi < UInt32.ofNat (lo + 2 ^ k - 1) ↔ ¬lo + 2 ^ k ≤ hi + 1 := by
    have hhi' : hi < 2 ^ 32 := by omega
    have hlast' : lo + 2 ^ k - 1 < 2 ^ 32 := by omega
    rw [UInt32.ofNat_lt_iff_lt hhi' hlast']
    omega
  rw [shrink?, if_neg (ofNat_ne_zero hpos (by omega)), add?_ofNat (by omega)]
  simp only [Option.bind_eq_bind, Option.bind_some, hlast, hexceeds, ite_not]

/-- The halving ends at the block of the split. -/
theorem shrink?_eq (hle : lo ≤ hi) (hhi : hi < 2 ^ 16) (hk : k ≤ 16) (haligned : lo % 2 ^ k = 0) :
    shrink? (UInt32.ofNat lo) (UInt32.ofNat hi) (UInt32.ofNat (2 ^ k)) =
      some (UInt32.ofNat (2 ^ blockExponent lo hi k)) := by
  rw [shrink?_two_pow (by omega) hhi hk]
  induction k with
  | zero =>
    rw [if_pos (by simp only [Nat.pow_zero]; omega), blockExponent]
  | succ k ih =>
    rw [blockExponent, Nat.one_shiftLeft]
    by_cases hfits : lo + 2 ^ (k + 1) ≤ hi + 1
    · rw [if_pos hfits, if_pos ⟨haligned, hfits⟩]
    · have hhalf : lo % 2 ^ k = 0 := aligned_of_le (by omega) haligned
      rw [if_neg hfits, if_neg (fun h => hfits h.2), half_two_pow (by omega),
        shrink?_two_pow (by omega) hhi (by omega), ih (by omega) hhalf]

/-! ## The whole loop -/

theorem loop?_eq (hhi : hi < 2 ^ 16) (hlo : lo ≤ 2 ^ 16) :
    loop? (UInt32.ofNat lo) (UInt32.ofNat hi) =
      some ((blocks lo hi).map fun (start, exponent) => blockMask start exponent) := by
  have hlo' : lo < 2 ^ 32 := by omega
  have hhi' : hi < 2 ^ 32 := by omega
  fun_induction blocks lo hi with
  | case1 lo hle ih =>
    obtain ⟨-, hfits⟩ := blockExponent_spec hle 16
    obtain ⟨k, hk, haligned, hfirst, hsame⟩ := exists_firstSize? lo hi (by omega)
    have hpos := Nat.two_pow_pos (blockExponent lo hi 16)
    have hlow : sub? (UInt32.ofNat (2 ^ blockExponent lo hi 16)) 1 =
        some (UInt32.ofNat (2 ^ blockExponent lo hi 16 - 1)) :=
      sub?_ofNat (b := 1) (by omega) (by omega)
    have hshrink := shrink?_eq hle hhi hk haligned
    have hexponent : blockExponent lo hi 16 ≤ 16 := by
      rw [← Nat.pow_le_pow_iff_right (by decide : 1 < 2)]
      omega
    have hnext : lo + 2 ^ blockExponent lo hi 16 < 2 ^ 32 := by omega
    have hmoves : UInt32.ofNat lo < UInt32.ofNat (lo + 2 ^ blockExponent lo hi 16) := by
      rw [UInt32.ofNat_lt_iff_lt hlo' hnext]
      omega
    rw [← hsame] at hshrink
    rw [Nat.one_shiftLeft] at ih ⊢
    rw [loop?, if_pos ((UInt32.ofNat_le_iff_le hlo' hhi').2 hle), hfirst]
    simp only [Option.bind_eq_bind, Option.bind_some, hshrink, narrow?_ofNat (a := lo) (by omega),
      hlow, add?_ofNat hnext, if_pos hmoves, ih (by omega) hnext, complement_low hexponent,
      List.map_cons]
    rfl
  | case2 lo hgt =>
    rw [loop?, if_neg (fun h => hgt ((UInt32.ofNat_le_iff_le hlo' hhi').1 h)), List.map_nil]

end Word

/-! ## The split of a range -/

/-- The masks of the range, by the loop on words. -/
def wordMasks? (r : PortRange) : Option (List PortMask) := Word.loop? r.min.toUInt32 r.max.toUInt32

/-- The masks cover the range by aligned blocks, in order, once each, and with as few as can be. -/
structure IsSplit (r : PortRange) (masks : List PortMask) : Prop where
  block : ∀ mask ∈ masks, ∃ block, IsAligned block ∧ mask.value.toNat = block.1 ∧
    mask.mask.toNat = 2 ^ 16 - 2 ^ block.2 ∧
    ∀ port : UInt16, mask.covers port ↔ inBlock port.toNat block
  ascending : masks.Pairwise fun mask later =>
    ∀ port port' : UInt16, mask.covers port → later.covers port' → port < port'
  exact : ∀ port : UInt16,
    masks.countP (·.covers port) = if r.min ≤ port ∧ port ≤ r.max then 1 else 0
  length_le : masks.length ≤ 30
  fewest : ∀ bs, Covers bs r.min.toNat (r.max.toNat + 1) → masks.length ≤ bs.length

theorem wordMasks?_eq (r : PortRange) : r.wordMasks? = some r.masks := by
  have hmax : r.max.toNat < 2 ^ 16 := r.max.toNat_lt
  have hmin : r.min.toNat < 2 ^ 16 := r.min.toNat_lt
  have hwords : ∀ port : UInt16, port.toUInt32 = UInt32.ofNat port.toNat := by
    intro port
    rw [← UInt16.toNat_toUInt32, UInt32.ofNat_toNat]
  rw [wordMasks?, hwords, hwords, Word.loop?_eq hmax (Nat.le_of_lt hmin), masks]

theorem isSplit_masks (r : PortRange) : r.IsSplit r.masks := by
  have hmax : r.max.toNat < 2 ^ 16 := r.max.toNat_lt
  have haligned : ∀ block ∈ blocks r.min.toNat r.max.toNat, IsAligned block :=
    fun block hblock => isAligned_of_mem_blocks hmax hblock
  refine ⟨?_, ?_, countP_masks r, ?_, ?_⟩
  · intro mask hmask
    obtain ⟨block, hblock, rfl⟩ := List.mem_map.1 hmask
    have hblock := haligned block hblock
    exact ⟨block, hblock, toNat_value_blockMask hblock, toNat_mask_blockMask _ _,
      covers_blockMask hblock⟩
  · rw [masks, List.pairwise_map]
    refine (pairwise_blocks r.min.toNat r.max.toNat).imp_of_mem ?_
    intro block later hblock hlater hbefore port port' hport hport'
    have hport := inBlock_iff.1 ((covers_blockMask (haligned block hblock) port).1 hport)
    have hport' := inBlock_iff.1 ((covers_blockMask (haligned later hlater) port').1 hport')
    rw [UInt16.lt_iff_toNat_lt]
    omega
  · rw [masks, List.length_map]
    exact length_blocks_le_thirty hmax
  · intro bs hbs
    rw [masks, List.length_map]
    exact length_blocks_le hmax hbs

/-- The loop on words overflows nowhere, and what it gives is the fewest aligned blocks for the range. -/
theorem masks_split (r : PortRange) : r.wordMasks? = some r.masks ∧ r.IsSplit r.masks :=
  ⟨wordMasks?_eq r, isSplit_masks r⟩

end PortRange

end ServiceChain
