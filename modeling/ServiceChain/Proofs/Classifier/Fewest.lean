import ServiceChain.Proofs.Classifier.Blocks

/-!
# The fewest blocks

Of all lists of aligned blocks whose union is the numbers from one to another (`Covers`), the split of a
range is the shortest (`length_blocks_le`).  A block of another list that meets the first block of the split
lies inside it, since the first block is the largest that starts where the range does; so the others are
left for the rest of the range, and there is at least one fewer of them.

Without an odd number at either end, a range is twice a range of half as many numbers; so every range of
numbers below `2 ^ (w + 2)` has a list of no more than `2 * w + 2` blocks (`exists_covers`), and no split of
ports needs more than thirty (`length_blocks_le_thirty`).
-/

namespace ServiceChain

namespace PortRange

/-- The blocks are aligned, and their union is the numbers from `lo` up to, but not including, `stop`. -/
structure Covers (bs : List (Nat × Nat)) (lo stop : Nat) : Prop where
  aligned : ∀ block ∈ bs, block.1 % 2 ^ block.2 = 0
  exact : ∀ n, (∃ block ∈ bs, inBlock n block) ↔ lo ≤ n ∧ n < stop

variable {lo hi stop middle k : Nat} {bs more : List (Nat × Nat)} {block : Nat × Nat}

/-! ## Aligned blocks -/

theorem inBlock_start (block : Nat × Nat) : inBlock block.1 block := by
  rw [inBlock_iff]
  have := Nat.two_pow_pos block.2
  omega

/-- A block of a list that covers some numbers lies among these. -/
theorem Covers.bounds (h : Covers bs lo stop) (hblock : block ∈ bs) :
    lo ≤ block.1 ∧ block.1 + 2 ^ block.2 ≤ stop := by
  have hpos := Nat.two_pow_pos block.2
  have hfirst := (h.exact block.1).1 ⟨block, hblock, inBlock_start block⟩
  have hlast : inBlock (block.1 + 2 ^ block.2 - 1) block := by
    rw [inBlock_iff]
    omega
  have hend := (h.exact _).1 ⟨block, hblock, hlast⟩
  omega

/-- A number that is aligned to a power of two is aligned to the smaller ones. -/
theorem aligned_of_le {j : Nat} (hj : j ≤ k) (h : lo % 2 ^ k = 0) : lo % 2 ^ j = 0 :=
  Nat.mod_eq_zero_of_dvd (Nat.dvd_trans (Nat.pow_dvd_pow 2 hj) (Nat.dvd_of_mod_eq_zero h))

/-- Two multiples of a number are apart by at least that number. -/
theorem add_le_of_dvd_of_lt {m a b : Nat} (ha : m ∣ a) (hb : m ∣ b) (hlt : a < b) : a + m ≤ b := by
  have hle : m ≤ b - a := Nat.le_of_dvd (by omega) (Nat.dvd_sub hb ha)
  omega

/-- No aligned block that starts at the low end and stays inside is larger than the one chosen. -/
theorem le_blockExponent {j : Nat} (hj : j ≤ k) (haligned : lo % 2 ^ j = 0)
    (hfits : lo + 2 ^ j ≤ hi + 1) : j ≤ blockExponent lo hi k := by
  induction k with
  | zero => omega
  | succ k ih =>
    rw [blockExponent, Nat.one_shiftLeft]
    split
    · exact hj
    · rename_i hnot
      apply ih
      rcases Nat.lt_or_eq_of_le hj with hlt | rfl
      · omega
      · exact absurd ⟨haligned, hfits⟩ hnot

/-! ## Order -/

theorem le_of_mem_blocks (hblock : block ∈ blocks lo hi) : lo ≤ block.1 := by
  fun_induction blocks lo hi with
  | case1 lo hle ih =>
    rcases List.mem_cons.1 hblock with rfl | hrest
    · exact Nat.le_refl lo
    · have hpos := Nat.two_pow_pos (blockExponent lo hi 16)
      have := ih hrest
      rw [Nat.one_shiftLeft] at this
      omega
  | case2 => cases hblock

/-- Each block ends before the next one starts. -/
theorem pairwise_blocks (lo hi : Nat) :
    (blocks lo hi).Pairwise fun a b => a.1 + 2 ^ a.2 ≤ b.1 := by
  fun_induction blocks lo hi with
  | case1 lo hle ih =>
    refine List.pairwise_cons.2 ⟨fun block hblock => ?_, ih⟩
    have := le_of_mem_blocks hblock
    rwa [Nat.one_shiftLeft] at this
  | case2 => exact List.Pairwise.nil

theorem covers_blocks (hhi : hi < 2 ^ 16) : Covers (blocks lo hi) lo (hi + 1) where
  aligned block hblock := (isAligned_of_mem_blocks hhi hblock).aligned
  exact n := by
    have hcount := countP_blocks lo hi n
    rw [← List.countP_pos_iff, hcount]
    split <;> omega

/-! ## No shorter list -/

/-- A block of another list that starts in the first block of the split also ends in it. -/
theorem Covers.end_le (h : Covers bs lo (hi + 1)) (hhi : hi < 2 ^ 16) (hle : lo ≤ hi)
    (hblock : block ∈ bs) (hmeets : block.1 < lo + 2 ^ blockExponent lo hi 16) :
    block.1 + 2 ^ block.2 ≤ lo + 2 ^ blockExponent lo hi 16 := by
  obtain ⟨hstart, hend⟩ := h.bounds hblock
  obtain ⟨hfirst, -⟩ := blockExponent_spec hle 16
  have haligned := h.aligned block hblock
  by_cases hsmall : block.2 ≤ blockExponent lo hi 16
  · have hlo : 2 ^ block.2 ∣ lo := Nat.dvd_of_mod_eq_zero (aligned_of_le hsmall hfirst)
    have hdvd : 2 ^ block.2 ∣ block.1 := Nat.dvd_of_mod_eq_zero haligned
    exact add_le_of_dvd_of_lt hdvd (Nat.dvd_add hlo (Nat.pow_dvd_pow 2 hsmall)) hmeets
  · -- a larger block would have to start where the range does, and would have been chosen
    exfalso
    have hlarge : block.1 % 2 ^ blockExponent lo hi 16 = 0 := aligned_of_le (by omega) haligned
    have hsame : block.1 = lo := by
      by_contra hne
      have := add_le_of_dvd_of_lt (Nat.dvd_of_mod_eq_zero hfirst) (Nat.dvd_of_mod_eq_zero hlarge)
        (by omega)
      omega
    have hexponent : block.2 ≤ 16 := by
      rw [← Nat.pow_le_pow_iff_right (by decide : 1 < 2)]
      omega
    rw [hsame] at haligned hend
    exact hsmall (le_blockExponent hexponent haligned hend)

/-- Without the blocks that meet the first block of the split, a list covers the rest. -/
theorem Covers.rest (h : Covers bs lo (hi + 1)) (hhi : hi < 2 ^ 16) (hle : lo ≤ hi) :
    Covers (bs.filter fun block => lo + 2 ^ blockExponent lo hi 16 ≤ block.1)
      (lo + 2 ^ blockExponent lo hi 16) (hi + 1) where
  aligned block hblock := h.aligned block (List.mem_filter.1 hblock).1
  exact n := by
    constructor
    · rintro ⟨block, hblock, hin⟩
      obtain ⟨hblock, hafter⟩ := List.mem_filter.1 hblock
      have hafter : lo + 2 ^ blockExponent lo hi 16 ≤ block.1 := by simpa using hafter
      have hn := (h.exact n).1 ⟨block, hblock, hin⟩
      rw [inBlock_iff] at hin
      omega
    · rintro ⟨hlow, hhigh⟩
      have hpos := Nat.two_pow_pos (blockExponent lo hi 16)
      obtain ⟨block, hblock, hin⟩ := (h.exact n).2 ⟨by omega, hhigh⟩
      refine ⟨block, List.mem_filter.2 ⟨hblock, ?_⟩, hin⟩
      rw [inBlock_iff] at hin
      by_contra hbefore
      have hbefore : block.1 < lo + 2 ^ blockExponent lo hi 16 := by simpa using hbefore
      have := h.end_le hhi hle hblock hbefore
      omega

/-- The split is as short as any list of aligned blocks for the same numbers. -/
theorem length_blocks_le (hhi : hi < 2 ^ 16) (h : Covers bs lo (hi + 1)) :
    (blocks lo hi).length ≤ bs.length := by
  fun_induction blocks lo hi generalizing bs with
  | case1 lo hle ih =>
    have hrest := h.rest hhi hle
    rw [Nat.one_shiftLeft] at ih ⊢
    have hlength := ih hrest
    -- some block covers the low end, and it is not among those for the rest
    obtain ⟨first, hfirst, hin⟩ := (h.exact lo).2 ⟨Nat.le_refl lo, by omega⟩
    have hfewer : (bs.filter fun block => lo + 2 ^ blockExponent lo hi 16 ≤ block.1).length <
        bs.length := by
      rw [List.length_filter_lt_length_iff_exists]
      refine ⟨first, hfirst, ?_⟩
      rw [inBlock_iff] at hin
      have := Nat.two_pow_pos (blockExponent lo hi 16)
      simp only [decide_eq_true_eq]
      omega
    rw [List.length_cons]
    omega
  | case2 => exact Nat.zero_le _

/-! ## A list for every range -/

theorem covers_nil (lo : Nat) : Covers [] lo lo where
  aligned := nofun
  exact n := by
    constructor
    · intro ⟨_, hblock, _⟩
      cases hblock
    · omega

theorem Covers.append (h : Covers bs lo middle) (h' : Covers more middle stop) (hlo : lo ≤ middle)
    (hstop : middle ≤ stop) : Covers (bs ++ more) lo stop where
  aligned block hblock := by
    rcases List.mem_append.1 hblock with hblock | hblock
    · exact h.aligned block hblock
    · exact h'.aligned block hblock
  exact n := by
    simp only [List.mem_append, or_and_right, exists_or, h.exact, h'.exact]
    omega

/-- At most one number is covered by at most one block. -/
theorem exists_covers_of_le_succ (lo stop : Nat) (hlo : lo ≤ stop) (hstop : stop ≤ lo + 1) :
    ∃ bs, Covers bs lo stop ∧ bs.length ≤ 1 := by
  rcases Nat.lt_or_eq_of_le hlo with hlt | rfl
  · obtain rfl : stop = lo + 1 := by omega
    refine ⟨[(lo, 0)], ⟨?_, fun n => ?_⟩, Nat.le_refl 1⟩
    · simp [Nat.mod_one]
    · simp only [List.mem_singleton, exists_eq_left, inBlock_iff]
      omega
  · exact ⟨[], covers_nil lo, Nat.zero_le 1⟩

/-- Blocks of twice the size, at twice the place. -/
theorem Covers.double (h : Covers bs lo stop) :
    Covers (bs.map fun block => (2 * block.1, block.2 + 1)) (2 * lo) (2 * stop) where
  aligned block hblock := by
    obtain ⟨half, hhalf, rfl⟩ := List.mem_map.1 hblock
    have haligned := h.aligned half hhalf
    simp only [Nat.pow_succ]
    rw [Nat.mul_comm (2 ^ half.2) 2, Nat.mul_mod_mul_left, haligned]
  exact n := by
    have hhalves : ∀ half : Nat × Nat,
        inBlock n (2 * half.1, half.2 + 1) ↔ inBlock (n / 2) half := by
      intro half
      simp only [inBlock_iff, Nat.pow_succ]
      omega
    have hexact := h.exact (n / 2)
    simp only [List.mem_map, exists_exists_and_eq_and, hhalves]
    rw [hexact]
    omega

theorem length_blocks_le_two : ∀ lo < 4, ∀ hi < 4, (blocks lo hi).length ≤ 2 := by
  decide +kernel

/-- What is left of a range without an odd number at either end is twice a range of half the numbers. -/
theorem exists_covers (w lo stop : Nat) (hlo : lo ≤ stop) (hstop : stop ≤ 2 ^ (w + 2)) :
    ∃ bs, Covers bs lo stop ∧ bs.length ≤ 2 * w + 2 := by
  induction w generalizing lo stop with
  | zero =>
    rcases Nat.lt_or_eq_of_le hlo with hlt | rfl
    case inr => exact ⟨[], covers_nil lo, Nat.zero_le _⟩
    obtain ⟨hi, rfl⟩ : ∃ hi, stop = hi + 1 := ⟨stop - 1, by omega⟩
    exact ⟨blocks lo hi, covers_blocks (by omega),
      length_blocks_le_two lo (by omega) hi (by omega)⟩
  | succ w ih =>
    rw [Nat.pow_succ] at hstop
    rcases Nat.lt_or_eq_of_le hlo with hlt | rfl
    case inr => exact ⟨[], covers_nil lo, Nat.zero_le _⟩
    obtain ⟨halves, hhalves, hlength⟩ :=
      ih ((lo + 1) / 2) (stop / 2) (by omega) (by omega)
    obtain ⟨first, hfirst, hone⟩ :=
      exists_covers_of_le_succ lo (2 * ((lo + 1) / 2)) (by omega) (by omega)
    obtain ⟨last, hlast, hone'⟩ :=
      exists_covers_of_le_succ (2 * (stop / 2)) stop (by omega) (by omega)
    refine ⟨_, (hfirst.append hhalves.double (by omega) (by omega)).append hlast
      (by omega) (by omega), ?_⟩
    simp only [List.length_append, List.length_map]
    omega

/-- A range of ports is split into no more than thirty blocks. -/
theorem length_blocks_le_thirty (hhi : hi < 2 ^ 16) : (blocks lo hi).length ≤ 30 := by
  by_cases hle : lo ≤ hi
  · obtain ⟨bs, hbs, hlength⟩ := exists_covers 14 lo (hi + 1) (by omega) (by omega)
    have := length_blocks_le hhi hbs
    omega
  · rw [blocks, if_neg hle]
    exact Nat.zero_le _

example : (blocks 1 65534).length = 30 := by decide +kernel

end PortRange

end ServiceChain
