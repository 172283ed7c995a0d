import ServiceChain.Classifier.MatchFields
import ServiceChain.Proofs.Except

/-!
# The bounds of a range

The bounds of a range are read twice: when a classifier is checked, which looks at them as they are, and
when it is compiled, which drops zeros and makes a range of what is left.  Both fail for the same bounds,
those that are inverted (`InvertedRange.IsOf`), and name the same range
(`FlowClassifier.checkBounds_eq_error`, `FlowClassifier.boundMasks_eq_error`).
-/

namespace ServiceChain

/-- Two bounds are given, the upper one is not zero, and it is below the lower one. -/
structure InvertedRange.IsOf (range : InvertedRange) (min max : Option UInt16) : Prop where
  min : min = some range.min
  max : max = some range.max
  max_ne_zero : range.max ≠ 0
  max_lt : range.max < range.min

namespace PortRange

variable {lo hi : UInt16} {min max : Option UInt16} {range : InvertedRange}

theorem of_eq_error : of lo hi = .error range ↔ hi < lo ∧ ⟨lo, hi⟩ = range := by
  unfold of
  split
  · rename_i hle
    simp [UInt16.not_lt.2 hle]
  · rename_i hle
    simp [UInt16.not_le.1 hle]

/-- A bound that is left is not zero. -/
theorem ne_zero_of_filter {bound : Option UInt16} {n : UInt16} (h : bound.filter (· != 0) = some n) :
    bound = some n ∧ n ≠ 0 := by
  obtain ⟨hbound, hn⟩ := Option.filter_eq_some_iff.1 h
  exact ⟨hbound, by simpa using hn⟩

/-- Bounds give no range only if they are inverted; a lone bound is completed to a range. -/
theorem ofBounds_eq_error : ofBounds min max = .error range ↔ range.IsOf min max := by
  constructor
  · intro h
    unfold ofBounds at h
    split at h
    · cases h
    · rename_i hi hmin hmax
      obtain ⟨hlt, -⟩ := of_eq_error.1 (Except.map_eq_error.1 h)
      have hpos : hi.toNat ≠ 0 := fun h0 => (ne_zero_of_filter hmax).2 (UInt16.toNat_inj.1 h0)
      have hlt : hi.toNat < 1 := UInt16.lt_iff_toNat_lt.1 hlt
      omega
    · rename_i lo hmin hmax
      obtain ⟨hlt, -⟩ := of_eq_error.1 (Except.map_eq_error.1 h)
      have hlt : 65535 < lo.toNat := UInt16.lt_iff_toNat_lt.1 hlt
      have := lo.toNat_lt
      omega
    · rename_i lo hi hmin hmax
      obtain ⟨hlt, rfl⟩ := of_eq_error.1 (Except.map_eq_error.1 h)
      obtain ⟨hmin, -⟩ := ne_zero_of_filter hmin
      obtain ⟨hmax, hne⟩ := ne_zero_of_filter hmax
      exact ⟨hmin, hmax, hne, hlt⟩
  · rintro ⟨rfl, rfl, hne, hlt⟩
    -- the lower bound is above the upper one, so it is not zero either
    have hmin : range.min ≠ 0 := by
      rintro h0
      rw [h0, UInt16.lt_iff_toNat_lt] at hlt
      exact absurd hlt (Nat.not_lt_zero _)
    simp only [ofBounds, Option.filter_some, bne_iff_ne, ne_eq, hmin, hne, not_false_eq_true, if_true]
    exact Except.map_eq_error.2 (of_eq_error.2 ⟨hlt, rfl⟩)

end PortRange

namespace FlowClassifier

variable {min max : Option UInt16} {e : ClassifierError}

theorem checkBounds_eq_error :
    checkBounds min max = .error e ↔ ∃ range : InvertedRange, range.IsOf min max ∧
      .invertedRange range = e := by
  constructor
  · intro h
    unfold checkBounds at h
    split at h
    · rename_i lo hi
      split at h
      · rename_i hinverted
        exact ⟨⟨lo, hi⟩, ⟨rfl, rfl, hinverted.1, hinverted.2⟩, Except.error.inj h⟩
      · cases h
    · cases h
  · rintro ⟨range, ⟨rfl, rfl, hne, hlt⟩, rfl⟩
    exact if_pos ⟨hne, hlt⟩

theorem boundMasks_eq_error :
    boundMasks min max = .error e ↔ ∃ range : InvertedRange, range.IsOf min max ∧
      .invertedRange range = e := by
  simp only [boundMasks, portMasks, Except.mapError_eq_error, Except.map_eq_error,
    PortRange.ofBounds_eq_error]

theorem boundMasks_eq_error_iff : boundMasks min max = .error e ↔ checkBounds min max = .error e := by
  rw [boundMasks_eq_error, checkBounds_eq_error]

theorem exists_boundMasks_iff :
    (∃ masks, boundMasks min max = .ok masks) ↔ ∃ done, checkBounds min max = .ok done := by
  simp only [Except.exists_eq_ok_iff, ne_eq, boundMasks_eq_error_iff]

end FlowClassifier

end ServiceChain
