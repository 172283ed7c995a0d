import ServiceChain.Address.Error

/-!
# Segments

A chain's traffic is tagged with a VLAN id from 1 to 4094.  Where a new one is needed, the largest
that is not in use is taken.
-/

namespace ServiceChain

/-- A VLAN id that may tag a chain's traffic. -/
structure SegmentId where
  vid : UInt16
  one_le : 1 ≤ vid.toNat
  le_max : vid.toNat ≤ 4094
  deriving DecidableEq, Repr

namespace SegmentId

/-- The largest segment id. -/
def largest : Nat := 4094

/-- The segment of a number, `none` outside the range. -/
def ofNat? (id : Nat) : Option SegmentId :=
  if h : 1 ≤ id ∧ id ≤ 4094 then
    some
      { vid := UInt16.ofNat id
        one_le := by rw [UInt16.toNat_ofNat_of_lt' (by simp [UInt16.size]; omega)]; exact h.1
        le_max := by rw [UInt16.toNat_ofNat_of_lt' (by simp [UInt16.size]; omega)]; exact h.2 }
  else none

/-- The segment of a number; the error repeats the number. -/
def of (id : Nat) : Except AddressError SegmentId :=
  match ofNat? id with
  | some segment => .ok segment
  | none => .error (.segment id)

/-- The segment as a number. -/
def toNat (segment : SegmentId) : Nat := segment.vid.toNat

/-- The written form of a segment. -/
def text (segment : SegmentId) : String := toString segment.toNat

theorem toNat_of_ofNat? {id : Nat} {segment : SegmentId} (h : ofNat? id = some segment) :
    segment.toNat = id := by
  simp only [ofNat?] at h
  split at h
  · obtain rfl := by simpa using h
    exact UInt16.toNat_ofNat_of_lt' (by simp [UInt16.size]; omega)
  · simp at h

theorem ofNat?_isSome_iff {id : Nat} : (ofNat? id).isSome ↔ 1 ≤ id ∧ id ≤ largest := by
  simp only [ofNat?, largest]
  split <;> simp_all

theorem ofNat?_toNat (segment : SegmentId) : ofNat? segment.toNat = some segment := by
  rw [ofNat?, dif_pos ⟨segment.one_le, segment.le_max⟩]
  simp [toNat]

/-! ## Free segments -/

/-- A flag for each number up to the largest segment: it occurs in the list. -/
def flags (used : List Nat) : Array Bool :=
  used.foldl (fun flags n => flags.setIfInBounds n true) (Array.replicate (largest + 1) false)

/-- The largest segment up to a number whose flag is not set. -/
def highestUnset (flags : Array Bool) : Nat → Option SegmentId
  | 0 => none
  | n + 1 => if flags[n + 1]? = some true then highestUnset flags n else ofNat? (n + 1)

/-- The largest segment that is not among the given numbers. -/
def highestOutside (used : List Nat) : Option SegmentId := highestUnset (flags used) largest

theorem foldl_setIfInBounds_getElem? (used : List Nat) (flags : Array Bool) (n : Nat) :
    (used.foldl (fun flags m => flags.setIfInBounds m true) flags)[n]? = some true ↔
      n < flags.size ∧ n ∈ used ∨ flags[n]? = some true := by
  induction used generalizing flags with
  | nil => simp
  | cons m used ih =>
    rw [List.foldl_cons, ih, Array.size_setIfInBounds, Array.getElem?_setIfInBounds]
    by_cases h : m = n
    · subst h
      by_cases hm : m < flags.size <;> simp [hm]
    · simp [h, Ne.symm h]

theorem flags_getElem?_eq_true {used : List Nat} {n : Nat} :
    (flags used)[n]? = some true ↔ n ≤ largest ∧ n ∈ used := by
  rw [flags, foldl_setIfInBounds_getElem?, Array.size_replicate, Array.getElem?_replicate,
    ← Nat.lt_add_one_iff]
  simp

theorem highestUnset_eq_some {flags : Array Bool} {n : Nat} {segment : SegmentId}
    (h : highestUnset flags n = some segment) :
    segment.toNat ≤ n ∧ flags[segment.toNat]? ≠ some true ∧
      ∀ m, segment.toNat < m → m ≤ n → flags[m]? = some true := by
  induction n with
  | zero => simp [highestUnset] at h
  | succ n ih =>
    rw [highestUnset] at h
    split at h
    · rename_i hset
      obtain ⟨hle, hunset, hall⟩ := ih h
      refine ⟨by omega, hunset, fun m hm hmn => ?_⟩
      by_cases hm' : m = n + 1
      · rwa [hm']
      · exact hall m hm (by omega)
    · rename_i hunset
      rw [toNat_of_ofNat? h]
      exact ⟨Nat.le_refl _, hunset, fun m hm hmn => by omega⟩

theorem highestUnset_eq_none {flags : Array Bool} {n : Nat} (hn : n ≤ largest)
    (h : highestUnset flags n = none) (m : Nat) (hm : 1 ≤ m) (hmn : m ≤ n) :
    flags[m]? = some true := by
  induction n with
  | zero => omega
  | succ n ih =>
    rw [highestUnset] at h
    split at h
    · rename_i hset
      by_cases hm' : m = n + 1
      · rwa [hm']
      · exact ih (by omega) h (by omega)
    · have := ofNat?_isSome_iff.2 ⟨Nat.le_add_left 1 n, hn⟩
      simp [h] at this

/-- The segment found is not among the numbers, and every larger segment is. -/
theorem highestOutside_eq_some {used : List Nat} {segment : SegmentId}
    (h : highestOutside used = some segment) :
    segment.toNat ∉ used ∧ ∀ m, segment.toNat < m → m ≤ largest → m ∈ used := by
  obtain ⟨hle, hunset, hall⟩ := highestUnset_eq_some h
  exact ⟨fun hmem => hunset (flags_getElem?_eq_true.2 ⟨hle, hmem⟩),
    fun m hm hmn => (flags_getElem?_eq_true.1 (hall m hm hmn)).2⟩

/-- No segment is found only if all are among the numbers. -/
theorem highestOutside_eq_none {used : List Nat} (h : highestOutside used = none) (m : Nat)
    (hm : 1 ≤ m) (hmn : m ≤ largest) : m ∈ used :=
  (flags_getElem?_eq_true.1 (highestUnset_eq_none (Nat.le_refl _) h m hm hmn)).2

end SegmentId

end ServiceChain
