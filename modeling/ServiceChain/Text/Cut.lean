/-!
# Cutting a text at a separator
-/

namespace ServiceChain.Text

/-- The parts before and after the first occurrence of a separator. -/
def cut? (sep : Char) : List Char → Option (List Char × List Char)
  | [] => none
  | c :: cs => if c = sep then some ([], cs) else (cut? sep cs).map fun (l, r) => (c :: l, r)

theorem eq_append_of_cut? {sep : Char} {s l r : List Char} (h : cut? sep s = some (l, r)) :
    s = l ++ sep :: r ∧ sep ∉ l := by
  induction s generalizing l with
  | nil => simp [cut?] at h
  | cons c cs ih =>
    simp only [cut?] at h
    split at h
    · obtain ⟨rfl, rfl⟩ := by simpa using h
      simp_all
    · obtain ⟨⟨l', r'⟩, h', heq⟩ := Option.map_eq_some_iff.1 h
      obtain ⟨rfl, rfl⟩ := by simpa using heq
      obtain ⟨rfl, hl⟩ := ih h'
      simp_all [eq_comm]

theorem cut?_append_cons {sep : Char} {l r : List Char} (h : sep ∉ l) :
    cut? sep (l ++ sep :: r) = some (l, r) := by
  induction l with
  | nil => simp [cut?]
  | cons c cs ih =>
    simp only [List.mem_cons, not_or] at h
    simp [cut?, Ne.symm h.1, ih h.2]

theorem cut?_eq_none_iff {sep : Char} {s : List Char} : cut? sep s = none ↔ sep ∉ s := by
  induction s with
  | nil => simp [cut?]
  | cons c cs ih =>
    by_cases h : c = sep
    · simp [cut?, h]
    · rw [cut?, if_neg h, Option.map_eq_none_iff, ih]
      simp [Ne.symm h]

end ServiceChain.Text
