import Mathlib.Data.List.Basic
import ServiceChain.Proofs.Text.Numerals
import ServiceChain.Text.Cut

/-!
# Where texts end

A text ends where the rest starts with a separator (`Closes`) that the text itself does not hold
(`append_inj_of_closes`).  Values are delimited if each can be told from its text and a rest that closes
it (`Delimited`): so are values with different texts that hold no separator (`Delimited.of_injective`), but
also others.  Lists of delimited values that are joined by the separator have different texts
(`Delimited.intercalate_injective`).

Pieces that each end with a separator can be told from their text up to a mark that none of them starts
with (`flatMap_append_inj`).
-/

namespace ServiceChain.Text

variable {α : Type} {seps seps' : List Char} {sep : Char} {write : α → List Char}
  {cs ds rest rest' : List Char}

/-- The rest of a text is empty or starts with a separator. -/
def Closes (seps rest : List Char) : Prop := ∀ c ∈ rest.head?, c ∈ seps

/-- From the text of a value and a rest that closes it, the value and the rest can be told. -/
def Delimited (seps : List Char) (write : α → List Char) : Prop :=
  ∀ ⦃a b rest rest'⦄, Closes seps rest → Closes seps rest' →
    write a ++ rest = write b ++ rest' → a = b ∧ rest = rest'

/-! ## Closing -/

theorem closes_nil (seps : List Char) : Closes seps [] := by simp [Closes]

theorem closes_cons (h : sep ∈ seps) (rest : List Char) : Closes seps (sep :: rest) := by
  simpa [Closes] using h

theorem Closes.mono (h : Closes seps rest) (hseps : seps ⊆ seps') : Closes seps' rest :=
  fun c hc => hseps (h c hc)

theorem takeWhile_append_of_closes (hcs : ∀ c ∈ cs, c ∉ seps) (hrest : Closes seps rest) :
    (cs ++ rest).takeWhile (· ∉ seps) = cs := by
  rw [List.takeWhile_append_of_pos (by simpa using hcs)]
  cases rest with
  | nil => simp
  | cons c rest =>
    have hc : c ∈ seps := hrest c rfl
    simp [hc]

theorem append_inj_of_closes (hcs : ∀ c ∈ cs, c ∉ seps) (hds : ∀ d ∈ ds, d ∉ seps)
    (hrest : Closes seps rest) (hrest' : Closes seps rest') (h : cs ++ rest = ds ++ rest') :
    cs = ds ∧ rest = rest' := by
  have hfront : cs = ds := by
    rw [← takeWhile_append_of_closes hcs hrest, h, takeWhile_append_of_closes hds hrest']
  rw [hfront] at h
  exact ⟨hfront, List.append_cancel_left h⟩

/-! ## Delimited values -/

theorem Delimited.of_injective (hinj : Function.Injective write)
    (hseps : ∀ a, ∀ c ∈ write a, c ∉ seps) : Delimited seps write := by
  intro a b rest rest' hrest hrest' h
  obtain ⟨htext, hfollows⟩ := append_inj_of_closes (hseps a) (hseps b) hrest hrest' h
  exact ⟨hinj htext, hfollows⟩

section Joined

/-- Values joined by a separator, after another one. -/
theorem intercalate_cons {α : Type} {sep : α} (cs : List α) (pieces : List (List α)) :
    [sep].intercalate (cs :: pieces) = cs ++ pieces.flatMap (sep :: ·) := by
  induction pieces generalizing cs with
  | nil => simp
  | cons next pieces ih => simp [List.intercalate_cons_cons, ih]

theorem intercalate_append_sep {pieces : List (List Char)} (h : pieces ≠ []) :
    [sep].intercalate pieces ++ [sep] = pieces.flatMap (· ++ [sep]) := by
  induction pieces with
  | nil => exact absurd rfl h
  | cons piece pieces ih =>
    cases pieces with
    | nil => simp
    | cons next pieces =>
      rw [List.intercalate_cons_cons, List.append_assoc, ih (by simp)]
      simp

theorem closes_flatMap (pieces : List (List Char)) : Closes [sep] (pieces.flatMap (sep :: ·)) := by
  cases pieces with
  | nil => exact closes_nil _
  | cons piece pieces => exact closes_cons List.mem_cons_self _

theorem Delimited.flatMap_injective (h : Delimited [sep] write) :
    Function.Injective fun as : List α => (as.map write).flatMap (sep :: ·) := by
  intro as bs heq
  induction as generalizing bs with
  | nil =>
    cases bs with
    | nil => rfl
    | cons b bs => simp at heq
  | cons a as ih =>
    cases bs with
    | nil => simp at heq
    | cons b bs =>
      simp only [List.map_cons, List.flatMap_cons, List.cons_append, List.cons.injEq,
        true_and] at heq
      obtain ⟨rfl, hrest⟩ := h (closes_flatMap _) (closes_flatMap _) heq
      rw [ih hrest]

/-- No text may be empty, as one value with an empty text would look like no value. -/
theorem Delimited.intercalate_injective (h : Delimited [sep] write) (hne : ∀ a, write a ≠ []) :
    Function.Injective fun as : List α => [sep].intercalate (as.map write) := by
  intro as bs heq
  cases as with
  | nil =>
    cases bs with
    | nil => rfl
    | cons b bs => simp [intercalate_cons, eq_comm, hne] at heq
  | cons a as =>
    cases bs with
    | nil => simp [intercalate_cons, hne] at heq
    | cons b bs =>
      simp only [List.map_cons, intercalate_cons] at heq
      obtain ⟨rfl, hrest⟩ := h (closes_flatMap _) (closes_flatMap _) heq
      rw [h.flatMap_injective hrest]

end Joined

/-! ## Pieces before a mark -/

section Marked

variable {mark : List Char} {pieces pieces' : List (List Char)}

theorem mark_append_ne (hmark : sep ∉ mark) (hcs : ¬ mark <+: cs) :
    mark ++ rest ≠ cs ++ sep :: rest' := by
  intro h
  rcases List.append_eq_append_iff.1 h with ⟨ds, rfl, -⟩ | ⟨ds, rfl, hrest⟩
  · exact hcs (List.prefix_append mark ds)
  · cases ds with
    | nil => exact hcs (by simp)
    | cons d ds =>
      obtain ⟨rfl, -⟩ := List.cons.inj hrest
      simp at hmark

theorem flatMap_cons_append (piece : List Char) (pieces : List (List Char)) (rest : List Char) :
    (piece :: pieces).flatMap (· ++ [sep]) ++ rest =
      piece ++ sep :: (pieces.flatMap (· ++ [sep]) ++ rest) := by
  simp

theorem flatMap_append_inj (hmark : sep ∉ mark)
    (hpieces : ∀ piece ∈ pieces, sep ∉ piece ∧ ¬ mark <+: piece)
    (hpieces' : ∀ piece ∈ pieces', sep ∉ piece ∧ ¬ mark <+: piece)
    (h : pieces.flatMap (· ++ [sep]) ++ (mark ++ rest) =
      pieces'.flatMap (· ++ [sep]) ++ (mark ++ rest')) :
    pieces = pieces' ∧ rest = rest' := by
  induction pieces generalizing pieces' with
  | nil =>
    cases pieces' with
    | nil => exact ⟨rfl, by simpa using h⟩
    | cons piece' pieces' =>
      rw [flatMap_cons_append, List.flatMap_nil, List.nil_append] at h
      exact absurd h (mark_append_ne hmark (hpieces' piece' List.mem_cons_self).2)
  | cons piece pieces ih =>
    cases pieces' with
    | nil =>
      rw [flatMap_cons_append, List.flatMap_nil, List.nil_append] at h
      exact absurd h.symm (mark_append_ne hmark (hpieces piece List.mem_cons_self).2)
    | cons piece' pieces' =>
      simp only [List.mem_cons, forall_eq_or_imp] at hpieces hpieces'
      rw [flatMap_cons_append, flatMap_cons_append] at h
      -- neither piece holds the separator, so both end at the first one
      have hcut := congrArg (cut? sep) h
      rw [cut?_append_cons hpieces.1.1, cut?_append_cons hpieces'.1.1] at hcut
      obtain ⟨rfl, hothers⟩ := Prod.mk.inj (Option.some.inj hcut)
      obtain ⟨rfl, hrest⟩ := ih hpieces.2 hpieces'.2 hothers
      exact ⟨rfl, hrest⟩

end Marked

end ServiceChain.Text
