import Mathlib.Data.List.Forall2
import Mathlib.Data.Nat.Digits.Defs
import Mathlib.Tactic.Ring
import ServiceChain.Proofs.Text.Numerals

/-!
# What numerals denote

A nonempty string of digits denotes the number with these digits (`Denotes`).  The reader takes just such
strings, and such strings after a plus sign, below its bound (`numeral?_eq_some_iff`); one that has no plus
sign is a string of digits (`denotes_iff`).
-/

namespace ServiceChain.Text

variable {base bound n d acc : Nat} {c sep : Char} {cs : List Char}

/-- The character is a digit of the base, in either case, of a value. -/
def IsDigit (base : Nat) (c : Char) (d : Nat) : Prop :=
  d < base ∧ (c = Nat.digitChar d ∨ c = (Nat.digitChar d).toUpper)

/-- A nonempty string of digits denotes a number, its most significant digit first. -/
def Denotes (base : Nat) (cs : List Char) (n : Nat) : Prop :=
  cs ≠ [] ∧ ∃ ds, List.Forall₂ (IsDigit base) cs ds ∧ Nat.ofDigits base ds.reverse = n

/-- A nonempty string of digits, or one after a plus sign, denotes a number. -/
def DenotesSigned (base : Nat) (cs : List Char) (n : Nat) : Prop :=
  Denotes base cs n ∨ ∃ ds, cs = '+' :: ds ∧ Denotes base ds n

/-! ## Digits -/

theorem toNat_digitChar_letter :
    ∀ d < 16, 10 ≤ d → (Nat.digitChar d).toNat = d - 10 + 'a'.toNat ∧
      (Nat.digitChar d).toUpper.toNat = d - 10 + 'A'.toNat := by
  decide

theorem isDigit_of_digit? (hbase : base ≤ 16) (h : digit? base c = some d) : IsDigit base c d := by
  simp only [digit?, Option.ite_none_right_eq_some, Option.some.injEq] at h
  obtain ⟨hlt, rfl⟩ := h
  refine ⟨hlt, ?_⟩
  split_ifs at hlt ⊢ with hnumber hlower hupper
  · have hlow : '0'.toNat ≤ c.toNat := hnumber.1
    have hhigh : c.toNat ≤ '0'.toNat + 9 := hnumber.2
    left
    rw [← Char.toNat_inj, Nat.toNat_digitChar_of_lt_ten (by omega)]
    exact (Nat.add_sub_of_le hlow).symm
  · have hlow : 'a'.toNat ≤ c.toNat := hlower.1
    left
    rw [← Char.toNat_inj, (toNat_digitChar_letter _ (by omega) (by omega)).1]
    omega
  · have hlow : 'A'.toNat ≤ c.toNat := hupper.1
    right
    rw [← Char.toNat_inj, (toNat_digitChar_letter _ (by omega) (by omega)).2]
    omega
  · exact absurd hlt (Nat.lt_irrefl base)

theorem digit?_eq_some_iff (hbase : base ≤ 16) : digit? base c = some d ↔ IsDigit base c d := by
  refine ⟨isDigit_of_digit? hbase, ?_⟩
  rintro ⟨hd, rfl | rfl⟩
  · exact digit?_digitChar hbase hd
  · have hlt : d < 16 := by omega
    interval_cases d <;> exact if_pos hd

/-- What was read before a string of digits is worth a power of the base for each of them. -/
theorem digitsFrom?_eq_some_iff (hbase : base ≤ 16) :
    digitsFrom? base acc cs = some n ↔ ∃ ds, List.Forall₂ (IsDigit base) cs ds ∧
      acc * base ^ cs.length + Nat.ofDigits base ds.reverse = n := by
  induction cs generalizing acc with
  | nil => simp [digitsFrom?]
  | cons c cs ih =>
    simp only [digitsFrom?, Option.bind_eq_some_iff, digit?_eq_some_iff hbase, ih]
    constructor
    · rintro ⟨d, hd, ds, hds, rfl⟩
      refine ⟨d :: ds, .cons hd hds, ?_⟩
      rw [Nat.ofDigits_reverse_cons, ← hds.length_eq, List.length_cons]
      ring
    · rintro ⟨_, hds, rfl⟩
      cases hds with
      | cons hd hds =>
        refine ⟨_, hd, _, hds, ?_⟩
        rw [Nat.ofDigits_reverse_cons, ← hds.length_eq, List.length_cons]
        ring

theorem digits?_eq_some_iff (hbase : base ≤ 16) : digits? base cs = some n ↔ Denotes base cs n := by
  rw [digits?, Denotes]
  cases cs with
  | nil => simp
  | cons c cs =>
    rw [if_neg (by simp), digitsFrom?_eq_some_iff hbase]
    simp

/-! ## Signs -/

/-- A character that is read as no digit is not in a string of digits. -/
theorem Denotes.not_mem (hbase : base ≤ 16) (h : Denotes base cs n) (hc : digit? base c = none) :
    c ∉ cs := by
  obtain ⟨-, ds, hds, -⟩ := h
  have hread : List.Forall₂ (fun c d => digit? base c ≠ none ∧ IsDigit base c d) cs ds :=
    hds.imp fun c d hd => ⟨by simp [(digit?_eq_some_iff hbase).2 hd], hd⟩
  obtain ⟨hdigits, -⟩ := (List.forall₂_and_left _ _).1 hread
  exact fun hmem => hdigits c hmem hc

theorem plus_not_mem_of_denotes (hbase : base ≤ 16) (h : Denotes base cs n) : '+' ∉ cs :=
  h.not_mem hbase (if_neg (Nat.lt_irrefl base))

theorem DenotesSigned.not_mem (hbase : base ≤ 16) (h : DenotesSigned base cs n)
    (hc : digit? base c = none) (hplus : c ≠ '+') : c ∉ cs := by
  rcases h with h | ⟨ds, rfl, h⟩
  · exact h.not_mem hbase hc
  · simpa [hplus] using h.not_mem hbase hc

theorem denotes_iff (hbase : base ≤ 16) :
    Denotes base cs n ↔ DenotesSigned base cs n ∧ '+' ∉ cs := by
  constructor
  · exact fun h => ⟨.inl h, plus_not_mem_of_denotes hbase h⟩
  · rintro ⟨h | ⟨ds, rfl, -⟩, hplus⟩
    · exact h
    · exact absurd List.mem_cons_self hplus

theorem numeral?_eq_some_iff (hbase : base ≤ 16) :
    numeral? base bound cs = some n ↔ DenotesSigned base cs n ∧ n < bound := by
  rw [numeral?, Option.filter_eq_some_iff, digits?_eq_some_iff hbase, decide_eq_true_iff]
  refine and_congr_left fun _ => ?_
  -- one sign is dropped, and what is left may have no other
  unfold dropPlus
  split
  · next ds =>
    constructor
    · exact fun h => .inr ⟨ds, rfl, h⟩
    · rintro (h | ⟨ds', heq, h⟩)
      · exact absurd List.mem_cons_self (plus_not_mem_of_denotes hbase h)
      · rwa [(List.cons.inj heq).2]
  · next hplus =>
    constructor
    · exact .inl
    · rintro (h | ⟨ds, rfl, -⟩)
      · exact h
      · exact absurd rfl (hplus ds)

/-! ## Groups -/

/-- A list is read if each of its elements is. -/
theorem mapM_eq_some_iff {α β : Type} {read : α → Option β} {as : List α} {bs : List β} :
    as.mapM read = some bs ↔ List.Forall₂ (fun a b => read a = some b) as bs := by
  induction as generalizing bs with
  | nil => simp [eq_comm]
  | cons a as ih =>
    simp only [List.mapM_cons, Option.bind_eq_bind, Option.bind_eq_some_iff, Option.pure_def,
      Option.some.injEq, List.forall₂_cons_left_iff, ih]
    constructor
    · rintro ⟨b, hb, bs', hbs, rfl⟩
      exact ⟨b, bs', hb, hbs, rfl⟩
    · rintro ⟨b, bs', hb, hbs, rfl⟩
      exact ⟨b, hb, bs', hbs, rfl⟩

theorem mem_intercalate_iff {groups : List (List Char)} (hc : c ≠ sep) :
    c ∈ [sep].intercalate groups ↔ ∃ group ∈ groups, c ∈ group := by
  induction groups with
  | nil => simp
  | cons group groups ih =>
    cases groups with
    | nil => simp
    | cons next groups =>
      rw [List.intercalate_cons_cons, List.mem_append, List.mem_append, ih, List.mem_singleton,
        or_iff_left hc]
      simp

theorem sep_mem_intercalate {groups : List (List Char)} (h : 2 ≤ groups.length) :
    sep ∈ [sep].intercalate groups := by
  match groups, h with
  | first :: next :: groups, _ => simp [List.intercalate_cons_cons]

end ServiceChain.Text
