import Mathlib.Tactic.IntervalCases
import ServiceChain.Text.Blank
import ServiceChain.Text.Numeral

/-!
# Numerals are read back

The digits of a number have its value (`digits?_toDigits`), filled with zeros or not
(`digits?_hexPadded`), so a number below the bound is read back from its numeral
(`numeral?_of_digits?`).  Numerals and separators make up texts (`WrittenWith`) that hold no other
characters, so they are neither cut at those nor trimmed (`WrittenWith.not_mem`,
`WrittenWith.trim_eq_self`).
-/

namespace ServiceChain.Text

variable {base n : Nat}

/-! ## Digits -/

theorem digit?_digitChar {d : Nat} (hbase : base ≤ 16) (hd : d < base) :
    digit? base (Nat.digitChar d) = some d := by
  have hlt : d < 16 := by omega
  interval_cases d <;> exact if_pos hd

theorem digitsFrom?_append (acc : Nat) (cs ds : List Char) :
    digitsFrom? base acc (cs ++ ds) =
      (digitsFrom? base acc cs).bind fun acc => digitsFrom? base acc ds := by
  induction cs generalizing acc with
  | nil => rfl
  | cons c cs ih =>
    simp only [List.cons_append, digitsFrom?, ih]
    cases digit? base c <;> rfl

theorem digitsFrom?_toDigits (hbase : 1 < base) (hle : base ≤ 16) (n : Nat) :
    digitsFrom? base 0 (Nat.toDigits base n) = some n := by
  induction n using Nat.strong_induction_on with
  | _ n ih =>
    by_cases hn : n < base
    · rw [Nat.toDigits_of_lt_base hn]
      simp [digitsFrom?, digit?_digitChar hle hn]
    · have hdiv : n / base < n := Nat.div_lt_self (by omega) hbase
      have hmod : n % base < base := Nat.mod_lt n (by omega)
      rw [Nat.toDigits_of_base_le hbase (by omega), digitsFrom?_append, ih _ hdiv]
      simp [digitsFrom?, digit?_digitChar hle hmod, Nat.div_add_mod']

theorem digits?_toDigits (hbase : 1 < base) (hle : base ≤ 16) (n : Nat) :
    digits? base (Nat.toDigits base n) = some n := by
  rw [digits?, if_neg (by simp [Nat.toDigits_ne_nil]), digitsFrom?_toDigits hbase hle]

/-- A number is written with digits of its base. -/
theorem exists_digit_of_mem (hbase : 1 < base) {c : Char} (hc : c ∈ Nat.toDigits base n) :
    ∃ d < base, c = Nat.digitChar d := by
  induction n using Nat.strong_induction_on with
  | _ n ih =>
    by_cases hn : n < base
    · rw [Nat.toDigits_of_lt_base hn] at hc
      exact ⟨n, hn, List.mem_singleton.1 hc⟩
    · rw [Nat.toDigits_of_base_le hbase (by omega), List.mem_append, List.mem_singleton] at hc
      rcases hc with hc | rfl
      · exact ih _ (Nat.div_lt_self (by omega) hbase) hc
      · exact ⟨n % base, Nat.mod_lt n (by omega), rfl⟩

theorem head?_toDigits (hbase : 1 < base) (hn : 0 < n) :
    (Nat.toDigits base n).head? ≠ some '0' := by
  induction n using Nat.strong_induction_on with
  | _ n ih =>
    by_cases hlt : n < base
    · rw [Nat.toDigits_of_lt_base hlt]
      simp only [List.head?_cons, ne_eq, Option.some.injEq, Nat.digitChar_eq_zero]
      omega
    · have hdiv : 0 < n / base := Nat.div_pos (by omega) (by omega)
      have hfront := ih _ (Nat.div_lt_self hn hbase) hdiv
      rw [Nat.toDigits_of_base_le hbase (by omega)]
      cases hdigits : Nat.toDigits base (n / base) with
      | nil => exact absurd hdigits Nat.toDigits_ne_nil
      | cons c cs =>
        rw [hdigits] at hfront
        exact hfront

theorem digits?_hexPadded (width n : Nat) : digits? 16 (hexPadded width n) = some n := by
  have hzeros : ∀ k, digitsFrom? 16 0 (List.replicate k '0') = some 0 := by
    intro k
    induction k with
    | zero => rfl
    | succ k ih => exact ih
  have hne : hexPadded width n ≠ [] := by
    simp [hexPadded, hex, Nat.toDigits_ne_nil]
  rw [digits?, if_neg (by simpa using hne), hexPadded, digitsFrom?_append, hzeros]
  exact digitsFrom?_toDigits (by decide) (by decide) n

/-! ## Characters -/

/-- The text is made up of digits and the given separators. -/
def WrittenWith (seps cs : List Char) : Prop :=
  ∀ c ∈ cs, c ∈ seps ∨ ∃ d < 16, c = Nat.digitChar d

section WrittenWith

variable {seps seps' cs ds : List Char} {c : Char}

theorem writtenWith_toDigits (hbase : 1 < base) (hle : base ≤ 16) (seps : List Char) (n : Nat) :
    WrittenWith seps (Nat.toDigits base n) := by
  intro c hc
  obtain ⟨d, hd, rfl⟩ := exists_digit_of_mem hbase hc
  exact .inr ⟨d, by omega, rfl⟩

theorem writtenWith_decimal (seps : List Char) (n : Nat) : WrittenWith seps (decimal n) :=
  writtenWith_toDigits (by decide) (by decide) seps n

theorem writtenWith_hex (seps : List Char) (n : Nat) : WrittenWith seps (hex n) :=
  writtenWith_toDigits (by decide) (by decide) seps n

theorem writtenWith_hexPadded (seps : List Char) (width n : Nat) :
    WrittenWith seps (hexPadded width n) := by
  intro c hc
  rcases List.mem_append.1 hc with hzero | hdigit
  · exact .inr ⟨0, by decide, List.eq_of_mem_replicate hzero⟩
  · exact writtenWith_hex seps n c hdigit

theorem WrittenWith.mono (h : WrittenWith seps cs) (hseps : seps ⊆ seps') : WrittenWith seps' cs :=
  fun c hc => (h c hc).imp_left fun hsep => hseps hsep

theorem WrittenWith.cons (h : WrittenWith seps cs) (hc : c ∈ seps) : WrittenWith seps (c :: cs) := by
  intro c' hc'
  rcases List.mem_cons.1 hc' with rfl | hc'
  · exact .inl hc
  · exact h c' hc'

theorem WrittenWith.zero_cons (h : WrittenWith seps cs) : WrittenWith seps ('0' :: cs) := by
  intro c hc
  rcases List.mem_cons.1 hc with rfl | hc
  · exact .inr ⟨0, by decide, rfl⟩
  · exact h c hc

theorem WrittenWith.append (h : WrittenWith seps cs) (h' : WrittenWith seps ds) :
    WrittenWith seps (cs ++ ds) := by
  intro c hc
  rcases List.mem_append.1 hc with hc | hc
  · exact h c hc
  · exact h' c hc

theorem WrittenWith.intercalate {groups : List (List Char)} (hc : c ∈ seps)
    (h : ∀ group ∈ groups, WrittenWith seps group) :
    WrittenWith seps ([c].intercalate groups) := by
  induction groups with
  | nil => simp [WrittenWith]
  | cons group groups ih =>
    simp only [List.mem_cons, forall_eq_or_imp] at h
    cases groups with
    | nil =>
      rw [List.intercalate_singleton]
      exact h.1
    | cons next groups =>
      rw [List.intercalate_cons_cons, List.append_assoc]
      exact h.1.append ((ih h.2).cons hc)

/-- A character that is no separator and no digit is not in the text. -/
theorem WrittenWith.not_mem (h : WrittenWith seps cs) (hc : c ∉ seps)
    (hdigit : ∀ d, Nat.digitChar d ≠ c) : c ∉ cs := by
  intro hmem
  rcases h c hmem with hsep | ⟨d, -, rfl⟩
  · exact hc hsep
  · exact hdigit d rfl

theorem isBlank_digitChar {d : Nat} (hd : d < 16) : isBlank (Nat.digitChar d) = false := by
  interval_cases d <;> decide

/-- Where no separator is a blank, there is nothing to trim. -/
theorem WrittenWith.trim_eq_self (h : WrittenWith seps cs) (hseps : seps.any isBlank = false) :
    trim cs = cs := by
  have hblank : ∀ c ∈ cs, isBlank c = false := by
    intro c hc
    rcases h c hc with hsep | ⟨d, hd, rfl⟩
    · simpa using List.any_eq_false.1 hseps c hsep
    · exact isBlank_digitChar hd
  have hdrop : ∀ ds : List Char, (∀ c ∈ ds, isBlank c = false) → ds.dropWhile isBlank = ds := by
    intro ds hds
    cases ds with
    | nil => rfl
    | cons c ds => rw [List.dropWhile_cons_of_neg (by simp [hds c List.mem_cons_self])]
  rw [trim, hdrop cs hblank, hdrop _ (by simpa using hblank), List.reverse_reverse]

end WrittenWith

/-! ## Numerals -/

theorem dropPlus_of_not_mem {cs : List Char} (h : '+' ∉ cs) : dropPlus cs = cs := by
  unfold dropPlus
  split
  · exact absurd List.mem_cons_self h
  · rfl

theorem numeral?_of_digits? {bound : Nat} {cs : List Char} (hcs : WrittenWith [] cs)
    (h : digits? base cs = some n) (hn : n < bound) : numeral? base bound cs = some n := by
  have hplus : '+' ∉ cs := hcs.not_mem (by simp) fun d => Nat.digitChar_ne '+' rfl
  rw [numeral?, dropPlus_of_not_mem hplus, h]
  simp [hn]

theorem numeral?_decimal {bound : Nat} (hn : n < bound) :
    numeral? 10 bound (decimal n) = some n :=
  numeral?_of_digits? (writtenWith_decimal [] n) (digits?_toDigits (by decide) (by decide) n) hn

/-- Where each value is read back, so is a list of them. -/
theorem mapM_map_eq_some {α β : Type} {write : α → β} {read : β → Option α}
    (h : ∀ a, read (write a) = some a) (as : List α) : (as.map write).mapM read = some as := by
  induction as with
  | nil => rfl
  | cons a as ih => simp [h, ih]

end ServiceChain.Text
