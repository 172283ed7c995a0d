import ServiceChain.Proofs.Text.Delimited
import ServiceChain.Proofs.Text.Numerals
import ServiceChain.Wire.Compact

/-!
# The compact form is lawful

The tokens of a value are found again in its text (`scans_tokens`): a mark and a text end by themselves,
and a word ends at the mark behind it.  The tokens make up the value on any stack of open brackets, unless
the bound is exceeded on top of those (`assembles_tokens`).  Each goes by induction on the value, from one
lemma for each kind of token or of value; together they read back what was written (`compact_lawful`).
-/

namespace ServiceChain

namespace CompactForm

open JsonText

variable {c : Char} {cs digits seen rest : List Char} {ts ts' : List Token} {j : Json}

/-! ## Words -/

theorem minus_not_mem_decimal (n : Nat) : '-' ∉ Text.decimal n := by
  intro h
  obtain ⟨d, hd, hc⟩ := Text.exists_digit_of_mem (by decide) h
  exact (by decide : ∀ d < 10, '-' ≠ Nat.digitChar d) d hd hc

theorem digits?_decimal (n : Nat) : Text.digits? 10 (Text.decimal n) = some n :=
  Text.digits?_toDigits (by decide) (by decide) n

theorem signed?_intChars (n : Int) : signed? (intChars n) = some n := by
  cases n with
  | ofNat n =>
    have hsign : ∀ ds, Text.decimal n ≠ '-' :: ds := fun ds h =>
      minus_not_mem_decimal n (h ▸ List.mem_cons_self)
    rw [intChars, signed?, digits?_decimal, Option.map_some]
    exact hsign
  | negSucc n =>
    rw [intChars, signed?, digits?_decimal]
    rfl

theorem int?_intChars (n : Int) : int? (intChars n) = some n := by
  rw [int?, signed?_intChars, Option.filter_some, if_pos (beq_self_eq_true _)]

theorem word?_intChars (n : Int) : word? (intChars n) = some (.int n) := by
  have hread := int?_intChars n
  have hne : ∀ cs, int? cs = none → intChars n ≠ cs := by
    rintro cs hcs rfl
    cases hcs.symm.trans hread
  rw [word?, if_neg (hne _ (by decide)), if_neg (hne _ (by decide)), if_neg (hne _ (by decide)), hread,
    Option.map_some]

/-- The character does not end a word. -/
def IsPlain (c : Char) : Prop := c ≠ quote ∧ Mark.ofChar? c = none ∧ isSpace c = false

instance : Decidable (IsPlain c) := inferInstanceAs (Decidable (_ ∧ _))

-- decided along the word, not by a search through all characters
instance : Decidable (∀ c ∈ cs, IsPlain c) := List.decidableBAll _ cs

theorem intChars_ne_nil (n : Int) : intChars n ≠ [] := by
  cases n with
  | ofNat n => exact Nat.toDigits_ne_nil
  | negSucc n => exact List.cons_ne_nil _ _

theorem isPlain_of_mem_decimal {n : Nat} (hc : c ∈ Text.decimal n) : IsPlain c := by
  obtain ⟨d, hd, rfl⟩ := Text.exists_digit_of_mem (by decide) hc
  exact (by decide : ∀ d < 10, IsPlain (Nat.digitChar d)) d hd

theorem isPlain_of_mem_intChars {n : Int} (hc : c ∈ intChars n) : IsPlain c := by
  cases n with
  | ofNat n => exact isPlain_of_mem_decimal hc
  | negSucc n =>
    rcases List.mem_cons.1 hc with rfl | hc
    · decide
    · exact isPlain_of_mem_decimal hc

/-! ## Characters of a text -/

theorem scan_cons {mode next : Mode} {ended : List Token} (h : mode.step? c = some (next, ended)) :
    scan mode (c :: cs) = (scan next cs).map (ended ++ ·) := by
  rw [scan, h, Option.bind_some]

theorem scan_silent {mode next : Mode} (h : mode.step? c = some (next, [])) :
    scan mode (c :: cs) = scan next cs := by
  rw [scan_cons h]
  simp

theorem charOf?_toNat (c : Char) : charOf? c.toNat = some c := by
  have hvalid : c.toNat.isValidChar := c.valid
  rw [charOf?, if_pos hvalid, Char.ofNat_toNat]

/-- Four digits are the code of a character. -/
theorem scan_code (hlength : digits.length = 4) (hcode : Text.digits? 16 digits = some c.toNat)
    (rest : List Char) : scan (.code seen []) (digits ++ rest) = scan (.text (c :: seen)) rest := by
  obtain ⟨d₁, d₂, d₃, d₄, rfl⟩ : ∃ d₁ d₂ d₃ d₄, digits = [d₁, d₂, d₃, d₄] := by
    match digits, hlength with
    | [d₁, d₂, d₃, d₄], _ => exact ⟨d₁, d₂, d₃, d₄, rfl⟩
  have hfirst : (Mode.code seen []).step? d₁ = some (.code seen [d₁], []) := rfl
  have hsecond : (Mode.code seen [d₁]).step? d₂ = some (.code seen [d₁, d₂], []) := rfl
  have hthird : (Mode.code seen [d₁, d₂]).step? d₃ = some (.code seen [d₁, d₂, d₃], []) := rfl
  have hlast : (Mode.code seen [d₁, d₂, d₃]).step? d₄ = some (.text (c :: seen), []) := by
    rw [Mode.step?, if_neg (by simp), List.cons_append, List.cons_append, List.cons_append,
      List.nil_append, hcode, Option.bind_some, charOf?_toNat, Option.map_some]
  exact (scan_silent hfirst).trans ((scan_silent hsecond).trans
    ((scan_silent hthird).trans (scan_silent hlast)))

theorem length_hexPadded_of_control : ∀ n < 32, (Text.hexPadded 4 n).length = 4 := by decide

theorem unescaped?_letter : ∀ p ∈ escapes, p.2 ≠ 'u' ∧ unescaped? p.2 = some p.1 := by decide

theorem scan_escaped (c : Char) (rest : List Char) :
    scan (.text seen) (escaped c ++ rest) = scan (.text (c :: seen)) rest := by
  have hback : (Mode.text seen).step? backslash = some (.escape seen, []) := rfl
  unfold escaped
  split
  · next letter hfound =>
    obtain ⟨hletter, hread⟩ := unescaped?_letter _ (List.mem_of_find?_eq_some hfound)
    have hc := List.find?_some hfound
    rw [beq_iff_eq] at hc
    have hstep : (Mode.escape seen).step? letter = some (.text (c :: seen), []) := by
      rw [Mode.step?, if_neg hletter, hread, hc, Option.map_some]
    exact (scan_silent hback).trans (scan_silent hstep)
  · next hfound =>
    have hnone : ∀ p ∈ escapes, p.1 ≠ c := by simpa using hfound
    split
    · next hcontrol =>
      have hcode : Text.digits? 16 (Text.hexPadded 4 c.toNat) = some c.toNat :=
        Text.digits?_hexPadded 4 c.toNat
      have hu : (Mode.escape seen).step? 'u' = some (.code seen [], []) := rfl
      exact (scan_silent hback).trans ((scan_silent hu).trans
        (scan_code (length_hexPadded_of_control _ hcontrol) hcode rest))
    · next hcontrol =>
      have hquote : c ≠ quote := (hnone (quote, quote) (by decide)).symm
      have hbackslash : c ≠ backslash := (hnone (backslash, backslash) (by decide)).symm
      refine scan_silent ?_
      rw [Mode.step?, if_neg hquote, if_neg hbackslash, if_neg hcontrol]

theorem scan_text (cs rest : List Char) :
    scan (.text seen) (cs.flatMap escaped ++ quote :: rest) =
      (scan .gap rest).map (.text (seen.reverse ++ cs) :: ·) := by
  induction cs generalizing seen with
  | nil =>
    have hend : (Mode.text seen).step? quote = some (.gap, [.text seen.reverse]) := rfl
    rw [List.flatMap_nil, List.nil_append, scan_cons hend, List.append_nil]
    rfl
  | cons c cs ih =>
    rw [List.flatMap_cons, List.append_assoc, scan_escaped, ih, List.reverse_cons, List.append_assoc,
      List.singleton_append]

/-! ## Tokens of a text -/

/-- A word may end before these characters. -/
def Ends (rest : List Char) : Prop := rest = [] ∨ ∃ m : Mark, ∃ cs, rest = m.char :: cs

/-- The tokens are found in their characters. -/
def Scans (ts : List Token) : Prop :=
  ∀ rest, Ends rest → scan .gap (ts.flatMap Token.chars ++ rest) = (scan .gap rest).map (ts ++ ·)

theorem step?_gap_mark (m : Mark) : Mode.gap.step? m.char = some (.gap, [.mark m]) := by
  cases m <;> rfl

theorem step?_word_mark (seen : List Char) (m : Mark) :
    (Mode.word seen).step? m.char = some (.gap, [.word seen.reverse, .mark m]) := by
  cases m <;> rfl

theorem scan_mark (m : Mark) (rest : List Char) :
    scan .gap (m.char :: rest) = (scan .gap rest).map (.mark m :: ·) :=
  scan_cons (step?_gap_mark m)

theorem scan_word (hplain : ∀ c ∈ cs, IsPlain c) (hrest : Ends rest) :
    scan (.word seen) (cs ++ rest) = (scan .gap rest).map (.word (seen.reverse ++ cs) :: ·) := by
  induction cs generalizing seen with
  | nil =>
    rw [List.nil_append, List.append_nil]
    rcases hrest with rfl | ⟨m, cs, rfl⟩
    · rfl
    · rw [scan_cons (step?_word_mark seen m), scan_mark, Option.map_map]
      rfl
  | cons c cs ih =>
    obtain ⟨⟨hquote, hmark, hspace⟩, hplain⟩ := List.forall_mem_cons.1 hplain
    have hstep : (Mode.word seen).step? c = some (.word (c :: seen), []) := by
      simp only [Mode.step?, if_neg hquote, hmark, hspace, Bool.false_eq_true, if_false]
    rw [List.cons_append, scan_silent hstep, ih hplain, List.reverse_cons, List.append_assoc,
      List.singleton_append]

theorem Scans.nil : Scans [] := fun rest _ => by simp

theorem scans_word (hne : cs ≠ []) (hplain : ∀ c ∈ cs, IsPlain c) : Scans [.word cs] := by
  intro rest hrest
  cases cs with
  | nil => exact absurd rfl hne
  | cons c cs =>
    obtain ⟨⟨hquote, hmark, hspace⟩, hplain⟩ := List.forall_mem_cons.1 hplain
    have hstep : Mode.gap.step? c = some (.word [c], []) := by
      simp only [Mode.step?, if_neg hquote, hmark, hspace, Bool.false_eq_true, if_false]
    rw [List.flatMap_singleton]
    exact (scan_silent hstep).trans (scan_word hplain hrest)

theorem Scans.mark_cons (m : Mark) (h : Scans ts) : Scans (.mark m :: ts) := by
  intro rest hrest
  have hmark : (Token.mark m :: ts).flatMap Token.chars ++ rest =
      m.char :: (ts.flatMap Token.chars ++ rest) := rfl
  rw [hmark, scan_mark, h rest hrest, Option.map_map]
  rfl

theorem Scans.text_cons (cs : List Char) (h : Scans ts) : Scans (.text cs :: ts) := by
  intro rest hrest
  have hopen : Mode.gap.step? quote = some (.text [], []) := rfl
  have htext : (Token.text cs :: ts).flatMap Token.chars ++ rest =
      quote :: (cs.flatMap escaped ++ quote :: (ts.flatMap Token.chars ++ rest)) := by
    simp [Token.chars]
  rw [htext, scan_silent hopen, scan_text, h rest hrest, Option.map_map]
  rfl

/-- Where a mark follows, words do not meet. -/
theorem Scans.append_mark (h : Scans ts) (m : Mark) (h' : Scans ts') : Scans (ts ++ .mark m :: ts') := by
  intro rest hrest
  have hsplit : (ts ++ .mark m :: ts').flatMap Token.chars ++ rest =
      ts.flatMap Token.chars ++ m.char :: (ts'.flatMap Token.chars ++ rest) := by
    simp [Token.chars]
  rw [hsplit, h _ (.inr ⟨m, _, rfl⟩), scan_mark, h' rest hrest, Option.map_map, Option.map_map]
  simp [Function.comp_def]

theorem Scans.intercalate (m : Mark) {pieces : List (List Token)} (h : ∀ ts ∈ pieces, Scans ts) :
    Scans ([.mark m].intercalate pieces) := by
  induction pieces with
  | nil => exact .nil
  | cons ts pieces ih =>
    obtain ⟨hts, hpieces⟩ := List.forall_mem_cons.1 h
    cases pieces with
    | nil => simpa using hts
    | cons next pieces =>
      rw [List.intercalate_cons_cons]
      simpa using hts.append_mark m (ih hpieces)

theorem itemTokens_eq (items : List Json) : itemTokens items = items.map tokens := by
  induction items with
  | nil => rfl
  | cons item items ih => rw [itemTokens, ih, List.map_cons]

theorem fieldTokens_eq (fields : List (String × Json)) :
    fieldTokens fields = fields.map tokensOfField := by
  induction fields with
  | nil => rfl
  | cons field fields ih => rw [fieldTokens, ih, List.map_cons]

/-- The tokens of a value are found in its text. -/
theorem scans_tokens (h : j.Whole) : Scans (tokens j) := by
  induction h with
  | null => exact scans_word (by decide) (by decide)
  | bool b => cases b <;> exact scans_word (by decide) (by decide)
  | int => exact scans_word (intChars_ne_nil _) fun c => isPlain_of_mem_intChars
  | str s => exact Scans.nil.text_cons s.toList
  | arr h ih =>
    rw [tokens, itemTokens_eq]
    refine .mark_cons _ (.append_mark (.intercalate _ fun ts hts => ?_) _ .nil)
    obtain ⟨item, hitem, rfl⟩ := List.mem_map.1 hts
    exact ih item hitem
  | obj h ih =>
    rw [tokens, fieldTokens_eq]
    refine .mark_cons _ (.append_mark (.intercalate _ fun ts hts => ?_) _ .nil)
    obtain ⟨⟨name, value⟩, hfield, rfl⟩ := List.mem_map.1 hts
    exact .text_cons _ (.mark_cons _ (ih _ hfield))

/-! ## Values of tokens -/

variable {limit : Option Nat} {stack : List Frame} {a b n : Nat}

/-- Nothing is nested too deep just if no part is. -/
theorem admits_add_iff {α : Type} {as : List α} {depth : α → Nat} (hn : admits limit n)
    (hb : ∀ k, b ≤ k ↔ ∀ a ∈ as, depth a ≤ k) :
    admits limit (n + b) ↔ ∀ a ∈ as, admits limit (n + depth a) := by
  cases limit with
  | none => simp [admits]
  | some bound =>
    have hle : n ≤ bound := admits_iff.1 hn bound rfl
    have hsub : ∀ d, n + d ≤ bound ↔ d ≤ bound - n := by omega
    simp [admits, hsub, hb]

/-- On any stack of open brackets, the tokens make up the value, unless it is nested too deep. -/
def Assembles (limit : Option Nat) (j : Json) : Prop :=
  ∀ (opened : Bool) (stack : List Frame), admits limit stack.length →
    (tokens j).foldlM (step? limit) (.value opened stack) =
      if admits limit (stack.length + j.depth) then some (give j stack) else none

section Joined

variable {α : Type} {as : List α} {piece : α → List Token} {fits : α → Bool} {start : State}
  {close : Token}

/-- What each piece behind a comma adds, all of them add. -/
theorem foldlM_pieces {state : List α → State}
    (h : ∀ a ∈ as, ∀ done, (.mark .comma :: piece a).foldlM (step? limit) (state done) =
      if fits a then some (state (a :: done)) else none) (done : List α) :
    (as.flatMap (.mark .comma :: piece ·)).foldlM (step? limit) (state done) =
      if ∀ a ∈ as, fits a then some (state (as.reverse ++ done)) else none := by
  induction as generalizing done with
  | nil => simp
  | cons a as ih =>
    obtain ⟨ha, has⟩ := List.forall_mem_cons.1 h
    rw [List.flatMap_cons, List.foldlM_append, ha]
    by_cases hfits : fits a
    · simp [hfits, ih has]
    · simp [hfits]

/-- The pieces of an array or object that was opened make it up. -/
theorem foldlM_joined (state result : List α → State)
    (hstart : ∀ a ∈ as, (piece a).foldlM (step? limit) start =
      if fits a then some (state [a]) else none)
    (hnext : ∀ a ∈ as, ∀ done, (.mark .comma :: piece a).foldlM (step? limit) (state done) =
      if fits a then some (state (a :: done)) else none)
    (hempty : step? limit start close = some (result []))
    (hclose : ∀ done, step? limit (state done) close = some (result done.reverse)) :
    ([.mark .comma].intercalate (as.map piece) ++ [close]).foldlM (step? limit) start =
      if ∀ a ∈ as, fits a then some (result as) else none := by
  cases as with
  | nil => simp [hempty]
  | cons a as =>
    have hrest := foldlM_pieces (List.forall_mem_cons.1 hnext).2 [a]
    rw [List.map_cons, Text.intercalate_cons, List.flatMap_map, List.append_assoc, List.foldlM_append,
      hstart a List.mem_cons_self]
    by_cases hfits : fits a
    · simp only [hfits, if_true, Option.bind_eq_bind, Option.bind_some, List.foldlM_append, hrest,
        List.forall_mem_cons, true_and]
      split
      · simp [hclose]
      · rfl
    · simp [hfits]

end Joined

/-! ### The kinds of values -/

theorem assembles_word {cs : List Char} (htokens : tokens j = [.word cs]) (hword : word? cs = some j)
    (hdepth : j.depth = 0) : Assembles limit j := by
  intro opened stack hstack
  rw [hdepth, Nat.add_zero, if_pos hstack, htokens, List.foldlM_cons, step?, hword]
  rfl

theorem assembles_str (s : String) : Assembles limit (.str s) := by
  intro opened stack hstack
  have hdepth : (Json.str s).depth = 0 := rfl
  rw [hdepth, Nat.add_zero, if_pos hstack, tokens, List.foldlM_cons, step?, String.ofList_toList]
  rfl

theorem assembles_arr {items : List Json} (h : ∀ item ∈ items, Assembles limit item) :
    Assembles limit (.arr items) := by
  intro opened stack hstack
  have hdepth : stack.length + (Json.arr items).depth = stack.length + 1 + Json.depthOfItems items := by
    rw [Json.depth]
    omega
  rw [hdepth, tokens, itemTokens_eq, List.foldlM_cons, step?]
  by_cases hopen : admits limit (stack.length + 1)
  · rw [if_pos hopen]
    simp only [admits_add_iff hopen fun _ => Json.depthOfItems_le]
    exact foldlM_joined (fun done => .items done stack) (fun items => give (.arr items) stack)
      (fun item hmem => h item hmem true (.item [] :: stack) hopen)
      (fun item hmem done => h item hmem false (.item done :: stack) hopen) rfl fun _ => rfl
  · rw [if_neg hopen, if_neg fun hfits => hopen (admits_of_le hfits (by omega))]
    rfl

theorem assembles_obj {fields : List (String × Json)} (h : ∀ field ∈ fields, Assembles limit field.2) :
    Assembles limit (.obj fields) := by
  intro opened stack hstack
  have hdepth : stack.length + (Json.obj fields).depth =
      stack.length + 1 + Json.depthOfFields fields := by
    rw [Json.depth]
    omega
  rw [hdepth, tokens, fieldTokens_eq, List.foldlM_cons, step?]
  by_cases hopen : admits limit (stack.length + 1)
  · rw [if_pos hopen]
    simp only [admits_add_iff hopen fun _ => Json.depthOfFields_le]
    have hfield : ∀ field ∈ fields, ∀ (opened : Bool) (done : List (String × Json)),
        (tokensOfField field).foldlM (step? limit) (.name opened done stack) =
          if admits limit (stack.length + 1 + field.2.depth) then
            some (.fields (field :: done) stack)
          else none := by
      rintro ⟨name, value⟩ hmem opened done
      have hname : (tokensOfField (name, value)).foldlM (step? limit) (.name opened done stack) =
          (tokens value).foldlM (step? limit) (.value false (.field done name :: stack)) := by
        rw [tokensOfField, List.foldlM_cons, step?, String.ofList_toList]
        rfl
      exact hname.trans (h _ hmem false (.field done name :: stack) hopen)
    exact foldlM_joined (fun done => .fields done stack) (fun fields => give (.obj fields) stack)
      (fun field hmem => hfield field hmem true []) (fun field hmem done => hfield field hmem false done)
      rfl fun _ => rfl
  · rw [if_neg hopen, if_neg fun hfits => hopen (admits_of_le hfits (by omega))]
    rfl

theorem assembles_tokens (limit : Option Nat) (h : j.Whole) : Assembles limit j := by
  induction h with
  | null => exact assembles_word rfl rfl rfl
  | bool b => cases b <;> exact assembles_word rfl rfl rfl
  | int => exact assembles_word rfl (word?_intChars _) rfl
  | str s => exact assembles_str s
  | arr _ ih => exact assembles_arr ih
  | obj _ ih => exact assembles_obj ih

end CompactForm

open CompactForm JsonText in
theorem read?_write_compact (limit : Option Nat) {j : Json} (h : j.Whole) :
    (compact limit).read? ((compact limit).write j) = if admits limit j.depth then some j else none := by
  have hscan := scans_tokens h [] (.inl rfl)
  have hempty : admits limit ([] : List Frame).length := admits_iff.2 fun _ _ => Nat.zero_le _
  have hvalue := assembles_tokens limit h false [] hempty
  simp only [List.append_nil, List.length_nil, Nat.zero_add] at hscan hvalue
  simp only [compact, String.toList_ofList, hscan, scan, Option.map_some, List.append_nil,
    Option.bind_eq_bind, Option.bind_some, hvalue]
  split <;> rfl

/-- What is written in the compact form is read back, under every bound on open brackets. -/
theorem compact_lawful (limit : Option Nat) : (compact limit).Lawful where
  read_write _ h hfits := (read?_write_compact limit h).trans (if_pos hfits)
  refuses _ h hfits := (read?_write_compact limit h).trans (if_neg hfits)

/-- Blanks between tokens are passed over. -/
example : (compact (some 1)).read? "[ -5,null ]" = some (.arr [.int (-5), .null]) := rfl

end ServiceChain
