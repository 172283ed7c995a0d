import Mathlib.Data.List.Forall2
import Mathlib.Data.List.Perm.Basic
import Mathlib.Data.List.ReduceOption

/-!
# Results that may be errors

When a bind, a map or a traversal of `Except` ends well, so did each of its parts, and the other way
around.
-/

namespace Except

variable {ε ε' α β : Type}

@[simp]
theorem pure_eq_ok {a b : α} : (pure a : Except ε α) = ok b ↔ a = b := by
  simp [pure, Except.pure]

theorem bind_eq_ok {x : Except ε α} {f : α → Except ε β} {b : β} :
    (x >>= f) = ok b ↔ ∃ a, x = ok a ∧ f a = ok b := by
  cases x <;> simp [bind, Except.bind]

theorem map_eq_ok {x : Except ε α} {f : α → β} {b : β} :
    x.map f = ok b ↔ ∃ a, x = ok a ∧ f a = b := by
  cases x <;> simp [Except.map]

theorem map_eq_error {x : Except ε α} {f : α → β} {e : ε} : x.map f = error e ↔ x = error e := by
  cases x <;> simp [Except.map]

theorem mapError_eq_ok {x : Except ε α} {f : ε → ε'} {a : α} :
    x.mapError f = ok a ↔ x = ok a := by
  cases x <;> simp [Except.mapError]

theorem bind_eq_error {x : Except ε α} {f : α → Except ε β} {e : ε} :
    (x >>= f) = error e ↔ x = error e ∨ ∃ a, x = ok a ∧ f a = error e := by
  cases x <;> simp [bind, Except.bind]

/-- Where what follows succeeds, a bind fails as its first part does. -/
theorem bind_eq_error_iff_left {x : Except ε α} {f : α → Except ε β} (hf : ∀ a, ∃ b, f a = ok b)
    {e : ε} : (x >>= f) = error e ↔ x = error e := by
  rw [bind_eq_error]
  refine or_iff_left ?_
  rintro ⟨a, -, he⟩
  obtain ⟨b, hb⟩ := hf a
  rw [hb] at he
  cases he

theorem mapError_eq_error {x : Except ε α} {f : ε → ε'} {e : ε'} :
    x.mapError f = error e ↔ ∃ e', x = error e' ∧ f e' = e := by
  cases x <;> simp [Except.mapError]

theorem exists_eq_ok_iff {x : Except ε α} : (∃ a, x = ok a) ↔ ∀ e, x ≠ error e := by
  cases x <;> simp

theorem exists_of_isOk {x : Except ε α} (h : x.isOk = true) : ∃ a, x = ok a := by
  cases x with
  | ok a => exact ⟨a, rfl⟩
  | error e => cases h

theorem toOption_eq_none {x : Except ε α} : x.toOption = none ↔ ∃ e, x = error e := by
  cases x <;> simp [Except.toOption]

/-- A traversal ends well when it does for each element. -/
theorem mapM_eq_ok {f : α → Except ε β} {as : List α} {bs : List β} :
    as.mapM f = ok bs ↔ List.Forall₂ (fun a b => f a = ok b) as bs := by
  induction as generalizing bs with
  | nil => rw [List.mapM_nil, pure_eq_ok, List.forall₂_nil_left_iff, eq_comm]
  | cons a as ih =>
    simp only [List.mapM_cons, bind_eq_ok, pure_eq_ok, List.forall₂_cons_left_iff, ih]
    constructor
    · rintro ⟨b, hb, bs', hbs, rfl⟩
      exact ⟨b, bs', hb, hbs, rfl⟩
    · rintro ⟨b, bs', hb, hbs, rfl⟩
      exact ⟨b, hb, bs', hbs, rfl⟩

theorem exists_mapM_eq_ok {f : α → Except ε β} {as : List α}
    (h : ∀ a ∈ as, ∃ b, f a = ok b) : ∃ bs, as.mapM f = ok bs := by
  induction as with
  | nil => exact ⟨[], rfl⟩
  | cons a as ih =>
    simp only [List.mem_cons, forall_eq_or_imp] at h
    obtain ⟨⟨b, hb⟩, hrest⟩ := h
    obtain ⟨bs, hbs⟩ := ih hrest
    exact ⟨b :: bs, by simp [hb, hbs, bind_eq_ok]⟩

/-- What a traversal gives for an element is among its results. -/
theorem exists_of_mem_of_mapM {f : α → Except ε β} {as : List α} {bs : List β}
    (h : as.mapM f = ok bs) {a : α} (ha : a ∈ as) : ∃ b ∈ bs, f a = ok b := by
  rw [mapM_eq_ok] at h
  induction h with
  | nil => cases ha
  | cons hab _ ih =>
    rcases List.mem_cons.1 ha with rfl | ha
    · exact ⟨_, List.mem_cons_self, hab⟩
    · obtain ⟨b, hb, hf⟩ := ih ha
      exact ⟨b, List.mem_cons_of_mem _ hb, hf⟩

/-- Every result of a traversal is what it gives for some element. -/
theorem exists_of_mem_mapM {f : α → Except ε β} {as : List α} {bs : List β}
    (h : as.mapM f = ok bs) {b : β} (hb : b ∈ bs) : ∃ a ∈ as, f a = ok b := by
  rw [mapM_eq_ok] at h
  induction h with
  | nil => cases hb
  | cons hab _ ih =>
    rcases List.mem_cons.1 hb with rfl | hb
    · exact ⟨_, List.mem_cons_self, hab⟩
    · obtain ⟨a, ha, hf⟩ := ih hb
      exact ⟨a, List.mem_cons_of_mem _ ha, hf⟩

theorem exists_mapM_iff {f : α → Except ε β} {as : List α} :
    (∃ bs, as.mapM f = ok bs) ↔ ∀ a ∈ as, ∃ b, f a = ok b := by
  refine ⟨?_, exists_mapM_eq_ok⟩
  rintro ⟨bs, hbs⟩ a ha
  obtain ⟨b, -, hb⟩ := exists_of_mem_of_mapM hbs ha
  exact ⟨b, hb⟩

/-- A traversal fails as it does for some element. -/
theorem exists_of_mapM_error {f : α → Except ε β} {as : List α} {e : ε}
    (h : as.mapM f = error e) : ∃ a ∈ as, f a = error e := by
  induction as with
  | nil => cases h
  | cons a as ih =>
    rw [List.mapM_cons] at h
    cases ha : f a with
    | error e' =>
      rw [ha] at h
      cases h
      exact ⟨a, List.mem_cons_self, ha⟩
    | ok b =>
      cases has : as.mapM f with
      | ok bs =>
        rw [ha, has] at h
        cases h
      | error e' =>
        rw [ha, has] at h
        cases h
        obtain ⟨a', ha', hf⟩ := ih has
        exact ⟨a', List.mem_cons_of_mem _ ha', hf⟩

/-- A traversal of the same elements in another order gives the same results in another order. -/
theorem exists_perm_of_mapM {f : α → Except ε β} {as others : List α} {bs : List β}
    (hperm : as.Perm others) (h : as.mapM f = ok bs) :
    ∃ results, others.mapM f = ok results ∧ bs.Perm results := by
  obtain ⟨results, hresults, hbs⟩ := List.perm_comp_forall₂ hperm.symm (mapM_eq_ok.1 h)
  exact ⟨results, mapM_eq_ok.2 hresults, hbs.symm⟩

theorem mapM_congr {f g : α → Except ε β} {as : List α} (h : ∀ a ∈ as, f a = g a) :
    as.mapM f = as.mapM g := by
  induction as with
  | nil => rfl
  | cons a as ih =>
    simp only [List.mem_cons, forall_eq_or_imp] at h
    rw [List.mapM_cons, List.mapM_cons, h.1, ih h.2]

/-- What a traversal gives is what it gives for some element. -/
theorem mem_of_mapM_iff {f : α → Except ε β} {as : List α} {bs : List β}
    (h : as.mapM f = ok bs) {b : β} : b ∈ bs ↔ ∃ a ∈ as, f a = ok b := by
  refine ⟨exists_of_mem_mapM h, ?_⟩
  rintro ⟨a, ha, hb⟩
  obtain ⟨b', hb', hf⟩ := exists_of_mem_of_mapM h ha
  obtain rfl := ok.inj (hb.symm.trans hf)
  exact hb'

theorem mem_mapM_flatten {f : α → Except ε (List β)} {as : List α} {bs : List β}
    (h : (as.mapM f).map List.flatten = ok bs) {b : β} :
    b ∈ bs ↔ ∃ a ∈ as, ∃ bs', f a = ok bs' ∧ b ∈ bs' := by
  obtain ⟨bss, hbss, rfl⟩ := map_eq_ok.1 h
  rw [List.mem_flatten]
  constructor
  · rintro ⟨bs', hbs', hb⟩
    obtain ⟨a, ha, hf⟩ := exists_of_mem_mapM hbss hbs'
    exact ⟨a, ha, bs', hf, hb⟩
  · rintro ⟨a, ha, bs', hf, hb⟩
    exact ⟨bs', (mem_of_mapM_iff hbss).2 ⟨a, ha, hf⟩, hb⟩

theorem mem_mapM_reduceOption {f : α → Except ε (Option β)} {as : List α} {bs : List β}
    (h : (as.mapM f).map List.reduceOption = ok bs) {b : β} :
    b ∈ bs ↔ ∃ a ∈ as, f a = ok (some b) := by
  obtain ⟨obs, hobs, rfl⟩ := map_eq_ok.1 h
  rw [List.reduceOption_mem_iff, mem_of_mapM_iff hobs]

/-! ## What is made of the results -/

variable {γ : Type} {g : β → List γ} {k : α → List γ}

/-- What is made of the results of a traversal is made of its elements one by one. -/
theorem flatMap_of_mapM_flatten {f : α → Except ε (List β)} {as : List α} {bs : List β}
    (h : (as.mapM f).map List.flatten = ok bs)
    (hk : ∀ a bs, f a = ok bs → bs.flatMap g = k a) : bs.flatMap g = as.flatMap k := by
  obtain ⟨bss, hbss, rfl⟩ := map_eq_ok.1 h
  rw [mapM_eq_ok] at hbss
  clear h
  induction hbss with
  | nil => rfl
  | cons hf _ ih => rw [List.flatten_cons, List.flatMap_append, List.flatMap_cons, hk _ _ hf, ih]

theorem flatMap_of_mapM_reduceOption {f : α → Except ε (Option β)} {as : List α} {bs : List β}
    (h : (as.mapM f).map List.reduceOption = ok bs)
    (hk : ∀ a b, f a = ok b → b.toList.flatMap g = k a) : bs.flatMap g = as.flatMap k := by
  obtain ⟨obs, hobs, rfl⟩ := map_eq_ok.1 h
  rw [mapM_eq_ok] at hobs
  clear h
  induction hobs with
  | nil => rfl
  | @cons a b as obs hf _ ih =>
    rw [List.flatMap_cons, ← hk a b hf, ← ih]
    cases b <;> simp

/-! ## Two traversals of a list -/

/-- Where two functions give related results for each element, so do their traversals in order. -/
theorem forall₂_of_mapM_reduceOption {δ : Type} {R : β → δ → Prop} {f : α → Except ε (Option β)}
    {f' : α → Except ε (Option δ)} {as : List α} {bs : List β} {ds : List δ}
    (h : (as.mapM f).map List.reduceOption = ok bs) (h' : (as.mapM f').map List.reduceOption = ok ds)
    (hrel : ∀ a ∈ as, ∀ b d, f a = ok b → f' a = ok d → Option.Rel R b d) :
    List.Forall₂ R bs ds := by
  obtain ⟨obs, hobs, rfl⟩ := map_eq_ok.1 h
  obtain ⟨ods, hods, rfl⟩ := map_eq_ok.1 h'
  clear h h'
  rw [mapM_eq_ok] at hobs hods
  induction hobs generalizing ods with
  | nil =>
    cases hods
    exact .nil
  | @cons a b as obs hb _ ih =>
    cases hods with
    | @cons _ d _ ods hd hods =>
      have hrest := ih (fun a' ha' => hrel a' (List.mem_cons_of_mem _ ha')) ods hods
      cases hrel a List.mem_cons_self b d hb hd with
      | some hbd => exact .cons hbd hrest
      | none => exact hrest

end Except
