import ServiceChain.Proofs.Rule.Keys

/-!
# Rules whose classifiers are split

A chain that changes its classifiers drops some, keeps the others and adds new ones.  What a rule
named with the classifiers before is named by the dropped ones or by those it has now
(`Names.of_splits`).  Entries for each classifier by itself go one way or the other; where one
classifier stands for all, as it does at a next-hop group, it is the first of a kind, and the first
of the list before is the first of the dropped or of the others (`Splits`).
-/

namespace ServiceChain

/-! ## Lists -/

/-- The elements of a list, and the first hit of any search in it, are those of its part that is
dropped or of a list that has the rest. -/
structure Splits {α : Type} (old dropped now : List α) : Prop where
  mem : ∀ a ∈ old, a ∈ dropped ∨ a ∈ now
  sub : ∀ a ∈ dropped, a ∈ old
  first : ∀ {β : Type} (f : α → Option β),
    old.findSome? f = dropped.findSome? f ∨ old.findSome? f = now.findSome? f

namespace Splits

variable {α β : Type} {old dropped now : List α}

/-- All is dropped. -/
theorem all (old now : List α) : Splits old old now :=
  ⟨fun _ h => .inl h, fun _ h => h, fun _ => .inl rfl⟩

/-- Some is dropped, and something is added at the end. -/
theorem of_filter (p : α → Bool) (old added : List α) :
    Splits old (old.filter p) (old.filter (!p ·) ++ added) where
  mem a ha := by
    cases hp : p a with
    | true => exact .inl (List.mem_filter.2 ⟨ha, hp⟩)
    | false => exact .inr (List.mem_append_left _ (List.mem_filter.2 ⟨ha, by simp [hp]⟩))
  sub a ha := (List.mem_filter.1 ha).1
  first f := by
    induction old with
    | nil => exact .inl rfl
    | cons a old ih =>
      cases hp : p a with
      | true =>
        cases hf : f a with
        | none => simpa [hp, hf] using ih
        | some b => simp [hp, hf]
      | false =>
        cases hf : f a with
        | none => simpa [hp, hf] using ih
        | some b => simp [hp, hf]

theorem map (h : Splits old dropped now) (g : α → β) :
    Splits (old.map g) (dropped.map g) (now.map g) where
  mem := by
    simp only [List.mem_map]
    rintro _ ⟨a, ha, rfl⟩
    exact (h.mem a ha).imp (fun h => ⟨a, h, rfl⟩) (fun h => ⟨a, h, rfl⟩)
  sub := by
    simp only [List.mem_map]
    rintro _ ⟨a, ha, rfl⟩
    exact ⟨a, h.sub a ha, rfl⟩
  first f := by
    simp only [List.findSome?_map]
    exact h.first (f ∘ g)

theorem findSome?_filter (p : α → Bool) (f : α → Option β) (as : List α) :
    (as.filter p).findSome? f = as.findSome? fun a => if p a then f a else none := by
  induction as with
  | nil => rfl
  | cons a as ih => cases hp : p a <;> simp [hp, ih, List.findSome?_cons]

theorem filter (h : Splits old dropped now) (p : α → Bool) :
    Splits (old.filter p) (dropped.filter p) (now.filter p) where
  mem := by
    simp only [List.mem_filter]
    rintro a ⟨ha, hp⟩
    exact (h.mem a ha).imp (⟨·, hp⟩) (⟨·, hp⟩)
  sub := by
    simp only [List.mem_filter]
    rintro a ⟨ha, hp⟩
    exact ⟨h.sub a ha, hp⟩
  first f := by
    simp only [findSome?_filter]
    exact h.first _

theorem head? (h : Splits old dropped now) :
    old.head? = dropped.head? ∨ old.head? = now.head? := by
  have hhead : ∀ as : List α, as.findSome? some = as.head? := fun as => by cases as <;> rfl
  simpa only [hhead] using h.first some

end Splits

/-! ## Rules -/

namespace FlowRule

variable {ctx : HostContext} {ports : PortTable} {r : FlowRule}
  {old dropped now : List FlowClassifier} {olds drops nows : List FlowEntry} {entry : FlowEntry}
  {passes : List Pass} {key : FlowKey}

theorem mem_classification_of_splits (hsplit : Splits old dropped now)
    (ho : r.classificationEntries ports old = .ok olds)
    (hd : r.classificationEntries ports dropped = .ok drops)
    (hn : r.classificationEntries ports now = .ok nows) (h : entry ∈ olds) :
    entry ∈ drops ∨ entry ∈ nows := by
  obtain ⟨fc, hfc, hentry⟩ := (mem_classificationEntries ho).1 h
  rcases hsplit.mem fc hfc with hfc | hfc
  · exact .inl ((mem_classificationEntries hd).2 ⟨fc, hfc, hentry⟩)
  · exact .inr ((mem_classificationEntries hn).2 ⟨fc, hfc, hentry⟩)

theorem mem_source_of_splits (hsplit : Splits old dropped now)
    (ho : r.sourceEntries ctx ports old = .ok olds)
    (hd : r.sourceEntries ctx ports dropped = .ok drops)
    (hn : r.sourceEntries ctx ports now = .ok nows) (h : entry ∈ olds) :
    entry ∈ drops ∨ entry ∈ nows := by
  cases hgroup : r.activeGroup with
  | some group =>
    obtain ⟨inPort, hport, rfl⟩ := (sourceEntries_of_group hgroup).1 ho
    obtain ⟨inPort', hport', rfl⟩ := (sourceEntries_of_group hgroup).1 hd
    obtain rfl := Except.ok.inj (hport.symm.trans hport')
    obtain ⟨inPort', hport', rfl⟩ := (sourceEntries_of_group hgroup).1 hn
    obtain rfl := Except.ok.inj (hport.symm.trans hport')
    -- the entry looks at the first address of a logical destination and nothing else
    unfold groupSteeringEntries at h ⊢
    rcases hsplit.first (·.destinationMac) with hfirst | hfirst
    · exact .inl (hfirst ▸ h)
    · exact .inr (hfirst ▸ h)
  | none =>
    rw [mem_sourceEntries hgroup hd, mem_sourceEntries hgroup hn]
    rcases (mem_sourceEntries hgroup ho).1 h with hreturn | ⟨mac, hmac, fc, hfc, hentry⟩
    · exact .inl (.inl hreturn)
    · rcases hsplit.mem fc hfc with hfc | hfc
      · exact .inl (.inr ⟨mac, hmac, fc, hfc, hentry⟩)
      · exact .inr (.inr ⟨mac, hmac, fc, hfc, hentry⟩)

theorem mem_destination_of_splits (hsplit : Splits old dropped now)
    (ho : r.destinationEntries ctx ports old = .ok olds)
    (hd : r.destinationEntries ctx ports dropped = .ok drops)
    (hn : r.destinationEntries ctx ports now = .ok nows) (h : entry ∈ olds) :
    entry ∈ drops ∨ entry ∈ nows := by
  cases hgroup : r.activeGroup with
  | some group =>
    rw [mem_destinationEntries_of_group hgroup hd, mem_destinationEntries_of_group hgroup hn]
    obtain ⟨port, hport, fc, hfc, hentry⟩ := (mem_destinationEntries_of_group hgroup ho).1 h
    rcases hsplit.head? with hhead | hhead
    · exact .inl ⟨port, hport, fc, hhead ▸ hfc, hentry⟩
    · exact .inr ⟨port, hport, fc, hhead ▸ hfc, hentry⟩
  | none =>
    rw [mem_destinationEntries hgroup hd, mem_destinationEntries hgroup hn]
    obtain ⟨port, hport, ⟨fc, hfc, hentry⟩ | ⟨⟨fc, hfc⟩, hentry⟩⟩ :=
      (mem_destinationEntries hgroup ho).1 h
    · rcases hsplit.mem fc hfc with hfc | hfc
      · exact .inl ⟨port, hport, .inl ⟨fc, hfc, hentry⟩⟩
      · exact .inr ⟨port, hport, .inl ⟨fc, hfc, hentry⟩⟩
    · rcases hsplit.mem fc hfc with hfc | hfc
      · exact .inl ⟨port, hport, .inr ⟨⟨fc, hfc⟩, hentry⟩⟩
      · exact .inr ⟨port, hport, .inr ⟨⟨fc, hfc⟩, hentry⟩⟩

theorem mem_passEntries_of_splits {p : Pass} (hsplit : Splits old dropped now)
    (ho : r.passEntries ctx ports old p = .ok olds)
    (hd : r.passEntries ctx ports dropped p = .ok drops)
    (hn : r.passEntries ctx ports now p = .ok nows) (h : entry ∈ olds) :
    entry ∈ drops ∨ entry ∈ nows := by
  have hturn : Splits (p.turn old) (p.turn dropped) (p.turn now) := by
    unfold Pass.turn
    split
    · exact hsplit.map _
    · exact hsplit
  obtain ⟨side, isReverse⟩ := p
  cases side with
  | ingress => exact mem_destination_of_splits hturn ho hd hn h
  | egress =>
    obtain ⟨olds, olds', hco, hno, hso, rfl⟩ := egressEntries_eq_ok.1 ho
    obtain ⟨drops, drops', hcd, -, hsd, rfl⟩ := egressEntries_eq_ok.1 hd
    obtain ⟨nows, nows', hcn, -, hsn, rfl⟩ := egressEntries_eq_ok.1 hn
    simp only [List.mem_append] at h ⊢
    rcases h with h | h
    · by_cases hrole : (r.seenBy ⟨.egress, isReverse⟩).role = .source
      · exact (mem_classification_of_splits hturn (hco hrole) (hcd hrole) (hcn hrole) h).imp
          .inl .inl
      · rw [hno hrole] at h
        cases h
    · exact (mem_source_of_splits hturn hso hsd hsn h).imp .inr .inr

/-- What passes name with the classifiers before, they name with the dropped or the present ones. -/
theorem Names.of_splits (h : r.Names ctx ports old passes key) (hsplit : Splits old dropped now)
    (hd : ∀ p ∈ passes, ∃ entries, r.passEntries ctx ports dropped p = .ok entries)
    (hn : ∀ p ∈ passes, ∃ entries, r.passEntries ctx ports now p = .ok entries) :
    r.Names ctx ports dropped passes key ∨ r.Names ctx ports now passes key := by
  obtain ⟨p, hp, olds, holds, entry, hentry, hkey⟩ := h
  obtain ⟨drops, hdrops⟩ := hd p hp
  obtain ⟨nows, hnows⟩ := hn p hp
  rcases mem_passEntries_of_splits hsplit holds hdrops hnows hentry with hmem | hmem
  · exact .inl ⟨p, hp, drops, hdrops, entry, hmem, hkey⟩
  · exact .inr ⟨p, hp, nows, hnows, entry, hmem, hkey⟩

end FlowRule

end ServiceChain
