import ServiceChain.Proofs.Bridge.Replay

/-!
# Strict and sweeping removals

A removal that names a priority should be strict: it takes the entries at the priority with the very match
that it names, in the table that it names or in all tables.  Without a priority it sweeps: it takes every
entry in scope whose match is covered (`Bridge.Designates`).

A removal that names table and priority erases one key, and every other one sweeps (`BridgeOp.Deletes`), so
one with a priority and no table sweeps as well.  It takes what it should just if no entry at the priority
has a match that is covered and is not the one named (`Bridge.deletion_strict_iff`).
-/

namespace ServiceChain

/-! ## Covered matches -/

namespace FlowMatch

/-- Every field that is set in `m` is set in `other`, to the same value. -/
structure Covers (m other : FlowMatch) : Prop where
  inPort : ∀ port, m.inPort = some port → other.inPort = some port
  dlType : ∀ type, m.dlType = some type → other.dlType = some type
  dlVlan : ∀ vid, m.dlVlan = some vid → other.dlVlan = some vid
  dlDst : ∀ mac, m.dlDst = some mac → other.dlDst = some mac
  mplsLabel : ∀ label, m.mplsLabel = some label → other.mplsLabel = some label
  nwProto : ∀ protocol, m.nwProto = some protocol → other.nwProto = some protocol
  nwSrc : ∀ net, m.nwSrc = some net → other.nwSrc = some net
  nwDst : ∀ net, m.nwDst = some net → other.nwDst = some net
  tpSrc : ∀ ports, m.tpSrc = some ports → other.tpSrc = some ports
  tpDst : ∀ ports, m.tpDst = some ports → other.tpDst = some ports

variable {m other : FlowMatch}

theorem fieldCovers_iff {α : Type} [DecidableEq α] {mine theirs : Option α} :
    fieldCovers mine theirs ↔ ∀ v, mine = some v → theirs = some v := by
  cases mine with
  | none => simp [fieldCovers]
  | some v =>
    simp only [fieldCovers, Option.isNone_some, Bool.false_or, beq_iff_eq, Option.some.injEq,
      forall_eq']
    exact eq_comm

theorem covers_iff : m.covers other ↔ m.Covers other := by
  simp only [covers, Bool.and_eq_true, fieldCovers_iff]
  constructor
  · rintro ⟨⟨⟨⟨⟨⟨⟨⟨⟨h₁, h₂⟩, h₃⟩, h₄⟩, h₅⟩, h₆⟩, h₇⟩, h₈⟩, h₉⟩, h₁₀⟩
    exact ⟨h₁, h₂, h₃, h₄, h₅, h₆, h₇, h₈, h₉, h₁₀⟩
  · rintro ⟨h₁, h₂, h₃, h₄, h₅, h₆, h₇, h₈, h₉, h₁₀⟩
    exact ⟨⟨⟨⟨⟨⟨⟨⟨⟨h₁, h₂⟩, h₃⟩, h₄⟩, h₅⟩, h₆⟩, h₇⟩, h₈⟩, h₉⟩, h₁₀⟩

theorem Covers.refl (m : FlowMatch) : m.Covers m :=
  ⟨fun _ h => h, fun _ h => h, fun _ h => h, fun _ h => h, fun _ h => h, fun _ h => h,
    fun _ h => h, fun _ h => h, fun _ h => h, fun _ h => h⟩

end FlowMatch

/-! ## What a removal takes -/

/-- A key in the scope of a removal: at its priority and in its table, as far as it names them. -/
structure FlowKey.InScope (key : FlowKey) (table : Option Table) (priority : Option UInt16) : Prop where
  table : ∀ t, table = some t → key.table = t
  priority : ∀ p, priority = some p → key.priority = p

/-- The operation takes the entry of a key. -/
inductive BridgeOp.Deletes : BridgeOp → FlowKey → Prop
  | strict (key : FlowKey) :
      Deletes (.deleteFlows (some key.table) (some key.priority) key.pattern) key
  | sweeping {table : Option Table} {priority : Option UInt16} {pattern : FlowMatch} {key : FlowKey}
      (hopen : table = none ∨ priority = none) (hscope : key.InScope table priority)
      (hcovers : pattern.Covers key.pattern) : Deletes (.deleteFlows table priority pattern) key

/-- One bridge is another without the entries of some keys. -/
def Bridge.Loses (before after : Bridge) (gone : FlowKey → Prop) : Prop :=
  ∀ key, (gone key → after.flow? key = none) ∧ (¬ gone key → after.flow? key = before.flow? key)

namespace Bridge

variable {b next : Bridge} {table : Option Table} {priority : Option UInt16} {pattern : FlowMatch}
  {key : FlowKey}

theorem sweeps_iff :
    sweeps table priority pattern key ↔ key.InScope table priority ∧ pattern.Covers key.pattern := by
  simp only [sweeps, Bool.and_eq_true, Option.all_eq_true, beq_iff_eq, FlowMatch.covers_iff]
  constructor
  · rintro ⟨⟨htable, hpriority⟩, hcovers⟩
    exact ⟨⟨htable, hpriority⟩, hcovers⟩
  · rintro ⟨⟨htable, hpriority⟩, hcovers⟩
    exact ⟨⟨htable, hpriority⟩, hcovers⟩

end Bridge

namespace BridgeOp

open Bridge

theorem removes_iff {op : BridgeOp} {key : FlowKey} : op.removes key ↔ op.Deletes key := by
  constructor
  · intro h
    cases op with
    | deleteFlows table priority pattern =>
      cases table with
      | none =>
        obtain ⟨hscope, hcovers⟩ := sweeps_iff.1 h
        exact .sweeping (.inl rfl) hscope hcovers
      | some t =>
        cases priority with
        | none =>
          obtain ⟨hscope, hcovers⟩ := sweeps_iff.1 h
          exact .sweeping (.inr rfl) hscope hcovers
        | some p =>
          obtain rfl := removes_deleteFlows_some.1 h
          exact .strict ⟨t, p, pattern⟩
    | _ => cases h
  · rintro (_ | ⟨hopen, hscope, hcovers⟩)
    · exact removes_deleteFlows_some.2 rfl
    · rw [removes_eq_sweeps]
      · exact sweeps_iff.2 ⟨hscope, hcovers⟩
      · rintro t p rfl rfl
        simp at hopen

/-- A removal takes what it covers in its scope; one that names table and priority takes the very match
that it names only. -/
theorem deletes_deleteFlows_iff {table : Option Table} {priority : Option UInt16}
    {pattern : FlowMatch} {key : FlowKey} :
    (deleteFlows table priority pattern).Deletes key ↔
      key.InScope table priority ∧ pattern.Covers key.pattern ∧
        (table = none ∨ priority = none ∨ key.pattern = pattern) := by
  constructor
  · rintro (_ | ⟨hopen, hscope, hcovers⟩)
    · refine ⟨⟨?_, ?_⟩, .refl _, .inr (.inr rfl)⟩
      · rintro t ⟨⟩
        rfl
      · rintro p ⟨⟩
        rfl
    · exact ⟨hscope, hcovers, hopen.imp_right .inl⟩
  · rintro ⟨hscope, hcovers, hopen⟩
    by_cases hnamed : table = none ∨ priority = none
    · exact .sweeping hnamed hscope hcovers
    · push Not at hnamed
      obtain ⟨t, rfl⟩ := Option.ne_none_iff_exists'.1 hnamed.1
      obtain ⟨p, rfl⟩ := Option.ne_none_iff_exists'.1 hnamed.2
      obtain rfl : key.pattern = pattern := by simpa using hopen
      obtain rfl := hscope.table t rfl
      obtain rfl := hscope.priority p rfl
      exact .strict key

end BridgeOp

namespace Bridge

variable {b next : Bridge} {table : Option Table} {priority : Option UInt16} {pattern : FlowMatch}
  {key : FlowKey}

/-! ## What a removal should take -/

/-- A removal should take the entry of a key: with a priority one with the very match, without one any whose
match is covered. -/
def Designates (table : Option Table) (priority : Option UInt16) (pattern : FlowMatch)
    (key : FlowKey) : Prop :=
  key.InScope table priority ∧
    match priority with
    | some _ => key.pattern = pattern
    | none => pattern.Covers key.pattern

theorem deletes_of_designates (h : Designates table priority pattern key) :
    (BridgeOp.deleteFlows table priority pattern).Deletes key := by
  obtain ⟨hscope, hpattern⟩ := h
  rw [BridgeOp.deletes_deleteFlows_iff]
  cases priority with
  | none => exact ⟨hscope, hpattern, .inr (.inl rfl)⟩
  | some p =>
    obtain rfl : key.pattern = pattern := hpattern
    exact ⟨hscope, .refl _, .inr (.inr rfl)⟩

/-- What a removal takes beyond what it should. -/
theorem deletes_and_not_designates_iff :
    (BridgeOp.deleteFlows table priority pattern).Deletes key ∧
        ¬ Designates table priority pattern key ↔
      table = none ∧ priority ≠ none ∧ key.InScope table priority ∧ pattern.Covers key.pattern ∧
        key.pattern ≠ pattern := by
  rw [BridgeOp.deletes_deleteFlows_iff]
  cases priority with
  | none => simp +contextual [Designates]
  | some p =>
    simp only [Designates, reduceCtorEq, false_or, not_and, ne_eq, not_false_eq_true, true_and]
    constructor
    · rintro ⟨⟨hscope, hcovers, hopen⟩, hpattern⟩
      exact ⟨hopen.resolve_right (hpattern hscope), hscope, hcovers, hpattern hscope⟩
    · rintro ⟨htable, hscope, hcovers, hpattern⟩
      exact ⟨⟨hscope, hcovers, .inl htable⟩, fun _ => hpattern⟩

theorem flow?_deleteFlows (h : b.deleteFlows table priority pattern = .ok next) (key : FlowKey) :
    next.flow? key = if (BridgeOp.deleteFlows table priority pattern).removes key then none
      else b.flow? key :=
  (deleteFlows_replayed h).flow key

theorem loses_deleteFlows (h : b.deleteFlows table priority pattern = .ok next) :
    b.Loses next (BridgeOp.deleteFlows table priority pattern).Deletes := by
  intro key
  rw [flow?_deleteFlows h, ← BridgeOp.removes_iff]
  exact ⟨fun h => if_pos h, fun h => if_neg h⟩

theorem deleteFlows_eq (h : b.deleteFlows table priority pattern = .ok next) :
    next.groups = b.groups ∧ next.ports = b.ports := by
  simp only [deleteFlows, Except.bind_eq_ok] at h
  obtain ⟨-, -, h⟩ := h
  split at h
  · obtain rfl := Except.pure_eq_ok.1 h
    exact ⟨rfl, rfl⟩
  · obtain rfl := Except.pure_eq_ok.1 h
    exact ⟨rfl, rfl⟩

/-- A removal takes exactly what it deletes, and touches neither groups nor ports.  That is exactly what it
should take unless it names a priority and no table, and some entry at the priority has a match that is
covered and is not the one named. -/
theorem deletion_strict_iff (h : b.deleteFlows table priority pattern = .ok next) :
    next.groups = b.groups ∧ next.ports = b.ports ∧
      b.Loses next (BridgeOp.deleteFlows table priority pattern).Deletes ∧
      (b.Loses next (Designates table priority pattern) ↔
        (table = none → priority ≠ none → ∀ key, (b.flow? key).isSome → key.InScope table priority →
          pattern.Covers key.pattern → key.pattern = pattern)) := by
  obtain ⟨hgroups, hports⟩ := deleteFlows_eq h
  have hloses := loses_deleteFlows h
  refine ⟨hgroups, hports, hloses, fun hstrict htable hpriority key hsome hscope hcovers => ?_,
    fun hnone key => ⟨fun hkey => (hloses key).1 (deletes_of_designates hkey), fun hkey => ?_⟩⟩
  · by_contra hpattern
    obtain ⟨hdeletes, hkey⟩ := deletes_and_not_designates_iff.2
      ⟨htable, hpriority, hscope, hcovers, hpattern⟩
    rw [← (hstrict key).2 hkey, (hloses key).1 hdeletes] at hsome
    cases hsome
  · by_cases hdeletes : (BridgeOp.deleteFlows table priority pattern).Deletes key
    · -- an entry that is taken beyond what should be is not there
      obtain ⟨htable, hpriority, hscope, hcovers, hpattern⟩ :=
        deletes_and_not_designates_iff.1 ⟨hdeletes, hkey⟩
      rw [(hloses key).1 hdeletes]
      cases hflow : b.flow? key with
      | none => rfl
      | some actions =>
        exact absurd (hnone htable hpriority key (by rw [hflow]; rfl) hscope hcovers) hpattern
    · exact (hloses key).2 hdeletes

/-! ## Two entries at one priority -/

/-- An entry for tagged packets. -/
def sampleTaggedKey : FlowKey :=
  ⟨.crossSubnet, Priority.steering, { dlType := some 0x0800, dlVlan := some 100 }⟩

/-- An entry at the same priority, for packets with any tag. -/
def sampleUntaggedKey : FlowKey := ⟨.chainIngress, Priority.steering, { dlType := some 0x0800 }⟩

def sampleTaggedOps : List BridgeOp :=
  [.addFlow ⟨sampleTaggedKey, [.drop]⟩, .addFlow ⟨sampleUntaggedKey, [.drop]⟩]

def sampleTagged : Bridge := (({} : Bridge).execute sampleTaggedOps).bridge

theorem sampleTagged_keys (h : (sampleTagged.flow? key).isSome) :
    key = sampleTaggedKey ∨ key = sampleUntaggedKey := by
  have hreplay : ({} : Bridge).Replayed sampleTaggedOps sampleTagged :=
    execute_replayed (execute_ok rfl _)
  rw [hreplay.flow] at h
  rcases BridgeOp.isSome_or_adds_of_isSome_entryAfter h with h | ⟨op, hop, hadds⟩
  · simp [flow?] at h
  · simp only [sampleTaggedOps, List.mem_cons, List.not_mem_nil, or_false] at hop
    rcases hop with rfl | rfl
    · exact .inl (BridgeOp.adds_addFlow.1 hadds).symm
    · exact .inr (BridgeOp.adds_addFlow.1 hadds).symm

/-- The match of tagged packets covers no other, so its removal in all tables takes the one entry. -/
theorem sampleTagged_strict : ∃ next,
    sampleTagged.deleteFlows none (some Priority.steering) sampleTaggedKey.pattern = .ok next ∧
      sampleTagged.Loses next
        (Designates none (some Priority.steering) sampleTaggedKey.pattern) ∧
      next.flow? sampleUntaggedKey = some [.drop] := by
  obtain ⟨next, hnext⟩ := Except.exists_of_isOk (by decide +kernel :
    (sampleTagged.deleteFlows none (some Priority.steering) sampleTaggedKey.pattern).isOk = true)
  obtain ⟨-, -, -, hstrict⟩ := deletion_strict_iff hnext
  have hloses := hstrict.2 fun _ _ key hsome _ hcovers => by
    rcases sampleTagged_keys hsome with rfl | rfl
    · rfl
    · exact absurd (hcovers.dlVlan 100 rfl) (by decide)
  refine ⟨next, hnext, hloses, ?_⟩
  rw [(hloses sampleUntaggedKey).2 fun hkey => absurd hkey.2 (by decide)]
  decide +kernel

/-- The match of packets with any tag covers that of the tagged ones, whose entry goes as well. -/
theorem not_deletion_strict : ∃ next,
    sampleTagged.deleteFlows none (some Priority.steering) sampleUntaggedKey.pattern = .ok next ∧
      ¬ sampleTagged.Loses next
        (Designates none (some Priority.steering) sampleUntaggedKey.pattern) := by
  obtain ⟨next, hnext⟩ := Except.exists_of_isOk (by decide +kernel :
    (sampleTagged.deleteFlows none (some Priority.steering) sampleUntaggedKey.pattern).isOk = true)
  refine ⟨next, hnext, fun hloses => ?_⟩
  have hkept := (hloses sampleTaggedKey).2 fun hkey => absurd hkey.2 (by decide)
  have hremoved : (BridgeOp.deleteFlows none (some Priority.steering)
      sampleUntaggedKey.pattern).removes sampleTaggedKey := by decide
  rw [flow?_deleteFlows hnext, if_pos hremoved] at hkept
  exact absurd hkept (by decide +kernel)

end Bridge

end ServiceChain
