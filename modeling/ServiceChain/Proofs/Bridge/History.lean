import Mathlib.Data.List.Induction
import ServiceChain.Proofs.Bridge.Deletion
import ServiceChain.Proofs.Flow.Order

/-!
# A bridge is its history

The tables of a bridge after a run can be told from the operations without replaying them.  The entry of a
key is what the last operation on it makes of it: the actions of the last entry that was installed, unless a
later operation takes it; what was there before, if no operation touches the key; and else nothing.  The
group of an id is told in the same way (`BridgeOp.Tells`, `Bridge.history_tells`).  The entries of a bridge
are listed in the order of their keys, each key once (`Bridge.entries_listed`).
-/

namespace ServiceChain

namespace BridgeOp

/-! ## What operations do to one value -/

section Tells

variable {α : Type} (sets : BridgeOp → Option α) (clears : BridgeOp → Prop)

/-- The operation neither sets the value nor clears it. -/
def Leaves (op : BridgeOp) : Prop := sets op = none ∧ ¬ clears op

/-- The last operation that sets the value sets it to `a`, and none after it clears it. -/
def LastSets (ops : List BridgeOp) (a : α) : Prop :=
  ∃ before op after, ops = before ++ op :: after ∧ sets op = some a ∧
    ∀ later ∈ after, Leaves sets clears later

/-- The value that operations leave, by what was there before them. -/
inductive Tells (ops : List BridgeOp) (before : Option α) : Option α → Prop
  | last {a : α} (hlast : LastSets sets clears ops a) : Tells ops before (some a)
  | untouched (hleaves : ∀ op ∈ ops, Leaves sets clears op) : Tells ops before before
  | cleared (hlast : ∀ a, ¬ LastSets sets clears ops a)
      (htouched : ¬ ∀ op ∈ ops, Leaves sets clears op) : Tells ops before none

/-- A function does to the value what each operation says. -/
structure ActsBy (act : Option α → BridgeOp → Option α) : Prop where
  set : ∀ op a, sets op = some a → ∀ v, act v op = some a
  clear : ∀ op, sets op = none → clears op → ∀ v, act v op = none
  leave : ∀ op, Leaves sets clears op → ∀ v, act v op = v

variable {sets clears} {ops : List BridgeOp} {op : BridgeOp}

theorem Leaves.not_sets {a : α} (h : Leaves sets clears op) : sets op ≠ some a := by
  rw [h.1]
  exact nofun

theorem lastSets_concat_iff {a : α} : LastSets sets clears (ops ++ [op]) a ↔
    sets op = some a ∨ Leaves sets clears op ∧ LastSets sets clears ops a := by
  constructor
  · rintro ⟨before, setter, after, hops, hsets, hafter⟩
    rcases List.eq_nil_or_concat' after with rfl | ⟨after, last, rfl⟩
    · obtain ⟨-, hop⟩ := List.append_inj' hops rfl
      obtain rfl : op = setter := List.singleton_inj.1 hop
      exact .inl hsets
    · rw [← List.cons_append, ← List.append_assoc] at hops
      obtain ⟨rfl, hop⟩ := List.append_inj' hops rfl
      obtain rfl : op = last := List.singleton_inj.1 hop
      rw [List.forall_mem_append] at hafter
      exact .inr ⟨hafter.2 op List.mem_cons_self, before, setter, after, rfl, hsets, hafter.1⟩
  · rintro (hsets | ⟨hleaves, before, setter, after, rfl, hsets, hafter⟩)
    · exact ⟨ops, op, [], rfl, hsets, by simp⟩
    · refine ⟨before, setter, after ++ [op], by simp, hsets, ?_⟩
      rw [List.forall_mem_append]
      exact ⟨hafter, List.forall_mem_singleton.2 hleaves⟩

theorem LastSets.unique {a a' : α} (h : LastSets sets clears ops a)
    (h' : LastSets sets clears ops a') : a = a' := by
  induction ops using List.reverseRecOn with
  | nil =>
    obtain ⟨before, op, after, hops, -⟩ := h
    simp at hops
  | append_singleton ops op ih =>
    rw [lastSets_concat_iff] at h h'
    rcases h with hsets | ⟨hleaves, h⟩
    · rcases h' with hsets' | ⟨hleaves', -⟩
      · exact Option.some.inj (hsets.symm.trans hsets')
      · exact (hleaves'.not_sets hsets).elim
    · rcases h' with hsets' | ⟨-, h'⟩
      · exact (hleaves.not_sets hsets').elim
      · exact ih h h'

theorem LastSets.touches {a : α} (h : LastSets sets clears ops a) :
    ¬ ∀ op ∈ ops, Leaves sets clears op := by
  obtain ⟨before, op, after, rfl, hsets, -⟩ := h
  intro hleaves
  exact (hleaves op (by simp)).not_sets hsets

/-- Operations tell one value. -/
theorem Tells.unique {before v v' : Option α} (h : Tells sets clears ops before v)
    (h' : Tells sets clears ops before v') : v = v' := by
  cases h with
  | last hlast =>
    cases h' with
    | last hlast' => rw [hlast.unique hlast']
    | untouched hleaves => exact (hlast.touches hleaves).elim
    | cleared hnone => exact (hnone _ hlast).elim
  | untouched hleaves =>
    cases h' with
    | last hlast => exact (hlast.touches hleaves).elim
    | untouched => rfl
    | cleared _ htouched => exact (htouched hleaves).elim
  | cleared hnone htouched =>
    cases h' with
    | last hlast => exact (hnone _ hlast).elim
    | untouched hleaves => exact (htouched hleaves).elim
    | cleared => rfl

/-- An operation that leaves the value alone does not change what is told. -/
theorem Tells.concat {before v : Option α} (h : Tells sets clears ops before v)
    (hleaves : Leaves sets clears op) : Tells sets clears (ops ++ [op]) before v := by
  cases h with
  | last hlast => exact .last (lastSets_concat_iff.2 (.inr ⟨hleaves, hlast⟩))
  | untouched hall =>
    exact .untouched (List.forall_mem_append.2 ⟨hall, List.forall_mem_singleton.2 hleaves⟩)
  | cleared hnone htouched =>
    refine .cleared (fun a hlast => ?_) fun hall => htouched (List.forall_mem_append.1 hall).1
    rcases lastSets_concat_iff.1 hlast with hsets | ⟨-, hlast⟩
    · exact hleaves.not_sets hsets
    · exact hnone a hlast

/-- The value that is left by doing what each operation says, one after the other, is the one told. -/
theorem tells_iff {act : Option α → BridgeOp → Option α} (hact : ActsBy sets clears act)
    {before v : Option α} : Tells sets clears ops before v ↔ ops.foldl act before = v := by
  have htells : Tells sets clears ops before (ops.foldl act before) := by
    induction ops using List.reverseRecOn with
    | nil => exact .untouched (by simp)
    | append_singleton ops op ih =>
      rw [List.foldl_concat]
      by_cases hleaves : Leaves sets clears op
      · rw [hact.leave op hleaves]
        exact ih.concat hleaves
      · cases hsets : sets op with
        | some a =>
          rw [hact.set op a hsets]
          exact .last (lastSets_concat_iff.2 (.inl hsets))
        | none =>
          have hclears : clears op := by
            by_contra hclears
            exact hleaves ⟨hsets, hclears⟩
          rw [hact.clear op hsets hclears]
          refine .cleared (fun a hlast => ?_) fun hall => hleaves (hall op (by simp))
          rcases lastSets_concat_iff.1 hlast with hsets' | ⟨hleaves', -⟩
          · rw [hsets] at hsets'
            cases hsets'
          · exact hleaves hleaves'
  refine ⟨fun h => htells.unique h, ?_⟩
  rintro rfl
  exact htells

end Tells

/-! ## Entries and groups -/

/-- The actions that an operation installs for a key. -/
def installs? (key : FlowKey) : BridgeOp → Option (List FlowAction)
  | addFlow entry => if entry.key = key then some entry.actions else none
  | _ => none

/-- The group that an operation sets for an id. -/
def ensures? (id : UInt32) : BridgeOp → Option GroupSpec
  | ensureGroup spec => if spec.id = id then some spec else none
  | _ => none

/-- The operation removes the group of an id. -/
def Drops (op : BridgeOp) (id : UInt32) : Prop := op = deleteGroup id ∨ op = deleteAllGroups

theorem actsBy_onEntry (key : FlowKey) : ActsBy (installs? key) (Deletes · key) (onEntry key) where
  set op a hsets v := by
    cases op with
    | addFlow entry =>
      by_cases hkey : entry.key = key
      · simpa [installs?, onEntry, hkey] using hsets
      · simp [installs?, hkey] at hsets
    | _ => cases hsets
  clear op _ hdeletes v := by
    have hremoves : op.removes key := removes_iff.2 hdeletes
    cases op with
    | deleteFlows table priority pattern => exact if_pos hremoves
    | _ => cases hremoves
  leave op hleaves v := by
    obtain ⟨hsets, hdeletes⟩ := hleaves
    have hremoves : ¬ op.removes key := fun h => hdeletes (removes_iff.1 h)
    cases op with
    | addFlow entry =>
      have hkey : entry.key ≠ key := by simpa [installs?] using hsets
      exact if_neg hkey
    | deleteFlows table priority pattern => exact if_neg hremoves
    | _ => rfl

theorem actsBy_onGroup (id : UInt32) : ActsBy (ensures? id) (Drops · id) (onGroup id) where
  set op a hsets v := by
    cases op with
    | ensureGroup spec =>
      by_cases hid : spec.id = id
      · simpa [ensures?, onGroup, hid] using hsets
      · simp [ensures?, hid] at hsets
    | _ => cases hsets
  clear op _ hdrops v := by
    rcases hdrops with rfl | rfl
    · simp [onGroup]
    · rfl
  leave op hleaves v := by
    obtain ⟨hsets, hdrops⟩ := hleaves
    cases op with
    | ensureGroup spec =>
      have hid : spec.id ≠ id := by simpa [ensures?] using hsets
      exact if_neg hid
    | deleteGroup gone =>
      have hid : gone ≠ id := fun hid => hdrops (.inl (by rw [hid]))
      exact if_neg hid
    | deleteAllGroups => exact (hdrops (.inr rfl)).elim
    | _ => rfl

end BridgeOp

namespace Bridge

variable {b : Bridge} {ops : List BridgeOp}

/-! ## Bridges -/

theorem mem_entries_iff {key : FlowKey} {actions : List FlowAction} :
    ⟨key, actions⟩ ∈ b.entries ↔ b.flow? key = some actions := by
  simp only [entries, List.mem_map, Prod.exists, FlowEntry.mk.injEq, flow?,
    ← Std.ExtTreeMap.mem_toList_iff_getElem?_eq_some]
  constructor
  · rintro ⟨key, actions, hmem, rfl, rfl⟩
    exact hmem
  · intro hmem
    exact ⟨key, actions, hmem, rfl, rfl⟩

/-- The entries are listed in the order of their keys, first difference of columns first. -/
theorem entries_listed (b : Bridge) :
    b.entries.Pairwise fun entry later => entry.key.columns < later.key.columns := by
  rw [entries, List.pairwise_map]
  refine Std.ExtTreeMap.ordered_keys_toList.imp fun h => ?_
  exact FlowKey.compare_eq_lt_iff.1 h

/-- After a run that was not stopped, the tables are what its operations tell of them. -/
theorem history_tells (h : (b.execute ops).failure = none) :
    (∀ key v, BridgeOp.Tells (BridgeOp.installs? key) (BridgeOp.Deletes · key) ops (b.flow? key) v ↔
        (b.execute ops).bridge.flow? key = v) ∧
      (∀ id v, BridgeOp.Tells (BridgeOp.ensures? id) (BridgeOp.Drops · id) ops (b.group? id) v ↔
        (b.execute ops).bridge.group? id = v) ∧
      ((b.execute ops).bridge.entries.Pairwise fun entry later =>
        entry.key.columns < later.key.columns) ∧
      ∀ key actions, ⟨key, actions⟩ ∈ (b.execute ops).bridge.entries ↔
        (b.execute ops).bridge.flow? key = some actions := by
  have hreplay := execute_replayed h
  refine ⟨fun key v => ?_, fun id v => ?_, entries_listed _, fun key actions => mem_entries_iff⟩
  · rw [BridgeOp.tells_iff (BridgeOp.actsBy_onEntry key), hreplay.flow]
    rfl
  · rw [BridgeOp.tells_iff (BridgeOp.actsBy_onGroup id), hreplay.group]
    rfl

/-! ## A sample -/

/-- Every entry for IPv4 is removed and one of them installed again; a group comes and goes. -/
def sampleSwept : List BridgeOp :=
  [.deleteFlows none none { dlType := some 0x0800 }, .addFlow ⟨sampleUntaggedKey, [.output 9]⟩,
    .ensureGroup ⟨4, .select, []⟩, .deleteAllGroups]

theorem sampleSwept_tells :
    (sampleTagged.execute sampleSwept).failure = none ∧
      (sampleTagged.execute sampleSwept).bridge.flow? sampleUntaggedKey = some [.output 9] ∧
      (sampleTagged.execute sampleSwept).bridge.flow? sampleTaggedKey = none ∧
      (sampleTagged.execute sampleSwept).bridge.group? 4 = none := by
  have hrun := execute_ok (b := sampleTagged) (by decide +kernel) sampleSwept
  obtain ⟨hflow, hgroup, -⟩ := history_tells hrun
  have hnot : ∀ op ∈ sampleSwept, BridgeOp.installs? sampleTaggedKey op = none := by decide
  refine ⟨hrun, (hflow _ _).1 (.last ⟨[_], _, [_, _], rfl, rfl, ?_⟩),
    (hflow _ _).1 (.cleared ?_ ?_), (hgroup _ _).1 (.cleared ?_ ?_)⟩
  · intro later hlater
    simp only [List.mem_cons, List.not_mem_nil, or_false] at hlater
    rcases hlater with rfl | rfl
    · exact ⟨rfl, nofun⟩
    · exact ⟨rfl, nofun⟩
  · rintro a ⟨before, op, after, hops, hsets, -⟩
    rw [hnot op (by rw [hops]; simp)] at hsets
    cases hsets
  · intro hleaves
    refine (hleaves _ List.mem_cons_self).2 (BridgeOp.removes_iff.1 ?_)
    decide
  · intro a hlast
    change BridgeOp.LastSets _ _ ([_, _, _] ++ [.deleteAllGroups]) a at hlast
    rcases BridgeOp.lastSets_concat_iff.1 hlast with hsets | ⟨hleaves, -⟩
    · cases hsets
    · exact hleaves.2 (.inr rfl)
  · intro hleaves
    exact (hleaves .deleteAllGroups (by decide)).2 (.inr rfl)

end Bridge

end ServiceChain
