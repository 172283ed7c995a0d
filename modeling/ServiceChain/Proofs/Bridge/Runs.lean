import ServiceChain.Proofs.Bridge.Replay

/-!
# Runs, operation by operation

`Bridge.Runs` tells what it is for operations to succeed one after the other, and what each of them
does: an ensured group counts as created where the bridge did not have it, and as modified where it
did.  A replay is such a run of all operations, or of those before the first that fails on what they
left (`Bridge.execute_cases`).
-/

namespace ServiceChain

namespace Bridge

variable {b next last : Bridge} {op : BridgeOp} {ops : List BridgeOp} {effects : List Effect}

/-- What an operation does on a bridge where it succeeds. -/
def effectOf (b : Bridge) : BridgeOp → Effect
  | .addFlow _ => .flowAdded
  | .deleteFlows _ _ _ => .flowsDeleted
  | .ensureGroup group => if (b.group? group.id).isSome then .groupModified else .groupCreated
  | .deleteGroup _ => .groupDeleted
  | .deleteAllGroups => .groupsCleared

/-- The operations succeed one after the other, each on the bridge that the one before it left. -/
inductive Runs : Bridge → List BridgeOp → Bridge → List Effect → Prop
  | nil (b : Bridge) : Runs b [] b []
  | cons {b next last : Bridge} {op : BridgeOp} {ops : List BridgeOp} {effects : List Effect}
      (hop : b.perform op = .ok (next, b.effectOf op)) (hrest : Runs next ops last effects) :
      Runs b (op :: ops) last (b.effectOf op :: effects)

/-! ## One operation -/

/-- Ensuring a group asks whether it is there, so what it did tells whether it was. -/
theorem effect_ensureGroup {group : GroupSpec} {effect : Effect}
    (h : b.ensureGroup group = .ok (next, effect)) : effect = b.effectOf (.ensureGroup group) := by
  obtain ⟨plan, hplan, hwith⟩ := Except.bind_eq_ok.1 h
  rw [ensurePlan_eq (exists_ensurePlan_iff.1 ⟨plan, hplan⟩)] at hplan
  obtain rfl := Except.ok.inj hplan
  rw [effectOf]
  by_cases hgroup : (b.group? group.id).isSome
  · rw [if_pos hgroup] at hwith ⊢
    obtain ⟨_, -, heq⟩ := Except.map_eq_ok.1 hwith
    cases heq
    rfl
  · rw [if_neg hgroup] at hwith ⊢
    obtain ⟨_, -, heq⟩ := Except.map_eq_ok.1 hwith
    cases heq
    rfl

theorem effect_perform {effect : Effect} (h : b.perform op = .ok (next, effect)) :
    effect = b.effectOf op := by
  cases op with
  | ensureGroup group => exact effect_ensureGroup h
  | addFlow entry =>
    obtain ⟨_, -, heq⟩ := Except.map_eq_ok.1 h
    cases heq
    rfl
  | deleteFlows table priority pattern =>
    obtain ⟨_, -, heq⟩ := Except.map_eq_ok.1 h
    cases heq
    rfl
  | deleteGroup id =>
    obtain ⟨_, -, heq⟩ := Except.map_eq_ok.1 h
    cases heq
    rfl
  | deleteAllGroups =>
    obtain ⟨_, -, heq⟩ := Except.map_eq_ok.1 h
    cases heq
    rfl

/-! ## Runs -/

/-- A run leaves the tables that the fold over its operations says. -/
theorem Runs.replayed (h : b.Runs ops last effects) : b.Replayed ops last := by
  induction h with
  | nil b => exact Replayed.nil b
  | cons hop _ ih => exact (perform_replayed hop).append ih

/-- Operations that succeed one after the other are replayed to the end. -/
theorem Runs.execute (h : b.Runs ops last effects) :
    ∃ records, b.execute ops = ⟨last, effects, records, none⟩ := by
  induction h with
  | nil b => exact ⟨[], rfl⟩
  | cons hop _ ih =>
    obtain ⟨records, hrest⟩ := ih
    rw [Bridge.execute, hop]
    simp only [hrest]
    exact ⟨_, rfl⟩

/-- A replay is a run of all its operations, or of those before the first that fails. -/
theorem execute_cases (b : Bridge) (ops : List BridgeOp) :
    (b.Runs ops (b.execute ops).bridge (b.execute ops).effects ∧ (b.execute ops).failure = none) ∨
      ∃ done op rest e, ops = done ++ op :: rest ∧
        b.Runs done (b.execute ops).bridge (b.execute ops).effects ∧
        (b.execute ops).bridge.perform op = .error e ∧ (b.execute ops).failure = some e := by
  induction ops generalizing b with
  | nil => exact .inl ⟨.nil b, rfl⟩
  | cons op ops ih =>
    rw [execute]
    cases hop : b.perform op with
    | error e => exact .inr ⟨[], op, ops, e, rfl, .nil b, hop, rfl⟩
    | ok done =>
      obtain ⟨next, effect⟩ := done
      obtain rfl := effect_perform hop
      rcases ih next with ⟨hruns, hfailure⟩ | ⟨done, op', rest, e, rfl, hruns, hop', hfailure⟩
      · exact .inl ⟨.cons hop hruns, hfailure⟩
      · exact .inr ⟨op :: done, op', rest, e, rfl, .cons hop hruns, hop', hfailure⟩

/-- A replay is a run of some first part of its operations. -/
theorem exists_runs_execute (b : Bridge) (ops : List BridgeOp) :
    ∃ done rest, ops = done ++ rest ∧
      b.Runs done (b.execute ops).bridge (b.execute ops).effects ∧
      ∀ op ∈ rest.head?, ∃ e, (b.execute ops).bridge.perform op = .error e := by
  rcases execute_cases b ops with ⟨hruns, -⟩ | ⟨done, op, rest, e, hops, hruns, hop, -⟩
  · exact ⟨ops, [], (List.append_nil ops).symm, hruns, by simp⟩
  · refine ⟨done, op :: rest, hops, hruns, fun op' hop' => ?_⟩
    obtain rfl : op = op' := by simpa using hop'
    exact ⟨e, hop⟩

/-- The operations can all be run just if the replay of them is not stopped. -/
theorem failure_execute_eq_none_iff :
    (b.execute ops).failure = none ↔ ∃ last effects, b.Runs ops last effects := by
  constructor
  · intro hfailure
    rcases execute_cases b ops with ⟨hruns, -⟩ | ⟨_, _, _, e, -, -, -, hstopped⟩
    · exact ⟨_, _, hruns⟩
    · rw [hfailure] at hstopped
      cases hstopped
  · rintro ⟨last, effects, hruns⟩
    obtain ⟨records, hrun⟩ := hruns.execute
    rw [hrun]

/-! ## Records -/

theorem category_records {record : AuditRecord} (h : record ∈ b.records op) :
    record.category = .groupLifecycle := by
  cases op with
  | ensureGroup group =>
    simp only [records, ensureRecords] at h
    split at h
    · cases h
    · obtain rfl := List.mem_singleton.1 h
      unfold groupRecord
      split <;> rfl
  | _ => cases h

/-- Every record that a replay leaves is about a group. -/
theorem category_records_execute {record : AuditRecord} (h : record ∈ (b.execute ops).records) :
    record.category = .groupLifecycle := by
  induction ops generalizing b with
  | nil => cases h
  | cons op ops ih =>
    rw [execute] at h
    cases hop : b.perform op with
    | error e =>
      rw [hop] at h
      exact category_records h
    | ok done =>
      rw [hop] at h
      rcases List.mem_append.1 h with h | h
      · exact category_records h
      · exact ih h

end Bridge

end ServiceChain
