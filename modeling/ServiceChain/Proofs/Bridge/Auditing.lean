import ServiceChain.Proofs.Bridge.Runs

/-!
# The audit trail of groups

Of the operations that a replay comes to (`Bridge.attempts`), those that ensure or delete a group should each
leave one record of the group, with how it ended (`Bridge.GroupsAudited`).  The trail holds the records of
the ensured groups for which the switch answered what is there, in order, and nothing else
(`forall₂_groupTrail`).  So it is complete just if no other operation on a group was attempted
(`groups_audited_iff`): the deletion of a group leaves no record, and neither does a failure to ask for it.
-/

namespace ServiceChain

/-- An operation that a replay came to, and the bridge that it found. -/
structure Attempt where
  found : Bridge
  op : BridgeOp

namespace Attempt

/-- The group that the operation ensures or deletes. -/
def groupId? (attempt : Attempt) : Option UInt32 :=
  match attempt.op with
  | .ensureGroup group => some group.id
  | .deleteGroup id => some id
  | _ => none

/-- The operation ensures or deletes a group. -/
def isOfGroup (attempt : Attempt) : Bool := attempt.groupId?.isSome

/-- The operation ensures a group, and the switch answers what is there. -/
def isAnswered (attempt : Attempt) : Bool :=
  match attempt.op with
  | .ensureGroup _ => .dumpGroup ∉ attempt.found.failing
  | _ => false

/-- How the operation ended. -/
def outcome (attempt : Attempt) : AuditOutcome :=
  match attempt.found.perform attempt.op with
  | .ok _ => .success
  | .error _ => .failure

/-- The record names the group of the operation and how it ended. -/
structure RecordedBy (attempt : Attempt) (record : AuditRecord) : Prop where
  category : record.category = .groupLifecycle
  objectId : record.objectId = attempt.groupId?.map fun id => toString id.toNat
  outcome : record.outcome = attempt.outcome

end Attempt

namespace Bridge

variable {b next : Bridge} {op : BridgeOp} {ops : List BridgeOp} {effect : Effect}

/-- The operations of a replay, up to the first that fails. -/
def attempts (b : Bridge) : List BridgeOp → List Attempt
  | [] => []
  | op :: ops =>
    ⟨b, op⟩ ::
      match b.perform op with
      | .error _ => []
      | .ok (next, _) => next.attempts ops

/-- The records about groups that a replay leaves. -/
def groupTrail (b : Bridge) (ops : List BridgeOp) : List AuditRecord :=
  (b.execute ops).records.filter fun record => record.category == .groupLifecycle

/-- Each attempt to ensure or delete a group has one record in the trail, and the trail no other. -/
def GroupsAudited (b : Bridge) (ops : List BridgeOp) : Prop :=
  List.Forall₂ Attempt.RecordedBy ((b.attempts ops).filter Attempt.isOfGroup) (b.groupTrail ops)

/-! ## One operation -/

/-- The record of a group names it, and tells whether the change failed. -/
theorem recordedBy_groupRecord {group : GroupSpec} {plan : Primitive}
    (hplan : b.ensurePlan group.id = .ok plan) :
    Attempt.RecordedBy ⟨b, .ensureGroup group⟩
      (groupRecord group plan (failure? (b.ensureWith group plan))) := by
  have hperform : b.perform (.ensureGroup group) = b.ensureWith group plan := by
    rw [perform, ensureGroup, hplan]
    rfl
  cases hwith : b.ensureWith group plan with
  | error e =>
    refine ⟨rfl, rfl, ?_⟩
    rw [Attempt.outcome, hperform, hwith]
    rfl
  | ok done =>
    refine ⟨rfl, rfl, ?_⟩
    rw [Attempt.outcome, hperform, hwith]
    rfl

theorem forall₂_records (b : Bridge) (op : BridgeOp) :
    List.Forall₂ Attempt.RecordedBy ([⟨b, op⟩].filter Attempt.isAnswered) (b.records op) := by
  cases op with
  | ensureGroup group =>
    rw [records, ensureRecords]
    cases hplan : b.ensurePlan group.id with
    | error e =>
      have hfails : .dumpGroup ∈ b.failing := by
        by_contra hanswers
        obtain ⟨plan, hplan'⟩ := exists_ensurePlan_iff.2 hanswers
        rw [hplan'] at hplan
        cases hplan
      rw [List.filter_cons_of_neg (by simpa [Attempt.isAnswered] using hfails)]
      exact .nil
    | ok plan =>
      have hanswers : .dumpGroup ∉ b.failing := exists_ensurePlan_iff.1 ⟨plan, hplan⟩
      rw [List.filter_cons_of_pos (by simpa [Attempt.isAnswered] using hanswers)]
      exact .cons (recordedBy_groupRecord hplan) .nil
  | _ => exact .nil

/-- An operation that succeeds leaves a record just if it adds or replaces a group. -/
theorem length_records (h : b.perform op = .ok (next, effect)) :
    (b.records op).length = [effect].count .groupCreated + [effect].count .groupModified := by
  obtain rfl := effect_perform h
  cases op with
  | ensureGroup group =>
    obtain ⟨plan, hplan, -⟩ := Except.bind_eq_ok.1 h
    rw [records, ensureRecords, hplan, effectOf]
    cases (b.group? group.id).isSome <;> rfl
  | _ => rfl

/-! ## The trail -/

/-- All records of a replay are about groups. -/
theorem groupTrail_eq (b : Bridge) (ops : List BridgeOp) :
    b.groupTrail ops = (b.execute ops).records :=
  List.filter_eq_self.2 fun _ hrecord => beq_iff_eq.2 (category_records_execute hrecord)

/-- The trail holds the record of each ensured group that the switch answers for. -/
theorem forall₂_groupTrail (b : Bridge) (ops : List BridgeOp) :
    List.Forall₂ Attempt.RecordedBy ((b.attempts ops).filter Attempt.isAnswered)
      (b.groupTrail ops) := by
  rw [groupTrail_eq]
  induction ops generalizing b with
  | nil => exact .nil
  | cons op ops ih =>
    rw [attempts, execute, ← List.singleton_append, List.filter_append]
    cases hop : b.perform op with
    | error e =>
      simpa using forall₂_records b op
    | ok done => exact List.rel_append (forall₂_records b op) (ih done.1)

/-- A replay to the end leaves one record for each group that it added or replaced. -/
theorem length_groupTrail (h : (b.execute ops).failure = none) :
    (b.groupTrail ops).length =
      (b.execute ops).effects.count .groupCreated + (b.execute ops).effects.count .groupModified := by
  rw [groupTrail_eq]
  induction ops generalizing b with
  | nil => rfl
  | cons op ops ih =>
    rw [execute] at h ⊢
    cases hop : b.perform op with
    | error e =>
      rw [hop] at h
      cases h
    | ok done =>
      rw [hop] at h
      have hrest := ih h
      have hfirst := length_records hop
      simp only [List.length_append, List.count_cons, List.count_nil] at hfirst ⊢
      omega

/-- The answered attempts are among those to ensure or delete a group. -/
theorem filter_isAnswered (attempts : List Attempt) :
    (attempts.filter Attempt.isOfGroup).filter Attempt.isAnswered =
      attempts.filter Attempt.isAnswered := by
  rw [List.filter_filter]
  apply List.filter_congr
  intro ⟨b, op⟩ _
  cases op with
  | ensureGroup group => exact Bool.and_true _
  | _ => rfl

/-- The trail is complete just if a group was only ever ensured, and the switch answered each time. -/
theorem groups_audited_iff (b : Bridge) (ops : List BridgeOp) :
    List.Forall₂ Attempt.RecordedBy ((b.attempts ops).filter Attempt.isAnswered)
        (b.groupTrail ops) ∧
      (b.GroupsAudited ops ↔
        ∀ attempt ∈ b.attempts ops, attempt.isOfGroup → attempt.isAnswered) ∧
      ∀ tally, (b.execute ops).result = .ok tally →
        (b.groupTrail ops).length = tally.groupsCreated + tally.groupsModified := by
  have htrail := forall₂_groupTrail b ops
  refine ⟨htrail, ⟨fun haudited attempt hattempt hgroup => ?_, fun hall => ?_⟩,
    fun tally hresult => ?_⟩
  · -- the trail is as long as the answered attempts and as all of them, so none is left out
    have hlength := htrail.length_eq.trans haudited.length_eq.symm
    rw [← filter_isAnswered, List.length_filter_eq_length_iff] at hlength
    exact hlength attempt (List.mem_filter.2 ⟨hattempt, hgroup⟩)
  · rw [← filter_isAnswered, List.filter_eq_self.2] at htrail
    · exact htrail
    · intro attempt hattempt
      obtain ⟨hattempt, hgroup⟩ := List.mem_filter.1 hattempt
      exact hall attempt hattempt hgroup
  · rw [Execution.result] at hresult
    split at hresult
    · rename_i hfailure
      obtain rfl := Except.ok.inj hresult
      exact length_groupTrail hfailure
    · cases hresult

/-- A group that is ensured twice. -/
def sampleEnsured : List BridgeOp := [.ensureGroup ⟨4, .select, []⟩, .ensureGroup ⟨4, .select, []⟩]

theorem sampleEnsured_audited :
    ({} : Bridge).GroupsAudited sampleEnsured ∧ (({} : Bridge).groupTrail sampleEnsured).length = 2 := by
  obtain ⟨-, haudited, hcount⟩ := groups_audited_iff {} sampleEnsured
  refine ⟨haudited.2 ?_, hcount { groupsCreated := 1, groupsModified := 1 } ?_⟩
  · decide +kernel
  · decide +kernel

/-- A group that is ensured and deleted leaves one record of two operations. -/
theorem not_groups_audited :
    ¬({} : Bridge).GroupsAudited [.ensureGroup ⟨4, .select, []⟩, .deleteGroup 4] := by
  intro haudited
  have hlength := haudited.length_eq
  revert hlength
  decide +kernel

end Bridge

end ServiceChain
