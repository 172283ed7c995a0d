import Mathlib.Tactic.Common
import ServiceChain.Bridge.Execute
import ServiceChain.Proofs.Except

/-!
# Operations that fail

An operation calls primitives (`Bridge.calls`), and fails just if one of them is set to fail
(`Bridge.perform_eq_error_iff`).  Ensuring a group asks first what is there, so it never adds a group that
exists or replaces one that does not.
-/

namespace ServiceChain

namespace Bridge

variable {b : Bridge} {op : BridgeOp}

/-! ## Calls -/

/-- The primitives that an operation calls, in order. -/
def calls (b : Bridge) : BridgeOp → List Primitive
  | .addFlow _ => [.addFlow]
  | .deleteFlows _ _ _ => [.deleteFlows]
  | .ensureGroup group =>
    [.dumpGroup, if (b.group? group.id).isSome then .modifyGroup else .addGroup]
  | .deleteGroup _ => [.deleteGroup]
  | .deleteAllGroups => [.deleteAllGroups]

/-- The first call of an operation that is set to fail. -/
def blocker? (b : Bridge) (op : BridgeOp) : Option Primitive :=
  (b.calls op).find? (· ∈ b.failing)

theorem check_eq_error_iff {p : Primitive} {e : BridgeError} :
    b.check p = .error e ↔ p ∈ b.failing ∧ e = ⟨p, .injected⟩ := by
  unfold check
  split <;> simp_all [eq_comm]

/-- An operation that calls one primitive fails as the call does. -/
theorem perform_eq_error_of_single {p : Primitive} {act : Unit → Except BridgeError Bridge}
    {effect : Effect} {e : BridgeError} (hcalls : b.calls op = [p])
    (hop : b.perform op = (b.check p >>= act).map (·, effect)) (hact : ∀ u, ∃ next, act u = .ok next) :
    b.perform op = .error e ↔ ∃ q, b.blocker? op = some q ∧ e = ⟨q, .injected⟩ := by
  rw [hop, Except.map_eq_error, Except.bind_eq_error_iff_left hact, check_eq_error_iff, blocker?, hcalls]
  by_cases hp : p ∈ b.failing <;> simp [hp]

/-! ## Ensuring a group -/

theorem ensurePlan_of_failing (hdump : .dumpGroup ∈ b.failing) (id : UInt32) :
    b.ensurePlan id = .error ⟨.dumpGroup, .injected⟩ := by
  rw [ensurePlan, dumpGroup, check, if_pos hdump]
  rfl

theorem ensurePlan_eq (hdump : .dumpGroup ∉ b.failing) (id : UInt32) :
    b.ensurePlan id = .ok (if (b.group? id).isSome then .modifyGroup else .addGroup) := by
  have hcheck : b.check .dumpGroup = .ok () := if_neg hdump
  rw [ensurePlan, dumpGroup, hcheck]
  cases b.group? id <;> rfl

/-- The plan for a group is an answer of the switch. -/
theorem exists_ensurePlan_iff {id : UInt32} :
    (∃ plan, b.ensurePlan id = .ok plan) ↔ .dumpGroup ∉ b.failing := by
  constructor
  · rintro ⟨plan, hplan⟩ hfails
    rw [ensurePlan_of_failing hfails] at hplan
    cases hplan
  · intro hanswers
    exact ⟨_, ensurePlan_eq hanswers id⟩

/-- What is planned for a group fits what is there. -/
theorem ensureWith_eq_error_iff {group : GroupSpec} {e : BridgeError} {plan : Primitive}
    (hplan : plan = if (b.group? group.id).isSome then .modifyGroup else .addGroup) :
    b.ensureWith group plan = .error e ↔ plan ∈ b.failing ∧ e = ⟨plan, .injected⟩ := by
  have hmem : (b.group? group.id).isSome ↔ group.id ∈ b.groups :=
    Std.ExtTreeMap.mem_iff_isSome_getElem?.symm
  by_cases hgroup : (b.group? group.id).isSome
  · rw [if_pos hgroup] at hplan
    subst hplan
    show (b.modifyGroup group).map (·, Effect.groupModified) = .error e ↔ _
    rw [Except.map_eq_error, modifyGroup, if_pos (hmem.1 hgroup)]
    exact (Except.bind_eq_error_iff_left fun _ => ⟨_, rfl⟩).trans check_eq_error_iff
  · rw [if_neg hgroup] at hplan
    subst hplan
    show (b.addGroup group).map (·, Effect.groupCreated) = .error e ↔ _
    rw [Except.map_eq_error, addGroup, if_neg (mt hmem.2 hgroup)]
    exact (Except.bind_eq_error_iff_left fun _ => ⟨_, rfl⟩).trans check_eq_error_iff

theorem ensureGroup_eq_error_iff {group : GroupSpec} {e : BridgeError} :
    b.ensureGroup group = .error e ↔
      ∃ p, b.blocker? (.ensureGroup group) = some p ∧ e = ⟨p, .injected⟩ := by
  rw [blocker?, calls, ensureGroup]
  by_cases hdump : .dumpGroup ∈ b.failing
  · rw [ensurePlan_of_failing hdump, List.find?_cons_of_pos (by simpa using hdump)]
    simp [bind, Except.bind, eq_comm]
  · rw [ensurePlan_eq hdump, List.find?_cons_of_neg (by simpa using hdump)]
    generalize hplan : (if (b.group? group.id).isSome then Primitive.modifyGroup else .addGroup) = plan
    refine (ensureWith_eq_error_iff hplan.symm).trans ?_
    by_cases hfails : plan ∈ b.failing <;> simp [hfails]

/-! ## All operations -/

/-- An operation fails just if a primitive that it calls is set to fail. -/
theorem perform_eq_error_iff {e : BridgeError} :
    b.perform op = .error e ↔ ∃ p, b.blocker? op = some p ∧ e = ⟨p, .injected⟩ := by
  cases op with
  | addFlow entry => exact perform_eq_error_of_single rfl rfl fun _ => ⟨_, rfl⟩
  | deleteFlows table priority pattern =>
    refine perform_eq_error_of_single rfl rfl fun _ => ?_
    split <;> exact ⟨_, rfl⟩
  | ensureGroup group => exact ensureGroup_eq_error_iff
  | deleteGroup id => exact perform_eq_error_of_single rfl rfl fun _ => ⟨_, rfl⟩
  | deleteAllGroups => exact perform_eq_error_of_single rfl rfl fun _ => ⟨_, rfl⟩

/-- Every operation succeeds on a bridge without injected failures. -/
theorem perform_ok (hb : b.failing = []) (op : BridgeOp) : ∃ done, b.perform op = .ok done := by
  rw [Except.exists_eq_ok_iff]
  intro e he
  obtain ⟨p, hp, -⟩ := perform_eq_error_iff.1 he
  have hfails := List.find?_some hp
  simp [hb] at hfails

end Bridge

end ServiceChain
