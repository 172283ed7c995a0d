import ServiceChain.Audit.Record
import ServiceChain.Bridge.Basic

/-!
# Replaying operations

A list of operations is replayed in order, up to the first that fails; what ran before it stays.
Ensuring a group asks for it first, then adds or replaces it, and is the one operation that leaves an
audit record, if the question was answered.
-/

namespace ServiceChain

/-- What an operation did. -/
inductive Effect where
  | flowAdded
  | flowsDeleted
  | groupCreated
  | groupModified
  | groupDeleted
  | groupsCleared
  deriving DecidableEq, Repr

/-- How often a run of operations had each effect.  A counter is at most the number of operations in the list,
which fits the 64 bits that hold it; it is not bounded here. -/
structure Tally where
  flowsAdded : Nat := 0
  flowDeletes : Nat := 0
  groupsCreated : Nat := 0
  groupsModified : Nat := 0
  groupsDeleted : Nat := 0
  deriving DecidableEq, Repr

namespace Tally

/-- Counts the effects of a run; clearing all groups is not counted. -/
def ofEffects (effects : List Effect) : Tally where
  flowsAdded := effects.count .flowAdded
  flowDeletes := effects.count .flowsDeleted
  groupsCreated := effects.count .groupCreated
  groupsModified := effects.count .groupModified
  groupsDeleted := effects.count .groupDeleted

end Tally

namespace Bridge

/-! ## Ensuring a group -/

/-- Whether ensuring a group has to add or to replace it. -/
def ensurePlan (b : Bridge) (id : UInt32) : Except BridgeError Primitive := do
  match ← b.dumpGroup id with
  | none => return .addGroup
  | some _ => return .modifyGroup

/-- Carries out a plan for a group. -/
def ensureWith (b : Bridge) (group : GroupSpec) :
    Primitive → Except BridgeError (Bridge × Effect)
  | .addGroup => (b.addGroup group).map (·, .groupCreated)
  | _ => (b.modifyGroup group).map (·, .groupModified)

/-- Adds a group, or replaces the one with its id. -/
def ensureGroup (b : Bridge) (group : GroupSpec) : Except BridgeError (Bridge × Effect) := do
  b.ensureWith group (← b.ensurePlan group.id)

/-- The record of a group that was added or replaced, or could not be. -/
def groupRecord (group : GroupSpec) (plan : Primitive) (failure : Option BridgeError) :
    AuditRecord :=
  let record : AuditRecord :=
    { category := .groupLifecycle, source := "GroupManager", action := plan.text
      objectId := some (toString group.id.toNat), objectType := some "select_group" }
  match failure with
  | none =>
    { record with
      outcome := .success
      details := some (.obj [("buckets", .arr (group.buckets.map fun b => .str b.text))]) }
  | some e => record.withError e.message

/-- The failure of a result. -/
def failure? {α : Type} : Except BridgeError α → Option BridgeError
  | .ok _ => none
  | .error e => some e

/-- The records of ensuring a group: none if the switch did not answer what is there. -/
def ensureRecords (b : Bridge) (group : GroupSpec) : List AuditRecord :=
  match b.ensurePlan group.id with
  | .error _ => []
  | .ok plan => [groupRecord group plan (failure? (b.ensureWith group plan))]

/-! ## Operations -/

/-- Performs one operation. -/
def perform (b : Bridge) : BridgeOp → Except BridgeError (Bridge × Effect)
  | .addFlow entry => (b.addFlow entry).map (·, .flowAdded)
  | .deleteFlows table priority pattern =>
    (b.deleteFlows table priority pattern).map (·, .flowsDeleted)
  | .ensureGroup group => b.ensureGroup group
  | .deleteGroup id => (b.deleteGroup id).map (·, .groupDeleted)
  | .deleteAllGroups => b.deleteAllGroups.map (·, .groupsCleared)

/-- The audit records of one operation. -/
def records (b : Bridge) : BridgeOp → List AuditRecord
  | .ensureGroup group => b.ensureRecords group
  | _ => []

end Bridge

/-- A finished run: the bridge it left, what it did, what it recorded, and why it stopped early. -/
structure Execution where
  bridge : Bridge
  effects : List Effect
  records : List AuditRecord
  failure : Option BridgeError

namespace Execution

/-- The counts of a run that was not stopped, or why it was. -/
def result (run : Execution) : Except BridgeError Tally :=
  match run.failure with
  | none => .ok (Tally.ofEffects run.effects)
  | some e => .error e

end Execution

namespace Bridge

/-- Replays operations up to the first that fails. -/
def execute (b : Bridge) : List BridgeOp → Execution
  | [] => ⟨b, [], [], none⟩
  | op :: ops =>
    match b.perform op with
    | .error e => ⟨b, [], b.records op, some e⟩
    | .ok (next, effect) =>
      let rest := next.execute ops
      { rest with effects := effect :: rest.effects, records := b.records op ++ rest.records }

end Bridge

end ServiceChain
