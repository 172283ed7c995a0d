import ServiceChain.Agent.Basic
import ServiceChain.Agent.Config
import ServiceChain.Audit.Record
import ServiceChain.Wire.Classifier

/-!
# Wire form of settings, events and counters
-/

namespace ServiceChain

open Wire

namespace AgentConfig

/-- Every setting may be absent, none may be `null`. -/
def ofJson? (j : Json) : Option AgentConfig := do
  let fs ← fieldsOf j
  return {
    bridge := ← defaulted fs "bridge" "br-int" readString
    host := ← defaulted fs "local_host" "" readString
    transportPort := ← defaulted fs "transport_ofport" 1 readUInt32
    policy := ← defaulted fs "classifier_policy" .atLeastOne ClassifierPolicy.ofJson? }

def toJson (c : AgentConfig) : Json :=
  .obj [("bridge", .str c.bridge), ("local_host", .str c.host),
    ("transport_ofport", writeUInt32 c.transportPort), ("classifier_policy", c.policy.toJson)]

end AgentConfig

namespace AuditCategory

def ofJson? : Json → Option AuditCategory :=
  readName [bootstrap, configurationChange, flowProgramming, flowRemoval, groupLifecycle,
    chainLifecycle, classifierUpdate, validation] text

def toJson (c : AuditCategory) : Json := .str c.text

end AuditCategory

namespace AuditOutcome

/-- The name of an outcome in records. -/
def name : AuditOutcome → String
  | success => "success"
  | failure => "failure"
  | inProgress => "inprogress"
  | denied => "denied"

def ofJson? : Json → Option AuditOutcome := readName [success, failure, inProgress, denied] name

def toJson (o : AuditOutcome) : Json := .str o.name

end AuditOutcome

namespace AuditRecord

/-- What a record does not say is left out. -/
def toJson (r : AuditRecord) : Json :=
  .obj ([("category", r.category.toJson), ("source", .str r.source), ("action", .str r.action),
    ("outcome", r.outcome.toJson)] ++
    present "object_id" Json.str r.objectId ++
    present "object_type" Json.str r.objectType ++
    present "details" id r.details ++
    present "error" Json.str r.error ++
    present "correlation_id" Json.str r.correlationId)

end AuditRecord

namespace LogEvent

def toJson (e : LogEvent) : Json :=
  .obj [("level", .str e.level.text), ("source", .str e.source), ("message", .str e.message),
    ("fields", .obj (e.fields.map fun (name, text) => (name, .str text)))]

end LogEvent

namespace AgentStats

def toJson (s : AgentStats) : Json :=
  .obj [("rules_applied", .nat s.rulesApplied), ("rules_deleted", .nat s.rulesDeleted),
    ("rules_failed", .nat s.rulesFailed), ("flows_added", .nat s.flowsAdded),
    ("flow_deletes", .nat s.flowDeletes), ("groups_created", .nat s.groupsCreated),
    ("groups_modified", .nat s.groupsModified), ("groups_deleted", .nat s.groupsDeleted)]

end AgentStats

end ServiceChain
