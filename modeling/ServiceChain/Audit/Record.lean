import ServiceChain.Audit.Log
import ServiceChain.Json

/-!
# Audit records

Every change of a bridge or of the chains is reported once as a record: what was done to which
object, by which component, and how it ended.
-/

namespace ServiceChain

/-- What kind of change a record describes. -/
inductive AuditCategory where
  | bootstrap
  | configurationChange
  | flowProgramming
  | flowRemoval
  | groupLifecycle
  | chainLifecycle
  | classifierUpdate
  | validation
  deriving DecidableEq, Repr

namespace AuditCategory

/-- The name of a category. -/
def text : AuditCategory → String
  | bootstrap => "BOOTSTRAP"
  | configurationChange => "CONFIGURATION_CHANGE"
  | flowProgramming => "FLOW_PROGRAMMING"
  | flowRemoval => "FLOW_REMOVAL"
  | groupLifecycle => "GROUP_LIFECYCLE"
  | chainLifecycle => "CHAIN_LIFECYCLE"
  | classifierUpdate => "CLASSIFIER_UPDATE"
  | validation => "VALIDATION"

end AuditCategory

/-- How a change ended. -/
inductive AuditOutcome where
  | success
  | failure
  | inProgress
  /-- Refused before anything was changed. -/
  | denied
  deriving DecidableEq, Repr

namespace AuditOutcome

/-- The name of an outcome in messages. -/
def text : AuditOutcome → String
  | success => "success"
  | failure => "failure"
  | inProgress => "in_progress"
  | denied => "denied"

/-- A success is information, a failure or refusal a warning, work in progress a detail. -/
def level : AuditOutcome → LogLevel
  | success => .info
  | failure => .warn
  | denied => .warn
  | inProgress => .debug

end AuditOutcome

/-- One reported change. -/
structure AuditRecord where
  category : AuditCategory
  source : String
  action : String
  outcome : AuditOutcome := .inProgress
  objectId : Option String := none
  objectType : Option String := none
  details : Option Json := none
  error : Option String := none
  correlationId : Option String := none
  deriving Repr

namespace AuditRecord

/-- Records why a change failed; the outcome becomes a failure. -/
def withError (r : AuditRecord) (reason : String) : AuditRecord :=
  { r with error := some reason, outcome := .failure }

/-- The line under which a record is logged. -/
def message (r : AuditRecord) : String :=
  "AUDIT: " ++ r.category.text ++ " - " ++ r.action ++ " - " ++ r.outcome.text

end AuditRecord

/-- What is reported while something is done, in order. -/
inductive Event where
  | log (event : LogEvent)
  | audit (record : AuditRecord)
  deriving Repr

end ServiceChain
