import ServiceChain.Bridge.Execute
import ServiceChain.Rule.Compile

/-!
# Agents

An agent programs one bridge.  It compiles each rule, replays the operations, counts them, and
reports the rule as active or in error.  A rule that fails stops neither the rules after it nor takes
back what is installed.
-/

namespace ServiceChain

/-- What an agent has done so far.  The counters start at zero and a rule raises each by at most the number of
its operations, so the 64 bits that hold one are never used up; they are not bounded here. -/
structure AgentStats where
  rulesApplied : Nat := 0
  rulesDeleted : Nat := 0
  rulesFailed : Nat := 0
  flowsAdded : Nat := 0
  flowDeletes : Nat := 0
  groupsCreated : Nat := 0
  groupsModified : Nat := 0
  groupsDeleted : Nat := 0
  deriving DecidableEq, Repr

namespace AgentStats

/-- Adds the counts of a run. -/
def record (stats : AgentStats) (tally : Tally) : AgentStats :=
  { stats with
    flowsAdded := stats.flowsAdded + tally.flowsAdded
    flowDeletes := stats.flowDeletes + tally.flowDeletes
    groupsCreated := stats.groupsCreated + tally.groupsCreated
    groupsModified := stats.groupsModified + tally.groupsModified
    groupsDeleted := stats.groupsDeleted + tally.groupsDeleted }

/-- Counts a rule that was installed or removed. -/
def countRule (stats : AgentStats) (install : Bool) : AgentStats :=
  if install then { stats with rulesApplied := stats.rulesApplied + 1 }
  else { stats with rulesDeleted := stats.rulesDeleted + 1 }

/-- Counts a rule that failed. -/
def countFailure (stats : AgentStats) : AgentStats :=
  { stats with rulesFailed := stats.rulesFailed + 1 }

end AgentStats

/-- An agent and its bridge. -/
structure Agent where
  ctx : HostContext
  bridge : Bridge := {}
  stats : AgentStats := {}
  deriving DecidableEq

namespace Agent

/-! ## Bootstrap -/

/-- Clears the groups and the two chain tables, and installs the static entries: traffic under an
MPLS label goes to the chain ingress table, which drops what it does not know. -/
def bootstrapOps : List BridgeOp :=
  [.deleteAllGroups,
    .deleteFlows (some .crossSubnet) none FlowMatch.any,
    .deleteFlows (some .chainIngress) none FlowMatch.any,
    .addFlow
      ⟨⟨.localSwitching, Priority.fallback, { dlType := some EtherType.mplsUnicast }⟩,
        [.gotoTable .chainIngress]⟩,
    .addFlow ⟨⟨.chainIngress, Priority.drop, FlowMatch.any⟩, [.drop]⟩]

/-- An agent after a bootstrap, how it went, and what was reported. -/
structure Bootstrapped where
  agent : Agent
  result : Except BridgeError Unit
  events : List Event

/-- The record of a bootstrap. -/
def bootstrapRecord (agent : Agent) : AuditRecord :=
  { category := .bootstrap, source := "SfcAgent", action := "initialize"
    objectId := some agent.ctx.bridge, objectType := some "bridge" }

/-- Prepares the bridge. -/
def bootstrap (agent : Agent) : Bootstrapped :=
  let run := agent.bridge.execute bootstrapOps
  let recorded := run.records.map Event.audit
  match run.result with
  | .ok tally =>
    { agent := { agent with bridge := run.bridge, stats := agent.stats.record tally }
      result := .ok ()
      events := recorded ++
        [.log ⟨.info, "SfcAgent", "chain pipeline initialized", [("bridge", agent.ctx.bridge)]⟩,
          .audit { agent.bootstrapRecord with outcome := .success }] }
  | .error e =>
    { agent := { agent with bridge := run.bridge }
      result := .error e
      events := recorded ++
        [.log ⟨.error, "SfcAgent", "pipeline bootstrap failed",
            [("bridge", agent.ctx.bridge), ("error", e.message)]⟩,
          .audit (agent.bootstrapRecord.withError e.message)] }

/-! ## Rules -/

/-- The operations for a rule on the agent's bridge. -/
def ruleOps (agent : Agent) (rule : FlowRule) (install : Bool) :
    Except CompileError (List BridgeOp) :=
  if install then rule.installOps agent.ctx agent.bridge.ports
  else rule.removeOps agent.ctx agent.bridge.ports

/-- The events of compiling a rule. -/
def ruleNotices (agent : Agent) (rule : FlowRule) (install : Bool) : List LogEvent :=
  if install then rule.installNotices agent.ctx agent.bridge.ports
  else rule.removeNotices agent.ctx agent.bridge.ports

/-- The name of installing or removing a rule. -/
def actionName (install : Bool) : String :=
  if install then "update_flow_rule" else "delete_flow_rule"

/-- The record of a rule, tied to the other rules of its path node. -/
def ruleRecord (rule : FlowRule) (install : Bool) : AuditRecord :=
  { category := if install then .flowProgramming else .flowRemoval
    source := "SfcAgent", action := actionName install
    objectId := some rule.id, objectType := some "flow_rule", correlationId := some rule.nodeId }

/-- What is recorded of a rule that was programmed. -/
def ruleDetails (rule : FlowRule) (tally : Tally) : Json :=
  .obj [("node_role", .str rule.role.text), ("nsp", .nat rule.nsp.toNat),
    ("nsi", .nat rule.nsi.toNat), ("flows_added", .nat tally.flowsAdded),
    ("flow_deletes", .nat tally.flowDeletes)]

/-- The record of a rule that is in force. -/
def successEvents (rule : FlowRule) (install : Bool) (tally : Tally) : List Event :=
  [.audit { ruleRecord rule install with
      outcome := .success, details := some (ruleDetails rule tally) }]

/-- The report and the record of a rule that failed. -/
def failureEvents (rule : FlowRule) (install : Bool) (e : RuleError) : List Event :=
  [.log ⟨.error, "SfcAgent", actionName install ++ " failed",
      [("rule", rule.id), ("nsp", toString rule.nsp.toNat), ("nsi", toString rule.nsi.toNat),
        ("error", e.message)]⟩,
    .audit ((ruleRecord rule install).withError e.message)]

/-- An agent after a rule, its status, and what was reported. -/
structure Applied where
  agent : Agent
  status : RuleStatus
  events : List Event

/-- Installs or removes one rule. -/
def apply (agent : Agent) (rule : FlowRule) (install : Bool) : Applied :=
  let notices := (agent.ruleNotices rule install).map Event.log
  match agent.ruleOps rule install with
  | .error e =>
    { agent := { agent with stats := agent.stats.countFailure }
      status := .error
      events := notices ++ failureEvents rule install (.compile e) }
  | .ok ops =>
    let run := agent.bridge.execute ops
    let recorded := notices ++ run.records.map Event.audit
    match run.result with
    | .error e =>
      { agent := { agent with bridge := run.bridge, stats := agent.stats.countFailure }
        status := .error
        events := recorded ++ failureEvents rule install (.bridge e) }
    | .ok tally =>
      { agent :=
          { agent with
            bridge := run.bridge, stats := (agent.stats.record tally).countRule install }
        status := .active
        events := recorded ++ successEvents rule install tally }

/-- An agent after a batch of rules, a report for each in order, and what was reported. -/
structure Batch where
  agent : Agent
  reports : List RuleReport
  events : List Event

/-- Installs or removes rules in turn. -/
def applyAll (agent : Agent) (install : Bool) : List FlowRule → Batch
  | [] => ⟨agent, [], []⟩
  | rule :: rules =>
    let done := agent.apply rule install
    let rest := done.agent.applyAll install rules
    ⟨rest.agent, ⟨rule.id, done.status⟩ :: rest.reports, done.events ++ rest.events⟩

/-- Installs rules in turn. -/
def updateRules (agent : Agent) (rules : List FlowRule) : Batch := agent.applyAll true rules

/-- Removes rules in turn. -/
def deleteRules (agent : Agent) (rules : List FlowRule) : Batch := agent.applyAll false rules

end Agent

end ServiceChain
