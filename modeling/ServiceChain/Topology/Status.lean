import ServiceChain.Topology.State

/-!
# Statuses of path nodes

Agents report on rules; a node that is mentioned becomes active if all reports on its rules are, and
is in error otherwise.
-/

namespace ServiceChain

namespace Topology

/-- Takes in a report: for each node that was mentioned, the outcomes tell whether all reports on its rules
were active so far. -/
def takeReport (outcomes : Std.ExtTreeMap String Bool) (report : RuleReport) :
    Std.ExtTreeMap String Bool :=
  let ok := report.status == .active
  outcomes.alter report.nodeId fun
    | some all => some (all && ok)
    | none => some ok

/-- What a list of reports comes to, node by node. -/
def outcomesOf (reports : List RuleReport) : Std.ExtTreeMap String Bool :=
  reports.foldl takeReport ∅

/-- The status that outcomes give a node, `none` if they do not have it. -/
def outcomeStatus? (outcomes : Std.ExtTreeMap String Bool) (nodeId : String) : Option NodeStatus :=
  outcomes[nodeId]?.map fun ok => if ok then .active else .error

/-- Gives a node the status that outcomes give it. -/
def reportTo (outcomes : Std.ExtTreeMap String Bool) (node : PathNode) : PathNode :=
  { node with status := (outcomeStatus? outcomes node.id).getD node.status }

/-- Gives every mentioned node its status; answers their number. -/
def recordStatuses (t : Topology) (reports : List RuleReport) : Topology × Nat :=
  let outcomes := outcomesOf reports
  ({ t with chains := t.chains.map fun _ path => path.mapNodes (reportTo outcomes) },
    t.allNodes.countP fun node => (outcomeStatus? outcomes node.id).isSome)

end Topology

end ServiceChain
