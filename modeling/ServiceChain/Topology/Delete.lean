import ServiceChain.Topology.Create

/-!
# Deleting chains

The rules that remove a chain are those that install it, with its classifiers to be taken away, the
rules of other chains for the same details, and the number of nodes that use its groups.  The uses are
counted once and counted down from node to node.
-/

namespace ServiceChain

namespace Topology

/-- For each group that nodes lead to, the number of these nodes.  A count is held in 32 bits, which the live
nodes never use up; here it is cut to them only where a rule takes it. -/
def groupReferences (t : Topology) : Std.ExtTreeMap UInt32 Nat :=
  (t.allNodes.filterMap PathNode.groupId).foldl
    (fun counts groupId => counts.alter groupId fun count => some (count.getD 0 + 1)) ∅

/-- The count of a node's group. -/
def currentRefs (counts : Std.ExtTreeMap UInt32 Nat) (node : PathNode) : Option UInt32 :=
  (node.groupId.bind (counts[·]?)).map UInt32.ofNat

/-- The counts once a node is gone; none falls below zero. -/
def countDown (counts : Std.ExtTreeMap UInt32 Nat) (node : PathNode) : Std.ExtTreeMap UInt32 Nat :=
  match node.groupId with
  | none => counts
  | some groupId => counts.modify groupId (· - 1)

/-- The rules that remove nodes, each with the count that the nodes before it leave. -/
def nodesRemoval (env : TopologyEnv) (t : Topology) (chainId : String)
    (fcs : List FlowClassifier) (reversePath : Bool) (counts : Std.ExtTreeMap UInt32 Nat) :
    List PathNode → Except TopologyError (List FlowRule)
  | [] => .ok []
  | node :: nodes => do
    let rules ← t.removalRules env chainId { node with reversePath } fcs (currentRefs counts node)
    let more ← nodesRemoval env t chainId fcs reversePath (countDown counts node) nodes
    return rules ++ more

/-- The rules that remove a path. -/
def pathRemoval (env : TopologyEnv) (t : Topology) (chainId : String) (path : ChainPath) :
    Except TopologyError (List FlowRule) :=
  t.nodesRemoval env chainId path.classifiers (t.headIsBidirectional path) t.groupReferences path.nodes

/-- The report of a chain that was deleted. -/
def deletedEvents (chainId : String) (rules : Nat) : List Event :=
  [.log ⟨.info, "Topology", "port chain path deleted",
      [("chain", chainId), ("rules", toString rules)]⟩,
    .audit { chainRecord .chainLifecycle "delete_chain" chainId with outcome := .success }]

/-- Drops the path of a chain and answers the rules that remove it. -/
def deleteChain (env : TopologyEnv) (t : Topology) (chainId : String) :
    TopologyStep (List FlowRule) :=
  match t.path? chainId with
  | none => ⟨t, .error (.chainNotFound chainId), []⟩
  | some path =>
    match t.pathRemoval env chainId path with
    | .error e => ⟨t, .error e, []⟩
    | .ok rules =>
      let dropped := t.dropChain chainId
      let stats := dropped.stats
      { topology :=
          { dropped with
            stats :=
              { stats with
                nodesRemoved := stats.nodesRemoved + path.nodes.length
                chainsDeleted := stats.chainsDeleted + 1 } }
        result := .ok rules
        events := deletedEvents chainId rules.length }

end Topology

end ServiceChain
