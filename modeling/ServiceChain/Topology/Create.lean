import ServiceChain.Audit.Record
import ServiceChain.Topology.Plan

/-!
# Creating chains

A chain that passes its checks gets a path: the head at index 255, a node for each hop below it, and
the tail.  If its rules cannot be built after all, the path is dropped again.
-/

namespace ServiceChain

/-- A topology after an operation, what the operation answered, and what it reported. -/
structure TopologyStep (α : Type) where
  topology : Topology
  result : Except TopologyError α
  events : List Event

namespace Topology

/-- The index of the head. -/
def headIndex : Nat := 255

/-- A node without details. -/
def newNode (env : TopologyEnv) (plan : ChainPlan) (role : NodeRole) (position : Nat)
    (nextGroup : Option NextHopGroup) : PathNode where
  id := env.newId (plan.nextId + position)
  role
  nsp := plan.nsp
  nsi := UInt8.ofNat (headIndex - position)
  chainId := plan.chainId
  nextGroup

/-- A topology with the nodes made so far. -/
structure Laying where
  topology : Topology
  nodes : List PathNode
  notices : List LogEvent

/-- Makes the nodes of hops from a position on; each leads to the group of the hop after it. -/
def layHops (env : TopologyEnv) (plan : ChainPlan) : Topology → Nat → List Hop → Laying
  | t, _, [] => ⟨t, [], []⟩
  | t, position, hop :: hops =>
    let node := newNode env plan .serviceFunction position (hops.head?.bind Hop.nextGroup)
    let bound := associateAll t node hop.details
    let rest := layHops env plan bound.topology (position + 1) hops
    ⟨rest.topology, bound.node :: rest.nodes, bound.notices ++ rest.notices⟩

/-- Binds details to the head of a chain. -/
def attachEnds (t : Topology) (chainId : String) (ends : List PortDetail) :
    Topology × List LogEvent :=
  match t.path? chainId with
  | none => (t, [])
  | some path =>
    let bound := associateAll t path.head (ends.map (·, 1))
    let t := bound.topology
    ({ t with chains := t.chains.insert chainId { path with head := bound.node } }, bound.notices)

/-- Gives a chain the path of a plan. -/
def lay (env : TopologyEnv) (t : Topology) (plan : ChainPlan) : Topology × List LogEvent :=
  let count := plan.hops.length
  let t := { t with issued := plan.nextId + count + 2 }
  let head := newNode env plan .source 0 (plan.hops.head?.bind Hop.nextGroup)
  let tail := newNode env plan .destination (count + 1) none
  let laid := layHops env plan t 1 plan.hops
  let path : ChainPath := { classifiers := plan.classifiers, head, hops := laid.nodes, tail }
  let t := laid.topology
  let (t, notices) :=
    attachEnds { t with chains := t.chains.insert plan.chainId path } plan.chainId plan.ends
  (t.refreshReversePath plan.chainId, laid.notices ++ notices)

/-- Counts the nodes of a path that stays. -/
def countNodes (t : Topology) (plan : ChainPlan) : Topology :=
  { t with
    stats := { t.stats with nodesCreated := t.stats.nodesCreated + (plan.hops.length + 2) } }

/-- Builds the path of a chain; the counters of chains are left to the caller. -/
def build (env : TopologyEnv) (t : Topology) (chainId : String) :
    TopologyStep (List FlowRule) :=
  match t.plan env chainId with
  | .error e => ⟨t, .error e, []⟩
  | .ok plan =>
    let (laid, notices) := t.lay env plan
    let events := notices.map Event.log
    match laid.flowRules env plan.chainId with
    | .ok rules => ⟨laid.countNodes plan, .ok rules, events⟩
    | .error e => ⟨laid.dropChain plan.chainId, .error e, events⟩

/-! ## Reports -/

/-- The record of a change to a chain. -/
def chainRecord (category : AuditCategory) (action chainId : String) : AuditRecord :=
  { category, source := "Topology", action
    objectId := some chainId, objectType := some "port_chain" }

/-- The report of a chain that was created. -/
def createdEvents (chainId : String) (nodes rules : Nat) : List Event :=
  [.log ⟨.info, "Topology", "port chain path created",
      [("chain", chainId), ("nodes", toString nodes), ("rules", toString rules)]⟩,
    .audit
      { chainRecord .chainLifecycle "create_chain" chainId with
        outcome := .success
        details := some (.obj [("nodes", .nat nodes), ("flow_rules", .nat rules)]) }]

/-- The report of a chain that was refused. -/
def rejectedEvents (chainId : String) (e : TopologyError) : List Event :=
  let category := if e.isValidation then .validation else .chainLifecycle
  [.log ⟨.warn, "Topology", "port chain rejected", [("chain", chainId), ("error", e.message)]⟩,
    .audit
      { (chainRecord category "create_chain" chainId).withError e.message with
        outcome := .denied }]

/-- Builds the path of a chain and answers the rules that install it.  A chain that is refused
leaves nothing behind. -/
def createChain (env : TopologyEnv) (t : Topology) (chainId : String) :
    TopologyStep (List FlowRule) :=
  let built := t.build env chainId
  let stats := built.topology.stats
  match built.result with
  | .ok rules =>
    let nodes := ((built.topology.path? chainId).map (·.nodes.length)).getD 0
    { topology :=
        { built.topology with
          stats := { stats with chainsCreated := stats.chainsCreated + 1 } }
      result := .ok rules
      events := built.events ++ createdEvents chainId nodes rules.length }
  | .error e =>
    { topology :=
        { built.topology with
          stats := { stats with chainsRejected := stats.chainsRejected + 1 } }
      result := .error e
      events := built.events ++ rejectedEvents chainId e }

end Topology

end ServiceChain
