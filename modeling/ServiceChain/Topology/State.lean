import Std.Data.ExtTreeSet
import ServiceChain.Audit.Log
import ServiceChain.Topology.Records

/-!
# The state of the topology

The topology owns the path of every live chain, the details of the ports bound to path nodes, the
associations of the two, and for each VXLAN network in use a VLAN id that tags its chain traffic.
Details live as long as an association names them, tags as long as a detail is on their network.
-/

namespace ServiceChain

/-- The path of a live chain, and the classifiers that feed it. -/
structure ChainPath where
  classifiers : List FlowClassifier
  head : PathNode
  hops : List PathNode
  tail : PathNode
  deriving DecidableEq, Repr

namespace ChainPath

/-- The nodes in the order of the path. -/
def nodes (p : ChainPath) : List PathNode := p.head :: p.hops ++ [p.tail]

/-- Changes every node. -/
def mapNodes (f : PathNode → PathNode) (p : ChainPath) : ChainPath :=
  { p with head := f p.head, hops := p.hops.map f, tail := f p.tail }

end ChainPath

/-- What the topology has done so far.  The counters start at zero and a call raises each by at most the nodes
of a path, so the 64 bits that hold one are never used up; they are not bounded here. -/
structure TopologyStats where
  chainsCreated : Nat := 0
  chainsDeleted : Nat := 0
  chainsRejected : Nat := 0
  nodesCreated : Nat := 0
  nodesRemoved : Nat := 0
  classifierUpdates : Nat := 0
  deriving DecidableEq, Repr

/-- The paths of all live chains. -/
structure Topology where
  chains : Std.ExtTreeMap String ChainPath := ∅
  details : Std.ExtTreeMap String PortDetail := ∅
  assocs : List PathPort := []
  /-- The tag held for each VXLAN network. -/
  tags : Std.ExtTreeMap UInt32 SegmentId := ∅
  stats : TopologyStats := {}
  /-- How many ids have been issued. -/
  issued : Nat := 0
  deriving DecidableEq

namespace Topology

instance : Inhabited Topology := ⟨{}⟩

/-! ## Views -/

/-- The path of a chain. -/
def path? (t : Topology) (chainId : String) : Option ChainPath := t.chains[chainId]?

/-- The details bound to a node. -/
def nodeDetails (t : Topology) (node : PathNode) : List PortDetail :=
  node.portDetails.filterMap (t.details[·]?)

/-- All nodes, chain by chain. -/
def allNodes (t : Topology) : List PathNode := t.chains.values.flatMap ChainPath.nodes

/-! ## Tags -/

/-- The tags and VLAN ids in use. -/
def usedVlans (t : Topology) : List Nat :=
  t.tags.values.map SegmentId.toNat ++
    (t.details.values.filterMap PortDetail.vlan?).map UInt32.toNat

/-- The tag that the next VXLAN network gets. -/
def freeTag? (t : Topology) : Option SegmentId := SegmentId.highestOutside t.usedVlans

/-- The network of a detail that has no tag yet. -/
def untagged? (t : Topology) (detail : PortDetail) : Option UInt32 :=
  detail.vni?.filter fun vni => !t.tags.contains vni

/-- Holds a tag for the network of a detail, if one is left. -/
def reserveTag (t : Topology) (detail : PortDetail) : Topology :=
  match t.untagged? detail with
  | none => t
  | some vni =>
    match t.freeTag? with
    | none => t
    | some tag => { t with tags := t.tags.insert vni tag }

/-- The event of a network that has no tag after one was to be held for it. -/
def untaggedNotices (t : Topology) (detail : PortDetail) : List LogEvent :=
  match t.untagged? detail with
  | none => []
  | some vni =>
    [⟨.warn, "Topology", "no local VLAN left for VXLAN segment",
      [("vni", toString vni.toNat)]⟩]

/-! ## Associations -/

/-- A topology and a node whose details are being bound. -/
structure Binding where
  topology : Topology
  node : PathNode
  notices : List LogEvent := []

/-- Binds a detail to a node, unless it is bound already.  What was known of the detail is
replaced. -/
def associate (s : Binding) (detail : PortDetail) (weight : UInt32) : Binding :=
  if s.node.portDetails.contains detail.id then s
  else
    let t := s.topology.reserveTag detail
    { topology :=
        { t with
          assocs := t.assocs ++ [⟨s.node.id, detail.id, weight⟩]
          details := t.details.insert detail.id detail }
      node := { s.node with portDetails := s.node.portDetails ++ [detail.id] }
      notices := s.notices ++ t.untaggedNotices detail }

/-- Binds details to a node in turn. -/
def associateAll (t : Topology) (node : PathNode) (details : List (PortDetail × UInt32)) :
    Binding :=
  details.foldl (fun s (detail, weight) => associate s detail weight) ⟨t, node, []⟩

/-- Drops the details that no association names, and the tags of networks without details. -/
def prune (t : Topology) : Topology :=
  let named := Std.ExtTreeSet.ofList (t.assocs.map PathPort.detailId)
  let details := t.details.filter fun id _ => named.contains id
  let vnis := Std.ExtTreeSet.ofList (details.values.filterMap PortDetail.vni?)
  { t with details, tags := t.tags.filter fun vni _ => vnis.contains vni }

/-- Drops a chain with its nodes and all that only they need. -/
def dropChain (t : Topology) (chainId : String) : Topology :=
  match t.path? chainId with
  | none => t
  | some path =>
    let removed := path.nodes.map PathNode.id
    prune
      { t with
        chains := t.chains.erase chainId
        assocs := t.assocs.filter fun a => !removed.contains a.nodeId }

/-! ## Direction -/

/-- The head has a source and a destination. -/
def headIsBidirectional (t : Topology) (path : ChainPath) : Bool :=
  isBidirectional (t.nodeDetails path.head)

/-- The head decides for every node whether there is a way back. -/
def refreshReversePath (t : Topology) (chainId : String) : Topology :=
  match t.path? chainId with
  | none => t
  | some path =>
    let reversePath := t.headIsBidirectional path
    { t with chains := t.chains.insert chainId (path.mapNodes ({ · with reversePath })) }

end Topology

end ServiceChain
