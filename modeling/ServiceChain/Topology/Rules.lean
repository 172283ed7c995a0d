import ServiceChain.Topology.Error
import ServiceChain.Topology.State
import ServiceChain.Topology.Store

/-!
# Rules of a path

Every detail with a host gives one rule at each node that it is bound to.  A rule of the head carries
the classifiers that start or end at its own port, a rule of a service function all of them.
-/

namespace ServiceChain

/-- What the topology works with: the records, the policy for classifiers, and the ids it gives to
new nodes and details. -/
structure TopologyEnv where
  store : Store
  policy : ClassifierPolicy
  newId : Nat → String

namespace Topology

/-- The classifier starts or ends at a port of the given pair of ends. -/
def touches (ingress egress : Option String) (fc : FlowClassifier) : Bool :=
  (egress.isSome && egress == fc.logicalSource) ||
    (ingress.isSome && ingress == fc.logicalDestination)

/-- Fills in the address of each logical port and, where the classifier leaves the network open, the
network of the port's own address. -/
def enrich (env : TopologyEnv) (fc : FlowClassifier) : FlowClassifier :=
  let source := fc.logicalSource.bind env.store.binding?
  let destination := fc.logicalDestination.bind env.store.binding?
  { fc with
    sourceMac := (source.map PortBinding.mac).or fc.sourceMac
    sourceNet := fc.sourceNet.or ((source.bind PortBinding.fixedIp).map (.v4 ∘ Ipv4Net.host))
    destinationMac := (destination.map PortBinding.mac).or fc.destinationMac
    destinationNet :=
      fc.destinationNet.or ((destination.bind PortBinding.fixedIp).map (.v4 ∘ Ipv4Net.host)) }

/-- The classifiers that a rule of the given role and ports carries. -/
def classifiersFor (env : TopologyEnv) (role : NodeRole) (detail : PortDetail)
    (fcs : List FlowClassifier) : List FlowClassifier :=
  let carried :=
    match role with
    | .source => fcs.filter (touches detail.ingress detail.egress)
    | .serviceFunction => fcs
    | .destination => []
  carried.map (enrich env)

/-- The VLAN id that tags the chain's traffic at a detail: that of its network, or the tag held for
it. -/
def chainSegment (t : Topology) (detail : PortDetail) : Except TopologyError SegmentId :=
  let segment :=
    match detail.vni? with
    | some vni => t.tags[vni]?
    | none => detail.segment.bind fun id => SegmentId.ofNat? id.toNat
  match segment with
  | some segment => .ok segment
  | none => .error (.invalidSegment detail.id)

/-- The rule of a detail at a node, if the detail has a host. -/
def detailRule (env : TopologyEnv) (t : Topology) (node : PathNode) (detail : PortDetail)
    (addFcs delFcs : List FlowClassifier) (groupRefs : Option UInt32) :
    Except TopologyError (Option FlowRule) :=
  match detail.host with
  | none => .ok none
  | some host =>
    (t.chainSegment detail).map fun segment =>
      some
        { id := node.id ++ ":" ++ detail.id
          role := node.role
          nsp := node.nsp
          nsi := node.nsi
          ingress := detail.ingress
          egress := detail.egress
          host := some host
          segment
          nextGroup := node.nextGroup
          groupRefs
          addFcs := classifiersFor env node.role detail addFcs
          delFcs := classifiersFor env node.role detail delFcs
          reversePath := node.reversePath }

/-- The rules that install a node with the given classifiers. -/
def nodeRules (env : TopologyEnv) (t : Topology) (node : PathNode)
    (fcs : List FlowClassifier) : Except TopologyError (List FlowRule) :=
  ((t.nodeDetails node).mapM fun detail => t.detailRule env node detail fcs [] none).map
    List.reduceOption

/-- The rules that install a path. -/
def pathRules (env : TopologyEnv) (t : Topology) (path : ChainPath) :
    Except TopologyError (List FlowRule) :=
  (path.nodes.mapM fun node => t.nodeRules env node path.classifiers).map List.flatten

/-- The rules that install every node of a chain with all its classifiers. -/
def flowRules (env : TopologyEnv) (t : Topology) (chainId : String) :
    Except TopologyError (List FlowRule) :=
  match t.path? chainId with
  | none => .error (.chainNotFound chainId)
  | some path => t.pathRules env path

/-! ## Removal -/

/-- The rules of other chains for a detail, chain by chain. -/
def sharingRules (env : TopologyEnv) (t : Topology) (chainId : String) (detail : PortDetail) :
    Except TopologyError (List FlowRule) :=
  let others := (t.chains.toList.filter (·.1 != chainId)).flatMap fun (_, path) =>
    (path.nodes.filter (·.portDetails.contains detail.id)).map fun node => (node, path.classifiers)
  (others.mapM fun (node, fcs) => t.detailRule env node detail fcs [] none).map List.reduceOption

/-- The rule that removes classifiers from a detail at a node, with the rules of other chains for
it. -/
def removalRule (env : TopologyEnv) (t : Topology) (chainId : String) (node : PathNode)
    (fcs : List FlowClassifier) (groupRefs : Option UInt32) (detail : PortDetail) :
    Except TopologyError (Option FlowRule) := do
  match ← t.detailRule env node detail [] fcs groupRefs with
  | none => return none
  | some rule => return some { rule with sharedWith := ← t.sharingRules env chainId detail }

/-- The rules that remove classifiers from a node of a chain. -/
def removalRules (env : TopologyEnv) (t : Topology) (chainId : String) (node : PathNode)
    (fcs : List FlowClassifier) (groupRefs : Option UInt32) :
    Except TopologyError (List FlowRule) :=
  ((t.nodeDetails node).mapM (t.removalRule env chainId node fcs groupRefs)).map List.reduceOption

end Topology

end ServiceChain
