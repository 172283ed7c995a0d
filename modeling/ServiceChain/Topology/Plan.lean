import ServiceChain.Topology.Rules

/-!
# Plans of new chains

Before a chain changes anything, its records are looked up and checked; what the path needs is
gathered in a plan.  Checked are, in this order: that the chain has no path yet and is recorded, that
it has from 1 to 254 groups, its classifiers, its groups with their pairs and bindings, the subnets
of neighbouring hops, and the bindings of the logical ports.
-/

namespace ServiceChain

/-- A port pair with the bindings of both ports. -/
structure ResolvedPair where
  pair : PortPair
  ingress : PortBinding
  egress : PortBinding
  deriving DecidableEq, Repr

/-- A group with all its pairs resolved. -/
structure Hop where
  groupId : UInt32
  pairs : List ResolvedPair
  deriving DecidableEq, Repr

namespace Hop

/-- A pair as a member of a next-hop group; its host counts only on a network that carries
chains. -/
def member (rp : ResolvedPair) : NextHop where
  portPairId := rp.pair.id
  mac := rp.ingress.mac
  weight := rp.pair.weight
  host := if rp.ingress.networkType.isSupported then rp.ingress.host else none

/-- Only a hop with several pairs is reached through a group. -/
def nextGroup (hop : Hop) : Option NextHopGroup :=
  if 1 < hop.pairs.length then some ⟨hop.groupId, hop.pairs.map member⟩ else none

/-- The details of the pairs with their weights. -/
def details (hop : Hop) : List (PortDetail × UInt32) :=
  hop.pairs.map fun rp => ((PortDetail.forPair rp.pair.id rp.pair).bind rp.ingress, rp.pair.weight)

end Hop

/-! ## Logical ports -/

/-- A logical port as the source or the destination of traffic. -/
inductive ChainEnd where
  | source (port : String)
  | destination (port : String)
  deriving DecidableEq, Repr

namespace ChainEnd

/-- The port of an end. -/
def port : ChainEnd → String
  | source port => port
  | destination port => port

/-- The detail of an end. -/
def detail (id : String) : ChainEnd → PortDetail
  | source port => PortDetail.forEgress id port
  | destination port => PortDetail.forIngress id port

/-- A detail stands for an end. -/
def isOf (e : ChainEnd) (d : PortDetail) : Bool :=
  match e with
  | source port => d.ingress == none && d.egress == some port
  | destination port => d.ingress == some port && d.egress == none

/-- The ends that a classifier names. -/
def ofClassifier (fc : FlowClassifier) : List ChainEnd :=
  (fc.logicalSource.map source).toList ++ (fc.logicalDestination.map destination).toList

/-- The ends that classifiers name, each once. -/
def ofClassifiers (fcs : List FlowClassifier) : List ChainEnd :=
  (fcs.flatMap ofClassifier).eraseDups

end ChainEnd

namespace Topology

/-! ## Lookups -/

/-- A recorded and valid classifier. -/
def loadClassifier (env : TopologyEnv) (id : String) : Except TopologyError FlowClassifier :=
  match env.store.classifier? id with
  | none => .error (.classifierNotFound id)
  | some fc => ((fc.validate env.policy).mapError TopologyError.classifier).map fun _ => fc

/-- Recorded and valid classifiers. -/
def loadClassifiers (env : TopologyEnv) (ids : List String) :
    Except TopologyError (List FlowClassifier) :=
  ids.mapM (loadClassifier env)

/-- The binding of a port. -/
def bindingOf (env : TopologyEnv) (port : String) : Except TopologyError PortBinding :=
  match env.store.binding? port with
  | none => .error (.portNotBound port)
  | some binding => .ok binding

/-- A pair with the bindings of its ingress and its egress. -/
def resolvePair (env : TopologyEnv) (id : String) : Except TopologyError ResolvedPair :=
  match env.store.pair? id with
  | none => .error (.pairNotFound id)
  | some pair => do
    let ingress ← bindingOf env pair.ingress
    let egress ← bindingOf env pair.egress
    return { pair, ingress, egress }

/-- A group with all its pairs resolved. -/
def resolveHop (env : TopologyEnv) (id : String) : Except TopologyError Hop :=
  match env.store.group? id with
  | none => .error (.groupNotFound id)
  | some group => do
    let pairs ← group.pairs.mapM (resolvePair env)
    return { groupId := group.groupId, pairs }

/-! ## Subnets -/

/-- The subnets of an egress port and of an ingress port are known and differ. -/
def subnetFault? (fromPair toPair : ResolvedPair) : Option TopologyError :=
  match fromPair.egress.subnet, toPair.ingress.subnet with
  | some egressSubnet, some ingressSubnet =>
    if egressSubnet = ingressSubnet then none
    else
      some (.crossSubnet fromPair.pair.egress egressSubnet toPair.pair.ingress ingressSubnet)
  | _, _ => none

/-- Every egress port of a hop shares a subnet with every ingress port of the next. -/
def checkSubnets : List Hop → Except TopologyError Unit
  | a :: b :: hops =>
    match a.pairs.findSome? fun x => b.pairs.findSome? fun y => subnetFault? x y with
    | some fault => .error fault
    | none => checkSubnets (b :: hops)
  | _ => .ok ()

/-! ## Details of logical ports -/

/-- The known detail of an end. -/
def endDetail? (t : Topology) (e : ChainEnd) : Option PortDetail := t.details.values.find? e.isOf

/-- The details of ends, the known ones or new bound ones under the ids from `next` on, and the
number of the next id. -/
def endDetails (env : TopologyEnv) (t : Topology) :
    Nat → List ChainEnd → Except TopologyError (List PortDetail × Nat)
  | next, [] => .ok ([], next)
  | next, e :: es =>
    match t.endDetail? e with
    | some detail => do
      let (details, last) ← endDetails env t next es
      return (detail :: details, last)
    | none => do
      let binding ← bindingOf env e.port
      let (details, last) ← endDetails env t (next + 1) es
      return ((e.detail (env.newId next)).bind binding :: details, last)

end Topology

/-! ## Plans -/

/-- What the path of a new chain needs.  The id and the path number are those of the chain's record. -/
structure ChainPlan where
  chainId : String
  nsp : UInt32
  classifiers : List FlowClassifier
  hops : List Hop
  /-- The details of the logical ports. -/
  ends : List PortDetail
  /-- The number of the next id, after those of new details. -/
  nextId : Nat
  deriving DecidableEq, Repr

namespace Topology

/-- The longest chain; the tail of a longer one would have no index. -/
def maxHops : Nat := 254

/-- The number of groups is neither zero nor too large. -/
def checkLength (chainId : String) (length : Nat) : Except TopologyError Unit :=
  if length = 0 then .error (.emptyChain chainId)
  else if maxHops < length then .error (.chainTooLong chainId length)
  else .ok ()

/-- Looks up and checks all that a new chain needs. -/
def plan (env : TopologyEnv) (t : Topology) (chainId : String) :
    Except TopologyError ChainPlan := do
  if (t.path? chainId).isSome then .error (.chainExists chainId)
  match env.store.chain? chainId with
  | none => .error (.chainNotFound chainId)
  | some chain =>
    checkLength chain.id chain.groups.length
    let classifiers ← loadClassifiers env chain.classifiers
    let hops ← chain.groups.mapM (resolveHop env)
    checkSubnets hops
    let (ends, nextId) ← t.endDetails env t.issued (ChainEnd.ofClassifiers classifiers)
    return { chainId := chain.id, nsp := chain.nsp, classifiers, hops, ends, nextId }

end Topology

end ServiceChain
