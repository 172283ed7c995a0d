import ServiceChain.Rule.Basic

/-!
# Records of chains and their ports

A port chain lists the port pair groups that its traffic passes and the classifiers that feed it.  A
path is built from it: a head, a node for each group, and a tail, each with the details of the ports
bound to it.
-/

namespace ServiceChain

/-! ## What a chain is made of -/

/-- A chain as it was asked for. -/
structure PortChain where
  id : String
  /-- The number of the chain's path. -/
  nsp : UInt32
  groups : List String
  classifiers : List String := []
  deriving DecidableEq, Repr

/-- Instances of one service function. -/
structure PortPairGroup where
  id : String
  /-- The id of the select group that is programmed when there are several instances. -/
  groupId : UInt32
  pairs : List String
  deriving DecidableEq, Repr

/-- An instance of a service function: the port that traffic enters by and the one it leaves by. -/
structure PortPair where
  id : String
  ingress : String
  egress : String
  weight : UInt32 := 1
  deriving DecidableEq, Repr

/-- How the network of a port is built. -/
inductive NetworkType where
  | vlan
  | vxlan
  | flat
  | localOnly
  deriving DecidableEq, Repr

namespace NetworkType

/-- The name of a network type. -/
def text : NetworkType → String
  | vlan => "vlan"
  | vxlan => "vxlan"
  | flat => "flat"
  | localOnly => "local"

/-- A chain can be carried over the network. -/
def isSupported : NetworkType → Bool
  | vlan | vxlan => true
  | flat | localOnly => false

end NetworkType

/-- What is known of a bound port. -/
structure PortBinding where
  portId : String
  host : Option String := none
  networkType : NetworkType
  segment : Option UInt32 := none
  mac : MacAddress
  fixedIp : Option Ipv4Addr := none
  subnet : Option Ipv4Net := none
  deriving DecidableEq, Repr

/-! ## Port details -/

/-- How a port detail takes part in a chain. -/
inductive PortRole where
  /-- The source of a classifier's traffic. -/
  | egress
  /-- The destination of a classifier's traffic. -/
  | ingress
  /-- Both ports of a service function. -/
  | pair
  | unbound
  deriving DecidableEq, Repr

/-- A port or a pair of ports in a chain, with what is known of its binding. -/
structure PortDetail where
  id : String
  ingress : Option String := none
  egress : Option String := none
  host : Option String := none
  segment : Option UInt32 := none
  networkType : Option NetworkType := none
  mac : Option MacAddress := none
  deriving DecidableEq, Repr

namespace PortDetail

/-- The detail of a traffic source. -/
def forEgress (id port : String) : PortDetail := { id, egress := some port }

/-- The detail of a traffic destination. -/
def forIngress (id port : String) : PortDetail := { id, ingress := some port }

/-- The detail of a port pair. -/
def forPair (id : String) (pair : PortPair) : PortDetail :=
  { id, ingress := some pair.ingress, egress := some pair.egress }

/-- The port whose binding describes the detail. -/
def keyPort (d : PortDetail) : Option String := d.ingress.or d.egress

/-- Fills in a binding.  On a network that carries no chain the host stays as it was. -/
def bind (d : PortDetail) (b : PortBinding) : PortDetail :=
  { d with
    mac := some b.mac
    networkType := some b.networkType
    segment := b.segment
    host := if b.networkType.isSupported then b.host else d.host }

/-- The role that the detail's ports give it. -/
def role (d : PortDetail) : PortRole :=
  match d.ingress, d.egress with
  | some _, some _ => .pair
  | none, some _ => .egress
  | some _, none => .ingress
  | none, none => .unbound

/-- The detail has a host. -/
def isBound (d : PortDetail) : Bool := d.host.isSome

/-- The identifier of the detail's VXLAN network. -/
def vni? (d : PortDetail) : Option UInt32 :=
  if d.networkType = some .vxlan then d.segment else none

/-- The VLAN id of the detail's network. -/
def vlan? (d : PortDetail) : Option UInt32 :=
  if d.networkType = some .vlan then d.segment else none

end PortDetail

/-- Details of a head whose traffic flows both ways: a source and a destination are among them. -/
def isBidirectional (details : List PortDetail) : Bool :=
  details.any (·.role == .egress) && details.any (·.role == .ingress)

/-! ## Path nodes -/

/-- Whether the rules of a node are in force. -/
inductive NodeStatus where
  | building
  | active
  | error
  deriving DecidableEq, Repr

namespace NodeStatus

/-- The name of a status. -/
def text : NodeStatus → String
  | building => "building"
  | active => "active"
  | error => "error"

end NodeStatus

/-- One hop of a path. -/
structure PathNode where
  id : String
  role : NodeRole
  nsp : UInt32
  nsi : UInt8
  chainId : String
  status : NodeStatus := .building
  nextGroup : Option NextHopGroup := none
  reversePath : Bool := false
  /-- The ids of the port details bound to the node, in the order of their association. -/
  portDetails : List String := []
  deriving DecidableEq, Repr

namespace PathNode

/-- The id of the group to the next hop. -/
def groupId (n : PathNode) : Option UInt32 := n.nextGroup.map NextHopGroup.id

end PathNode

/-- A port detail bound to a path node. -/
structure PathPort where
  nodeId : String
  detailId : String
  weight : UInt32
  deriving DecidableEq, Repr

end ServiceChain
