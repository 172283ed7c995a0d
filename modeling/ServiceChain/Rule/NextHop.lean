import ServiceChain.Address.Mac
import ServiceChain.Address.Segment
import ServiceChain.Address.Protocol
import ServiceChain.Rule.HostContext
import ServiceChain.Flow.Op

/-!
# Next-hop groups

A hop with several instances is reached through a select group: one bucket for each instance, which
readdresses the packet to it.  An entry for each instance then delivers on this host or sends to the
transport port.
-/

namespace ServiceChain

/-- One instance of the next hop. -/
structure NextHop where
  portPairId : String
  mac : MacAddress
  weight : UInt32
  /-- The host of the instance's ingress port. -/
  host : Option String := none
  deriving DecidableEq, Repr

/-- The instances of the next hop, and the group that spreads over them. -/
structure NextHopGroup where
  id : UInt32
  members : List NextHop
  deriving DecidableEq, Repr

namespace NextHopGroup

/-- A group is programmed only if it has an id and somewhere to send to. -/
def isProgrammable (g : NextHopGroup) : Bool := g.id != 0 && !g.members.isEmpty

/-- One bucket for each member: readdress to it, and go on in the cross-subnet table. -/
def buckets (g : NextHopGroup) : List Bucket :=
  g.members.map fun member => ⟨member.weight, [.modDlDst member.mac, .resubmit .crossSubnet]⟩

/-- The group as it is programmed. -/
def spec (g : NextHopGroup) : GroupSpec := ⟨g.id, .select, g.buckets⟩

/-- The key of the entry for traffic that a bucket has addressed to a member. -/
def memberKey (mac : MacAddress) : FlowKey :=
  ⟨.crossSubnet, Priority.ingress, { dlType := some EtherType.ipv4Value, dlDst := some mac }⟩

/-- A member on this host is tagged and delivered; any other leaves through the transport port. -/
def memberActions (ctx : HostContext) (segment : SegmentId) (member : NextHop) : List FlowAction :=
  if ctx.isLocal member.host then [.modVlanVid segment.vid, .resubmit .chainIngress]
  else [.output ctx.transportPort]

/-- Installs the entries of the members, then the group. -/
def ensureOps (g : NextHopGroup) (segment : SegmentId) (ctx : HostContext) : List BridgeOp :=
  g.members.map (fun member =>
    .flow true (memberKey member.mac) (memberActions ctx segment member)) ++ [.ensureGroup g.spec]

/-- Removes the group, then the entries of the members. -/
def teardownOps (g : NextHopGroup) : List BridgeOp :=
  .deleteGroup g.id :: g.members.map fun member => .flow false (memberKey member.mac) []

end NextHopGroup

end ServiceChain
