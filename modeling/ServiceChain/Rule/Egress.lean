import ServiceChain.Rule.Ports

/-!
# The egress side of a hop

Traffic that leaves a node is tagged into the chain.  The head classifies it first; a node before a
next-hop group hands it to the group, any other steers it to its destinations.
-/

namespace ServiceChain

namespace FlowRule

variable (ctx : HostContext) (ports : PortTable)

/-- Tag into the chain, and on to the next-hop group or the cross-subnet table. -/
def forwardActions (r : FlowRule) : List FlowAction :=
  match r.activeGroup with
  | some group => [.modVlanVid r.segment.vid, .group group.id]
  | none => [.modVlanVid r.segment.vid, .resubmit .crossSubnet]

/-- At the head, one entry for each set of fields of each classifier tags its traffic. -/
def classificationEntries (r : FlowRule) (fcs : List FlowClassifier) :
    Except CompileError (List FlowEntry) := do
  let inPort ← r.inboundPort ports
  let priority := if inPort.isSome then Priority.ingress else Priority.fallback
  let sets ← (fcs.mapM FlowClassifier.matchFields).mapError CompileError.classifier
  return sets.flatten.map fun fields =>
    ⟨⟨.localSwitching, priority, fields.restrict { inPort := inPort }⟩, r.forwardActions⟩

/-- With a next-hop group, one entry steers to it; it needs a port or an address to be narrower than
all of IPv4. -/
def groupSteeringEntries (r : FlowRule) (group : NextHopGroup) (inPort : Option UInt32)
    (fcs : List FlowClassifier) : List FlowEntry :=
  let dlDst := fcs.findSome? (·.destinationMac)
  if inPort.isNone && dlDst.isNone then []
  else
    [⟨⟨.localSwitching, Priority.steering, { inPort, dlType := some EtherType.ipv4Value, dlDst }⟩,
      [.modVlanVid r.segment.vid, .group group.id]⟩]

/-- What comes back from a service function is tagged again. -/
def returnEntries (r : FlowRule) (inPort : Option UInt32) : List FlowEntry :=
  match r.role, inPort with
  | .source, _ | _, none => []
  | _, some port =>
    [⟨⟨.localSwitching, Priority.delivery,
        { inPort := some port, dlType := some EtherType.ipv4Value }⟩,
      [.modVlanVid r.segment.vid, .resubmit .crossSubnet]⟩]

/-- Straight to the logical destination if it is on this bridge, else through the transport port
under the node's own address. -/
def steeringActions (r : FlowRule) (mac : MacAddress) (fc : FlowClassifier) : List FlowAction :=
  let localPort := fc.logicalDestination.bind (ports[·]?)
  let readdress := ((fc.destinationMac.or (localPort.map Port.mac)).map FlowAction.modDlDst).toList
  match localPort with
  | some port => [.stripVlan] ++ readdress ++ [.output port.number]
  | none =>
    [.modVlanVid r.segment.vid, .modDlSrc mac] ++ readdress ++ [.output ctx.transportPort]

/-- The steering entry of a classifier, if its traffic is IPv4. -/
def steeringEntry? (r : FlowRule) (mac : MacAddress) (fc : FlowClassifier) : Option FlowEntry :=
  fc.v4Destination?.map fun nwDst =>
    ⟨⟨.crossSubnet, Priority.steering, { taggedFor r.segment mac with nwDst := some nwDst }⟩,
      r.steeringActions ctx ports mac fc⟩

/-- The entries for traffic that leaves the node: one to the next-hop group, or the return entry and
one steering entry for each classifier. -/
def sourceEntries (r : FlowRule) (fcs : List FlowClassifier) :
    Except CompileError (List FlowEntry) := do
  let inPort ← r.inboundPort ports
  match r.activeGroup with
  | some group => return r.groupSteeringEntries group inPort fcs
  | none =>
    if fcs.isEmpty then return r.returnEntries inPort
    else
      let mac ← r.nodeMac ports
      return r.returnEntries inPort ++ fcs.filterMap (r.steeringEntry? ctx ports mac)

/-- The entries of the egress side: the classification at the head, the entries of the node. -/
def egressEntries (r : FlowRule) (fcs : List FlowClassifier) :
    Except CompileError (List FlowEntry) := do
  let classification ←
    if r.role = .source then r.classificationEntries ports fcs else .ok []
  let source ← r.sourceEntries ctx ports fcs
  return classification ++ source

/-! ## Operations -/

/-- The operations for traffic that leaves the node. -/
def sourceOps (r : FlowRule) (fcs : List FlowClassifier) (install : Bool) :
    Except CompileError (List BridgeOp) :=
  (r.sourceEntries ctx ports fcs).map (BridgeOp.flows install)

/-- The group and its members, for an installation. -/
def groupOps (r : FlowRule) (install : Bool) : List BridgeOp :=
  match install, r.activeGroup with
  | true, some group => group.ensureOps r.segment ctx
  | _, _ => []

/-- The egress side: the group, then the entries. -/
def egressOps (r : FlowRule) (fcs : List FlowClassifier) (install : Bool) :
    Except CompileError (List BridgeOp) :=
  (r.egressEntries ctx ports fcs).map fun entries =>
    r.groupOps ctx install ++ BridgeOp.flows install entries

end FlowRule

end ServiceChain
