import ServiceChain.Rule.Ports

/-!
# The ingress side of a hop

Tagged traffic for a node is handed to the chain ingress table, which strips the tag and delivers it
to the node's ingress port.
-/

namespace ServiceChain

namespace FlowRule

variable (ctx : HostContext) (ports : PortTable)

/-- The delivery entry of a classifier, if its traffic is IPv4. -/
def deliveryEntry? (r : FlowRule) (port : Port) (fc : FlowClassifier) : Option FlowEntry :=
  fc.v4Destination?.map fun nwDst =>
    ⟨⟨.chainIngress, Priority.delivery, { taggedFor r.segment port.mac with nwDst := some nwDst }⟩,
      [.stripVlan, .output port.number]⟩

/-- Tagged traffic from the transport port is handed to the chain ingress table. -/
def transportEntry (r : FlowRule) (port : Port) : FlowEntry :=
  ⟨⟨.localSwitching, Priority.steering,
      { taggedFor r.segment port.mac with inPort := some ctx.transportPort }⟩,
    [.resubmit .chainIngress]⟩

/-- Before a next-hop group, the first classifier stands for all: its sources are delivered, under
the address of its logical source. -/
def groupDeliveryEntries (r : FlowRule) (port : Port) (fc : FlowClassifier) : List FlowEntry :=
  match IpNet.v4OrAny? fc.sourceNet with
  | none => []
  | some nwSrc =>
    [⟨⟨.chainIngress, Priority.steering, { taggedFor r.segment port.mac with nwSrc := some nwSrc }⟩,
      [.stripVlan] ++ (fc.sourceMac.map FlowAction.modDlSrc).toList ++ [.output port.number]⟩,
    ⟨⟨.localSwitching, Priority.steering, taggedFor r.segment port.mac⟩, [.resubmit .chainIngress]⟩]

/-- The entries of the ingress side: what is delivered to the node's ingress port. -/
def destinationEntries (r : FlowRule) (fcs : List FlowClassifier) :
    Except CompileError (List FlowEntry) := do
  let port ← r.ingressPort ports
  match r.activeGroup, fcs with
  | _, [] => return []
  | none, fcs => return fcs.filterMap (r.deliveryEntry? port) ++ [r.transportEntry ctx port]
  | some _, fc :: _ => return r.groupDeliveryEntries port fc

/-- The operations of the ingress side. -/
def destinationOps (r : FlowRule) (fcs : List FlowClassifier) (install : Bool) :
    Except CompileError (List BridgeOp) :=
  (r.destinationEntries ctx ports fcs).map (BridgeOp.flows install)

/-- Removes what a pipeline under MPLS labels left at the node's ingress port, if attached. -/
def mplsCleanup (r : FlowRule) : List BridgeOp :=
  match r.ingress.bind (ports[·]?) with
  | none => []
  | some port =>
    [.deleteFlows (some .chainIngress) none
      { dlType := some EtherType.mplsUnicast, dlDst := some port.mac,
        mplsLabel := some r.mplsLabel }]

end FlowRule

end ServiceChain
