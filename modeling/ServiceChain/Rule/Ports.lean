import ServiceChain.Classifier.MatchFields
import ServiceChain.Rule.Basic
import ServiceChain.Rule.Error

/-!
# The ports of a flow rule

A rule names its ports by their ids; what is programmed needs the port numbers and addresses that a
bridge knows them by.
-/

namespace ServiceChain

namespace FlowRule

variable (ports : PortTable)

/-- The number of the egress port.  A service function's must be attached; the head classifies
without one. -/
def inboundPort (r : FlowRule) : Except CompileError (Option UInt32) :=
  match r.egress with
  | none => .ok none
  | some id =>
    match ports[id]? with
    | some port => .ok (some port.number)
    | none => if r.role = .source then .ok none else .error (.portNotFound id)

/-- The address that the chain knows the node by: that of its ingress port if attached, else of its
egress port. -/
def nodeMac (r : FlowRule) : Except CompileError MacAddress :=
  match (r.ingress.bind (ports[·]?)).or (r.egress.bind (ports[·]?)), r.ingress.or r.egress with
  | some port, _ => .ok port.mac
  | none, some id => .error (.portNotFound id)
  | none, none => .error (.missingPort .ingressOrEgress)

/-- The ingress port, which must be named and attached. -/
def ingressPort (r : FlowRule) : Except CompileError Port :=
  match r.ingress with
  | none => .error (.missingPort .ingress)
  | some id =>
    match ports[id]? with
    | some port => .ok port
    | none => .error (.portNotFound id)

/-- The match of IPv4 traffic tagged with a segment for an address. -/
def taggedFor (segment : SegmentId) (mac : MacAddress) : FlowMatch :=
  { dlType := some EtherType.ipv4Value, dlVlan := some segment.vid, dlDst := some mac }

end FlowRule

end ServiceChain
