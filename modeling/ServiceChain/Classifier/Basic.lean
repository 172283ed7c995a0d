import ServiceChain.Address.Ipv6
import ServiceChain.Address.Mac
import ServiceChain.Address.Protocol
import ServiceChain.Classifier.PortRange

/-!
# Flow classifiers

A classifier selects the traffic of a chain: by address family and protocol, by ranges of ports, by
networks, and by the logical ports that the traffic enters and leaves through.  Anything left out
matches all.
-/

namespace ServiceChain

/-- How many logical ports a classifier names. -/
inductive ClassifierPolicy where
  | atLeastOne
  | exactlyOne
  deriving DecidableEq, Repr, Inhabited

namespace ClassifierPolicy

/-- The name of a policy. -/
def text : ClassifierPolicy → String
  | atLeastOne => "at_least_one"
  | exactlyOne => "exactly_one"

end ClassifierPolicy

/-- Why a classifier is refused. -/
inductive ClassifierError where
  | noLogicalPort (id : String)
  | bothLogicalPorts (id : String)
  | invertedRange (range : InvertedRange)
  deriving DecidableEq, Repr

namespace ClassifierError

/-- The sentence shown to an operator. -/
def message : ClassifierError → String
  | noLogicalPort id =>
    "Classifier " ++ id ++ " names neither a logical source nor a logical destination port"
  | bothLogicalPorts id =>
    "Classifier " ++ id ++ " names both logical ports but policy allows exactly one"
  | invertedRange range =>
    "Invalid port range: min (" ++ toString range.min.toNat ++ ") > max (" ++
      toString range.max.toNat ++ ")"

end ClassifierError

/-- A traffic selector.  The two MAC addresses are those of the logical ports; they are filled in
from the port bindings before a classifier is compiled. -/
structure FlowClassifier where
  id : String
  etherType : EtherType := .ipv4
  protocol : Option IpProtocol := none
  sourcePortMin : Option UInt16 := none
  sourcePortMax : Option UInt16 := none
  destinationPortMin : Option UInt16 := none
  destinationPortMax : Option UInt16 := none
  sourceNet : Option IpNet := none
  destinationNet : Option IpNet := none
  logicalSource : Option String := none
  logicalDestination : Option String := none
  sourceMac : Option MacAddress := none
  destinationMac : Option MacAddress := none
  deriving DecidableEq, Repr

namespace FlowClassifier

/-- The bounds are in order, an upper bound of zero being none. -/
def checkBounds : Option UInt16 → Option UInt16 → Except ClassifierError Unit
  | some min, some max =>
    if max ≠ 0 ∧ max < min then .error (.invertedRange ⟨min, max⟩) else .ok ()
  | _, _ => .ok ()

/-- The classifier names as many logical ports as the policy asks for. -/
def checkLogicalPorts (fc : FlowClassifier) (policy : ClassifierPolicy) :
    Except ClassifierError Unit :=
  match fc.logicalSource, fc.logicalDestination, policy with
  | none, none, _ => .error (.noLogicalPort fc.id)
  | some _, some _, .exactlyOne => .error (.bothLogicalPorts fc.id)
  | _, _, _ => .ok ()

/-- Checks the logical ports, the source bounds and the destination bounds, in this order. -/
def validate (fc : FlowClassifier) (policy : ClassifierPolicy) : Except ClassifierError Unit := do
  fc.checkLogicalPorts policy
  checkBounds fc.sourcePortMin fc.sourcePortMax
  checkBounds fc.destinationPortMin fc.destinationPortMax

/-- The classifier of the return traffic: logical ports, MAC addresses and networks change sides,
port ranges stay. -/
def reversed (fc : FlowClassifier) : FlowClassifier :=
  { fc with
    logicalSource := fc.logicalDestination
    logicalDestination := fc.logicalSource
    sourceMac := fc.destinationMac
    destinationMac := fc.sourceMac
    sourceNet := fc.destinationNet
    destinationNet := fc.sourceNet }

@[simp]
theorem reversed_reversed (fc : FlowClassifier) : fc.reversed.reversed = fc := rfl

end FlowClassifier

end ServiceChain
