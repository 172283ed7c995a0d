import ServiceChain.Address.Ipv4
import ServiceChain.Classifier.Basic

/-!
# Failures of the topology
-/

namespace ServiceChain

/-- Why an operation on a chain was refused. -/
inductive TopologyError where
  | chainNotFound (id : String)
  | chainExists (id : String)
  | emptyChain (id : String)
  | chainTooLong (id : String) (length : Nat)
  | groupNotFound (id : String)
  | pairNotFound (id : String)
  | classifierNotFound (id : String)
  | portNotBound (id : String)
  | crossSubnet (egressPort : String) (egressSubnet : Ipv4Net) (ingressPort : String)
      (ingressSubnet : Ipv4Net)
  | invalidSegment (detailId : String)
  | classifier (error : ClassifierError)
  deriving DecidableEq, Repr

namespace TopologyError

/-- The sentence shown to an operator. -/
def message : TopologyError → String
  | chainNotFound id => "Port chain not found: " ++ id
  | chainExists id => "Port chain already has a path: " ++ id
  | emptyChain id => "Port chain " ++ id ++ " has no port pair groups"
  | chainTooLong id length =>
    "Port chain " ++ id ++ " has " ++ toString length ++ " hops, at most 254 are supported"
  | groupNotFound id => "Port pair group not found: " ++ id
  | pairNotFound id => "Port pair not found: " ++ id
  | classifierNotFound id => "Flow classifier not found: " ++ id
  | portNotBound id => "Port " ++ id ++ " has no binding"
  | crossSubnet egressPort egressSubnet ingressPort ingressSubnet =>
    "Cross-subnet chain not supported: " ++ egressPort ++ " (" ++ egressSubnet.text ++ ") -> " ++
      ingressPort ++ " (" ++ ingressSubnet.text ++ ")"
  | invalidSegment id => "Port detail " ++ id ++ " has no usable segmentation id"
  | classifier e => e.message

/-- The chain was refused for what it asks, not for the state it is in. -/
def isValidation : TopologyError → Bool
  | crossSubnet .. | classifier _ => true
  | _ => false

end TopologyError

end ServiceChain
