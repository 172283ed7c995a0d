import ServiceChain.Audit.Log
import ServiceChain.Classifier.Basic
import ServiceChain.Flow.Match

/-!
# Match fields of a classifier

A classifier is compiled to one set of header fields for each pair of a source and a destination
port mask.  Classifiers of IPv6 traffic are passed over: they compile to nothing, and a log event
says so.
-/

namespace ServiceChain

/-- Header fields that a classifier selects. -/
structure MatchFields where
  dlType : UInt16
  nwProto : Option UInt8
  nwSrc : Ipv4Net
  nwDst : Ipv4Net
  tpSrc : PortMask
  tpDst : PortMask
  deriving DecidableEq, Repr

namespace MatchFields

/-- Adds the fields to a match. -/
def restrict (fields : MatchFields) (m : FlowMatch) : FlowMatch :=
  (({ m with
      dlType := some fields.dlType
      nwProto := fields.nwProto
      nwSrc := some fields.nwSrc
      nwDst := some fields.nwDst } : FlowMatch).withTpSrc fields.tpSrc).withTpDst fields.tpDst

end MatchFields

namespace FlowClassifier

/-- The masks of two bounds, or the error of a classifier. -/
def boundMasks (min max : Option UInt16) : Except ClassifierError (List PortMask) :=
  (portMasks min max).mapError ClassifierError.invertedRange

/-- The networks that IPv4 traffic is matched against, `none` if a network is an IPv6 one. -/
def v4Nets? (fc : FlowClassifier) : Option (Ipv4Net × Ipv4Net) := do
  return (← IpNet.v4OrAny? fc.sourceNet, ← IpNet.v4OrAny? fc.destinationNet)

/-- The IPv4 network that a classifier's traffic goes to, `none` for IPv6 traffic. -/
def v4Destination? (fc : FlowClassifier) : Option Ipv4Net :=
  match fc.etherType with
  | .ipv6 => none
  | .ipv4 => IpNet.v4OrAny? fc.destinationNet

/-- The sets of header fields that select the classifier's traffic, for every source mask in turn
every destination mask. -/
def matchFields (fc : FlowClassifier) : Except ClassifierError (List MatchFields) :=
  match fc.etherType, fc.v4Nets? with
  | .ipv6, _ => .ok []
  | .ipv4, none => .ok []
  | .ipv4, some (nwSrc, nwDst) => do
    let sources ← boundMasks fc.sourcePortMin fc.sourcePortMax
    let destinations ← boundMasks fc.destinationPortMin fc.destinationPortMax
    return sources.flatMap fun tpSrc => destinations.map fun tpDst =>
      { dlType := EtherType.ipv4Value, nwProto := fc.protocol.map IpProtocol.number,
        nwSrc, nwDst, tpSrc, tpDst }

/-- The event that tells why a classifier is passed over. -/
def skipEvent (fc : FlowClassifier) (message : String) : LogEvent :=
  { level := .warn, source := "ClassifierCompiler", message, fields := [("classifier", fc.id)] }

/-- The events of compiling a classifier. -/
def notices (fc : FlowClassifier) : List LogEvent :=
  match fc.etherType, fc.v4Nets? with
  | .ipv6, _ => [fc.skipEvent "IPv6 classifier not supported, skipping"]
  | .ipv4, none => [fc.skipEvent "IPv6 prefix on IPv4 classifier, skipping"]
  | .ipv4, some _ => []

end FlowClassifier

end ServiceChain
