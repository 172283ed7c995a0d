import ServiceChain.Classifier.Basic
import ServiceChain.Wire.Address

/-!
# Wire form of classifiers
-/

namespace ServiceChain

namespace ClassifierPolicy

def ofJson? : Json → Option ClassifierPolicy := Wire.readName [atLeastOne, exactlyOne] text

def toJson (p : ClassifierPolicy) : Json := .str p.text

end ClassifierPolicy

namespace FlowClassifier

open Wire

/-- All but the id may be absent; the ethertype may not be `null`. -/
def ofJson? (j : Json) : Option FlowClassifier := do
  let fs ← fieldsOf j
  return {
    id := ← required fs "id" readString
    etherType := ← defaulted fs "ethertype" .ipv4 EtherType.ofJson?
    protocol := ← optional fs "protocol" IpProtocol.ofJson?
    sourcePortMin := ← optional fs "source_port_range_min" readUInt16
    sourcePortMax := ← optional fs "source_port_range_max" readUInt16
    destinationPortMin := ← optional fs "destination_port_range_min" readUInt16
    destinationPortMax := ← optional fs "destination_port_range_max" readUInt16
    sourceNet := ← optional fs "source_ip_prefix" IpNet.ofJson?
    destinationNet := ← optional fs "destination_ip_prefix" IpNet.ofJson?
    logicalSource := ← optional fs "logical_source_port" readString
    logicalDestination := ← optional fs "logical_destination_port" readString
    sourceMac := ← optional fs "lsp_mac_address" MacAddress.ofJson?
    destinationMac := ← optional fs "ldp_mac_address" MacAddress.ofJson? }

/-- What the classifier leaves open is left out. -/
def toJson (fc : FlowClassifier) : Json :=
  .obj (
    [("id", .str fc.id), ("ethertype", fc.etherType.toJson)] ++
    present "protocol" IpProtocol.toJson fc.protocol ++
    present "source_port_range_min" writeUInt16 fc.sourcePortMin ++
    present "source_port_range_max" writeUInt16 fc.sourcePortMax ++
    present "destination_port_range_min" writeUInt16 fc.destinationPortMin ++
    present "destination_port_range_max" writeUInt16 fc.destinationPortMax ++
    present "source_ip_prefix" IpNet.toJson fc.sourceNet ++
    present "destination_ip_prefix" IpNet.toJson fc.destinationNet ++
    present "logical_source_port" Json.str fc.logicalSource ++
    present "logical_destination_port" Json.str fc.logicalDestination ++
    present "lsp_mac_address" MacAddress.toJson fc.sourceMac ++
    present "ldp_mac_address" MacAddress.toJson fc.destinationMac)

end FlowClassifier

end ServiceChain
