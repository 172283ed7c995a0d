import ServiceChain.Topology.State
import ServiceChain.Topology.Store
import ServiceChain.Wire.Rule

/-!
# Wire form of the records of chains
-/

namespace ServiceChain

open Wire

namespace PortChain

def ofJson? (j : Json) : Option PortChain := do
  let fs ← fieldsOf j
  return {
    id := ← required fs "id" readString
    nsp := ← required fs "chain_id" readUInt32
    groups := ← required fs "port_pair_groups" (readList readString)
    classifiers := ← defaulted fs "flow_classifiers" [] (readList readString) }

def toJson (c : PortChain) : Json :=
  .obj [("id", .str c.id), ("chain_id", writeUInt32 c.nsp),
    ("port_pair_groups", writeList Json.str c.groups),
    ("flow_classifiers", writeList Json.str c.classifiers)]

end PortChain

namespace PortPairGroup

def ofJson? (j : Json) : Option PortPairGroup := do
  let fs ← fieldsOf j
  return {
    id := ← required fs "id" readString
    groupId := ← required fs "group_id" readUInt32
    pairs := ← required fs "port_pairs" (readList readString) }

def toJson (g : PortPairGroup) : Json :=
  .obj [("id", .str g.id), ("group_id", writeUInt32 g.groupId),
    ("port_pairs", writeList Json.str g.pairs)]

end PortPairGroup

namespace PortPair

def ofJson? (j : Json) : Option PortPair := do
  let fs ← fieldsOf j
  return {
    id := ← required fs "id" readString
    ingress := ← required fs "ingress" readString
    egress := ← required fs "egress" readString
    weight := ← defaulted fs "weight" 1 readUInt32 }

def toJson (p : PortPair) : Json :=
  .obj [("id", .str p.id), ("ingress", .str p.ingress), ("egress", .str p.egress),
    ("weight", writeUInt32 p.weight)]

end PortPair

namespace NetworkType

def ofJson? : Json → Option NetworkType := readName [vlan, vxlan, flat, localOnly] text

def toJson (t : NetworkType) : Json := .str t.text

end NetworkType

namespace PortBinding

def ofJson? (j : Json) : Option PortBinding := do
  let fs ← fieldsOf j
  return {
    portId := ← required fs "port_id" readString
    host := ← optional fs "host_id" readString
    networkType := ← required fs "network_type" NetworkType.ofJson?
    segment := ← optional fs "segment_id" readUInt32
    mac := ← required fs "mac_address" MacAddress.ofJson?
    fixedIp := ← optional fs "fixed_ip" Ipv4Addr.ofJson?
    subnet := ← optional fs "subnet" Ipv4Net.ofJson? }

def toJson (b : PortBinding) : Json :=
  .obj [("port_id", .str b.portId), ("host_id", writeOption Json.str b.host),
    ("network_type", b.networkType.toJson), ("segment_id", writeOption writeUInt32 b.segment),
    ("mac_address", b.mac.toJson), ("fixed_ip", writeOption Ipv4Addr.toJson b.fixedIp),
    ("subnet", writeOption Ipv4Net.toJson b.subnet)]

end PortBinding

namespace PortDetail

def ofJson? (j : Json) : Option PortDetail := do
  let fs ← fieldsOf j
  return {
    id := ← required fs "id" readString
    ingress := ← optional fs "ingress" readString
    egress := ← optional fs "egress" readString
    host := ← optional fs "host_id" readString
    segment := ← optional fs "segment_id" readUInt32
    networkType := ← optional fs "network_type" NetworkType.ofJson?
    mac := ← optional fs "mac_address" MacAddress.ofJson? }

def toJson (d : PortDetail) : Json :=
  .obj [("id", .str d.id), ("ingress", writeOption Json.str d.ingress),
    ("egress", writeOption Json.str d.egress), ("host_id", writeOption Json.str d.host),
    ("segment_id", writeOption writeUInt32 d.segment),
    ("network_type", writeOption NetworkType.toJson d.networkType),
    ("mac_address", writeOption MacAddress.toJson d.mac)]

end PortDetail

namespace NodeStatus

def ofJson? : Json → Option NodeStatus := readName [building, active, error] text

def toJson (s : NodeStatus) : Json := .str s.text

end NodeStatus

namespace PathNode

def ofJson? (j : Json) : Option PathNode := do
  let fs ← fieldsOf j
  return {
    id := ← required fs "id" readString
    role := ← required fs "role" NodeRole.ofJson?
    nsp := ← required fs "nsp" readUInt32
    nsi := ← required fs "nsi" readUInt8
    chainId := ← required fs "chain_id" readString
    status := ← required fs "status" NodeStatus.ofJson?
    nextGroup := ← optional fs "next_group" NextHopGroup.ofJson?
    reversePath := ← defaulted fs "reverse_path" false readBool
    portDetails := ← defaulted fs "port_details" [] (readList readString) }

def toJson (n : PathNode) : Json :=
  .obj [("id", .str n.id), ("role", n.role.toJson), ("nsp", writeUInt32 n.nsp),
    ("nsi", writeUInt8 n.nsi), ("chain_id", .str n.chainId), ("status", n.status.toJson),
    ("next_group", writeOption NextHopGroup.toJson n.nextGroup),
    ("reverse_path", .bool n.reversePath), ("port_details", writeList Json.str n.portDetails)]

end PathNode

namespace PathPort

def ofJson? (j : Json) : Option PathPort := do
  let fs ← fieldsOf j
  return {
    nodeId := ← required fs "node_id" readString
    detailId := ← required fs "port_detail_id" readString
    weight := ← required fs "weight" readUInt32 }

def toJson (a : PathPort) : Json :=
  .obj [("node_id", .str a.nodeId), ("port_detail_id", .str a.detailId),
    ("weight", writeUInt32 a.weight)]

end PathPort

namespace Catalog

/-- Adds the records of each kind, kind by kind; a kind without records may be left out. -/
def addFields? (c : Catalog) (fs : Fields) : Option Catalog := do
  let chains ← optional fs "chains" (readList PortChain.ofJson?)
  let groups ← optional fs "groups" (readList PortPairGroup.ofJson?)
  let pairs ← optional fs "pairs" (readList PortPair.ofJson?)
  let classifiers ← optional fs "classifiers" (readList FlowClassifier.ofJson?)
  let bindings ← optional fs "bindings" (readList PortBinding.ofJson?)
  let c := (chains.getD []).foldl addChain c
  let c := (groups.getD []).foldl addGroup c
  let c := (pairs.getD []).foldl addPair c
  let c := (classifiers.getD []).foldl addClassifier c
  return (bindings.getD []).foldl addBinding c

end Catalog

namespace TopologyStats

def toJson (s : TopologyStats) : Json :=
  .obj [("chains_created", .nat s.chainsCreated), ("chains_deleted", .nat s.chainsDeleted),
    ("chains_rejected", .nat s.chainsRejected), ("nodes_created", .nat s.nodesCreated),
    ("nodes_removed", .nat s.nodesRemoved), ("classifier_updates", .nat s.classifierUpdates)]

end TopologyStats

end ServiceChain
