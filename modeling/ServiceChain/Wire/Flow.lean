import ServiceChain.Flow.Op
import ServiceChain.Wire.Address

/-!
# Wire form of flows, groups and operations

An operation is an object with its name under `op` beside its own fields.  The removal of a group
is a bare number with no place for a name, so it has no wire form.  What stands for nothing after
the name of a table or of an action is wider inside an operation, so readers are told it.
-/

namespace ServiceChain

namespace Table

/-- The name of a table. -/
def name : Table → String
  | localSwitching => "local_switching"
  | crossSubnet => "cross_subnet"
  | chainIngress => "chain_ingress"

/-- Reads the name of a table. -/
def ofJsonWith? (isNothing : Json → Bool) : Json → Option Table :=
  Wire.readNameWith isNothing [localSwitching, crossSubnet, chainIngress] name

def ofJson? : Json → Option Table := ofJsonWith? Wire.isNull

def toJson (t : Table) : Json := .str t.name

end Table

namespace FlowMatch

open Wire

/-- Reads the fields of a match; each may be absent. -/
def ofFields? (fs : Fields) : Option FlowMatch := do
  return {
    inPort := ← optional fs "in_port" readUInt32
    dlType := ← optional fs "dl_type" readUInt16
    dlVlan := ← optional fs "dl_vlan" readUInt16
    dlDst := ← optional fs "dl_dst" MacAddress.ofJson?
    mplsLabel := ← optional fs "mpls_label" readUInt32
    nwProto := ← optional fs "nw_proto" readUInt8
    nwSrc := ← optional fs "nw_src" Ipv4Net.ofJson?
    nwDst := ← optional fs "nw_dst" Ipv4Net.ofJson?
    tpSrc := ← optional fs "tp_src" PortMask.ofJson?
    tpDst := ← optional fs "tp_dst" PortMask.ofJson? }

def ofJson? (j : Json) : Option FlowMatch := (fieldsOf j).bind ofFields?

/-- Only the fields that are set are written. -/
def toJson (m : FlowMatch) : Json :=
  .obj (
    present "in_port" writeUInt32 m.inPort ++
    present "dl_type" writeUInt16 m.dlType ++
    present "dl_vlan" writeUInt16 m.dlVlan ++
    present "dl_dst" MacAddress.toJson m.dlDst ++
    present "mpls_label" writeUInt32 m.mplsLabel ++
    present "nw_proto" writeUInt8 m.nwProto ++
    present "nw_src" Ipv4Net.toJson m.nwSrc ++
    present "nw_dst" Ipv4Net.toJson m.nwDst ++
    present "tp_src" PortMask.toJson m.tpSrc ++
    present "tp_dst" PortMask.toJson m.tpDst)

end FlowMatch

namespace FlowAction

open Wire

/-- An action without an argument is its name, any other an object of one field. -/
def ofJsonWith? (isNothing : Json → Bool) : Json → Option FlowAction
  | .str "strip_vlan" => some stripVlan
  | .str "drop" => some drop
  | .obj [("strip_vlan", v)] => if isNothing v then some stripVlan else none
  | .obj [("drop", v)] => if isNothing v then some drop else none
  | .obj [("mod_vlan_vid", v)] => (readUInt16 v).map modVlanVid
  | .obj [("mod_dl_src", v)] => (MacAddress.ofJson? v).map modDlSrc
  | .obj [("mod_dl_dst", v)] => (MacAddress.ofJson? v).map modDlDst
  | .obj [("output", v)] => (readUInt32 v).map output
  | .obj [("resubmit", v)] => (Table.ofJsonWith? isNothing v).map resubmit
  | .obj [("goto_table", v)] => (Table.ofJsonWith? isNothing v).map gotoTable
  | .obj [("group", v)] => (readUInt32 v).map group
  | _ => none

def ofJson? : Json → Option FlowAction := ofJsonWith? isNull

def toJson : FlowAction → Json
  | stripVlan => .str "strip_vlan"
  | drop => .str "drop"
  | modVlanVid vid => .obj [("mod_vlan_vid", writeUInt16 vid)]
  | modDlSrc mac => .obj [("mod_dl_src", mac.toJson)]
  | modDlDst mac => .obj [("mod_dl_dst", mac.toJson)]
  | output port => .obj [("output", writeUInt32 port)]
  | resubmit table => .obj [("resubmit", table.toJson)]
  | gotoTable table => .obj [("goto_table", table.toJson)]
  | group id => .obj [("group", writeUInt32 id)]

end FlowAction

namespace FlowEntry

open Wire

/-- Reads the fields of an entry. -/
def ofFields? (isNothing : Json → Bool) (fs : Fields) : Option FlowEntry := do
  let table ← required fs "table" (Table.ofJsonWith? isNothing)
  let priority ← required fs "priority" readUInt16
  let pattern ← required fs "matches" FlowMatch.ofJson?
  let actions ← required fs "actions" (readList (FlowAction.ofJsonWith? isNothing))
  return { key := { table, priority, pattern }, actions }

def ofJson? (j : Json) : Option FlowEntry := (fieldsOf j).bind (ofFields? isNull)

/-- The fields of an entry. -/
def toFields (e : FlowEntry) : Fields :=
  [("table", e.key.table.toJson), ("priority", writeUInt16 e.key.priority),
    ("matches", e.key.pattern.toJson), ("actions", writeList FlowAction.toJson e.actions)]

def toJson (e : FlowEntry) : Json := .obj e.toFields

end FlowEntry

namespace GroupType

/-- Reads the name of a type of groups. -/
def ofJsonWith? (isNothing : Json → Bool) : Json → Option GroupType :=
  Wire.readNameWith isNothing [select] text

def ofJson? : Json → Option GroupType := ofJsonWith? Wire.isNull

def toJson (t : GroupType) : Json := .str t.text

end GroupType

namespace Bucket

open Wire

/-- Reads a bucket. -/
def ofJsonWith? (isNothing : Json → Bool) (j : Json) : Option Bucket := do
  let fs ← fieldsOf j
  return {
    weight := ← required fs "weight" readUInt32
    actions := ← required fs "actions" (readList (FlowAction.ofJsonWith? isNothing)) }

def ofJson? : Json → Option Bucket := ofJsonWith? isNull

def toJson (b : Bucket) : Json :=
  .obj [("weight", writeUInt32 b.weight), ("actions", writeList FlowAction.toJson b.actions)]

end Bucket

namespace GroupSpec

open Wire

/-- Reads the fields of a group. -/
def ofFields? (isNothing : Json → Bool) (fs : Fields) : Option GroupSpec := do
  return {
    id := ← required fs "group_id" readUInt32
    type := ← required fs "group_type" (GroupType.ofJsonWith? isNothing)
    buckets := ← required fs "buckets" (readList (Bucket.ofJsonWith? isNothing)) }

def ofJson? (j : Json) : Option GroupSpec := (fieldsOf j).bind (ofFields? isNull)

/-- The fields of a group. -/
def toFields (g : GroupSpec) : Fields :=
  [("group_id", writeUInt32 g.id), ("group_type", g.type.toJson),
    ("buckets", writeList Bucket.toJson g.buckets)]

def toJson (g : GroupSpec) : Json := .obj g.toFields

end GroupSpec

namespace BridgeOp

open Wire

/-- Reads an operation by its name; the removal of a group cannot be read. -/
def ofJsonWith? (isNothing : Json → Bool) (j : Json) : Option BridgeOp := do
  let fs ← fieldsOf j
  match ← required fs "op" readString with
  | "add_flow" => (FlowEntry.ofFields? isNothing fs).map addFlow
  | "delete_flows" =>
    return deleteFlows (← optional fs "table" (Table.ofJsonWith? isNothing))
      (← optional fs "priority" readUInt16) (← required fs "matches" FlowMatch.ofJson?)
  | "ensure_group" => (GroupSpec.ofFields? isNothing fs).map ensureGroup
  | "delete_all_groups" => some deleteAllGroups
  | _ => none

def ofJson? : Json → Option BridgeOp := ofJsonWith? isNullOrEmpty

/-- Writes an operation with its name; the removal of a group cannot be written. -/
def toJson? (op : BridgeOp) : Option Json :=
  match op with
  | addFlow entry => some (.obj (("op", .str op.name) :: entry.toFields))
  | deleteFlows table priority pattern =>
    some (.obj [("op", .str op.name), ("table", writeOption Table.toJson table),
      ("priority", writeOption writeUInt16 priority), ("matches", pattern.toJson)])
  | ensureGroup group => some (.obj (("op", .str op.name) :: group.toFields))
  | deleteGroup _ => none
  | deleteAllGroups => some (.obj [("op", .str op.name)])

end BridgeOp

end ServiceChain
