import ServiceChain.Rule.Basic
import ServiceChain.Wire.Classifier

/-!
# Wire form of flow rules and statuses
-/

namespace ServiceChain

open Wire

namespace NextHop

def ofJson? (j : Json) : Option NextHop := do
  let fs ← fieldsOf j
  return {
    portPairId := ← required fs "portpair_id" readString
    mac := ← required fs "mac_address" MacAddress.ofJson?
    weight := ← required fs "weight" readUInt32
    host := ← optional fs "host_id" readString }

def toJson (h : NextHop) : Json :=
  .obj ([("portpair_id", .str h.portPairId), ("mac_address", h.mac.toJson),
    ("weight", writeUInt32 h.weight)] ++ present "host_id" Json.str h.host)

end NextHop

namespace NextHopGroup

def ofJson? (j : Json) : Option NextHopGroup := do
  let fs ← fieldsOf j
  return {
    id := ← required fs "group_id" readUInt32
    members := ← required fs "members" (readList NextHop.ofJson?) }

def toJson (g : NextHopGroup) : Json :=
  .obj [("group_id", writeUInt32 g.id), ("members", writeList NextHop.toJson g.members)]

end NextHopGroup

namespace NodeRole

def ofJson? : Json → Option NodeRole := readName [source, serviceFunction, destination] text

def toJson (r : NodeRole) : Json := .str r.text

end NodeRole

namespace FlowRule

/-- Reads the fields of a rule, the rules of other chains being read already. -/
def ofFields? (fs : Fields) (sharedWith : List FlowRule) : Option FlowRule := do
  return {
    id := ← required fs "id" readString
    role := ← required fs "node_role" NodeRole.ofJson?
    nsp := ← required fs "nsp" readUInt32
    nsi := ← required fs "nsi" readUInt8
    ingress := ← optional fs "ingress" readString
    egress := ← optional fs "egress" readString
    host := ← optional fs "host_id" readString
    segment := ← required fs "segment_id" SegmentId.ofJson?
    nextGroup := ← optional fs "next_hop_group" NextHopGroup.ofJson?
    groupRefs := ← optional fs "group_refcnt" readUInt32
    addFcs := ← defaulted fs "add_fcs" [] (readList FlowClassifier.ofJson?)
    delFcs := ← defaulted fs "del_fcs" [] (readList FlowClassifier.ofJson?)
    reversePath := ← defaulted fs "reverse_path" false readBool
    sharedWith }

mutual

/-- Reads a rule with the rules of other chains in it.  How deep those may be nested is a matter of the text
that the value comes from. -/
def ofJson? : Json → Option FlowRule
  | .obj fields => (sharedOf? fields).bind (ofFields? fields)
  | _ => none

/-- The rules in the first field of that name, none if there is no such field. -/
def sharedOf? : List (String × Json) → Option (List FlowRule)
  | [] => some []
  | field :: fields =>
    if field.1 = "shared_with" then sharedField? field else sharedOf? fields

/-- The rules in a field. -/
def sharedField? : String × Json → Option (List FlowRule)
  | (_, value) => listOf? value

/-- The rules in an array. -/
def listOf? : Json → Option (List FlowRule)
  | .arr items => itemsOf? items
  | _ => none

/-- The rules in the items of an array. -/
def itemsOf? : List Json → Option (List FlowRule)
  | [] => some []
  | item :: items =>
    match ofJson? item, itemsOf? items with
    | some rule, some rules => some (rule :: rules)
    | _, _ => none

end

/-- The fields of a rule but for the rules of other chains. -/
def ownFields (r : FlowRule) : Fields :=
  [("id", .str r.id), ("node_role", r.role.toJson), ("nsp", writeUInt32 r.nsp),
    ("nsi", writeUInt8 r.nsi)] ++
  present "ingress" Json.str r.ingress ++
  present "egress" Json.str r.egress ++
  present "host_id" Json.str r.host ++
  [("segment_id", r.segment.toJson)] ++
  present "next_hop_group" NextHopGroup.toJson r.nextGroup ++
  present "group_refcnt" writeUInt32 r.groupRefs ++
  [("add_fcs", writeList FlowClassifier.toJson r.addFcs),
    ("del_fcs", writeList FlowClassifier.toJson r.delFcs),
    ("reverse_path", .bool r.reversePath)]

mutual

/-- Writes a rule; rules of other chains are left out if there are none. -/
def toJson : FlowRule → Json
  | ⟨id, role, nsp, nsi, ingress, egress, host, segment, group, refs, add, del, rev, shared⟩ =>
    .obj (ownFields ⟨id, role, nsp, nsi, ingress, egress, host, segment, group, refs, add, del, rev,
      []⟩ ++ (if shared.isEmpty then [] else [("shared_with", .arr (listToJson shared))]))

/-- Writes rules. -/
def listToJson : List FlowRule → List Json
  | [] => []
  | rule :: rules => rule.toJson :: listToJson rules

end

end FlowRule

namespace RuleStatus

def ofJson? : Json → Option RuleStatus := readName [active, error] text

def toJson (s : RuleStatus) : Json := .str s.text

end RuleStatus

namespace RuleReport

def ofJson? (j : Json) : Option RuleReport := do
  let fs ← fieldsOf j
  return {
    id := ← required fs "id" readString
    status := ← required fs "status" RuleStatus.ofJson? }

def toJson (r : RuleReport) : Json := .obj [("id", .str r.id), ("status", r.status.toJson)]

end RuleReport

end ServiceChain
