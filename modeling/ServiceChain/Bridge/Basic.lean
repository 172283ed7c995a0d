import Std.Data.ExtTreeMap
import ServiceChain.Flow.Op

/-!
# Bridges

A bridge has ports, a table of flow entries by key and a table of groups by id.  Any primitive can
be made to fail until further notice.
-/

namespace ServiceChain

/-- A logical port attached to a bridge: its port number and address. -/
structure Port where
  number : UInt32
  mac : MacAddress
  deriving DecidableEq, Repr

/-- The attached ports by logical port id. -/
abbrev PortTable := Std.ExtTreeMap String Port

/-- The actions of the entries by key. -/
abbrev FlowTable := Std.ExtTreeMap FlowKey (List FlowAction)

/-- The entries of a table that another has not, or has with other actions, in the order of keys. -/
def FlowTable.minus (a b : FlowTable) : List FlowEntry :=
  a.toList.filterMap fun (key, actions) =>
    if b[key]? = some actions then none else some ⟨key, actions⟩

/-- The groups by id. -/
abbrev GroupTable := Std.ExtTreeMap UInt32 GroupSpec

/-- What a bridge can be asked to do. -/
inductive Primitive where
  | addFlow
  | deleteFlows
  | addGroup
  | modifyGroup
  | deleteGroup
  | deleteAllGroups
  | dumpGroup
  deriving DecidableEq, Repr

namespace Primitive

/-- The name of a primitive. -/
def text : Primitive → String
  | addFlow => "add_flow"
  | deleteFlows => "delete_flows"
  | addGroup => "add_group"
  | modifyGroup => "modify_group"
  | deleteGroup => "delete_group"
  | deleteAllGroups => "delete_all_groups"
  | dumpGroup => "dump_group"

/-- All primitives. -/
def all : List Primitive :=
  [addFlow, deleteFlows, addGroup, modifyGroup, deleteGroup, deleteAllGroups, dumpGroup]

/-- The primitive of a name. -/
def ofText? (s : String) : Option Primitive := all.find? (·.text = s)

end Primitive

/-- Why a primitive failed. -/
inductive BridgeFault where
  | injected
  | groupExists (id : UInt32)
  | groupMissing (id : UInt32)
  deriving DecidableEq, Repr

/-- The failure of a primitive. -/
structure BridgeError where
  primitive : Primitive
  fault : BridgeFault
  deriving DecidableEq, Repr

namespace BridgeFault

/-- The reason in words. -/
def text : BridgeFault → String
  | injected => "injected failure"
  | groupExists id => "group " ++ toString id.toNat ++ " already exists"
  | groupMissing id => "group " ++ toString id.toNat ++ " does not exist"

end BridgeFault

namespace BridgeError

/-- The sentence shown to an operator. -/
def message (e : BridgeError) : String :=
  "Dataplane " ++ e.primitive.text ++ " failed: " ++ e.fault.text

end BridgeError

/-- A bridge. -/
structure Bridge where
  ports : PortTable := ∅
  flows : FlowTable := ∅
  groups : GroupTable := ∅
  /-- The primitives that fail. -/
  failing : List Primitive := []
  deriving DecidableEq

namespace Bridge

instance : Inhabited Bridge := ⟨{}⟩

/-! ## Ports and failures -/

/-- Attaches a port, in the place of one with its id. -/
def addPort (b : Bridge) (id : String) (port : Port) : Bridge :=
  { b with ports := b.ports.insert id port }

/-- Detaches a port. -/
def removePort (b : Bridge) (id : String) : Bridge := { b with ports := b.ports.erase id }

/-- Makes a primitive fail from now on. -/
def failOn (b : Bridge) (p : Primitive) : Bridge := { b with failing := p :: b.failing }

/-- Lets every primitive work again. -/
def clearFailures (b : Bridge) : Bridge := { b with failing := [] }

/-- Fails if the primitive is set to fail. -/
def check (b : Bridge) (p : Primitive) : Except BridgeError Unit :=
  if p ∈ b.failing then .error ⟨p, .injected⟩ else .ok ()

/-! ## Tables -/

/-- The actions of the entry with a key. -/
def flow? (b : Bridge) (key : FlowKey) : Option (List FlowAction) := b.flows[key]?

/-- The group with an id. -/
def group? (b : Bridge) (id : UInt32) : Option GroupSpec := b.groups[id]?

/-- All entries in the order of their keys. -/
def entries (b : Bridge) : List FlowEntry := b.flows.toList.map fun (key, actions) => ⟨key, actions⟩

/-- The entries of one table. -/
def entriesIn (b : Bridge) (table : Table) : List FlowEntry :=
  b.entries.filter (·.key.table = table)

/-- All groups in the order of their ids. -/
def groupList (b : Bridge) : List GroupSpec := b.groups.toList.map (·.2)

/-! ## Primitives -/

/-- Installs an entry, or replaces the actions of the one with its key. -/
def addFlow (b : Bridge) (entry : FlowEntry) : Except BridgeError Bridge := do
  b.check .addFlow
  return { b with flows := b.flows.insert entry.key entry.actions }

/-- Whether a removal that does not name a key takes the entry of a key. -/
def sweeps (table : Option Table) (priority : Option UInt16) (pattern : FlowMatch)
    (key : FlowKey) : Bool :=
  table.all (key.table == ·) && priority.all (key.priority == ·) && pattern.covers key.pattern

/-- Removes the entry of a key, or everything in scope that the match covers. -/
def deleteFlows (b : Bridge) (table : Option Table) (priority : Option UInt16)
    (pattern : FlowMatch) : Except BridgeError Bridge := do
  b.check .deleteFlows
  match table, priority with
  | some table, some priority => return { b with flows := b.flows.erase ⟨table, priority, pattern⟩ }
  | table, priority =>
    return { b with flows := b.flows.filter fun key _ => !sweeps table priority pattern key }

/-- Adds a group whose id is not taken. -/
def addGroup (b : Bridge) (group : GroupSpec) : Except BridgeError Bridge := do
  b.check .addGroup
  if group.id ∈ b.groups then .error ⟨.addGroup, .groupExists group.id⟩
  else return { b with groups := b.groups.insert group.id group }

/-- Replaces a group that exists. -/
def modifyGroup (b : Bridge) (group : GroupSpec) : Except BridgeError Bridge := do
  b.check .modifyGroup
  if group.id ∈ b.groups then return { b with groups := b.groups.insert group.id group }
  else .error ⟨.modifyGroup, .groupMissing group.id⟩

/-- Removes a group, if it exists. -/
def deleteGroup (b : Bridge) (id : UInt32) : Except BridgeError Bridge := do
  b.check .deleteGroup
  return { b with groups := b.groups.erase id }

/-- Removes all groups. -/
def deleteAllGroups (b : Bridge) : Except BridgeError Bridge := do
  b.check .deleteAllGroups
  return { b with groups := ∅ }

/-- The group with an id, as the switch reports it. -/
def dumpGroup (b : Bridge) (id : UInt32) : Except BridgeError (Option GroupSpec) := do
  b.check .dumpGroup
  return b.group? id

end Bridge

end ServiceChain
