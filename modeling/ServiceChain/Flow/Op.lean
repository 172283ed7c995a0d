import ServiceChain.Flow.Entry

/-!
# Operations on a bridge

A compiler answers with a list of operations; a bridge replays it.  Installing an entry and removing
it name the same key, so that one undoes the other.
-/

namespace ServiceChain

/-- One change of a bridge's tables. -/
inductive BridgeOp where
  /-- Install an entry, or replace the actions of the one with its key. -/
  | addFlow (entry : FlowEntry)
  /-- Remove the entry with a key, if table and priority are given; otherwise remove every entry
  in their scope whose match is covered. -/
  | deleteFlows (table : Option Table) (priority : Option UInt16) (pattern : FlowMatch)
  /-- Create a group, or replace the buckets of the one with its id. -/
  | ensureGroup (group : GroupSpec)
  | deleteGroup (id : UInt32)
  | deleteAllGroups
  deriving DecidableEq, Repr

namespace BridgeOp

/-- The installation of an entry, or the removal of its key. -/
def flow (install : Bool) (key : FlowKey) (actions : List FlowAction) : BridgeOp :=
  if install then addFlow ⟨key, actions⟩
  else deleteFlows (some key.table) (some key.priority) key.pattern

/-- The installation of entries, or the removal of their keys. -/
def flows (install : Bool) (entries : List FlowEntry) : List BridgeOp :=
  entries.map fun entry => flow install entry.key entry.actions

/-- The entry that an operation installs. -/
def entry? : BridgeOp → Option FlowEntry
  | addFlow entry => some entry
  | _ => none

/-- The key of the one entry that an operation installs or removes. -/
def key? : BridgeOp → Option FlowKey
  | addFlow entry => some entry.key
  | deleteFlows (some table) (some priority) pattern => some ⟨table, priority, pattern⟩
  | _ => none

/-- The operation changes the group table. -/
def isGroupOp : BridgeOp → Bool
  | ensureGroup _ | deleteGroup _ | deleteAllGroups => true
  | _ => false

/-- The operation removes entries. -/
def isDeleteFlows : BridgeOp → Bool
  | deleteFlows .. => true
  | _ => false

/-- The name of an operation in reports. -/
def name : BridgeOp → String
  | addFlow _ => "add_flow"
  | deleteFlows .. => "delete_flows"
  | ensureGroup _ => "ensure_group"
  | deleteGroup _ => "delete_group"
  | deleteAllGroups => "delete_all_groups"

end BridgeOp

end ServiceChain
