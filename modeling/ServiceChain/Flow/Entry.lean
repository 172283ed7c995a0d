import ServiceChain.Flow.Match

/-!
# Flow entries and groups

An entry sits in a table at a priority, and says what is done with the packets that it matches.
Table, priority and match are its key: a table holds one entry for each.  A group spreads packets
over weighted buckets of actions.
-/

namespace ServiceChain

/-- What is done with a matched packet. -/
inductive FlowAction where
  | modVlanVid (vid : UInt16)
  | stripVlan
  | modDlSrc (mac : MacAddress)
  | modDlDst (mac : MacAddress)
  | output (port : UInt32)
  | resubmit (table : Table)
  | gotoTable (table : Table)
  | group (id : UInt32)
  | drop
  deriving DecidableEq, Repr

namespace FlowAction

/-- The written form of an action, as characters. -/
def chars : FlowAction → List Char
  | modVlanVid vid => "mod_vlan_vid:".toList ++ Text.decimal vid.toNat
  | stripVlan => "strip_vlan".toList
  | modDlSrc mac => "mod_dl_src:".toList ++ mac.chars
  | modDlDst mac => "mod_dl_dst:".toList ++ mac.chars
  | output port => "output:".toList ++ Text.decimal port.toNat
  | resubmit table => "resubmit(,".toList ++ table.chars ++ [')']
  | gotoTable table => "goto_table:".toList ++ table.chars
  | group id => "group:".toList ++ Text.decimal id.toNat
  | drop => "drop".toList

/-- Actions joined by commas. -/
def listChars (actions : List FlowAction) : List Char := [','].intercalate (actions.map chars)

/-- The written form of a list of actions. -/
def listText (actions : List FlowAction) : String := String.ofList (listChars actions)

end FlowAction

/-- What an entry is known by. -/
structure FlowKey where
  table : Table
  priority : UInt16
  pattern : FlowMatch
  deriving DecidableEq, Repr

namespace FlowKey

/-- Keys are ordered by table, then priority, then match. -/
instance : Ord FlowKey :=
  ⟨compareLex (compareOn table) (compareLex (compareOn priority) (compareOn pattern))⟩

instance : Std.TransOrd FlowKey :=
  inferInstanceAs (Std.TransCmp
    (compareLex (compareOn table) (compareLex (compareOn priority) (compareOn pattern))))

instance : Std.LawfulEqOrd FlowKey where
  eq_of_compare {a b} h := by
    change compareLex (compareOn table) (compareLex (compareOn priority) (compareOn pattern)) a b
      = .eq at h
    simp only [compareLex, compareOn, Ordering.then_eq_eq,
      Std.LawfulEqOrd.compare_eq_iff_eq] at h
    cases a; cases b; simp_all

end FlowKey

/-- A key with the actions of its entry. -/
structure FlowEntry where
  key : FlowKey
  actions : List FlowAction
  deriving DecidableEq, Repr

namespace FlowEntry

/-- Table, priority, the match unless it is empty, and the actions, joined by commas. -/
def chars (e : FlowEntry) : List Char :=
  "table=".toList ++ e.key.table.chars ++
    ",priority=".toList ++ Text.decimal e.key.priority.toNat ++ [','] ++
    (if e.key.pattern = FlowMatch.any then [] else e.key.pattern.chars ++ [',']) ++
    "actions=".toList ++ FlowAction.listChars e.actions

/-- The written form of an entry. -/
def text (e : FlowEntry) : String := String.ofList e.chars

end FlowEntry

/-! ## Groups -/

/-- How a group picks the bucket of a packet. -/
inductive GroupType where
  /-- One bucket, by a weighted hash. -/
  | select
  deriving DecidableEq, Repr

/-- A weighted list of actions. -/
structure Bucket where
  weight : UInt32
  actions : List FlowAction
  deriving DecidableEq, Repr

namespace Bucket

/-- The written form of a bucket, as characters. -/
def chars (b : Bucket) : List Char :=
  "bucket=weight=".toList ++ Text.decimal b.weight.toNat ++ ',' :: FlowAction.listChars b.actions

/-- The written form of a bucket. -/
def text (b : Bucket) : String := String.ofList b.chars

end Bucket

/-- A group as it is programmed. -/
structure GroupSpec where
  id : UInt32
  type : GroupType
  buckets : List Bucket
  deriving DecidableEq, Repr

namespace GroupType

/-- The name of a group type. -/
def text : GroupType → String
  | select => "select"

end GroupType

end ServiceChain
