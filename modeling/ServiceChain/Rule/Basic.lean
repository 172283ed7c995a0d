import ServiceChain.Classifier.Basic
import ServiceChain.Rule.NextHop

/-!
# Flow rules

A flow rule holds all that one bound port of one path node needs on its bridge, in the forward and,
if the chain is bidirectional, the return direction.
-/

namespace ServiceChain

/-- The place of a node on its path. -/
inductive NodeRole where
  | source
  | serviceFunction
  | destination
  deriving DecidableEq, Repr

namespace NodeRole

/-- The name of a role. -/
def text : NodeRole → String
  | source => "src_node"
  | serviceFunction => "sf_node"
  | destination => "dst_node"

end NodeRole

/-- What one bound port of one path node needs. -/
structure FlowRule where
  /-- The id of the node, a colon, and the id of the port detail. -/
  id : String
  role : NodeRole
  /-- The number of the path. -/
  nsp : UInt32
  /-- The index of the hop on the path. -/
  nsi : UInt8
  ingress : Option String := none
  egress : Option String := none
  host : Option String := none
  segment : SegmentId
  nextGroup : Option NextHopGroup := none
  /-- In a removal, the number of nodes that use the next-hop group; without it the group stays. -/
  groupRefs : Option UInt32 := none
  addFcs : List FlowClassifier := []
  delFcs : List FlowClassifier := []
  reversePath : Bool := false
  /-- In a removal, the rules of other chains for the same port detail.  What they install stays. -/
  sharedWith : List FlowRule := []
  deriving Repr

namespace FlowRule

mutual

/-- Two rules are compared field by field. -/
def decEq : (a b : FlowRule) → Decidable (a = b)
  | ⟨id, role, nsp, nsi, ingress, egress, host, segment, group, refs, add, del, rev, shared⟩,
    ⟨id', role', nsp', nsi', ingress', egress', host', segment', group', refs', add', del', rev',
      shared'⟩ =>
    have := decEqList shared shared'
    decidable_of_iff
      (id = id' ∧ role = role' ∧ nsp = nsp' ∧ nsi = nsi' ∧ ingress = ingress' ∧ egress = egress' ∧
        host = host' ∧ segment = segment' ∧ group = group' ∧ refs = refs' ∧ add = add' ∧
        del = del' ∧ rev = rev' ∧ shared = shared')
      (by simp)

/-- Two lists of rules are compared rule by rule. -/
def decEqList : (as bs : List FlowRule) → Decidable (as = bs)
  | [], [] => isTrue rfl
  | [], _ :: _ => isFalse (by simp)
  | _ :: _, [] => isFalse (by simp)
  | a :: as, b :: bs =>
    have := decEq a b
    have := decEqList as bs
    decidable_of_iff (a = b ∧ as = bs) (by simp)

end

instance : DecidableEq FlowRule := decEq

end FlowRule

/-- The part of a text before its first colon, or all of it. -/
def beforeColon (s : String) : String :=
  match Text.cut? ':' s.toList with
  | some (l, _) => String.ofList l
  | none => s

namespace FlowRule

/-- The id of the path node that the rule is for. -/
def nodeId (r : FlowRule) : String := beforeColon r.id

/-- The next-hop group, if it is one to be programmed. -/
def activeGroup (r : FlowRule) : Option NextHopGroup := r.nextGroup.filter (·.isProgrammable)

/-- Removing the rule drops the last use of its group. -/
def releasesGroup (r : FlowRule) : Bool := r.activeGroup.isSome && r.groupRefs.any (· ≤ 1)

/-- The label of the hop in 32 bits: the path number above the lowest eight, and the index plus
one. -/
def mplsLabel (r : FlowRule) : UInt32 := (r.nsp <<< 8) ||| (r.nsi.toUInt32 + 1)

/-- The rule of the return direction: every classifier is reversed, and at the head the ports change
sides as well. -/
def reversed (r : FlowRule) : FlowRule :=
  { r with
    addFcs := r.addFcs.map FlowClassifier.reversed
    delFcs := r.delFcs.map FlowClassifier.reversed
    ingress := if r.role = .source then r.egress else r.ingress
    egress := if r.role = .source then r.ingress else r.egress }

@[simp]
theorem reversed_reversed (r : FlowRule) : r.reversed.reversed = r := by
  obtain ⟨_, role, _, _, _, _, _, _, _, _, _, _, _, _⟩ := r
  cases role <;> simp [reversed, Function.comp_def]

end FlowRule

/-! ## Statuses -/

/-- Whether a rule is in force. -/
inductive RuleStatus where
  | active
  | error
  deriving DecidableEq, Repr

namespace RuleStatus

/-- The name of a status. -/
def text : RuleStatus → String
  | active => "active"
  | error => "error"

end RuleStatus

/-- What an agent reports on a rule. -/
structure RuleReport where
  id : String
  status : RuleStatus
  deriving DecidableEq, Repr

namespace RuleReport

/-- The id of the path node that a report is about. -/
def nodeId (report : RuleReport) : String := beforeColon report.id

end RuleReport

end ServiceChain
