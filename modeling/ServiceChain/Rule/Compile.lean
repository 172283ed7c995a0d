import Std.Data.ExtTreeSet
import ServiceChain.Rule.Egress
import ServiceChain.Rule.Ingress

/-!
# Compilation of flow rules

The egress side of a hop tags traffic into the chain, the ingress side delivers it to the hop:

    local switching (0)  →  cross subnet (5)   →  chain ingress (10)
    classify and tag        local, or through      strip the tag and
    or group                the transport port     deliver

The entries of a side are the same for installing and removing, which differ in what is done with
them, so a removal names the keys that the installation of the same classifiers writes.
-/

namespace ServiceChain

namespace FlowRule

variable (ctx : HostContext) (ports : PortTable)

/-! ## Passes -/

/-- A side of a hop. -/
inductive Side where
  | egress
  | ingress
  deriving DecidableEq, Repr

/-- One side of a hop in one direction. -/
structure Pass where
  side : Side
  isReverse : Bool
  deriving DecidableEq, Repr

/-- The rule as a pass sees it. -/
def seenBy (r : FlowRule) (p : Pass) : FlowRule := if p.isReverse then r.reversed else r

/-- The classifiers that an installation adds or a removal takes away. -/
def classifiers (r : FlowRule) (install : Bool) : List FlowClassifier :=
  if install then r.addFcs else r.delFcs

/-- The operations of one pass. -/
def passOps (r : FlowRule) (install : Bool) (p : Pass) : Except CompileError (List BridgeOp) :=
  let seen := r.seenBy p
  match p.side with
  | .egress => seen.egressOps ctx ports (seen.classifiers install) install
  | .ingress => seen.destinationOps ctx ports (seen.classifiers install) install

/-- The operations of passes in turn, up to the first that fails. -/
def passesOps (r : FlowRule) (install : Bool) (passes : List Pass) :
    Except CompileError (List BridgeOp) :=
  (passes.mapM (r.passOps ctx ports install)).map List.flatten

/-- The passes of an installation: for each port of the rule, its side, and on the way back the
other. -/
def installPasses (r : FlowRule) : List Pass :=
  (if r.egress.isSome then
    ⟨.egress, false⟩ :: (if r.reversePath then [⟨.ingress, true⟩] else []) else []) ++
  (if r.ingress.isSome then
    ⟨.ingress, false⟩ :: (if r.reversePath then [⟨.egress, true⟩] else []) else [])

/-- The forward passes of a removal. -/
def forwardRemovals (r : FlowRule) : List Pass :=
  (if r.egress.isSome then [⟨.egress, false⟩] else []) ++
  (if r.ingress.isSome then [⟨.ingress, false⟩] else [])

/-- A removal goes over a side on the way back for a port on the other side; at a service function
it goes over both. -/
def spansReverse (r : FlowRule) (port : Option String) : Bool :=
  r.reversePath && (port.isSome || r.role == .serviceFunction)

/-- The passes of a removal on the way back. -/
def reverseRemovals (r : FlowRule) : List Pass :=
  (if r.spansReverse r.ingress then [⟨.egress, true⟩] else []) ++
  (if r.spansReverse r.egress then [⟨.ingress, true⟩] else [])

/-! ## Installation and removal -/

/-- The operations that install a rule. -/
def installOps (r : FlowRule) : Except CompileError (List BridgeOp) :=
  r.passesOps ctx ports true r.installPasses

/-- Takes down the group, if an egress side was removed and the rule held its last use. -/
def releaseOps (r : FlowRule) : List BridgeOp :=
  match r.activeGroup with
  | some group =>
    if (r.egress.isSome || r.spansReverse r.ingress) && r.releasesGroup then group.teardownOps
    else []
  | none => []

/-- The operations that remove a rule, whoever else needs its entries. -/
def uninstallOps (r : FlowRule) : Except CompileError (List BridgeOp) := do
  let forward ← r.passesOps ctx ports false r.forwardRemovals
  let reverse ← r.passesOps ctx ports false r.reverseRemovals
  return forward ++ r.mplsCleanup ports ++ reverse ++ r.releaseOps

/-- The keys that the rules of other chains install, as far as they compile. -/
def sharedKeys (r : FlowRule) : List FlowKey :=
  r.sharedWith.flatMap fun other =>
    match other.installOps ctx ports with
    | .ok ops => ops.filterMap BridgeOp.key?
    | .error _ => []

/-- The operation removes one entry, whose key is among the given ones. -/
def removesAny (keys : Std.ExtTreeSet FlowKey) (op : BridgeOp) : Bool :=
  op.isDeleteFlows && op.key?.any (keys.contains ·)

/-- The operations that remove a rule and keep the entries that other chains install too. -/
def removeOps (r : FlowRule) : Except CompileError (List BridgeOp) := do
  let ops ← r.uninstallOps ctx ports
  let kept := Std.ExtTreeSet.ofList (r.sharedKeys ctx ports)
  return ops.filter fun op => !removesAny kept op

/-! ## Log events -/

/-- The events of classifying in turn, up to the first classifier that fails. -/
def classificationNotices : List FlowClassifier → List LogEvent
  | [] => []
  | fc :: fcs =>
    fc.notices ++ match fc.matchFields with
      | .ok _ => classificationNotices fcs
      | .error _ => []

/-- The events of one pass: only the classification at the head has any. -/
def passNotices (r : FlowRule) (install : Bool) (p : Pass) : List LogEvent :=
  if p.side = .egress ∧ r.role = .source then
    classificationNotices ((r.seenBy p).classifiers install)
  else []

/-- The events of passes in turn, up to the first that fails. -/
def passesNotices (r : FlowRule) (install : Bool) : List Pass → List LogEvent
  | [] => []
  | p :: ps =>
    r.passNotices install p ++ match r.passOps ctx ports install p with
      | .ok _ => r.passesNotices install ps
      | .error _ => []

/-- The events of compiling an installation. -/
def installNotices (r : FlowRule) : List LogEvent :=
  r.passesNotices ctx ports true r.installPasses

/-- The events of compiling a removal; the rules of other chains are compiled at its end. -/
def removeNotices (r : FlowRule) : List LogEvent :=
  r.passesNotices ctx ports false (r.forwardRemovals ++ r.reverseRemovals) ++
    match r.uninstallOps ctx ports with
    | .ok _ => r.sharedWith.flatMap fun other => other.installNotices ctx ports
    | .error _ => []

end FlowRule

end ServiceChain
