import ServiceChain.Topology.Create

/-!
# Changing the classifiers of a chain

Classifiers can be added to and removed from a live chain.  The removed ones are withdrawn first;
when the chain loses its way back, all are, so that nothing of it is left.  Then the whole chain is
installed again with the classifiers it has now.
-/

namespace ServiceChain

/-- The rules of a change: first those to delete, then those to apply. -/
structure ClassifierUpdate where
  delete : List FlowRule
  apply : List FlowRule
  deriving DecidableEq, Repr

namespace Topology

/-- The classifiers start at some port and end at some port. -/
def spansBothEnds (fcs : List FlowClassifier) : Bool :=
  fcs.any (·.logicalSource.isSome) && fcs.any (·.logicalDestination.isSome)

/-- A detail of the head is an end of some classifier. -/
def isUsedEnd (t : Topology) (fcs : List FlowClassifier) (detailId : String) : Bool :=
  (t.details[detailId]?).any fun d => fcs.any (touches d.ingress d.egress)

/-- Unbinds the details of the head that are no end of a classifier any more. -/
def detachUnusedEnds (t : Topology) (chainId : String) : Topology :=
  match t.path? chainId with
  | none => t
  | some path =>
    let used := t.isUsedEnd path.classifiers
    let detached := path.head.portDetails.filter (!used ·)
    let head := { path.head with portDetails := path.head.portDetails.filter used }
    prune
      { t with
        chains := t.chains.insert chainId { path with head }
        assocs := t.assocs.filter fun a => !(a.nodeId == head.id && detached.contains a.detailId) }

/-- What a change of classifiers comes to. -/
structure UpdatePlan where
  added : List FlowClassifier
  dropped : List FlowClassifier
  remaining : List FlowClassifier
  /-- The details of the logical ports of the added classifiers. -/
  ends : List PortDetail
  nextId : Nat
  /-- The rules that withdraw classifiers. -/
  delete : List FlowRule
  deriving DecidableEq, Repr

/-- Looks up and checks all that a change of classifiers needs. -/
def planUpdate (env : TopologyEnv) (t : Topology) (chainId : String) (path : ChainPath)
    (added removed : List String) : Except TopologyError UpdatePlan := do
  let loaded ← loadClassifiers env added
  let added := loaded.filter fun fc => !path.classifiers.any (·.id == fc.id)
  let dropped := path.classifiers.filter (removed.contains ·.id)
  let remaining := path.classifiers.filter (!removed.contains ·.id) ++ added
  let (ends, nextId) ← t.endDetails env t.issued (ChainEnd.ofClassifiers added)
  let withdrawn :=
    if t.headIsBidirectional path && !spansBothEnds remaining then path.classifiers else dropped
  let delete ← path.nodes.mapM fun node => t.removalRules env chainId node withdrawn none
  return { added, dropped, remaining, ends, nextId, delete := delete.flatten }

/-- Carries out a change of classifiers. -/
def reclassify (t : Topology) (chainId : String) (path : ChainPath) (plan : UpdatePlan) :
    Topology × List LogEvent :=
  let changed := t.chains.insert chainId { path with classifiers := plan.remaining }
  let (t, notices) :=
    attachEnds { t with chains := changed, issued := plan.nextId } chainId plan.ends
  ((t.detachUnusedEnds chainId).refreshReversePath chainId, notices)

/-- The record of a change of classifiers. -/
def updatedEvents (chainId : String) (plan : UpdatePlan) : List Event :=
  let ids (fcs : List FlowClassifier) : Json := .arr (fcs.map fun fc => .str fc.id)
  [.audit
    { chainRecord .classifierUpdate "update_classifiers" chainId with
      outcome := .success
      details := some (.obj [("added", ids plan.added), ("removed", ids plan.dropped)]) }]

/-- Changes the classifiers of a chain and answers the rules of the change. -/
def updateClassifiers (env : TopologyEnv) (t : Topology) (chainId : String)
    (added removed : List String) : TopologyStep ClassifierUpdate :=
  match t.path? chainId with
  | none => ⟨t, .error (.chainNotFound chainId), []⟩
  | some path =>
    match t.planUpdate env chainId path added removed with
    | .error e => ⟨t, .error e, []⟩
    | .ok plan =>
      let (changed, notices) := t.reclassify chainId path plan
      let events := notices.map Event.log
      match changed.flowRules env chainId with
      | .error e => ⟨changed, .error e, events⟩
      | .ok rules =>
        let stats := changed.stats
        { topology :=
            { changed with
              stats := { stats with classifierUpdates := stats.classifierUpdates + 1 } }
          result := .ok { delete := plan.delete, apply := rules }
          events := events ++ updatedEvents chainId plan }

end Topology

end ServiceChain
