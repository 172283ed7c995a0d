import ServiceChain.Proofs.Topology.Deleting
import ServiceChain.Topology.Status

/-!
# Calls to the topology

Chains are created, changed and deleted by calls, which answer batches of rules (`Topology.answer`).  A
topology is reached by any calls, also by ones that fail, and by reports of agents on rules
(`Topology.Reachable`); at every point it is well formed (`Reachable.wellFormed`).
-/

namespace ServiceChain

/-- What is asked of a topology. -/
inductive ChainCall where
  | create (chainId : String)
  | update (chainId : String) (added removed : List String)
  | delete (chainId : String)
  deriving DecidableEq, Repr

namespace ChainCall

/-- The chain that a call is about. -/
def chainId : ChainCall → String
  | create chainId => chainId
  | update chainId _ _ => chainId
  | delete chainId => chainId

end ChainCall

/-- Rules to be installed or removed together. -/
structure RuleBatch where
  install : Bool
  rules : List FlowRule
  deriving DecidableEq, Repr

namespace Topology

/-- The topology after a call, and the batches that the call answered. -/
def answer (env : TopologyEnv) (t : Topology) :
    ChainCall → Topology × Except TopologyError (List RuleBatch)
  | .create chainId =>
    let done := t.createChain env chainId
    (done.topology, done.result.map fun rules => [⟨true, rules⟩])
  | .update chainId added removed =>
    let done := t.updateClassifiers env chainId added removed
    (done.topology,
      done.result.map fun update => [⟨false, update.delete⟩, ⟨true, update.apply⟩])
  | .delete chainId =>
    let done := t.deleteChain env chainId
    (done.topology, done.result.map fun rules => [⟨false, rules⟩])

/-- Calls and reports on rules lead to the topology. -/
inductive Reachable (env : TopologyEnv) : Topology → Prop
  | empty : Reachable env {}
  | answer {t : Topology} (h : Reachable env t) (call : ChainCall) :
      Reachable env (t.answer env call).1
  | report {t : Topology} (h : Reachable env t) (reports : List RuleReport) :
      Reachable env (t.recordStatuses reports).1

variable {env : TopologyEnv} {t : Topology}

/-- A call, successful or not, alters no chain but its own. -/
theorem WellFormed.alters_answer (hlaw : env.Lawful) (h : WellFormed env t) (call : ChainCall) :
    Alters env t call.chainId (t.answer env call).1 := by
  cases call with
  | create chainId => exact h.alters_createChain hlaw chainId
  | update chainId added removed => exact h.alters_updateClassifiers hlaw chainId added removed
  | delete chainId => exact h.alters_deleteChain chainId

/-! ## Reports -/

section Reports

variable {outcomes : Std.ExtTreeMap String Bool} {path : ChainPath}

theorem nodes_mapNodes {f : PathNode → PathNode} :
    (path.mapNodes f).nodes = path.nodes.map f := by
  simp [ChainPath.mapNodes, ChainPath.nodes]

theorem map_id_reported :
    (path.mapNodes (reportTo outcomes)).nodes.map PathNode.id = path.nodes.map PathNode.id := by
  simp [nodes_mapNodes, reportTo, Function.comp_def]

theorem lists_reported {nodeId id : String} :
    (path.mapNodes (reportTo outcomes)).Lists nodeId id ↔ path.Lists nodeId id := by
  simp [ChainPath.Lists, nodes_mapNodes, reportTo]

theorem shaped_reported (h : path.Shaped env t) :
    (path.mapNodes (reportTo outcomes)).Shaped env t where
  head_role := h.head_role
  hop_role node hnode := by
    obtain ⟨old, hold, rfl⟩ := List.mem_map.1 hnode
    exact h.hop_role old hold
  tail_role := h.tail_role
  tail_empty := h.tail_empty
  length_le := by
    change (path.hops.map _).length ≤ maxHops
    rw [List.length_map]
    exact h.length_le
  nodup node hnode := by
    rw [nodes_mapNodes, List.mem_map] at hnode
    obtain ⟨old, hold, rfl⟩ := hnode
    exact h.nodup old hold
  hop_detail node hnode := by
    obtain ⟨old, hold, rfl⟩ := List.mem_map.1 hnode
    exact h.hop_detail old hold
  head_detail := h.head_detail
  head_end := h.head_end
  valid := h.valid
  reversePath node hnode := by
    rw [nodes_mapNodes, List.mem_map] at hnode
    obtain ⟨old, hold, rfl⟩ := hnode
    exact h.reversePath old hold

theorem exists_reported (t : Topology) (reports : List RuleReport) :
    ∃ outcomes, ∀ chainId, (t.recordStatuses reports).1.path? chainId =
      (t.path? chainId).map (·.mapNodes (reportTo outcomes)) :=
  ⟨_, fun _ => Std.ExtTreeMap.getElem?_map⟩

/-- Reports change nothing but the statuses of nodes. -/
theorem WellFormed.recordStatuses (h : WellFormed env t) (reports : List RuleReport) :
    WellFormed env (t.recordStatuses reports).1 := by
  obtain ⟨outcomes, hpath⟩ := exists_reported t reports
  have hold : ∀ {chainId p}, (t.recordStatuses reports).1.path? chainId = some p →
      ∃ path, t.path? chainId = some path ∧ p = path.mapNodes (reportTo outcomes) := by
    intro chainId p hp
    rw [hpath, Option.map_eq_some_iff] at hp
    obtain ⟨path, hp, rfl⟩ := hp
    exact ⟨path, hp, rfl⟩
  have hbooked : Booked env (t.recordStatuses reports).1 := by
    refine h.toBooked.of_same_ids (fun chainId p hp => ?_) (Nat.le_refl _) h.pairs_nodup
      (fun nodeId id => ?_) h.known h.genuine h.end_unique
    · obtain ⟨path, hpath', rfl⟩ := hold hp
      exact ⟨path, hpath', map_id_reported⟩
    · change (nodeId, id) ∈ t.pairs ↔ _
      rw [h.pair]
      constructor
      · rintro ⟨chainId, path, hp, hlists⟩
        exact ⟨chainId, _, by rw [hpath, hp]; rfl, lists_reported.2 hlists⟩
      · rintro ⟨chainId, p, hp, hlists⟩
        obtain ⟨path, hpath', rfl⟩ := hold hp
        exact ⟨chainId, path, hpath', lists_reported.1 hlists⟩
  refine { hbooked with associated := h.associated, shaped := fun chainId p hp => ?_ }
  obtain ⟨path, hpath', rfl⟩ := hold hp
  exact (shaped_reported (h.shaped chainId path hpath')).of_retains
    ⟨fun _ _ _ _ => rfl, fun _ _ _ _ _ _ _ htag => htag⟩

end Reports

theorem Reachable.wellFormed (hlaw : env.Lawful) (h : Reachable env t) : WellFormed env t := by
  induction h with
  | empty => exact wellFormed_empty env
  | answer _ call ih => exact (ih.alters_answer hlaw call).wellFormed
  | report _ reports ih => exact ih.recordStatuses reports

end Topology

end ServiceChain
