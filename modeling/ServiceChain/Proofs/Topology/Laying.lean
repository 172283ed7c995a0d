import ServiceChain.Proofs.Topology.Planning

/-!
# Laying the nodes of hops

Each hop gets a node with the details of its pairs bound to it (`Lays`, `layHops_lays`).  The nodes take
ids that were not issued, one after the other, and nothing else of the topology changes but for the
details, tags and associations that are added.
-/

namespace ServiceChain

namespace Topology

variable {env : TopologyEnv} {t : Topology} {chainId : String} {plan : ChainPlan} {issued : Nat}

/-- What laying the nodes of hops from a position on makes of a topology. -/
structure Lays (env : TopologyEnv) (plan : ChainPlan) (t : Topology) (position : Nat)
    (hops : List Hop) (laid : Laying) : Prop where
  chains : laid.topology.chains = t.chains
  issued : laid.topology.issued = t.issued
  ids : laid.nodes.map PathNode.id =
    (List.range' position hops.length).map fun i => env.newId (plan.nextId + i)
  role : ∀ node ∈ laid.nodes, node.role = .serviceFunction
  nodup : ∀ node ∈ laid.nodes, node.portDetails.Nodup
  listed : ∀ id, (∃ node ∈ laid.nodes, id ∈ node.portDetails) ↔
    ∃ hop ∈ hops, ∃ d ∈ hop.details.map (·.1), d.id = id
  pair : ∀ nodeId id, (nodeId, id) ∈ laid.topology.pairs ↔ (nodeId, id) ∈ t.pairs ∨
    ∃ node ∈ laid.nodes, node.id = nodeId ∧ id ∈ node.portDetails
  pairs_nodup : t.pairs.Nodup →
    (∀ i, position ≤ i → ∀ id, (env.newId (plan.nextId + i), id) ∉ t.pairs) →
      laid.topology.pairs.Nodup
  detail : ∀ (id : String) (d : PortDetail), laid.topology.details[id]? = some d ↔
    t.details[id]? = some d ∨ (∃ hop ∈ hops, d ∈ hop.details.map (·.1)) ∧ d.id = id
  tag : ∀ (vni : UInt32) (tag : SegmentId),
    t.tags[vni]? = some tag → laid.topology.tags[vni]? = some tag

theorem Genuine.binds {s s' : Binding} {details : List PortDetail}
    (h : Genuine env issued s.topology) (hbinds : Binds s details s')
    (hdetails : ∀ d ∈ details, d.IsPairOf env ∨ d.IsEndOf env issued) :
    Genuine env issued s'.topology := by
  intro id d hd
  rcases (hbinds.detail id d).1 hd with hd | ⟨hmem, hid⟩
  · exact h id d hd
  · exact ⟨hid, hdetails d hmem⟩

/-- A node with its details before the nodes of the other hops. -/
theorem Lays.cons (hlaw : env.Lawful) {hop : Hop} {hops : List Hop} {position : Nat}
    {node : PathNode} {bound : Binding} {rest : Laying}
    (hid : node.id = env.newId (plan.nextId + position)) (hrole : node.role = .serviceFunction)
    (hnone : node.portDetails = []) (hbinds : Binds ⟨t, node, []⟩ (hop.details.map (·.1)) bound)
    (hrest : Lays env plan bound.topology (position + 1) hops rest) (notices : List LogEvent) :
    Lays env plan t position (hop :: hops) ⟨rest.topology, bound.node :: rest.nodes, notices⟩ := by
  have hboundId : bound.node.id = node.id := by rw [hbinds.node]
  have hlisted : ∀ id, id ∈ bound.node.portDetails ↔ ∃ d ∈ hop.details.map (·.1), d.id = id := by
    intro id
    rw [hbinds.listed, hnone]
    simp
  refine
    { chains := hrest.chains.trans hbinds.chains
      issued := hrest.issued.trans hbinds.issued
      ids := ?_
      role := ?_
      nodup := ?_
      listed := fun id => ?_
      pair := fun nodeId id => ?_
      pairs_nodup := fun hnodup hnew => ?_
      detail := fun id d => ?_
      tag := fun vni tag htag => hrest.tag vni tag (hbinds.tag vni tag htag) }
  · rw [List.map_cons, hrest.ids, hboundId, hid]
    rfl
  · simp only [List.mem_cons, forall_eq_or_imp]
    exact ⟨by rw [hbinds.node, hrole], hrest.role⟩
  · simp only [List.mem_cons, forall_eq_or_imp]
    exact ⟨hbinds.nodup (by simp [hnone]), hrest.nodup⟩
  · simp only [List.mem_cons, exists_eq_or_imp, hlisted, hrest.listed]
  · simp only [List.mem_cons, exists_eq_or_imp]
    rw [hrest.pair, hbinds.pair, or_assoc, hboundId]
    simp [hnone, eq_comm]
  · have hfresh : ∀ id, (node.id, id) ∈ t.pairs → id ∈ node.portDetails := by
      intro id hpair
      rw [hid] at hpair
      exact absurd hpair (hnew position (Nat.le_refl _) id)
    refine hrest.pairs_nodup (hbinds.pairs_nodup hnodup hfresh) fun i hi id hpair => ?_
    rcases (hbinds.pair _ _).1 hpair with hpair | ⟨hsame, -, -⟩
    · exact hnew i (by omega) id hpair
    · -- the node just laid has the id before
      have heq := hlaw.newId_injective (hsame.trans hid)
      omega
  · rw [hrest.detail, hbinds.detail]
    simp only [List.mem_cons, exists_eq_or_imp]
    rw [or_and_right, or_assoc]

theorem layHops_lays (hlaw : env.Lawful) {hops : List Hop} {position : Nat}
    (hgenuine : Genuine env issued t)
    (hpairs : ∀ hop ∈ hops, ∀ d ∈ hop.details.map (·.1), d.IsPairOf env) :
    Lays env plan t position hops (layHops env plan t position hops) := by
  induction hops generalizing t position with
  | nil =>
    exact
      { chains := rfl, issued := rfl, ids := rfl, role := nofun, nodup := nofun
        listed := by simp [layHops]
        pair := by simp [layHops]
        pairs_nodup := fun h _ => h
        detail := by simp [layHops]
        tag := fun _ _ h => h }
  | cons hop hops ih =>
    obtain ⟨hhop, hhops⟩ := List.forall_mem_cons.1 hpairs
    let node := newNode env plan .serviceFunction position (hops.head?.bind Hop.nextGroup)
    have hbinds : Binds ⟨t, node, []⟩ (hop.details.map (·.1)) (associateAll t node hop.details) :=
      associateAll_binds (agrees_of_pairs hlaw hgenuine hhop) (by simp [node, newNode])
    have hbound := hgenuine.binds hbinds fun d hd => .inl (hhop d hd)
    exact Lays.cons hlaw rfl rfl rfl hbinds (ih hbound hhops) _

end Topology

end ServiceChain
