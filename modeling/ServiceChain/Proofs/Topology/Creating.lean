import Mathlib.Data.List.Nodup
import ServiceChain.Proofs.Topology.Laying
import ServiceChain.Proofs.Topology.Pruning

/-!
# Creating a chain

A path that joins a topology brings nodes under new ids and details that agree with the known ones
(`Joins`); then the topology stays well formed, and every other chain is as it was
(`WellFormed.joins`, `Booked.retains_joins`).  The path of a plan joins (`LaidOut.joins`), so creating a
chain, successfully or not, alters no live chain (`WellFormed.alters_createChain`,
`WellFormed.createChain_keeps`).
-/

namespace ServiceChain

namespace Topology

variable {env : TopologyEnv} {t t' : Topology} {chainId : String} {path : ChainPath}
  {plan : ChainPlan}

/-! ## A path that joins -/

/-- One topology is another with the path of a new chain. -/
structure Joins (env : TopologyEnv) (t : Topology) (chainId : String) (path : ChainPath)
    (t' : Topology) : Prop where
  absent : t.path? chainId = none
  path? : ∀ other, t'.path? other = if chainId = other then some path else t.path? other
  le : t.issued ≤ t'.issued
  pairs_nodup : t'.pairs.Nodup
  pair : ∀ nodeId id, (nodeId, id) ∈ t'.pairs ↔ (nodeId, id) ∈ t.pairs ∨ path.Lists nodeId id
  detail : ∀ (id : String) (d : PortDetail), t.details[id]? = some d → t'.details[id]? = some d
  known : ∀ nodeId id, path.Lists nodeId id → id ∈ t'.details
  joined : ∀ (id : String) (d : PortDetail), t'.details[id]? = some d →
    t.details[id]? = some d ∨ ∃ nodeId, path.Lists nodeId id
  genuine : Genuine env t'.issued t'
  end_unique : ∀ (e : ChainEnd) (id id' : String) (d d' : PortDetail),
    t'.details[id]? = some d → t'.details[id']? = some d' → e.isOf d → e.isOf d' → d = d'
  ids : ∀ node ∈ path.nodes, ∃ n, t.issued ≤ n ∧ n < t'.issued ∧ node.id = env.newId n
  nodes_nodup : (path.nodes.map PathNode.id).Nodup
  tag : ∀ (vni : UInt32) (tag : SegmentId), t.tags[vni]? = some tag → t'.tags[vni]? = some tag
  shaped : path.Shaped env t'

theorem Booked.retains_of_grows (h : Booked env t) {other : String} {path' : ChainPath}
    (hpath : t.path? other = some path')
    (hdetail : ∀ (id : String) (d : PortDetail), t.details[id]? = some d →
      t'.details[id]? = some d)
    (htag : ∀ (vni : UInt32) (tag : SegmentId), t.tags[vni]? = some tag →
      t'.tags[vni]? = some tag) : Retains t t' path' where
  detail node hnode id hid := by
    obtain ⟨d, hd⟩ := h.exists_detail hpath hnode hid
    rw [hd, hdetail id d hd]
  tag node hnode d hd vni tag hvni htag' := htag vni tag htag'

theorem Booked.retains_joins (h : Booked env t) (hjoins : Joins env t chainId path t')
    {other : String} {path' : ChainPath} (hother : t.path? other = some path') :
    Retains t t' path' :=
  h.retains_of_grows hother hjoins.detail hjoins.tag

theorem Joins.path?_cases (h : Joins env t chainId path t') {other : String} {path' : ChainPath}
    (hother : t'.path? other = some path') :
    chainId = other ∧ path' = path ∨ chainId ≠ other ∧ t.path? other = some path' := by
  rw [h.path?] at hother
  split at hother
  · rename_i heq
    exact .inl ⟨heq, (Option.some.inj hother).symm⟩
  · rename_i hne
    exact .inr ⟨hne, hother⟩

theorem WellFormed.joins (hlaw : env.Lawful) (h : WellFormed env t)
    (hjoins : Joins env t chainId path t') : WellFormed env t' where
  pairs_nodup := hjoins.pairs_nodup
  pair nodeId id := by
    rw [hjoins.pair, h.pair]
    constructor
    · rintro (⟨other, path', hother, hlists⟩ | hlists)
      · have hne : chainId ≠ other := by
          rintro rfl
          rw [hjoins.absent] at hother
          cases hother
        exact ⟨other, path', by rw [hjoins.path?, if_neg hne, hother], hlists⟩
      · exact ⟨chainId, path, by rw [hjoins.path?, if_pos rfl], hlists⟩
    · rintro ⟨other, path', hother, hlists⟩
      rcases hjoins.path?_cases hother with ⟨-, rfl⟩ | ⟨-, hother⟩
      · exact .inr hlists
      · exact .inl ⟨other, path', hother, hlists⟩
  known nodeId id hpair := by
    rcases (hjoins.pair nodeId id).1 hpair with hpair | hlists
    · have hknown := h.known nodeId id hpair
      rw [Std.ExtTreeMap.mem_iff_isSome_getElem?, Option.isSome_iff_exists] at hknown ⊢
      obtain ⟨d, hd⟩ := hknown
      exact ⟨d, hjoins.detail id d hd⟩
    · exact hjoins.known nodeId id hlists
  genuine := hjoins.genuine
  end_unique := hjoins.end_unique
  issued other path' hother node hnode := by
    rcases hjoins.path?_cases hother with ⟨-, rfl⟩ | ⟨-, hother⟩
    · obtain ⟨n, -, hn, hid⟩ := hjoins.ids node hnode
      exact ⟨n, hn, hid⟩
    · obtain ⟨n, hn, hid⟩ := h.issued other path' hother node hnode
      exact ⟨n, Nat.lt_of_lt_of_le hn hjoins.le, hid⟩
  nodes_nodup other path' hother := by
    rcases hjoins.path?_cases hother with ⟨-, rfl⟩ | ⟨-, hother⟩
    · exact hjoins.nodes_nodup
    · exact h.nodes_nodup other path' hother
  nodes_disjoint a pathA b pathB ha hb nodeA hnodeA nodeB hnodeB hid := by
    -- the ids of the new path are above all others
    have hapart : ∀ {other path'}, t.path? other = some path' → ∀ node ∈ path.nodes,
        ∀ node' ∈ path'.nodes, node.id ≠ node'.id := by
      intro other path' hother node hnode node' hnode' hsame
      obtain ⟨n, hn, -, hid⟩ := hjoins.ids node hnode
      obtain ⟨m, hm, hid'⟩ := h.issued other path' hother node' hnode'
      have hsame := hlaw.newId_injective (hid.symm.trans (hsame.trans hid'))
      omega
    rcases hjoins.path?_cases ha with ⟨rfl, rfl⟩ | ⟨-, ha⟩ <;>
      rcases hjoins.path?_cases hb with ⟨rfl, rfl⟩ | ⟨-, hb⟩
    · rfl
    · exact absurd hid (hapart hb nodeA hnodeA nodeB hnodeB)
    · exact absurd hid.symm (hapart ha nodeB hnodeB nodeA hnodeA)
    · exact h.nodes_disjoint a pathA b pathB ha hb nodeA hnodeA nodeB hnodeB hid
  associated id hid := by
    rw [Std.ExtTreeMap.mem_iff_isSome_getElem?, Option.isSome_iff_exists] at hid
    obtain ⟨d, hd⟩ := hid
    rcases hjoins.joined id d hd with hd | ⟨nodeId, hlists⟩
    · have hmem : id ∈ t.details := by
        rw [Std.ExtTreeMap.mem_iff_isSome_getElem?, hd]
        rfl
      obtain ⟨nodeId, hpair⟩ := h.associated id hmem
      exact ⟨nodeId, (hjoins.pair nodeId id).2 (.inl hpair)⟩
    · exact ⟨nodeId, (hjoins.pair nodeId id).2 (.inr hlists)⟩
  shaped other path' hother := by
    rcases hjoins.path?_cases hother with ⟨-, rfl⟩ | ⟨-, hother⟩
    · exact hjoins.shaped
    · exact (h.shaped other path' hother).of_retains (h.toBooked.retains_joins hjoins hother)

/-! ## What a plan promises -/

theorem loadClassifier_eq_ok {id : String} {fc : FlowClassifier} : loadClassifier env id = .ok fc ↔
    env.store.classifier? id = some fc ∧ fc.validate env.policy = .ok () := by
  unfold loadClassifier
  cases hfound : env.store.classifier? id with
  | none => simp
  | some found =>
    simp only [Except.map_eq_ok, Except.mapError_eq_ok, Option.some.injEq]
    constructor
    · rintro ⟨u, hvalid, rfl⟩
      exact ⟨rfl, hvalid⟩
    · rintro ⟨rfl, hvalid⟩
      exact ⟨(), hvalid, rfl⟩

/-- What was looked up and checked for a new chain. -/
structure Planned (env : TopologyEnv) (t : Topology) (chainId : String) (plan : ChainPlan) :
    Prop where
  chainId_eq : plan.chainId = chainId
  absent : t.path? chainId = none
  length_le : plan.hops.length ≤ maxHops
  valid : ∀ fc ∈ plan.classifiers, fc.validate env.policy = .ok ()
  resolved : ∀ hop ∈ plan.hops, ∃ id, resolveHop env id = .ok hop
  ends : t.endDetails env t.issued (ChainEnd.ofClassifiers plan.classifiers) =
    .ok (plan.ends, plan.nextId)

/-- The checks of a new chain, in their order, and what they find. -/
theorem plan_eq_ok_iff : t.plan env chainId = .ok plan ↔ t.path? chainId = none ∧
    ∃ chain, env.store.chain? chainId = some chain ∧
      checkLength chain.id chain.groups.length = .ok () ∧
      loadClassifiers env chain.classifiers = .ok plan.classifiers ∧
      chain.groups.mapM (resolveHop env) = .ok plan.hops ∧ checkSubnets plan.hops = .ok () ∧
      t.endDetails env t.issued (ChainEnd.ofClassifiers plan.classifiers) =
        .ok (plan.ends, plan.nextId) ∧ plan.chainId = chain.id ∧ plan.nsp = chain.nsp := by
  unfold Topology.plan
  cases habsent : t.path? chainId with
  | some path =>
    cases hchain : env.store.chain? chainId <;> simp [bind, Except.bind]
  | none =>
    cases hchain : env.store.chain? chainId with
    | none => simp
    | some chain =>
      simp only [Option.isSome_none, Bool.false_eq_true, if_false, Except.bind_eq_ok,
        Except.pure_eq_ok, Prod.exists, true_and, Option.some.injEq, exists_eq_left']
      constructor
      · rintro ⟨⟨⟩, hlength, classifiers, hclassifiers, hops, hhops, ⟨⟩, hsubnets, ends, nextId,
          hends, rfl⟩
        exact ⟨hlength, hclassifiers, hhops, hsubnets, hends, rfl, rfl⟩
      · rintro ⟨hlength, hclassifiers, hhops, hsubnets, hends, hid, hnsp⟩
        refine ⟨(), hlength, _, hclassifiers, _, hhops, (), hsubnets, _, _, hends, ?_⟩
        rw [← hid, ← hnsp]

theorem plan_eq_ok (hlaw : env.Lawful) (h : t.plan env chainId = .ok plan) :
    Planned env t chainId plan := by
  obtain ⟨habsent, chain, hchain, hlength, hclassifiers, hhops, -, hends, hid, -⟩ :=
    plan_eq_ok_iff.1 h
  have hlen : plan.hops.length = chain.groups.length :=
    (List.Forall₂.length_eq (Except.mapM_eq_ok.1 hhops)).symm
  refine ⟨hid.trans (hlaw.chain_id chainId chain hchain), habsent, ?_, fun fc hfc => ?_,
    fun hop hhop => ?_, hends⟩
  · unfold checkLength at hlength
    split at hlength
    · cases hlength
    · split at hlength
      · cases hlength
      · show plan.hops.length ≤ maxHops
        omega
  · obtain ⟨id, -, hload⟩ := Except.exists_of_mem_mapM hclassifiers hfc
    exact (loadClassifier_eq_ok.1 hload).2
  · obtain ⟨id, -, hresolve⟩ := Except.exists_of_mem_mapM hhops hhop
    exact ⟨id, hresolve⟩

theorem Planned.isPairOf (h : Planned env t chainId plan) :
    ∀ hop ∈ plan.hops, ∀ d ∈ hop.details.map (·.1), d.IsPairOf env := by
  intro hop hhop d hd
  obtain ⟨id, hresolve⟩ := h.resolved hop hhop
  exact isPairOf_of_mem_details hresolve hd

/-! ## The last steps -/

/-- A topology with another path of a chain. -/
def setPath (t : Topology) (chainId : String) (path : ChainPath) : Topology :=
  { t with chains := t.chains.insert chainId path }

@[simp]
theorem path?_setPath {other : String} :
    (t.setPath chainId path).path? other = if chainId = other then some path else t.path? other := by
  simp [path?, setPath, Std.ExtTreeMap.getElem?_insert]

@[simp]
theorem details_setPath : (t.setPath chainId path).details = t.details := rfl

@[simp]
theorem tags_setPath : (t.setPath chainId path).tags = t.tags := rfl

@[simp]
theorem pairs_setPath : (t.setPath chainId path).pairs = t.pairs := rfl

@[simp]
theorem issued_setPath : (t.setPath chainId path).issued = t.issued := rfl

/-- Details of ends are bound to the head of a chain. -/
theorem attachEnds_binds {ends : List PortDetail} (hpath : t.path? chainId = some path)
    (hagree : t.Agrees ends) (hknown : ∀ id ∈ path.head.portDetails, id ∈ t.details) :
    ∃ bound, Binds ⟨t, path.head, []⟩ ends bound ∧
      (t.attachEnds chainId ends).1 =
        bound.topology.setPath chainId { path with head := bound.node } := by
  have hmap : (ends.map (·, (1 : UInt32))).map (·.1) = ends := by simp [Function.comp_def]
  have hbinds : Binds ⟨t, path.head, []⟩ ((ends.map (·, (1 : UInt32))).map (·.1))
      (associateAll t path.head (ends.map (·, 1))) :=
    associateAll_binds (by rw [hmap]; exact hagree) hknown
  rw [hmap] at hbinds
  refine ⟨_, hbinds, ?_⟩
  simp only [attachEnds, hpath]
  rfl

/-- Every node of a path is told whether there is a way back. -/
def directed (path : ChainPath) (reversePath : Bool) : ChainPath :=
  path.mapNodes ({ · with reversePath })

theorem refreshReversePath_eq (hpath : t.path? chainId = some path) :
    t.refreshReversePath chainId =
      t.setPath chainId (directed path (t.headIsBidirectional path)) := by
  simp only [refreshReversePath, hpath]
  rfl

section Directed

variable {reversePath : Bool}

theorem nodes_directed : (directed path reversePath).nodes =
    path.nodes.map ({ · with reversePath }) := by
  simp [directed, ChainPath.mapNodes, ChainPath.nodes]

theorem map_id_directed : (directed path reversePath).nodes.map PathNode.id =
    path.nodes.map PathNode.id := by
  simp [nodes_directed, Function.comp_def]

theorem lists_directed {nodeId id : String} :
    (directed path reversePath).Lists nodeId id ↔ path.Lists nodeId id := by
  simp [ChainPath.Lists, nodes_directed]

theorem reversePath_of_mem_directed {node : PathNode}
    (h : node ∈ (directed path reversePath).nodes) : node.reversePath = reversePath := by
  rw [nodes_directed] at h
  obtain ⟨node, -, rfl⟩ := List.mem_map.1 h
  rfl

end Directed

/-! ## The path of a plan -/

/-- What laying a plan comes to: a path of new nodes, and the details of the plan bound to them. -/
structure LaidOut (env : TopologyEnv) (t : Topology) (chainId : String) (plan : ChainPlan)
    (path : ChainPath) (t' : Topology) : Prop where
  path? : ∀ other, t'.path? other = if chainId = other then some path else t.path? other
  issued : t'.issued = plan.nextId + plan.hops.length + 2
  classifiers : path.classifiers = plan.classifiers
  head_role : path.head.role = .source
  hop_role : ∀ node ∈ path.hops, node.role = .serviceFunction
  tail_role : path.tail.role = .destination
  tail_empty : path.tail.portDetails = []
  ids : path.nodes.map PathNode.id =
    (List.range' 0 (plan.hops.length + 2)).map fun i => env.newId (plan.nextId + i)
  nodup : ∀ node ∈ path.nodes, node.portDetails.Nodup
  head_listed : ∀ id, id ∈ path.head.portDetails ↔ ∃ d ∈ plan.ends, d.id = id
  hop_listed : ∀ id, (∃ node ∈ path.hops, id ∈ node.portDetails) ↔
    ∃ hop ∈ plan.hops, ∃ d ∈ hop.details.map (·.1), d.id = id
  reversePath : ∀ node ∈ path.nodes, node.reversePath = t'.headIsBidirectional path
  pairs_nodup : t'.pairs.Nodup
  pair : ∀ nodeId id, (nodeId, id) ∈ t'.pairs ↔ (nodeId, id) ∈ t.pairs ∨ path.Lists nodeId id
  detail : ∀ (id : String) (d : PortDetail), t'.details[id]? = some d ↔ t.details[id]? = some d ∨
    ((∃ hop ∈ plan.hops, d ∈ hop.details.map (·.1)) ∨ d ∈ plan.ends) ∧ d.id = id
  tag : ∀ (vni : UInt32) (tag : SegmentId), t.tags[vni]? = some tag → t'.tags[vni]? = some tag

/-- The ids of the nodes of a plan are counted as issued. -/
def counted (t : Topology) (plan : ChainPlan) : Topology :=
  { t with issued := plan.nextId + plan.hops.length + 2 }

/-- The path of a plan before details are bound to its head. -/
def barePath (env : TopologyEnv) (plan : ChainPlan) (hops : List PathNode) : ChainPath where
  classifiers := plan.classifiers
  head := newNode env plan .source 0 (plan.hops.head?.bind Hop.nextGroup)
  hops
  tail := newNode env plan .destination (plan.hops.length + 1) none

/-- The path of a plan with a head that details are bound to. -/
def boundPath (env : TopologyEnv) (plan : ChainPlan) (hops : List PathNode) (head : PathNode) :
    ChainPath :=
  { barePath env plan hops with head }

theorem lay_eq (env : TopologyEnv) (t : Topology) (plan : ChainPlan) {laid : Laying}
    (hlaid : layHops env plan (t.counted plan) 1 plan.hops = laid) :
    (t.lay env plan).1 =
      ((laid.topology.setPath plan.chainId (barePath env plan laid.nodes)).attachEnds
        plan.chainId plan.ends).1.refreshReversePath plan.chainId := by
  rw [← hlaid]
  rfl

section Bound

variable {laid : Laying} {bound : Binding} {head : PathNode} {nodeId id : String}

theorem nodes_boundPath : (boundPath env plan laid.nodes head).nodes =
    head :: laid.nodes ++ [newNode env plan .destination (plan.hops.length + 1) none] := rfl

theorem lists_boundPath : (boundPath env plan laid.nodes head).Lists nodeId id ↔
    nodeId = head.id ∧ id ∈ head.portDetails ∨
      ∃ node ∈ laid.nodes, node.id = nodeId ∧ id ∈ node.portDetails := by
  simp [ChainPath.Lists, nodes_boundPath, newNode, eq_comm]

/-- The nodes take the ids that are issued for them, one after the other. -/
theorem map_id_boundPath {t₀ : Topology} (hlays : Lays env plan t₀ 1 plan.hops laid)
    (hid : head.id = env.newId plan.nextId) :
    (boundPath env plan laid.nodes head).nodes.map PathNode.id =
      (List.range' 0 (plan.hops.length + 2)).map fun i => env.newId (plan.nextId + i) := by
  rw [nodes_boundPath, List.map_append, List.map_cons, hid, hlays.ids, List.range'_concat,
    List.range'_succ, List.map_append, List.map_cons]
  simp [newNode]

theorem Lays.genuine (h : WellFormed env t) (hplan : Planned env t chainId plan)
    (hlays : Lays env plan (t.counted plan) 1 plan.hops laid) :
    Genuine env t.issued laid.topology := by
  intro id d hd
  rcases (hlays.detail id d).1 hd with hd | ⟨⟨hop, hhop, hmem⟩, hid⟩
  · exact h.genuine id d hd
  · exact ⟨hid, .inl (hplan.isPairOf hop hhop d hmem)⟩

/-- No association names an id that is still to be issued. -/
theorem Booked.newId_not_mem_pairs (hlaw : env.Lawful) (h : Booked env t) {n : Nat}
    (hn : t.issued ≤ n) : (env.newId n, id) ∉ t.pairs := by
  intro hpair
  obtain ⟨other, path, hother, node, hnode, hsame, -⟩ := (h.pair _ _).1 hpair
  obtain ⟨m, hm, hid⟩ := h.issued other path hother node hnode
  have hmn := hlaw.newId_injective (hid.symm.trans hsame)
  omega

/-- The head of a plan comes before the nodes of its hops. -/
theorem Lays.id_ne_head (hlaw : env.Lawful) {t₀ : Topology} (hlays : Lays env plan t₀ 1 plan.hops laid) :
    ∀ node ∈ laid.nodes, node.id ≠ env.newId plan.nextId := by
  intro node hnode hsame
  have hmem := List.mem_map_of_mem (f := PathNode.id) hnode
  rw [hlays.ids, List.mem_map] at hmem
  obtain ⟨i, hi, hid⟩ := hmem
  have hzero := hlaw.newId_injective (hid.trans hsame)
  have hpos := (List.mem_range'_1.1 hi).1
  omega

/-- After the hops are laid, the ends of a plan are bound to its head. -/
theorem exists_bound (hlaid : layHops env plan (t.counted plan) 1 plan.hops = laid)
    (hagree : laid.topology.Agrees plan.ends) :
    ∃ bound reversePath, Binds ⟨laid.topology.setPath plan.chainId (barePath env plan laid.nodes),
        (barePath env plan laid.nodes).head, []⟩ plan.ends bound ∧
      (t.lay env plan).1 =
        (bound.topology.setPath plan.chainId (boundPath env plan laid.nodes bound.node)).setPath
          plan.chainId (directed (boundPath env plan laid.nodes bound.node) reversePath) ∧
      reversePath = (t.lay env plan).1.headIsBidirectional
        (directed (boundPath env plan laid.nodes bound.node) reversePath) := by
  obtain ⟨bound, hbinds, hattach⟩ :=
    attachEnds_binds (t := laid.topology.setPath plan.chainId (barePath env plan laid.nodes))
      (path?_setPath.trans (if_pos rfl)) ⟨hagree.known, hagree.unique⟩ (by simp [barePath, newNode])
  have hlay := (lay_eq env t plan hlaid).trans (congrArg (·.refreshReversePath plan.chainId) hattach)
  rw [refreshReversePath_eq (path?_setPath.trans (if_pos rfl))] at hlay
  exact ⟨bound, _, hbinds, hlay, by rw [hlay]; rfl⟩

variable (hlays : Lays env plan (t.counted plan) 1 plan.hops laid)
  (hbinds : Binds ⟨laid.topology.setPath plan.chainId (barePath env plan laid.nodes),
    (barePath env plan laid.nodes).head, []⟩ plan.ends bound)

include hbinds in
theorem listed_of_binds : id ∈ bound.node.portDetails ↔ ∃ d ∈ plan.ends, d.id = id := by
  rw [hbinds.listed]
  simp [barePath, newNode]

include hbinds in
theorem id_of_binds : bound.node.id = env.newId plan.nextId := by
  rw [hbinds.node]
  rfl

include hlays hbinds in
theorem pairs_nodup_of_binds (hlaw : env.Lawful) (h : Booked env t) (hle : t.issued ≤ plan.nextId) :
    bound.topology.pairs.Nodup := by
  refine hbinds.pairs_nodup (hlays.pairs_nodup h.pairs_nodup fun i _ id => ?_) fun id hpair => ?_
  · exact h.newId_not_mem_pairs hlaw (by omega)
  · rcases (hlays.pair _ _).1 hpair with hpair | ⟨node, hnode, hsame, -⟩
    · exact absurd hpair (h.newId_not_mem_pairs hlaw hle)
    · exact absurd hsame (hlays.id_ne_head hlaw node hnode)

include hlays hbinds in
/-- What is added to the associations is what the path lists. -/
theorem pair_of_binds : (nodeId, id) ∈ bound.topology.pairs ↔ (nodeId, id) ∈ t.pairs ∨
    (boundPath env plan laid.nodes bound.node).Lists nodeId id := by
  rw [lists_boundPath, hbinds.pair]
  change ((nodeId, id) ∈ laid.topology.pairs ∨ _) ↔ _
  rw [hlays.pair, or_assoc]
  refine or_congr Iff.rfl ?_
  rw [or_comm, id_of_binds hbinds]
  refine or_congr (and_congr Iff.rfl ?_) Iff.rfl
  simp [barePath, newNode]

include hlays hbinds in
theorem detail_of_binds (id : String) (d : PortDetail) : bound.topology.details[id]? = some d ↔
    t.details[id]? = some d ∨
      ((∃ hop ∈ plan.hops, d ∈ hop.details.map (·.1)) ∨ d ∈ plan.ends) ∧ d.id = id := by
  rw [hbinds.detail]
  change laid.topology.details[id]? = some d ∨ _ ↔ _
  rw [hlays.detail, or_assoc, or_and_right]
  rfl

include hlays hbinds in
theorem nodup_of_binds : ∀ node ∈ (boundPath env plan laid.nodes bound.node).nodes,
    node.portDetails.Nodup := by
  intro node hnode
  rw [nodes_boundPath] at hnode
  simp only [List.mem_append, List.mem_cons, List.not_mem_nil, or_false] at hnode
  rcases hnode with (rfl | hnode) | rfl
  · exact hbinds.nodup List.nodup_nil
  · exact hlays.nodup node hnode
  · exact List.nodup_nil

end Bound

theorem lay_laidOut (hlaw : env.Lawful) (h : WellFormed env t)
    (hplan : Planned env t chainId plan) :
    ∃ path, LaidOut env t chainId plan path (t.lay env plan).1 := by
  obtain rfl := hplan.chainId_eq
  have hends := endDetails_found hlaw h.genuine (Nat.le_refl _) hplan.ends
  obtain ⟨laid, hlaid⟩ : ∃ laid, layHops env plan (t.counted plan) 1 plan.hops = laid := ⟨_, rfl⟩
  have hlays : Lays env plan (t.counted plan) 1 plan.hops laid := by
    rw [← hlaid]
    exact layHops_lays hlaw h.genuine hplan.isPairOf
  have hagree : laid.topology.Agrees plan.ends :=
    hends.agrees hlaw (Nat.le_refl _) (hlays.genuine h hplan) fun id d hd =>
      (hlays.detail id d).2 (.inl hd)
  obtain ⟨bound, reversePath, hbinds, hlay, hdirected⟩ := exists_bound hlaid hagree
  rw [hlay] at hdirected ⊢
  -- a change of the path changes none of the books
  refine ⟨directed (boundPath env plan laid.nodes bound.node) reversePath,
    { path? := fun other => ?_
      issued := hbinds.issued.trans hlays.issued
      classifiers := rfl
      head_role := congrArg PathNode.role hbinds.node
      hop_role := fun node hnode => ?_
      tail_role := rfl
      tail_empty := rfl
      ids := map_id_directed.trans (map_id_boundPath hlays (id_of_binds hbinds))
      nodup := fun node hnode => ?_
      head_listed := fun _ => listed_of_binds hbinds
      hop_listed := fun id => ?_
      reversePath := fun node hnode => (reversePath_of_mem_directed hnode).trans hdirected
      pairs_nodup := pairs_nodup_of_binds hlays hbinds hlaw h.toBooked hends.le
      pair := fun nodeId id => (pair_of_binds hlays hbinds).trans (or_congr Iff.rfl lists_directed.symm)
      detail := detail_of_binds hlays hbinds
      tag := fun vni tag htag => hbinds.tag vni tag (hlays.tag vni tag htag) }⟩
  · simp only [path?_setPath]
    by_cases hsame : plan.chainId = other
    · simp [hsame]
    · simp [hsame, path?, hbinds.chains, setPath, hlays.chains, counted,
        Std.ExtTreeMap.getElem?_insert]
  · obtain ⟨old, hold, rfl⟩ := List.mem_map.1 hnode
    exact hlays.role old hold
  · rw [nodes_directed] at hnode
    obtain ⟨old, hold, rfl⟩ := List.mem_map.1 hnode
    exact nodup_of_binds hlays hbinds old hold
  · rw [← hlays.listed]
    simp [directed, ChainPath.mapNodes, boundPath, barePath]

theorem LaidOut.shaped {path : ChainPath} (hlaid : LaidOut env t chainId plan path t')
    (hplan : Planned env t chainId plan)
    (hpairs : ∀ hop ∈ plan.hops, ∀ d ∈ hop.details.map (·.1), d.IsPairOf env)
    (hends : EndsFound env t t.issued plan.nextId (ChainEnd.ofClassifiers plan.classifiers)
      plan.ends) : path.Shaped env t' := by
  have hdetail : ∀ id ∈ path.head.portDetails, ∃ d, t'.details[id]? = some d ∧
      ∃ e ∈ ChainEnd.ofClassifiers path.classifiers, e.isOf d := by
    intro id hid
    obtain ⟨d, hd, rfl⟩ := (hlaid.head_listed id).1 hid
    rw [hlaid.classifiers]
    exact ⟨d, (hlaid.detail _ d).2 (.inr ⟨.inr hd, rfl⟩), exists_end_of_matched hends.matched hd⟩
  have hend : ∀ e ∈ ChainEnd.ofClassifiers path.classifiers, ∃ id ∈ path.head.portDetails,
      ∃ d, t'.details[id]? = some d ∧ e.isOf d := by
    intro e he
    rw [hlaid.classifiers] at he
    obtain ⟨d, hd, hof⟩ := hends.exists_detail he
    exact ⟨d.id, (hlaid.head_listed _).2 ⟨d, hd, rfl⟩, d,
      (hlaid.detail _ d).2 (.inr ⟨.inr hd, rfl⟩), hof⟩
  have hlength : path.hops.length = plan.hops.length := by
    have hlen := congrArg List.length hlaid.ids
    simp [ChainPath.nodes] at hlen
    omega
  exact
    { head_role := hlaid.head_role
      hop_role := hlaid.hop_role
      tail_role := hlaid.tail_role
      tail_empty := hlaid.tail_empty
      length_le := by rw [hlength]; exact hplan.length_le
      nodup := hlaid.nodup
      hop_detail := fun node hnode id hid => by
        obtain ⟨hop, hhop, d, hd, rfl⟩ := (hlaid.hop_listed id).1 ⟨node, hnode, hid⟩
        exact ⟨d, (hlaid.detail _ d).2 (.inr ⟨.inl ⟨hop, hhop, hd⟩, rfl⟩), hpairs hop hhop d hd⟩
      head_detail := hdetail
      head_end := hend
      valid := by rw [hlaid.classifiers]; exact hplan.valid
      reversePath := fun node hnode => by
        rw [hlaid.reversePath node hnode, headIsBidirectional_eq hdetail hend] }

/-- The path of a plan joins. -/
theorem LaidOut.joins (hlaw : env.Lawful) (h : WellFormed env t)
    (hplan : Planned env t chainId plan) (hlaid : LaidOut env t chainId plan path t') :
    Joins env t chainId path t' := by
  have hends := endDetails_found hlaw h.genuine (Nat.le_refl _) hplan.ends
  have hpairs := hplan.isPairOf
  have hle := hends.le
  exact
    { absent := hplan.absent
      path? := hlaid.path?
      le := by rw [hlaid.issued]; omega
      pairs_nodup := hlaid.pairs_nodup
      pair := hlaid.pair
      detail := fun id d hd => (hlaid.detail id d).2 (.inl hd)
      known := fun nodeId id hlists => by
        obtain ⟨node, hnode, -, hid⟩ := hlists
        rw [Std.ExtTreeMap.mem_iff_isSome_getElem?, Option.isSome_iff_exists]
        rcases ChainPath.mem_nodes.1 hnode with rfl | hnode | rfl
        · obtain ⟨d, hd, rfl⟩ := (hlaid.head_listed id).1 hid
          exact ⟨d, (hlaid.detail _ d).2 (.inr ⟨.inr hd, rfl⟩)⟩
        · obtain ⟨hop, hhop, d, hd, rfl⟩ := (hlaid.hop_listed id).1 ⟨node, hnode, hid⟩
          exact ⟨d, (hlaid.detail _ d).2 (.inr ⟨.inl ⟨hop, hhop, hd⟩, rfl⟩)⟩
        · rw [hlaid.tail_empty] at hid
          cases hid
      joined := fun id d hd => by
        rcases (hlaid.detail id d).1 hd with hd | ⟨⟨hop, hhop, hmem⟩ | hmem, rfl⟩
        · exact .inl hd
        · obtain ⟨node, hnode, hid⟩ := (hlaid.hop_listed d.id).2 ⟨hop, hhop, d, hmem, rfl⟩
          exact .inr ⟨node.id, node, ChainPath.hop_mem_nodes hnode, rfl, hid⟩
        · have hid := (hlaid.head_listed d.id).2 ⟨d, hmem, rfl⟩
          exact .inr ⟨path.head.id, path.head, path.head_mem_nodes, rfl, hid⟩
      genuine := fun id d hd => by
        have hgrow : t.issued ≤ t'.issued := by rw [hlaid.issued]; omega
        rcases (hlaid.detail id d).1 hd with hd | ⟨⟨hop, hhop, hd⟩ | hd, hid⟩
        · exact ⟨(h.genuine id d hd).1, (h.genuine id d hd).2.imp (fun h => h) (·.mono hgrow)⟩
        · exact ⟨hid, .inl (hpairs hop hhop d hd)⟩
        · refine ⟨hid, ?_⟩
          rcases hends.found d hd with hknown | hnew
          · exact (h.genuine _ d hknown).2.imp (fun h => h) (·.mono hgrow)
          · exact .inr (hnew.isEndOf.mono (by rw [hlaid.issued]; omega))
      end_unique := hends.end_unique h.toBooked (nodup_ofClassifiers _) fun id d hd => by
        rcases (hlaid.detail id d).1 hd with hd | ⟨⟨hop, hhop, hd⟩ | hd, hid⟩
        · exact .inl hd
        · exact .inr (.inl (hpairs hop hhop d hd))
        · exact .inr (.inr ⟨hd, hid⟩)
      ids := fun node hnode => by
        have hmem := List.mem_map_of_mem (f := PathNode.id) hnode
        rw [hlaid.ids, List.mem_map] at hmem
        obtain ⟨i, hi, hid⟩ := hmem
        have hlt := (List.mem_range'_1.1 hi).2
        exact ⟨plan.nextId + i, by omega, by rw [hlaid.issued]; omega, hid.symm⟩
      nodes_nodup := by
        rw [hlaid.ids]
        refine List.Nodup.map (fun i j hij => ?_) List.nodup_range'
        have hsum := hlaw.newId_injective hij
        omega
      tag := hlaid.tag
      shaped := hlaid.shaped hplan hpairs hends }

/-! ## Creating a chain -/

theorem WellFormed.withStats (h : WellFormed env t) (stats : TopologyStats) :
    WellFormed env { t with stats } where
  pairs_nodup := h.pairs_nodup
  pair := h.pair
  known := h.known
  genuine := h.genuine
  end_unique := h.end_unique
  issued := h.issued
  nodes_nodup := h.nodes_nodup
  nodes_disjoint := h.nodes_disjoint
  associated := h.associated
  shaped other path hpath :=
    (h.shaped other path hpath).of_retains ⟨fun _ _ _ _ => rfl, fun _ _ _ _ _ _ _ htag => htag⟩

/-- Building a path leaves the topology as it was, or adds the path of a plan, or adds it and drops it
again. -/
theorem build_cases (hlaw : env.Lawful) (t : Topology) (chainId : String) :
    ((t.build env chainId).topology = t ∧ ∃ e, (t.build env chainId).result = .error e) ∨
      ∃ plan, Planned env t chainId plan ∧
        ((t.build env chainId).topology = (t.lay env plan).1.countNodes plan ∧
            (∃ rules, (t.build env chainId).result = .ok rules ∧
              (t.lay env plan).1.flowRules env chainId = .ok rules) ∨
          (t.build env chainId).topology = (t.lay env plan).1.dropChain chainId ∧
            ∃ e, (t.build env chainId).result = .error e) := by
  unfold build
  cases hplan : t.plan env chainId with
  | error e => exact .inl ⟨rfl, e, rfl⟩
  | ok plan =>
    have hplanned := plan_eq_ok hlaw hplan
    refine .inr ⟨plan, hplanned, ?_⟩
    obtain rfl := hplanned.chainId_eq
    cases hrules : (t.lay env plan).1.flowRules env plan.chainId with
    | ok rules => exact .inl ⟨by simp only [hrules], rules, by simp only [hrules], rfl⟩
    | error e => exact .inr ⟨by simp only [hrules], e, by simp only [hrules]⟩

theorem createChain_result (env : TopologyEnv) (t : Topology) (chainId : String) :
    (t.createChain env chainId).result = (t.build env chainId).result := by
  unfold createChain
  cases hresult : (t.build env chainId).result <;> simp [hresult]

theorem createChain_topology (env : TopologyEnv) (t : Topology) (chainId : String) :
    ∃ stats, (t.createChain env chainId).topology =
      { (t.build env chainId).topology with stats } := by
  unfold createChain
  cases hresult : (t.build env chainId).result <;> simp only [hresult] <;> exact ⟨_, rfl⟩

/-- A chain is created if its plan is made and its path has rules. -/
theorem createChain_eq_ok_iff {rules : List FlowRule} :
    (t.createChain env chainId).result = .ok rules ↔ ∃ plan, t.plan env chainId = .ok plan ∧
      (t.lay env plan).1.flowRules env plan.chainId = .ok rules := by
  rw [createChain_result, build]
  cases hplan : t.plan env chainId with
  | error e => simp
  | ok plan => cases hrules : (t.lay env plan).1.flowRules env plan.chainId <;> simp [hrules]

theorem createChain_of_plan {rules : List FlowRule} (hplan : t.plan env chainId = .ok plan)
    (hrules : (t.lay env plan).1.flowRules env plan.chainId = .ok rules) :
    ∃ stats, (t.createChain env chainId).topology = { (t.lay env plan).1 with stats } := by
  obtain ⟨stats, heq⟩ := createChain_topology env t chainId
  have hbuild : (t.build env chainId).topology = (t.lay env plan).1.countNodes plan := by
    simp only [build, hplan, hrules]
  exact ⟨stats, by rw [heq, hbuild, countNodes]⟩

/-- One topology has another path of a chain, or none, and is well formed; every other chain is as it
was. -/
structure Alters (env : TopologyEnv) (t : Topology) (chainId : String) (t' : Topology) : Prop where
  wellFormed : WellFormed env t'
  path? : ∀ other, chainId ≠ other → t'.path? other = t.path? other
  retains : ∀ other path, chainId ≠ other → t.path? other = some path → Retains t t' path

theorem Alters.refl (h : WellFormed env t) (chainId : String) : Alters env t chainId t :=
  ⟨h, fun _ _ => rfl, fun _ path _ _ => Retains.refl t path⟩

theorem Alters.trans {t'' : Topology} (h : Alters env t chainId t')
    (h' : Alters env t' chainId t'') : Alters env t chainId t'' where
  wellFormed := h'.wellFormed
  path? other hne := (h'.path? other hne).trans (h.path? other hne)
  retains other path hne hpath :=
    (h.retains other path hne hpath).trans
      (h'.retains other path hne ((h.path? other hne).trans hpath))

theorem Alters.withStats (h : Alters env t chainId t') (stats : TopologyStats) :
    Alters env t chainId { t' with stats } where
  wellFormed := h.wellFormed.withStats stats
  path? := h.path?
  retains other path hne hpath :=
    ⟨(h.retains other path hne hpath).detail, (h.retains other path hne hpath).tag⟩

theorem WellFormed.alters_lay (hlaw : env.Lawful) (h : WellFormed env t)
    (hplan : Planned env t chainId plan) : Alters env t chainId (t.lay env plan).1 := by
  obtain ⟨path, hlaid⟩ := lay_laidOut hlaw h hplan
  have hjoins := hlaid.joins hlaw h hplan
  refine ⟨h.joins hlaw hjoins, fun other hne => ?_, fun other path' _ hother => ?_⟩
  · rw [hjoins.path?, if_neg hne]
  · exact h.toBooked.retains_joins hjoins hother

theorem WellFormed.alters_dropChain (h : WellFormed env t) (chainId : String) :
    Alters env t chainId (t.dropChain chainId) := by
  cases hpath : t.path? chainId with
  | none =>
    rw [Topology.dropChain, hpath]
    exact Alters.refl h chainId
  | some path =>
    refine ⟨h.dropChain chainId, fun other hne => ?_, fun other path' hne hother => ?_⟩
    · rw [path?_dropChain hpath, if_neg hne]
    · exact h.toBooked.retains_dropChain hpath hother hne

/-- Creating a chain, successfully or not, alters no other chain. -/
theorem WellFormed.alters_createChain (hlaw : env.Lawful) (h : WellFormed env t)
    (chainId : String) : Alters env t chainId (t.createChain env chainId).topology := by
  obtain ⟨stats, heq⟩ := createChain_topology env t chainId
  rw [heq]
  apply Alters.withStats
  rcases build_cases hlaw t chainId with ⟨hsame, -⟩ | ⟨plan, hplan, ⟨hlay, -⟩ | ⟨hdrop, -⟩⟩
  · rw [hsame]
    exact Alters.refl h chainId
  · rw [hlay]
    exact (h.alters_lay hlaw hplan).withStats _
  · have hlay := h.alters_lay hlaw hplan
    rw [hdrop]
    exact hlay.trans (hlay.wellFormed.alters_dropChain chainId)

/-- Creating a chain, successfully or not, alters no live chain. -/
theorem WellFormed.createChain_keeps (hlaw : env.Lawful) (h : WellFormed env t) {other : String}
    {path : ChainPath} (hpath : t.path? other = some path) :
    (t.createChain env chainId).topology.path? other = some path ∧
      Retains t (t.createChain env chainId).topology path := by
  have halters := h.alters_createChain hlaw chainId
  by_cases hne : chainId = other
  · -- a live chain is not created again
    subst hne
    obtain ⟨stats, heq⟩ := createChain_topology env t chainId
    rcases build_cases hlaw t chainId with ⟨hsame, -⟩ | ⟨plan, hplan, -⟩
    · rw [heq, hsame]
      exact ⟨hpath, fun _ _ _ _ => rfl, fun _ _ _ _ _ _ _ htag => htag⟩
    · rw [hplan.absent] at hpath
      cases hpath
  · exact ⟨(halters.path? other hne).trans hpath, halters.retains other path hne hpath⟩

/-- A chain that is created is live with the rules that are answered. -/
theorem flowRules_createChain (hlaw : env.Lawful) {rules : List FlowRule}
    (h : (t.createChain env chainId).result = .ok rules) :
    (t.createChain env chainId).topology.flowRules env chainId = .ok rules := by
  obtain ⟨stats, heq⟩ := createChain_topology env t chainId
  rw [createChain_result] at h
  rw [heq]
  rcases build_cases hlaw t chainId with ⟨-, e, he⟩ | ⟨plan, -, ⟨hlay, rules', he, hrules⟩ | ⟨-, e, he⟩⟩
  · cases h.symm.trans he
  · cases h.symm.trans he
    rw [hlay]
    exact hrules
  · cases h.symm.trans he

/-- A chain that is refused is as it was. -/
theorem path?_createChain_error (hlaw : env.Lawful) (hwf : WellFormed env t) {e : TopologyError}
    (h : (t.createChain env chainId).result = .error e) :
    (t.createChain env chainId).topology.path? chainId = t.path? chainId := by
  obtain ⟨stats, heq⟩ := createChain_topology env t chainId
  rw [createChain_result] at h
  rw [heq]
  change (t.build env chainId).topology.path? chainId = t.path? chainId
  rcases build_cases hlaw t chainId with ⟨hsame, -⟩ | ⟨plan, hplan, ⟨-, rules, he, -⟩ | ⟨hdrop, -⟩⟩
  · rw [hsame]
  · cases h.symm.trans he
  · obtain ⟨path, hlaid⟩ := lay_laidOut hlaw hwf hplan
    have hpath : (t.lay env plan).1.path? chainId = some path := by
      rw [hlaid.path?, if_pos rfl]
    rw [hdrop, path?_dropChain hpath, if_pos rfl, hplan.absent]

end Topology

end ServiceChain
