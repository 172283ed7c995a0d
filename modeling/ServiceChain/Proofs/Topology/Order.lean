import ServiceChain.Proofs.Topology.Undoing

/-!
# The order of associations

Every node of a live chain lists its details in the order in which they were associated with it
(`Reachable.ordered`).  Binding a detail appends it to both lists, and giving it up takes it out of both;
what is done at one node shows in the associations of no other, since no two nodes have one id
(`HeadApart`).
-/

namespace ServiceChain

namespace Topology

variable {env : TopologyEnv} {t t' : Topology} {chainId : String} {path : ChainPath}
  {node : PathNode} {plan : ChainPlan} {nodes : List String} {details : List PortDetail}

/-- The details associated with a node, in the order of the associations. -/
def bookedAt (t : Topology) (nodeId : String) : List String :=
  (t.assocs.filter (·.nodeId == nodeId)).map PathPort.detailId

/-- The node lists its details in the order of the associations. -/
def InOrder (t : Topology) (node : PathNode) : Prop := node.portDetails = t.bookedAt node.id

/-- All nodes of live chains list their details in the order of the associations. -/
def Ordered (t : Topology) : Prop :=
  ∀ chainId path, t.path? chainId = some path → ∀ node ∈ path.nodes, t.InOrder node

/-- No other node of a live chain has the id of the head of a path. -/
structure HeadApart (t : Topology) (chainId : String) (path : ChainPath) : Prop where
  hops : ∀ node ∈ path.hops, node.id ≠ path.head.id
  tail : path.tail.id ≠ path.head.id
  others : ∀ other path', chainId ≠ other → t.path? other = some path' →
    ∀ node ∈ path'.nodes, node.id ≠ path.head.id

theorem Booked.headApart (h : Booked env t) (hpath : t.path? chainId = some path) :
    t.HeadApart chainId path := by
  have hnodup := h.nodes_nodup chainId path hpath
  simp only [ChainPath.nodes, List.cons_append, List.map_cons, List.nodup_cons, List.mem_map,
    List.mem_append, List.mem_singleton, not_exists, not_and] at hnodup
  exact
    { hops := fun node hnode => hnodup.1 node (.inl hnode)
      tail := hnodup.1 _ (.inr rfl)
      others := fun other path' hne hpath' node hnode hid =>
        hne (h.nodes_disjoint _ _ _ _ hpath' hpath node hnode _ path.head_mem_nodes hid).symm }

/-- Nothing is associated with an id that is still to be issued. -/
theorem Booked.bookedAt_newId (hlaw : env.Lawful) (h : Booked env t) {n : Nat} (hn : t.issued ≤ n) :
    t.bookedAt (env.newId n) = [] := by
  rw [bookedAt, List.map_eq_nil_iff, List.filter_eq_nil_iff]
  intro a ha hid
  have hpair : (a.nodeId, a.detailId) ∈ t.pairs := List.mem_map_of_mem ha
  obtain ⟨chainId, path, hpath, node, hnode, hsame, -⟩ := (h.pair _ _).1 hpair
  obtain ⟨m, hm, hid'⟩ := h.issued chainId path hpath node hnode
  have := hlaw.newId_injective (hid'.symm.trans (hsame.trans (beq_iff_eq.1 hid)))
  omega

/-! ## Binding -/

theorem Appends.bookedAt {nodeId : String} (h : Appends t nodes details t') (hnot : nodeId ∉ nodes) :
    t'.bookedAt nodeId = t.bookedAt nodeId := by
  obtain ⟨more, heq, hmore⟩ := h.assocs
  have hnone : more.filter (·.nodeId == nodeId) = [] := by
    rw [List.filter_eq_nil_iff]
    intro a ha hid
    exact hnot (beq_iff_eq.1 hid ▸ hmore a ha)
  rw [Topology.bookedAt, heq, List.filter_append, hnone, List.append_nil]
  rfl

theorem Appends.inOrder (h : Appends t nodes details t') (hnot : node.id ∉ nodes)
    (hin : t.InOrder node) : t'.InOrder node :=
  hin.trans (h.bookedAt hnot).symm

theorem inOrder_associate {s : Binding} (h : s.topology.InOrder s.node) (d : PortDetail)
    (weight : UInt32) : (associate s d weight).topology.InOrder (associate s d weight).node := by
  unfold associate
  split
  · exact h
  · rw [InOrder, bookedAt] at h ⊢
    simp [h]

theorem inOrder_associateAll (h : t.InOrder node) (details : List (PortDetail × UInt32)) :
    (associateAll t node details).topology.InOrder (associateAll t node details).node := by
  unfold associateAll
  generalize hs : (⟨t, node, []⟩ : Binding) = s
  have h : s.topology.InOrder s.node := by
    rw [← hs]
    exact h
  clear hs
  induction details generalizing s with
  | nil => exact h
  | cons detail details ih => exact ih _ (inOrder_associate h detail.1 detail.2)

theorem path?_associate (s : Binding) (d : PortDetail) (weight : UInt32) (chainId : String) :
    (associate s d weight).topology.path? chainId = s.topology.path? chainId := by
  unfold associate
  split
  · rfl
  · exact congrArg (·[chainId]?) reserveTag_chains

theorem path?_associateAll (t : Topology) (node : PathNode) (details : List (PortDetail × UInt32))
    (chainId : String) : (associateAll t node details).topology.path? chainId = t.path? chainId := by
  unfold associateAll
  generalize hs : (⟨t, node, []⟩ : Binding) = s
  have hpath : s.topology.path? chainId = t.path? chainId := by rw [← hs]
  clear hs
  induction details generalizing s with
  | nil => exact hpath
  | cons detail details ih => exact ih _ ((path?_associate s _ _ chainId).trans hpath)

theorem attachEnds_eq {ends : List PortDetail} (hpath : t.path? chainId = some path) :
    (t.attachEnds chainId ends).1 =
      (associateAll t path.head (ends.map (·, 1))).topology.setPath chainId
        { path with head := (associateAll t path.head (ends.map (·, 1))).node } := by
  simp only [attachEnds, hpath]
  rfl

/-- What the head of a chain binds shows at no other node. -/
theorem Ordered.attachEnds (h : Ordered t) (hpath : t.path? chainId = some path)
    (hapart : t.HeadApart chainId path) (ends : List PortDetail) :
    Ordered (t.attachEnds chainId ends).1 := by
  have happends := attachEnds_appends ends hpath
  rw [attachEnds_eq hpath] at happends ⊢
  have hother : ∀ node, t.InOrder node → node.id ≠ path.head.id → InOrder _ node :=
    fun node hin hne => happends.inOrder (by simpa using hne) hin
  intro other path' hpath' node hnode
  rw [path?_setPath] at hpath'
  split at hpath'
  · obtain rfl := Option.some.inj hpath'
    rcases ChainPath.mem_nodes.1 hnode with rfl | hhop | rfl
    · exact inOrder_associateAll (h _ _ hpath _ path.head_mem_nodes) _
    · exact hother _ (h _ _ hpath _ (ChainPath.hop_mem_nodes hhop)) (hapart.hops _ hhop)
    · exact hother _ (h _ _ hpath _ (ChainPath.mem_nodes.2 (.inr (.inr rfl)))) hapart.tail
  · rename_i hne
    rw [path?_associateAll] at hpath'
    exact hother _ (h _ _ hpath' _ hnode) (hapart.others _ _ hne hpath' _ hnode)

/-! ## Changes that leave the associations -/

/-- The order depends on the ids and the details of nodes alone. -/
theorem Ordered.of_same (h : Ordered t) (hassocs : t'.assocs = t.assocs)
    (hpath : ∀ chainId path', t'.path? chainId = some path' → ∃ path, t.path? chainId = some path ∧
      ∀ node' ∈ path'.nodes, ∃ node ∈ path.nodes,
        node'.id = node.id ∧ node'.portDetails = node.portDetails) : Ordered t' := by
  intro chainId path' hpath' node' hnode'
  obtain ⟨path, hold, hnodes⟩ := hpath chainId path' hpath'
  obtain ⟨node, hnode, hid, hlisted⟩ := hnodes node' hnode'
  rw [InOrder, bookedAt, hassocs, hid, hlisted]
  exact h chainId path hold node hnode

theorem Ordered.refreshReversePath (h : Ordered t) (chainId : String) :
    Ordered (t.refreshReversePath chainId) := by
  cases hpath : t.path? chainId with
  | none =>
    rw [Topology.refreshReversePath, hpath]
    exact h
  | some path =>
    rw [refreshReversePath_eq hpath]
    refine h.of_same rfl fun other path' hpath' => ?_
    rw [path?_setPath] at hpath'
    split at hpath'
    · rename_i heq
      obtain rfl := heq
      obtain rfl := Option.some.inj hpath'
      refine ⟨path, hpath, fun node' hnode' => ?_⟩
      rw [nodes_directed] at hnode'
      obtain ⟨node, hnode, rfl⟩ := List.mem_map.1 hnode'
      exact ⟨node, hnode, rfl, rfl⟩
    · exact ⟨path', hpath', fun node hnode => ⟨node, hnode, rfl, rfl⟩⟩

theorem Ordered.recordStatuses (h : Ordered t) (reports : List RuleReport) :
    Ordered (t.recordStatuses reports).1 := by
  obtain ⟨mentions, hreported⟩ := exists_reported t reports
  refine h.of_same rfl fun chainId path' hpath' => ?_
  rw [hreported, Option.map_eq_some_iff] at hpath'
  obtain ⟨path, hpath, rfl⟩ := hpath'
  refine ⟨path, hpath, fun node' hnode' => ?_⟩
  rw [nodes_mapNodes] at hnode'
  obtain ⟨node, hnode, rfl⟩ := List.mem_map.1 hnode'
  exact ⟨node, hnode, rfl, rfl⟩

/-! ## Giving up -/

/-- What the nodes of a dropped chain are associated with shows at no other node. -/
theorem Ordered.dropChain (h : Ordered t) (hwf : WellFormed env t) (chainId : String) :
    Ordered (t.dropChain chainId) := by
  cases hpath : t.path? chainId with
  | none =>
    rw [Topology.dropChain, hpath]
    exact h
  | some path =>
    rw [dropChain_eq hpath]
    intro other path' hpath' node hnode
    rw [path?_prune, path?_forget] at hpath'
    split at hpath'
    · cases hpath'
    · rename_i hne
      have hkept : node.id ∉ path.nodes.map PathNode.id := by
        intro hmem
        obtain ⟨node', hnode', hid⟩ := List.mem_map.1 hmem
        exact hne (hwf.nodes_disjoint _ _ _ _ hpath hpath' node' hnode' node hnode hid)
      have hsame : ((t.forget chainId path).assocs.filter (·.nodeId == node.id)) =
          t.assocs.filter (·.nodeId == node.id) := by
        rw [forget, List.filter_filter]
        refine List.filter_congr fun a _ => ?_
        cases hid : a.nodeId == node.id with
        | false => rfl
        | true => simpa [beq_iff_eq.1 hid] using hkept
      rw [InOrder, bookedAt]
      change _ = ((t.forget chainId path).assocs.filter _).map _
      rw [hsame]
      exact h other path' hpath' node hnode

/-- What the head of a chain gives up shows at no other node. -/
theorem Ordered.detachUnusedEnds (h : Ordered t) (hpath : t.path? chainId = some path)
    (hapart : t.HeadApart chainId path) : Ordered (t.detachUnusedEnds chainId) := by
  rw [detachUnusedEnds_eq hpath]
  have hother : ∀ node, t.InOrder node → node.id ≠ path.head.id →
      (t.detach chainId path).prune.InOrder node := by
    intro node hin hne
    have hsame : (t.detach chainId path).assocs.filter (·.nodeId == node.id) =
        t.assocs.filter (·.nodeId == node.id) := by
      rw [detach, List.filter_filter]
      refine List.filter_congr fun a _ => ?_
      cases hid : a.nodeId == node.id with
      | false => rfl
      | true => simp [beq_iff_eq.1 hid, hne]
    rw [InOrder, bookedAt]
    change _ = ((t.detach chainId path).assocs.filter _).map _
    rw [hsame]
    exact hin
  intro other path' hpath' node hnode
  change (t.setPath chainId _).path? other = _ at hpath'
  rw [path?_setPath] at hpath'
  split at hpath'
  · obtain rfl := Option.some.inj hpath'
    rcases ChainPath.mem_nodes.1 hnode with rfl | hhop | rfl
    · -- both lists lose the same details
      have hin : path.head.portDetails = t.bookedAt path.head.id := h _ _ hpath _ path.head_mem_nodes
      have hassocs : (t.detach chainId path).bookedAt path.head.id = (t.bookedAt path.head.id).filter
          (!(path.head.portDetails.filter (!t.isUsedEnd path.classifiers ·)).contains ·) := by
        rw [bookedAt, detach, List.filter_filter, bookedAt, List.filter_map, List.filter_filter]
        refine congrArg (List.map PathPort.detailId) (List.filter_congr fun a _ => ?_)
        cases a.nodeId == path.head.id <;> simp
      change path.head.portDetails.filter (t.isUsedEnd path.classifiers) =
        (t.detach chainId path).bookedAt path.head.id
      rw [hassocs, ← hin]
      refine List.filter_congr fun id hid => ?_
      simp [hid]
    · exact hother _ (h _ _ hpath _ (ChainPath.hop_mem_nodes hhop)) (hapart.hops _ hhop)
    · exact hother _ (h _ _ hpath _ (ChainPath.mem_nodes.2 (.inr (.inr rfl)))) hapart.tail
  · rename_i hne
    exact hother _ (h _ _ hpath' _ hnode) (hapart.others _ _ hne hpath' _ hnode)

/-! ## Calls -/

/-- The nodes of hops bind their details in order, each under an id of its own. -/
theorem inOrder_layHops (hlaw : env.Lawful) {hops : List Hop} {position : Nat}
    (hfresh : ∀ i, position ≤ i → t.bookedAt (env.newId (plan.nextId + i)) = []) :
    ∀ node ∈ (layHops env plan t position hops).nodes,
      (layHops env plan t position hops).topology.InOrder node := by
  induction hops generalizing t position with
  | nil => nofun
  | cons hop hops ih =>
    let node₀ := newNode env plan .serviceFunction position (hops.head?.bind Hop.nextGroup)
    obtain ⟨happends, hid⟩ := associateAll_appends t node₀ hop.details
    have hempty : t.InOrder node₀ := (hfresh position (Nat.le_refl _)).symm
    have hapart : ∀ i, position + 1 ≤ i → env.newId (plan.nextId + i) ∉
        [env.newId (plan.nextId + position)] := by
      intro i hi hmem
      have := hlaw.newId_injective (List.mem_singleton.1 hmem)
      omega
    intro node hnode
    rcases List.mem_cons.1 hnode with rfl | hnode
    · -- the hops after this one do not touch its node
      refine (layHops_appends env plan _ (position + 1) hops).inOrder ?_
        (inOrder_associateAll hempty hop.details)
      rw [hid, List.mem_map]
      rintro ⟨i, hi, hsame⟩
      exact hapart i (List.mem_range'_1.1 hi).1 (List.mem_singleton.2 hsame)
    · refine ih (fun i hi => ?_) node hnode
      rw [happends.bookedAt (hapart i hi)]
      exact hfresh i (by omega)

section Lay

variable {laid : Laying}

/-- All nodes of live chains have ids that were issued before the plan. -/
def IssuedBefore (env : TopologyEnv) (t : Topology) (plan : ChainPlan) : Prop :=
  ∀ other path', t.path? other = some path' → ∀ node ∈ path'.nodes,
    ∃ n < plan.nextId, node.id = env.newId n

theorem path?_laid (hlays : Lays env plan (t.counted plan) 1 plan.hops laid) {other : String}
    (hne : chainId ≠ other) :
    (laid.topology.setPath chainId (barePath env plan laid.nodes)).path? other =
      t.path? other := by
  rw [path?_setPath, if_neg hne]
  exact congrArg (·[other]?) hlays.chains

/-- The head of a plan has the first id that is issued for its nodes. -/
theorem headApart_barePath (hlaw : env.Lawful)
    (hlays : Lays env plan (t.counted plan) 1 plan.hops laid) (hold : IssuedBefore env t plan) :
    (laid.topology.setPath chainId (barePath env plan laid.nodes)).HeadApart chainId
      (barePath env plan laid.nodes) := by
  refine ⟨fun node hnode hid => ?_, fun hid => ?_, fun other path' hne hpath' node hnode hid => ?_⟩
  · have hmem := List.mem_map_of_mem (f := PathNode.id) hnode
    change node.id ∈ laid.nodes.map PathNode.id at hmem
    rw [hlays.ids, List.mem_map] at hmem
    obtain ⟨i, hi, hid'⟩ := hmem
    have := hlaw.newId_injective (hid'.trans hid)
    have := (List.mem_range'_1.1 hi).1
    omega
  · have := hlaw.newId_injective hid
    omega
  · rw [path?_laid hlays hne] at hpath'
    obtain ⟨n, hn, hid'⟩ := hold other path' hpath' node hnode
    have := hlaw.newId_injective (hid'.symm.trans hid)
    omega

/-- The nodes of a plan list what they bind, and what they bind shows at no other node. -/
theorem ordered_barePath (hlaw : env.Lawful) (h : Ordered t)
    (hlays : Lays env plan (t.counted plan) 1 plan.hops laid) (hold : IssuedBefore env t plan)
    (hhops : ∀ node ∈ laid.nodes, laid.topology.InOrder node)
    (hfresh : ∀ i, t.bookedAt (env.newId (plan.nextId + i)) = [])
    (happends : Appends (t.counted plan) ((List.range' 1 plan.hops.length).map fun i =>
      env.newId (plan.nextId + i)) (hopDetails plan.hops) laid.topology) :
    Ordered (laid.topology.setPath chainId (barePath env plan laid.nodes)) := by
  have hapart : ∀ n, (∀ i ∈ List.range' 1 plan.hops.length, plan.nextId + i ≠ n) →
      laid.topology.bookedAt (env.newId n) = t.bookedAt (env.newId n) := by
    intro n hn
    refine happends.bookedAt fun hmem => ?_
    obtain ⟨i, hi, hid⟩ := List.mem_map.1 hmem
    exact hn i hi (hlaw.newId_injective hid)
  intro other path' hpath' node hnode
  by_cases hne : chainId = other
  · rw [path?_setPath, if_pos hne] at hpath'
    obtain rfl := Option.some.inj hpath'
    rcases ChainPath.mem_nodes.1 hnode with rfl | hhop | rfl
    · exact ((hapart plan.nextId fun i hi => by have := (List.mem_range'_1.1 hi).1; omega).trans
        (hfresh 0)).symm
    · exact hhops node hhop
    · exact ((hapart _ fun i hi => by have := (List.mem_range'_1.1 hi).2; omega).trans
        (hfresh (plan.hops.length + 1))).symm
  · rw [path?_laid hlays hne] at hpath'
    obtain ⟨n, hn, hid⟩ := hold other path' hpath' node hnode
    have hin := h other path' hpath' node hnode
    rw [InOrder, hid] at hin ⊢
    exact hin.trans (hapart n fun i _ => by omega).symm

theorem Ordered.lay (hlaw : env.Lawful) (hwf : WellFormed env t) (hplan : Planned env t chainId plan)
    (h : Ordered t) : Ordered (t.lay env plan).1 := by
  have hle := (endDetails_found hlaw hwf.genuine (Nat.le_refl _) hplan.ends).le
  have hfresh : ∀ i, t.bookedAt (env.newId (plan.nextId + i)) = [] := fun i =>
    hwf.toBooked.bookedAt_newId hlaw (by omega)
  have hold : IssuedBefore env t plan := by
    intro other path' hpath' node hnode
    obtain ⟨n, hn, hid⟩ := hwf.issued other path' hpath' node hnode
    exact ⟨n, by omega, hid⟩
  obtain ⟨laid, hlaid⟩ : ∃ laid, layHops env plan (t.counted plan) 1 plan.hops = laid :=
    ⟨_, rfl⟩
  have hlays : Lays env plan (t.counted plan) 1 plan.hops laid := by
    rw [← hlaid]
    exact layHops_lays hlaw hwf.genuine hplan.isPairOf
  have hordered : Ordered (laid.topology.setPath plan.chainId
      (barePath env plan laid.nodes)) := by
    refine ordered_barePath hlaw h hlays hold ?_ hfresh ?_ <;> rw [← hlaid]
    · exact inOrder_layHops hlaw fun i _ => hfresh i
    · exact layHops_appends env plan _ 1 plan.hops
  rw [lay_eq env t plan hlaid]
  exact (hordered.attachEnds (path?_setPath.trans (if_pos rfl))
    (headApart_barePath hlaw hlays hold) plan.ends).refreshReversePath _

end Lay

theorem Ordered.createChain (hlaw : env.Lawful) (hwf : WellFormed env t) (h : Ordered t)
    (chainId : String) : Ordered (t.createChain env chainId).topology := by
  obtain ⟨stats, heq⟩ := createChain_topology env t chainId
  rw [heq]
  change Ordered (t.build env chainId).topology
  rcases build_cases hlaw t chainId with ⟨hsame, -⟩ | ⟨plan, hplan, ⟨hlay, -⟩ | ⟨hdrop, -⟩⟩
  · rw [hsame]
    exact h
  · rw [hlay]
    exact h.lay hlaw hwf hplan
  · rw [hdrop]
    exact (h.lay hlaw hwf hplan).dropChain (hwf.alters_lay hlaw hplan).wellFormed chainId

/-- The head binds the new details after the old ones, and then gives up those of no use. -/
theorem Ordered.reclassify (hbooked : Booked env t) (h : Ordered t) (hpath : t.path? chainId = some path)
    (plan : UpdatePlan) : Ordered (t.reclassify chainId path plan).1 := by
  have hapart := hbooked.headApart hpath
  let changed : Topology :=
    { t with
      chains := t.chains.insert chainId { path with classifiers := plan.remaining }
      issued := plan.nextId }
  have hchanged : ∀ other, changed.path? other =
      if chainId = other then some { path with classifiers := plan.remaining } else t.path? other :=
    fun other => path?_setPath
  have hset := (hchanged chainId).trans (if_pos rfl)
  have hordered : Ordered changed := by
    refine h.of_same rfl fun other path' hpath' => ?_
    rw [hchanged] at hpath'
    split at hpath'
    · rename_i heq
      obtain rfl := heq
      obtain rfl := Option.some.inj hpath'
      exact ⟨path, hpath, fun node hnode => ⟨node, hnode, rfl, rfl⟩⟩
    · exact ⟨path', hpath', fun node hnode => ⟨node, hnode, rfl, rfl⟩⟩
  have hothers : ∀ other path', chainId ≠ other → changed.path? other = some path' →
      ∀ node ∈ path'.nodes, node.id ≠ path.head.id := by
    intro other path' hne hpath'
    rw [hchanged, if_neg hne] at hpath'
    exact hapart.others other path' hne hpath'
  have hattached := hordered.attachEnds hset ⟨hapart.hops, hapart.tail, hothers⟩ plan.ends
  have hid := (associateAll_appends changed path.head (plan.ends.map (·, 1))).2
  refine Ordered.refreshReversePath ?_ chainId
  change Ordered ((changed.attachEnds chainId plan.ends).1.detachUnusedEnds chainId)
  rw [attachEnds_eq hset] at hattached ⊢
  refine hattached.detachUnusedEnds (path?_setPath.trans (if_pos rfl)) ⟨?_, ?_, ?_⟩
  · rw [hid]
    exact hapart.hops
  · rw [hid]
    exact hapart.tail
  · intro other path' hne hpath'
    rw [path?_setPath, if_neg hne, path?_associateAll] at hpath'
    rw [hid]
    exact hothers other path' hne hpath'

theorem Ordered.updateClassifiers (hbooked : Booked env t) (h : Ordered t) (chainId : String)
    (added removed : List String) :
    Ordered (t.updateClassifiers env chainId added removed).topology := by
  cases hpath : t.path? chainId with
  | none =>
    simp only [Topology.updateClassifiers, hpath]
    exact h
  | some path =>
    cases hplan : t.planUpdate env chainId path added removed with
    | error e =>
      simp only [Topology.updateClassifiers, hpath, hplan]
      exact h
    | ok plan =>
      have hordered := h.reclassify hbooked hpath plan
      cases hrules : (t.reclassify chainId path plan).1.flowRules env chainId <;>
      · simp only [Topology.updateClassifiers, hpath, hplan, hrules]
        exact hordered

theorem Ordered.deleteChain (hwf : WellFormed env t) (h : Ordered t) (chainId : String) :
    Ordered (t.deleteChain env chainId).topology := by
  rcases deleteChain_cases env t chainId with ⟨hsame, -⟩ | ⟨path, rules, stats, -, -, -, heq⟩
  · rw [hsame]
    exact h
  · rw [heq]
    exact h.dropChain hwf chainId

theorem Reachable.ordered (hlaw : env.Lawful) (h : Reachable env t) : Ordered t := by
  induction h with
  | empty => simp [Ordered, path?]
  | answer hreach call ih =>
    have hwf := hreach.wellFormed hlaw
    cases call with
    | create chainId => exact ih.createChain hlaw hwf chainId
    | update chainId added removed => exact ih.updateClassifiers hwf.toBooked chainId added removed
    | delete chainId => exact ih.deleteChain hwf chainId
  | report _ reports ih => exact ih.recordStatuses reports

end Topology

end ServiceChain
