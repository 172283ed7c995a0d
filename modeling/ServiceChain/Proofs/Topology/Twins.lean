import ServiceChain.Proofs.Topology.Usable

/-!
# Paths of one chain in two topologies

The hops of a path depend on the recorded groups alone, and a change of classifiers leaves them as they are
(`ChainPath.Follows`, `lay_follows`, `Reclassified.follows`).  Paths over the same hops, with the same
classifiers, in topologies over the same pairs and bindings, are twins (`Twins`).  Their hops have the same
details, and for each detail of one head the other head has one that differs in its id alone
(`Twins.nodeDetails_eq`, `Twins.exists_head_detail`).  Without VXLAN networks no tag is looked up, so twins
have rules for the same details (`Twins.usable`), and these install the same (`exists_sameProgram`).
-/

namespace ServiceChain

/-- What a node brings to a path besides its place: its role, the group that it leads to, and the ids of
its details. -/
def PathNode.outline (node : PathNode) : NodeRole × Option NextHopGroup × List String :=
  (node.role, node.nextGroup, node.portDetails)

/-- The path leads through the nodes of hops, wherever these were laid. -/
structure ChainPath.Follows (path : ChainPath) (hops : List Hop) : Prop where
  head : path.head.nextGroup = hops.head?.bind Hop.nextGroup
  hops : ∀ env plan t position,
    path.hops.map PathNode.outline =
      (Topology.layHops env plan t position hops).nodes.map PathNode.outline

/-- Two environments record the same pairs and the same bindings. -/
structure TopologyEnv.SamePorts (env env' : TopologyEnv) : Prop where
  pair? : env'.store.pair? = env.store.pair?
  binding? : env'.store.binding? = env.store.binding?

/-- No port is bound on a VXLAN network. -/
def Store.HasNoVxlan (store : Store) : Prop :=
  ∀ port binding, store.binding? port = some binding → binding.networkType ≠ .vxlan

theorem TopologyEnv.SamePorts.symm {env env' : TopologyEnv} (h : env.SamePorts env') :
    env'.SamePorts env := ⟨h.pair?.symm, h.binding?.symm⟩

namespace Topology

variable {env env' : TopologyEnv} {t t' : Topology} {chainId : String} {path path' : ChainPath}
  {plan plan' : ChainPlan} {hops : List Hop} {node node' : PathNode} {d : PortDetail}
  {details : List (PortDetail × UInt32)} {fcs : List FlowClassifier} {rule : FlowRule}

/-! ## Outlines -/

theorem associate_node {s : Binding} {d : PortDetail} {weight : UInt32} :
    (associate s d weight).node = { s.node with
      portDetails :=
        (if s.node.portDetails.contains d.id then s.node.portDetails
          else s.node.portDetails ++ [d.id]) } := by
  unfold associate
  split <;> rfl

/-- Binding details to a node depends on nothing but the ids of what is bound already. -/
theorem outline_associateAll (h : node.outline = node'.outline) :
    (associateAll t node details).node.outline = (associateAll t' node' details).node.outline := by
  unfold associateAll
  generalize hs : (⟨t, node, []⟩ : Binding) = s
  generalize hs' : (⟨t', node', []⟩ : Binding) = s'
  have h : s.node.outline = s'.node.outline := by rw [← hs, ← hs']; exact h
  clear hs hs'
  induction details generalizing s s' with
  | nil => exact h
  | cons detail details ih =>
    refine ih _ _ ?_
    simp only [PathNode.outline, Prod.mk.injEq] at h
    obtain ⟨hrole, hgroup, hids⟩ := h
    simp only [PathNode.outline, associate_node, hrole, hgroup, hids]

/-- Binding details to a node changes nothing of it but the list of its details. -/
theorem exists_node_associateAll (t : Topology) (node : PathNode)
    (details : List (PortDetail × UInt32)) :
    ∃ portDetails, (associateAll t node details).node = { node with portDetails } := by
  unfold associateAll
  generalize hs : (⟨t, node, []⟩ : Binding) = s
  have h : ∃ portDetails, s.node = { node with portDetails } := by
    rw [← hs]
    exact ⟨_, rfl⟩
  clear hs
  induction details generalizing s with
  | nil => exact h
  | cons detail details ih =>
    refine ih _ ?_
    obtain ⟨portDetails, h⟩ := h
    rw [associate_node, h]
    exact ⟨_, rfl⟩

/-- The same hops get nodes with the same outlines, wherever they are laid. -/
theorem outline_layHops {position position' : Nat} :
    (layHops env plan t position hops).nodes.map PathNode.outline =
      (layHops env' plan' t' position' hops).nodes.map PathNode.outline := by
  induction hops generalizing t t' position position' with
  | nil => rfl
  | cons hop hops ih =>
    simp only [layHops, List.map_cons, List.cons.injEq]
    exact ⟨outline_associateAll rfl, ih⟩

/-- The path that a plan is laid out as: its head gets details, and every node its direction. -/
theorem exists_laid_path (env : TopologyEnv) (t : Topology) (plan : ChainPlan) :
    let head := newNode env plan .source 0 (plan.hops.head?.bind Hop.nextGroup)
    ∃ t₀ portDetails reversePath,
      (t.lay env plan).1.path? plan.chainId =
        some (directed
          { barePath env plan (layHops env plan t₀ 1 plan.hops).nodes with
            head := { head with portDetails } }
          reversePath) := by
  intro head
  obtain ⟨laid, hlaid⟩ : ∃ laid, layHops env plan (t.counted plan) 1 plan.hops = laid := ⟨_, rfl⟩
  have hpath : (laid.topology.setPath plan.chainId (barePath env plan laid.nodes)).path?
      plan.chainId = some (barePath env plan laid.nodes) := by rw [path?_setPath, if_pos rfl]
  have hattached : ∃ (portDetails : List String) (t' : Topology),
      ((laid.topology.setPath plan.chainId (barePath env plan laid.nodes)).attachEnds plan.chainId
        plan.ends).1 = t'.setPath plan.chainId
          { barePath env plan laid.nodes with
            head := { head with portDetails } } := by
    obtain ⟨portDetails, hnode⟩ := exists_node_associateAll
      (laid.topology.setPath plan.chainId (barePath env plan laid.nodes))
      (barePath env plan laid.nodes).head (plan.ends.map (·, 1))
    simp only [attachEnds, hpath, hnode]
    exact ⟨_, _, rfl⟩
  obtain ⟨portDetails, t', hattached⟩ := hattached
  rw [lay_eq env t plan hlaid, hattached,
    refreshReversePath_eq (by rw [path?_setPath, if_pos rfl])]
  refine ⟨t.counted plan, portDetails, ?_⟩
  rw [hlaid, path?_setPath, if_pos rfl]
  exact ⟨_, rfl⟩

/-- The path that a plan is laid out as follows the hops of the plan. -/
theorem lay_follows (env : TopologyEnv) (t : Topology) (plan : ChainPlan) :
    ∃ path, (t.lay env plan).1.path? plan.chainId = some path ∧ path.Follows plan.hops := by
  obtain ⟨t₀, portDetails, reversePath, hpath⟩ := exists_laid_path env t plan
  refine ⟨_, hpath, rfl, fun env' plan' t₁ position => ?_⟩
  have hsame : (layHops env' plan' t₁ position plan.hops).nodes.map PathNode.outline =
      (layHops env plan t₀ 1 plan.hops).nodes.map PathNode.outline := outline_layHops
  rw [hsame]
  simp [directed, ChainPath.mapNodes, barePath, PathNode.outline, Function.comp_def]

/-- A change of classifiers leaves the hops as they are. -/
theorem Reclassified.follows {update : UpdatePlan}
    (h : Reclassified env t chainId path update path' t') (hfollows : path.Follows hops) :
    path'.Follows hops where
  head := by
    rw [← hfollows.head, h.head]
  hops env' plan t₀ position := by
    rw [← hfollows.hops env' plan t₀ position, h.hops, List.map_map]
    rfl

/-! ## Twins -/

/-- A known detail of an end is that of the end's binding, under its own id. -/
theorem Genuine.exists_binding {issued : Nat} {id : String} {d : PortDetail} {e : ChainEnd}
    (h : Genuine env issued t) (hd : t.details[id]? = some d) (he : e.isOf d) :
    ∃ binding, env.store.binding? e.port = some binding ∧ d = (e.detail id).bind binding := by
  obtain ⟨hid, hpair | ⟨e', n, -, binding, hbinding, hd⟩⟩ := h id d hd
  · exact absurd he (ChainEnd.not_isOf_of_pair hpair)
  · obtain rfl : e' = e := ChainEnd.isOf_unique (hd ▸ e'.isOf_detail_bind _ _) he
    refine ⟨binding, hbinding, ?_⟩
    rw [← hid, hd, ChainEnd.id_detail_bind]

/-- Paths with the same classifiers over the same hops, each as its topology builds it. -/
structure Twins (env env' : TopologyEnv) (t t' : Topology) (path path' : ChainPath) (hops : List Hop) :
    Prop where
  ports : env.SamePorts env'
  genuine : Genuine env t.issued t
  genuine' : Genuine env' t'.issued t'
  shaped : path.Shaped env t
  shaped' : path'.Shaped env' t'
  classifiers : path'.classifiers = path.classifiers
  follows : path.Follows hops
  follows' : path'.Follows hops

theorem Twins.symm (h : Twins env env' t t' path path' hops) : Twins env' env t' t path' path hops :=
  ⟨h.ports.symm, h.genuine', h.genuine, h.shaped', h.shaped, h.classifiers.symm, h.follows', h.follows⟩

theorem Twins.outline_eq (h : Twins env env' t t' path path' hops) :
    path'.hops.map PathNode.outline = path.hops.map PathNode.outline := by
  -- the hops tell the outlines, so any plan over them will do
  have hlaid := h.follows.hops env ⟨"", 0, [], hops, [], 0⟩ t 1
  exact (h.follows'.hops _ _ _ _).trans hlaid.symm

theorem Twins.head_eq (h : Twins env env' t t' path path' hops) :
    path'.head.nextGroup = path.head.nextGroup :=
  h.follows'.head.trans h.follows.head.symm

theorem Twins.reversePath_eq (h : Twins env env' t t' path path' hops) (hnode : node ∈ path.nodes)
    (hnode' : node' ∈ path'.nodes) : node'.reversePath = node.reversePath := by
  rw [h.shaped.reversePath node hnode, h.shaped'.reversePath node' hnode', h.classifiers]

/-- Hops with the same outline have the same details. -/
theorem Twins.nodeDetails_eq (hlaw : env.Lawful) (h : Twins env env' t t' path path' hops)
    (hnode : node ∈ path.hops) (hnode' : node' ∈ path'.hops) (heq : node.outline = node'.outline) :
    t'.nodeDetails node' = t.nodeDetails node := by
  have hids : node'.portDetails = node.portDetails := (congrArg (·.2.2) heq).symm
  rw [nodeDetails, hids]
  refine List.filterMap_congr fun id hid => ?_
  obtain ⟨d, hd, hpair⟩ := h.shaped.hop_detail node hnode id hid
  obtain ⟨d', hd', hpair'⟩ := h.shaped'.hop_detail node' hnode' id (hids ▸ hid)
  have hpair' : d'.IsPairOf env := by
    simpa only [PortDetail.IsPairOf, h.ports.pair?, h.ports.binding?] using hpair'
  have hsame : d = d' :=
    hpair.eq_of_id hlaw hpair' ((h.genuine id d hd).1.trans (h.genuine' id d' hd').1.symm)
  rw [hd, hd', hsame]

/-- For a detail of one head the other has one that differs in its id alone. -/
theorem Twins.exists_head_detail (h : Twins env env' t t' path path' hops)
    (hd : d ∈ t.nodeDetails path.head) :
    ∃ d' ∈ t'.nodeDetails path'.head, d' = { d with id := d'.id } := by
  obtain ⟨id, hid, hd⟩ := mem_nodeDetails.1 hd
  obtain ⟨found, hfound, e, he, hof⟩ := h.shaped.head_detail id hid
  obtain rfl := Option.some.inj (hd.symm.trans hfound)
  rw [← h.classifiers] at he
  obtain ⟨id', hid', d', hd', hof'⟩ := h.shaped'.head_end e he
  obtain ⟨binding, hbinding, heq⟩ := h.genuine.exists_binding hd hof
  obtain ⟨binding', hbinding', heq'⟩ := h.genuine'.exists_binding hd' hof'
  rw [h.ports.binding?] at hbinding'
  obtain rfl := Option.some.inj (hbinding.symm.trans hbinding')
  refine ⟨d', mem_nodeDetails.2 ⟨id', hid', hd'⟩, ?_⟩
  rw [heq, heq']
  cases e <;> rfl

/-! ## Rules without tags -/

theorem Genuine.vni?_eq_none {issued : Nat} {id : String} (h : Genuine env issued t)
    (hvxlan : env.store.HasNoVxlan) (hd : t.details[id]? = some d) : d.vni? = none := by
  have hnone : ∀ (bare : PortDetail) (port : String) (binding : PortBinding),
      env.store.binding? port = some binding → (bare.bind binding).vni? = none := by
    intro bare port binding hbinding
    have hne := hvxlan port binding hbinding
    simp [PortDetail.vni?, PortDetail.bind, hne]
  obtain ⟨-, ⟨_, pair, binding, -, hbinding, rfl⟩ | ⟨e, n, -, binding, hbinding, rfl⟩⟩ := h id d hd
  · exact hnone _ _ binding hbinding
  · exact hnone _ _ binding hbinding

/-- Off VXLAN networks the VLAN id of a detail is its own. -/
theorem chainSegment_of_no_vni {segment : SegmentId} (id : String) (hvni : d.vni? = none) :
    t'.chainSegment { d with id } = .ok segment ↔ t.chainSegment d = .ok segment := by
  have hvni' : ({ d with id } : PortDetail).vni? = none := hvni
  rw [chainSegment_eq_ok, chainSegment_eq_ok, hvni, hvni']

theorem usable_of_no_vni (id : String) (hvni : d.vni? = none) (h : t.Usable d) :
    t'.Usable { d with id } := by
  intro hhost
  obtain ⟨segment, hsegment⟩ := h hhost
  exact ⟨segment, (chainSegment_of_no_vni id hvni).2 hsegment⟩

/-- Rules can be built for a path where they can for its twin. -/
theorem Twins.usable (hlaw : env.Lawful) (hvxlan : env.store.HasNoVxlan)
    (h : Twins env env' t t' path path' hops)
    (husable : ∀ node ∈ path.nodes, ∀ d ∈ t.nodeDetails node, t.Usable d) :
    ∀ node ∈ path'.nodes, ∀ d ∈ t'.nodeDetails node, t'.Usable d := by
  have hkept : ∀ node ∈ path.nodes, ∀ d ∈ t.nodeDetails node, ∀ id, t'.Usable { d with id } := by
    intro node hnode d hd id
    obtain ⟨known, -, hknown⟩ := mem_nodeDetails.1 hd
    exact usable_of_no_vni id (h.genuine.vni?_eq_none hvxlan hknown) (husable node hnode d hd)
  intro node' hnode' d' hd'
  rcases ChainPath.mem_nodes.1 hnode' with rfl | hhop' | rfl
  · obtain ⟨d, hd, heq⟩ := h.symm.exists_head_detail hd'
    have hd' : d' = { d with id := d'.id } := by rw [heq]
    rw [hd']
    exact hkept path.head path.head_mem_nodes d hd d'.id
  · have hmem := List.mem_map_of_mem (f := PathNode.outline) hhop'
    rw [h.outline_eq] at hmem
    obtain ⟨node, hhop, houtline⟩ := List.mem_map.1 hmem
    rw [h.nodeDetails_eq hlaw hhop hhop' houtline] at hd'
    exact hkept node (ChainPath.hop_mem_nodes hhop) d' hd' d'.id
  · obtain ⟨id, hid, -⟩ := mem_nodeDetails.1 hd'
    rw [h.shaped'.tail_empty] at hid
    cases hid

/-- Nodes with the same role and group, and with the same way back, have rules that install the same for
details that differ in their ids alone. -/
theorem exists_sameProgram (hports : env.SamePorts env') (hvni : d.vni? = none) (id : String)
    (hrole : node'.role = node.role) (hgroup : node'.nextGroup = node.nextGroup)
    (hreverse : node'.reversePath = node.reversePath)
    (hrule : t.detailRule env node d fcs [] none = .ok (some rule)) :
    ∃ rule', t'.detailRule env' node' { d with id } fcs [] none = .ok (some rule') ∧
      rule.SameProgram rule' := by
  obtain ⟨host, segment, hhost, hsegment, rfl⟩ := detailRule_eq_some.1 hrule
  refine ⟨_, detailRule_eq_some.2
    ⟨host, segment, hhost, (chainSegment_of_no_vni id hvni).2 hsegment, rfl⟩, ?_⟩
  have henrich : enrich env' = enrich env := by
    funext fc
    simp only [enrich, hports.binding?]
  refine ⟨?_, ?_, hreverse.symm⟩
  · simp only [FlowRule.hop, ruleOf, hrole, hgroup]
  · simp only [ruleOf, classifiersFor, hrole, henrich]

end Topology

end ServiceChain
