import ServiceChain.Proofs.Agent.Batch
import ServiceChain.Proofs.Rule.Heads
import ServiceChain.Proofs.Topology.Twins

/-!
# The parts of an installation

The batch that installs a path is made of one part for each detail, node by node (`Agent.detailOps`,
`batchOps_of_pathRules`).
-/

namespace ServiceChain

/-- Ports with the same number or the same address are one port. -/
def PortTable.IsDistinct (ports : PortTable) : Prop :=
  ∀ (p q : String) (a b : Port), ports[p]? = some a → ports[q]? = some b →
    a.mac = b.mac ∨ a.number = b.number → p = q

theorem PortTable.isDistinct_iff {ports : PortTable} : ports.IsDistinct ↔
    ∀ a ∈ ports.toList, ∀ b ∈ ports.toList, a.2.mac = b.2.mac ∨ a.2.number = b.2.number →
      a.1 = b.1 := by
  simp only [Prod.forall, Std.ExtTreeMap.mem_toList_iff_getElem?_eq_some]
  exact ⟨fun h p a ha q b hb => h p q a b ha hb, fun h p q a b ha hb => h p a ha q b hb⟩

instance (ports : PortTable) : Decidable ports.IsDistinct :=
  decidable_of_iff' _ PortTable.isDistinct_iff

/-- No port is the logical source of a classifier and the logical destination of one. -/
def EndsApart (fcs : List FlowClassifier) : Prop :=
  ∀ port, ¬ ((∃ fc ∈ fcs, fc.logicalSource = some port) ∧ ∃ fc ∈ fcs, fc.logicalDestination = some port)

theorem EndsApart.eq_of_port {fcs : List FlowClassifier} {e e' : ChainEnd} (h : EndsApart fcs)
    (he : e ∈ ChainEnd.ofClassifiers fcs) (he' : e' ∈ ChainEnd.ofClassifiers fcs)
    (hport : e.port = e'.port) : e = e' := by
  have hsource : ∀ port, .source port ∈ ChainEnd.ofClassifiers fcs →
      ∃ fc ∈ fcs, fc.logicalSource = some port := by
    simp [ChainEnd.mem_ofClassifiers, ChainEnd.ofClassifier]
  have hdestination : ∀ port, .destination port ∈ ChainEnd.ofClassifiers fcs →
      ∃ fc ∈ fcs, fc.logicalDestination = some port := by
    simp [ChainEnd.mem_ofClassifiers, ChainEnd.ofClassifier]
  cases e with
  | source port =>
    cases e' with
    | source port' => exact congrArg ChainEnd.source hport
    | destination port' =>
      obtain rfl : port = port' := hport
      exact absurd ⟨hsource port he, hdestination port he'⟩ (h port)
  | destination port =>
    cases e' with
    | source port' =>
      obtain rfl : port = port' := hport
      exact absurd ⟨hsource port he', hdestination port he⟩ (h port)
    | destination port' => exact congrArg ChainEnd.destination hport

namespace Agent

/-- The operations that install the rule of a detail at a node, if there is one. -/
def detailOps (agent : Agent) (env : TopologyEnv) (t : Topology) (fcs : List FlowClassifier)
    (node : PathNode) (d : PortDetail) : List BridgeOp :=
  match t.detailRule env node d fcs [] none with
  | .ok (some rule) => agent.batchOps true [rule]
  | _ => []

/-- The operations of a node, detail by detail. -/
def nodeParts (agent : Agent) (env : TopologyEnv) (t : Topology) (fcs : List FlowClassifier)
    (node : PathNode) : List (List BridgeOp) :=
  (t.nodeDetails node).map (agent.detailOps env t fcs node)

end Agent

namespace Topology

variable {env env' : TopologyEnv} {t t' : Topology} {agent : Agent} {path path' : ChainPath}
  {hops : List Hop} {node node' : PathNode} {d : PortDetail} {fcs : List FlowClassifier}
  {rules : List FlowRule} {key : FlowKey}

theorem batchOps_eq_flatMap :
    agent.batchOps true rules = rules.flatMap fun rule => agent.batchOps true [rule] := by
  simp [Agent.batchOps]

/-- The batch that installs a path runs the parts of its nodes in turn. -/
theorem batchOps_of_pathRules (h : t.pathRules env path = .ok rules) :
    agent.batchOps true rules =
      path.nodes.flatMap fun node => (agent.nodeParts env t path.classifiers node).flatten := by
  rw [batchOps_eq_flatMap]
  refine Except.flatMap_of_mapM_flatten h fun node rules hrules => ?_
  refine (Except.flatMap_of_mapM_reduceOption hrules fun d rule hrule => ?_).trans
    List.flatMap_def
  cases rule <;> simp [Agent.detailOps, hrule]

theorem batchOps_eq_append (hshaped : path.Shaped env t) (h : t.pathRules env path = .ok rules) :
    agent.batchOps true rules =
      (agent.nodeParts env t path.classifiers path.head).flatten ++
        path.hops.flatMap fun node => (agent.nodeParts env t path.classifiers node).flatten := by
  have htail : t.nodeDetails path.tail = [] := by
    rw [nodeDetails, hshaped.tail_empty]
    rfl
  rw [batchOps_of_pathRules h, ChainPath.nodes, List.cons_append, List.flatMap_cons,
    List.flatMap_append, List.flatMap_singleton, Agent.nodeParts, Agent.nodeParts, htail]
  simp

/-- The part of a detail is empty, or it installs the detail's rule. -/
theorem detailOps_cases :
    agent.detailOps env t fcs node d = [] ∨
      ∃ rule, t.detailRule env node d fcs [] none = .ok (some rule) ∧
        rule.installOps agent.ctx agent.bridge.ports = .ok (agent.detailOps env t fcs node d) := by
  unfold Agent.detailOps
  split
  · rename_i rule hrule
    cases hops : rule.installOps agent.ctx agent.bridge.ports with
    | error e => exact .inl (by simp [Agent.batchOps, Agent.ruleOps, hops])
    | ok ops => exact .inr ⟨rule, hrule, by simp [Agent.batchOps, Agent.ruleOps, hops]⟩
  · exact .inl rfl

/-! ## The head -/

/-- The end that a part of the head is for, and the port of the end. -/
structure HeadPart (agent : Agent) (fcs : List FlowClassifier) (e : ChainEnd) (port : Port)
    (part : List BridgeOp) : Prop where
  mem_ends : e ∈ ChainEnd.ofClassifiers fcs
  attached : agent.bridge.ports[e.port]? = some port
  isAt : ∀ key, (∃ op ∈ part, op.adds key) → key.IsAt port
  removes : ∀ key, ∀ op ∈ part, op.removes key = false
  group : ∀ id v, BridgeOp.groupAfter part id v = v

/-- Where the head leads to no group, each of its parts is for an end of the classifiers. -/
theorem exists_headPart (hattached : env.store.IsAttached agent.bridge.ports)
    (hgenuine : Genuine env t.issued t) (hshaped : path.Shaped env t)
    (hgroup : path.head.nextGroup = none) (hd : d ∈ t.nodeDetails path.head) :
    ∃ e port, e.isOf d ∧ HeadPart agent path.classifiers e port
      (agent.detailOps env t path.classifiers path.head d) := by
  obtain ⟨id, hid, hd⟩ := mem_nodeDetails.1 hd
  obtain ⟨found, hfound, e, he, hof⟩ := hshaped.head_detail id hid
  obtain rfl := Option.some.inj (hd.symm.trans hfound)
  obtain ⟨binding, hbinding, -⟩ := hgenuine.exists_binding hd hof
  obtain ⟨port, hport⟩ := hattached e.port (.inr (.inr ⟨binding, hbinding⟩))
  refine ⟨e, port, hof, ?_⟩
  have hcases : agent.detailOps env t path.classifiers path.head d = [] ∨ _ := detailOps_cases
  rcases hcases with hnone | ⟨rule, hrule, hops⟩
  · rw [hnone]
    exact ⟨he, hport, by simp, by simp, fun _ _ => rfl⟩
  · have hhead : rule.IsHeadAt agent.bridge.ports e.port port := by
      obtain ⟨host, segment, -, -, rfl⟩ := detailRule_eq_some.1 hrule
      have hsides : (d.ingress = none ∨ d.ingress = some e.port) ∧
          (d.egress = none ∨ d.egress = some e.port) := by
        rw [ChainEnd.isOf_iff] at hof
        cases e with
        | source port => exact ⟨.inl (congrArg (·.1) hof), .inr (congrArg (·.2) hof)⟩
        | destination port => exact ⟨.inr (congrArg (·.1) hof), .inl (congrArg (·.2) hof)⟩
      have hactive : path.head.nextGroup.filter NextHopGroup.isProgrammable = none := by
        rw [hgroup]
        rfl
      exact ⟨hshaped.head_role, hactive, hport, hsides.1, hsides.2⟩
    exact ⟨he, hport, fun key => hhead.isAt_of_adds hops,
      fun key => FlowRule.not_removes_installOps hops, hhead.groupAfter hops⟩

/-! ## Twins -/

theorem batchOps_of_sameProgram {rule rule' : FlowRule} (h : rule.SameProgram rule') :
    agent.batchOps true [rule] = agent.batchOps true [rule'] := by
  have hops : agent.ruleOps rule true = agent.ruleOps rule' true := h.installOps
  simp only [Agent.batchOps, List.flatMap_cons, hops]

theorem detailOps_of_not_rule (h : ∀ rule, t.detailRule env node d fcs [] none ≠ .ok (some rule)) :
    agent.detailOps env t fcs node d = [] := by
  unfold Agent.detailOps
  split
  · rename_i rule hrule
    exact absurd hrule (h rule)
  · rfl

/-- Details that differ in their ids alone give the same part at nodes that do the same. -/
theorem detailOps_congr (hports : env.SamePorts env') (hvni : d.vni? = none) (id : String)
    (hrole : node'.role = node.role) (hgroup : node'.nextGroup = node.nextGroup)
    (hreverse : node'.reversePath = node.reversePath) :
    agent.detailOps env' t' fcs node' { d with id } = agent.detailOps env t fcs node d := by
  by_cases hrule : ∃ rule, t.detailRule env node d fcs [] none = .ok (some rule)
  · obtain ⟨rule, hrule⟩ := hrule
    obtain ⟨rule', hrule', hsame⟩ : ∃ rule', t'.detailRule env' node' { d with id } fcs [] none =
        .ok (some rule') ∧ rule.SameProgram rule' :=
      exists_sameProgram hports hvni id hrole hgroup hreverse hrule
    simp only [Agent.detailOps, hrule, hrule', batchOps_of_sameProgram hsame]
  · push Not at hrule
    rw [detailOps_of_not_rule hrule]
    refine detailOps_of_not_rule fun rule' hrule' => ?_
    -- the detail with its own id again
    obtain ⟨rule, hback, -⟩ : ∃ rule, t.detailRule env node d fcs [] none = .ok (some rule) ∧
        rule'.SameProgram rule :=
      exists_sameProgram (d := { d with id }) hports.symm hvni d.id hrole.symm hgroup.symm
        hreverse.symm hrule'
    exact hrule rule hback

/-- Lists with the same images have the same products where the factors go by the image. -/
theorem flatMap_congr_of_map_eq {α β γ : Type} {f : α → β} {g g' : α → List γ} {as bs : List α}
    (h : as.map f = bs.map f) (hg : ∀ a ∈ as, ∀ b ∈ bs, f a = f b → g a = g' b) :
    as.flatMap g = bs.flatMap g' := by
  induction as generalizing bs with
  | nil =>
    obtain rfl : bs = [] := List.map_eq_nil_iff.1 h.symm
    rfl
  | cons a as ih =>
    obtain ⟨b, bs, rfl, hb, hbs⟩ := List.map_eq_cons_iff.1 h.symm
    rw [List.forall_mem_cons] at hg
    rw [List.flatMap_cons, List.flatMap_cons, hg.1 b List.mem_cons_self hb.symm,
      ih hbs.symm fun a ha b hb => hg.2 a ha b (List.mem_cons_of_mem _ hb)]

/-- The hops of twins have the same parts. -/
theorem Twins.hopParts_eq (hlaw : env.Lawful) (hvxlan : env.store.HasNoVxlan)
    (h : Twins env env' t t' path path' hops) :
    (path'.hops.flatMap fun node => (agent.nodeParts env' t' path'.classifiers node).flatten) =
      path.hops.flatMap fun node => (agent.nodeParts env t path.classifiers node).flatten := by
  refine (flatMap_congr_of_map_eq h.outline_eq.symm fun node hnode node' hnode' houtline => ?_).symm
  congr 1
  rw [Agent.nodeParts, Agent.nodeParts, h.nodeDetails_eq hlaw hnode hnode' houtline, h.classifiers]
  refine List.map_congr_left fun d hd => ?_
  obtain ⟨id, -, hknown⟩ := mem_nodeDetails.1 hd
  exact (detailOps_congr h.ports (h.genuine.vni?_eq_none hvxlan hknown) d.id
    (congrArg (·.1) houtline).symm (congrArg (·.2.1) houtline).symm
    (h.reversePath_eq (ChainPath.hop_mem_nodes hnode) (ChainPath.hop_mem_nodes hnode'))).symm

theorem Twins.mem_headParts (hvxlan : env.store.HasNoVxlan) (h : Twins env env' t t' path path' hops)
    {part : List BridgeOp} (hpart : part ∈ agent.nodeParts env t path.classifiers path.head) :
    part ∈ agent.nodeParts env' t' path'.classifiers path'.head := by
  obtain ⟨d, hd, rfl⟩ := List.mem_map.1 hpart
  obtain ⟨id, -, hknown⟩ := mem_nodeDetails.1 hd
  obtain ⟨d', hd', heq⟩ := h.exists_head_detail hd
  refine List.mem_map.2 ⟨d', hd', ?_⟩
  rw [heq, h.classifiers]
  exact detailOps_congr h.ports (h.genuine.vni?_eq_none hvxlan hknown) d'.id
    (h.shaped'.head_role.trans h.shaped.head_role.symm) h.head_eq
    (h.reversePath_eq path.head_mem_nodes path'.head_mem_nodes)

/-- No two parts of a head install the same key, where the ends of the classifiers are apart. -/
theorem eq_of_headParts (hattached : env.store.IsAttached agent.bridge.ports)
    (hdistinct : agent.bridge.ports.IsDistinct) (hwf : WellFormed env t) (hshaped : path.Shaped env t)
    (hgroup : path.head.nextGroup = none) (hapart : EndsApart path.classifiers)
    {part other : List BridgeOp}
    (hpart : part ∈ agent.nodeParts env t path.classifiers path.head)
    (hother : other ∈ agent.nodeParts env t path.classifiers path.head)
    (hadds : ∃ op ∈ part, op.adds key) (hadds' : ∃ op ∈ other, op.adds key) : part = other := by
  obtain ⟨d, hd, rfl⟩ := List.mem_map.1 hpart
  obtain ⟨d', hd', rfl⟩ := List.mem_map.1 hother
  obtain ⟨e, port, hof, hhead⟩ := exists_headPart hattached hwf.genuine hshaped hgroup hd
  obtain ⟨e', port', hof', hhead'⟩ := exists_headPart hattached hwf.genuine hshaped hgroup hd'
  have hport : e.port = e'.port := hdistinct _ _ port port' hhead.attached hhead'.attached
    ((hhead.isAt key hadds).mac_or_number (hhead'.isAt key hadds'))
  have hends : e = e' := hapart.eq_of_port hhead.mem_ends hhead'.mem_ends hport
  obtain ⟨id, -, hknown⟩ := mem_nodeDetails.1 hd
  obtain ⟨id', -, hknown'⟩ := mem_nodeDetails.1 hd'
  rw [hwf.end_unique e id id' d d' hknown hknown' hof (hends ▸ hof')]

/-- Where the head leads to no group and the ends are apart, a run of the rules of a path leaves what a
run of its twin's leaves. -/
theorem Twins.replayed (hlaw : env.Lawful) (hvxlan : env.store.HasNoVxlan)
    (h : Twins env env' t t' path path' hops) (hwf : WellFormed env t)
    (hattached : env.store.IsAttached agent.bridge.ports)
    (hdistinct : agent.bridge.ports.IsDistinct) (hgroup : path.head.nextGroup = none)
    (hapart : EndsApart path.classifiers) {rules' : List FlowRule}
    (hrules : t.pathRules env path = .ok rules) (hrules' : t'.pathRules env' path' = .ok rules')
    {b next : Bridge} (hrun : b.Replayed (agent.batchOps true rules) next) :
    b.Replayed (agent.batchOps true rules') next := by
  have hvxlan' : env'.store.HasNoVxlan := by
    rw [Store.HasNoVxlan, h.ports.binding?]
    exact hvxlan
  rw [batchOps_eq_append h.shaped hrules] at hrun
  rw [batchOps_eq_append h.shaped' hrules', h.hopParts_eq hlaw hvxlan]
  have huntouched : ∀ {part}, part ∈ agent.nodeParts env t path.classifiers path.head →
      (∀ key, ∀ op ∈ part, op.removes key = false) ∧
        ∀ id v, BridgeOp.groupAfter part id v = v := by
    intro part hpart
    obtain ⟨d, hd, rfl⟩ := List.mem_map.1 hpart
    obtain ⟨e, port, -, hhead⟩ := exists_headPart hattached h.genuine h.shaped hgroup hd
    exact ⟨hhead.removes, hhead.group⟩
  have hmem : ∀ part, part ∈ agent.nodeParts env t path.classifiers path.head ↔
      part ∈ agent.nodeParts env' t' path'.classifiers path'.head :=
    fun part => ⟨h.mem_headParts hvxlan, h.symm.mem_headParts hvxlan'⟩
  refine ⟨hrun.ports, hrun.failing, fun key => ?_, fun id => ?_⟩
  · rw [hrun.flow, BridgeOp.entryAfter_append, BridgeOp.entryAfter_append]
    congr 1
    exact BridgeOp.entryAfter_flatten_congr hmem (fun part hpart => (huntouched hpart).1 key)
      (fun part hpart other hother => eq_of_headParts hattached hdistinct hwf h.shaped hgroup hapart
        hpart hother) _
  · rw [hrun.group, BridgeOp.groupAfter_append, BridgeOp.groupAfter_append,
      BridgeOp.groupAfter_flatten_of_untouched fun part hpart => (huntouched hpart).2 id,
      BridgeOp.groupAfter_flatten_of_untouched fun part hpart =>
        (huntouched ((hmem part).2 hpart)).2 id]

end Topology

end ServiceChain
