import ServiceChain.Proofs.Topology.Updating
import ServiceChain.Proofs.Rule.Compiles

/-!
# The rules of a chain

A chain has a rule for each detail with a host at each of its nodes (`HasRule`, `mem_pathRules`); the
removal of classifiers has the same rules with these to be taken away, and with the rules of the other
chains for the detail (`mem_removalRules`, `mem_sharingRules`).  The rules depend on nothing but the
details of the chain's nodes and the tags of their networks (`HasRule.of_retains`), and compile where
every port that the store names is attached (`programmable_ruleOf`).
-/

namespace ServiceChain

/-- A pair, a classifier or a binding of the store names a port. -/
def Store.NamesPort (store : Store) (port : String) : Prop :=
  (∃ id pair, store.pair? id = some pair ∧ (port = pair.ingress ∨ port = pair.egress)) ∨
    (∃ id fc, store.classifier? id = some fc ∧
      (fc.logicalSource = some port ∨ fc.logicalDestination = some port)) ∨
    ∃ binding, store.binding? port = some binding

/-- Every port that the store names is attached. -/
def Store.IsAttached (store : Store) (ports : PortTable) : Prop :=
  ∀ port, store.NamesPort port → ∃ attached, ports[port]? = some attached

namespace Topology

variable {env : TopologyEnv} {t t' : Topology} {chainId : String} {path : ChainPath}
  {node : PathNode} {d : PortDetail} {rule : FlowRule} {rules : List FlowRule}
  {fcs addFcs delFcs : List FlowClassifier} {groupRefs : Option UInt32}

/-! ## Rules of details -/

/-- The rule of a detail on a host, under the tag of its network. -/
def ruleOf (env : TopologyEnv) (node : PathNode) (d : PortDetail) (host : String)
    (segment : SegmentId) (addFcs delFcs : List FlowClassifier) (groupRefs : Option UInt32) :
    FlowRule where
  id := node.id ++ ":" ++ d.id
  role := node.role
  nsp := node.nsp
  nsi := node.nsi
  ingress := d.ingress
  egress := d.egress
  host := some host
  segment
  nextGroup := node.nextGroup
  groupRefs
  addFcs := classifiersFor env node.role d addFcs
  delFcs := classifiersFor env node.role d delFcs
  reversePath := node.reversePath

theorem detailRule_eq_some :
    t.detailRule env node d addFcs delFcs groupRefs = .ok (some rule) ↔
      ∃ host segment, d.host = some host ∧ t.chainSegment d = .ok segment ∧
        rule = ruleOf env node d host segment addFcs delFcs groupRefs := by
  unfold detailRule
  cases d.host with
  | none => simp
  | some host =>
    simp only [Except.map_eq_ok, Option.some.injEq]
    constructor
    · rintro ⟨segment, hsegment, rfl⟩
      exact ⟨host, segment, rfl, hsegment, rfl⟩
    · rintro ⟨_, segment, rfl, hsegment, rfl⟩
      exact ⟨segment, hsegment, rfl⟩

/-- A chain has a rule for a detail bound to a node. -/
structure HasRule (env : TopologyEnv) (t : Topology) (path : ChainPath) (node : PathNode)
    (d : PortDetail) (rule : FlowRule) : Prop where
  node_mem : node ∈ path.nodes
  detail_mem : d ∈ t.nodeDetails node
  rule_eq : t.detailRule env node d path.classifiers [] none = .ok (some rule)

theorem mem_pathRules (h : t.pathRules env path = .ok rules) :
    rule ∈ rules ↔ ∃ node d, HasRule env t path node d rule := by
  rw [Except.mem_mapM_flatten h]
  constructor
  · rintro ⟨node, hnode, rules', hrules, hrule⟩
    obtain ⟨d, hd, hrule⟩ := (Except.mem_mapM_reduceOption hrules).1 hrule
    exact ⟨node, d, hnode, hd, hrule⟩
  · rintro ⟨node, d, hnode, hd, hrule⟩
    obtain ⟨opss, hopss, -⟩ := Except.map_eq_ok.1 h
    obtain ⟨rules', -, hrules⟩ := Except.exists_of_mem_of_mapM hopss hnode
    exact ⟨node, hnode, rules', hrules, (Except.mem_mapM_reduceOption hrules).2 ⟨d, hd, hrule⟩⟩

theorem flowRules_eq_pathRules (hpath : t.path? chainId = some path) :
    t.flowRules env chainId = t.pathRules env path := by
  simp only [flowRules, hpath]

/-- Some live chain but the given one has a rule for a detail. -/
def SharesDetail (env : TopologyEnv) (t : Topology) (chainId : String) (d : PortDetail)
    (rule : FlowRule) : Prop :=
  ∃ other path, chainId ≠ other ∧ t.path? other = some path ∧ ∃ node, HasRule env t path node d rule

theorem mem_sharingRules (hd : t.details[d.id]? = some d)
    (hgenuine : ∀ (id : String) (d : PortDetail), t.details[id]? = some d → d.id = id)
    (h : t.sharingRules env chainId d = .ok rules) :
    rule ∈ rules ↔ SharesDetail env t chainId d rule := by
  rw [Except.mem_mapM_reduceOption h]
  simp only [List.mem_flatMap, List.mem_filter, List.mem_map, Prod.exists,
    Std.ExtTreeMap.mem_toList_iff_getElem?_eq_some, SharesDetail]
  constructor
  · rintro ⟨node, fcs, ⟨other, path, ⟨hpath, hne⟩, node', ⟨hnode, hlisted⟩, heq⟩, hrule⟩
    obtain ⟨rfl, rfl⟩ := Prod.mk.inj heq
    refine ⟨other, path, fun h => by simp [h] at hne, hpath, node', hnode, ?_, hrule⟩
    exact mem_nodeDetails.2 ⟨d.id, by simpa using hlisted, hd⟩
  · rintro ⟨other, path, hne, hpath, node, hnode, hdetail, hrule⟩
    obtain ⟨id, hid, hd'⟩ := mem_nodeDetails.1 hdetail
    have hkey := hgenuine id d hd'
    refine ⟨node, path.classifiers, ⟨other, path, ⟨hpath, by simpa using Ne.symm hne⟩, node,
      ⟨hnode, ?_⟩, rfl⟩, hrule⟩
    simpa [hkey] using hid

/-! ## Removals -/

theorem removalRule_eq_some :
    t.removalRule env chainId node fcs groupRefs d = .ok (some rule) ↔
      ∃ base shared, t.detailRule env node d [] fcs groupRefs = .ok (some base) ∧
        t.sharingRules env chainId d = .ok shared ∧
          rule = { base with sharedWith := shared } := by
  simp only [removalRule, Except.bind_eq_ok]
  constructor
  · rintro ⟨found, hfound, hrest⟩
    cases found with
    | none => cases Except.pure_eq_ok.1 hrest
    | some base =>
      simp only [Except.bind_eq_ok, Except.pure_eq_ok, Option.some.injEq] at hrest
      obtain ⟨shared, hshared, rfl⟩ := hrest
      exact ⟨base, shared, hfound, hshared, rfl⟩
  · rintro ⟨base, shared, hbase, hshared, rfl⟩
    exact ⟨some base, hbase, by simp [hshared]⟩

theorem mem_removalRules (h : t.removalRules env chainId node fcs groupRefs = .ok rules) :
    rule ∈ rules ↔ ∃ d ∈ t.nodeDetails node, ∃ host segment shared, d.host = some host ∧
      t.chainSegment d = .ok segment ∧ t.sharingRules env chainId d = .ok shared ∧
        rule = { ruleOf env node d host segment [] fcs groupRefs with sharedWith := shared } := by
  rw [Except.mem_mapM_reduceOption h]
  refine exists_congr fun d => and_congr Iff.rfl ?_
  rw [removalRule_eq_some]
  constructor
  · rintro ⟨base, shared, hbase, hshared, rfl⟩
    obtain ⟨host, segment, hhost, hsegment, rfl⟩ := detailRule_eq_some.1 hbase
    exact ⟨host, segment, shared, hhost, hsegment, hshared, rfl⟩
  · rintro ⟨host, segment, shared, hhost, hsegment, hshared, rfl⟩
    exact ⟨_, shared, detailRule_eq_some.2 ⟨host, segment, hhost, hsegment, rfl⟩, hshared, rfl⟩

/-- The removal of classifiers has a rule for each detail with a host. -/
theorem exists_of_removalRules (h : t.removalRules env chainId node fcs groupRefs = .ok rules)
    (hd : d ∈ t.nodeDetails node) {host : String} {segment : SegmentId} (hhost : d.host = some host)
    (hsegment : t.chainSegment d = .ok segment) :
    ∃ shared, t.sharingRules env chainId d = .ok shared ∧
      { ruleOf env node d host segment [] fcs groupRefs with sharedWith := shared } ∈ rules := by
  obtain ⟨found, hfound, -⟩ := Except.map_eq_ok.1 h
  obtain ⟨rule, -, hrule⟩ := Except.exists_of_mem_of_mapM hfound hd
  have hbase := detailRule_eq_some.2 ⟨host, segment, hhost, hsegment,
    (rfl : ruleOf env node d host segment [] fcs groupRefs = _)⟩
  obtain ⟨found', hfound', hrest⟩ := Except.bind_eq_ok.1 hrule
  obtain rfl := Except.ok.inj (hfound'.symm.trans hbase)
  obtain ⟨shared, hshared, -⟩ := Except.bind_eq_ok.1 hrest
  exact ⟨shared, hshared,
    (mem_removalRules h).2 ⟨d, hd, host, segment, shared, hhost, hsegment, hshared, rfl⟩⟩

/-! ## What the rules depend on -/

theorem chainSegment_mono {segment : SegmentId} (h : t.chainSegment d = .ok segment)
    (htag : ∀ (vni : UInt32) (tag : SegmentId), d.vni? = some vni → t.tags[vni]? = some tag →
      t'.tags[vni]? = some tag) : t'.chainSegment d = .ok segment := by
  unfold chainSegment at h ⊢
  cases hvni : d.vni? with
  | none => simpa only [hvni] using h
  | some vni =>
    cases hheld : t.tags[vni]? with
    | none => simp [hvni, hheld] at h
    | some tag => simpa [hvni, hheld, htag vni tag hvni hheld] using h

theorem detailRule_mono {found : Option FlowRule}
    (h : t.detailRule env node d addFcs delFcs groupRefs = .ok found)
    (htag : ∀ (vni : UInt32) (tag : SegmentId), d.vni? = some vni → t.tags[vni]? = some tag →
      t'.tags[vni]? = some tag) :
    t'.detailRule env node d addFcs delFcs groupRefs = .ok found := by
  unfold detailRule at h ⊢
  cases hhost : d.host with
  | none => simpa only [hhost] using h
  | some host =>
    simp only [hhost, Except.map_eq_ok] at h ⊢
    obtain ⟨segment, hsegment, rfl⟩ := h
    exact ⟨segment, chainSegment_mono hsegment htag, rfl⟩

/-- A path has the same rules wherever its details and their tags are the same. -/
theorem pathRules_of_retains (hr : Retains t t' path) (h : t.pathRules env path = .ok rules) :
    t'.pathRules env path = .ok rules := by
  obtain ⟨ruless, hruless, rfl⟩ := Except.map_eq_ok.1 h
  refine Except.map_eq_ok.2 ⟨ruless, ?_, rfl⟩
  rw [← hruless]
  refine Except.mapM_congr fun node hnode => ?_
  obtain ⟨rules, -, hrules⟩ := Except.exists_of_mem_of_mapM hruless hnode
  rw [hrules]
  obtain ⟨found, hfound, rfl⟩ := Except.map_eq_ok.1 hrules
  refine Except.map_eq_ok.2 ⟨found, ?_, rfl⟩
  rw [hr.nodeDetails hnode, ← hfound]
  refine Except.mapM_congr fun d hd => ?_
  obtain ⟨rule, -, hrule⟩ := Except.exists_of_mem_of_mapM hfound hd
  rw [hrule]
  exact detailRule_mono hrule fun vni tag hvni htag => hr.tag node hnode d hd vni tag hvni htag

theorem HasRule.of_retains (h : HasRule env t path node d rule) (hr : Retains t t' path) :
    HasRule env t' path node d rule where
  node_mem := h.node_mem
  detail_mem := hr.nodeDetails h.node_mem ▸ h.detail_mem
  rule_eq := detailRule_mono h.rule_eq fun vni tag hvni htag =>
    hr.tag node h.node_mem d h.detail_mem vni tag hvni htag

theorem exists_path_of_flowRules (h : t.flowRules env chainId = .ok rules) :
    ∃ path, t.path? chainId = some path ∧ t.pathRules env path = .ok rules := by
  unfold flowRules at h
  cases hpath : t.path? chainId with
  | none => simp [hpath] at h
  | some path => exact ⟨path, rfl, by simpa [hpath] using h⟩

/-- The rules of a chain are the same after another was altered. -/
theorem Alters.flowRules {other : String} (h : Alters env t chainId t') (hne : chainId ≠ other)
    (hrules : t.flowRules env other = .ok rules) : t'.flowRules env other = .ok rules := by
  obtain ⟨path, hpath, hrules⟩ := exists_path_of_flowRules hrules
  rw [flowRules_eq_pathRules ((h.path? other hne).trans hpath)]
  exact pathRules_of_retains (h.retains other path hne hpath) hrules

/-- Every live chain has its rules. -/
def Ruled (env : TopologyEnv) (t : Topology) : Prop :=
  ∀ chainId path, t.path? chainId = some path → ∃ rules, t.flowRules env chainId = .ok rules

theorem Alters.ruled (h : Alters env t chainId t') (hruled : Ruled env t)
    (hown : ∀ path, t'.path? chainId = some path → ∃ rules, t'.flowRules env chainId = .ok rules) :
    Ruled env t' := by
  intro other path hpath
  by_cases hne : chainId = other
  · subst hne
    exact hown path hpath
  · rw [h.path? other hne] at hpath
    obtain ⟨rules, hrules⟩ := hruled other path hpath
    exact ⟨rules, h.flowRules hne hrules⟩

/-- Creating a chain, successfully or not, leaves every live chain with its rules. -/
theorem ruled_createChain (hlaw : env.Lawful) (hwf : WellFormed env t) (hruled : Ruled env t)
    (chainId : String) : Ruled env (t.createChain env chainId).topology := by
  refine (hwf.alters_createChain hlaw chainId).ruled hruled fun path hpath => ?_
  cases hresult : (t.createChain env chainId).result with
  | ok rules => exact ⟨rules, flowRules_createChain hlaw hresult⟩
  | error e =>
    rw [path?_createChain_error hlaw hwf hresult] at hpath
    obtain ⟨rules, hrules⟩ := hruled chainId path hpath
    obtain ⟨hpath', hretains⟩ := hwf.createChain_keeps hlaw hpath
    rw [flowRules_eq_pathRules hpath] at hrules
    exact ⟨rules, (flowRules_eq_pathRules hpath').trans (pathRules_of_retains hretains hrules)⟩

/-! ## Attached ports -/

variable {ports : PortTable}

theorem attached_of_genuine {issued : Nat} (hattached : env.store.IsAttached ports)
    (h : d.IsPairOf env ∨ d.IsEndOf env issued) :
    FlowRule.Attached ports d.ingress ∧ FlowRule.Attached ports d.egress := by
  rcases h with ⟨id, pair, binding, hpair, -, rfl⟩ | ⟨e, n, -, binding, hbinding, rfl⟩
  · refine ⟨fun port hport => ?_, fun port hport => ?_⟩
    · exact hattached port (.inl ⟨id, pair, hpair, .inl (Option.some.inj hport).symm⟩)
    · exact hattached port (.inl ⟨id, pair, hpair, .inr (Option.some.inj hport).symm⟩)
  · have hbound := hattached e.port (.inr (.inr ⟨binding, hbinding⟩))
    cases e with
    | source port =>
      refine ⟨nofun, fun port' h => ?_⟩
      obtain rfl := Option.some.inj h
      exact hbound
    | destination port =>
      refine ⟨fun port' h => ?_, nofun⟩
      obtain rfl := Option.some.inj h
      exact hbound

theorem bounded_enrich {fc : FlowClassifier} (h : fc.Bounded) : (enrich env fc).Bounded :=
  ⟨h.source, h.destination⟩

theorem bounded_classifiersFor {role : NodeRole} (h : ∀ fc ∈ fcs, fc.Bounded) :
    ∀ fc ∈ classifiersFor env role d fcs, fc.Bounded := by
  intro fc hfc
  obtain ⟨carried, hcarried, rfl⟩ := List.mem_map.1 hfc
  refine bounded_enrich (h carried ?_)
  cases role with
  | source => exact (List.mem_filter.1 hcarried).1
  | serviceFunction => exact hcarried
  | destination => cases hcarried

/-- The rule of a detail at a node of a live chain compiles, whichever valid classifiers it
carries. -/
theorem programmable_ruleOf {host : String} {segment : SegmentId} {shared : List FlowRule}
    (hattached : env.store.IsAttached ports) (h : WellFormed env t)
    (hpath : t.path? chainId = some path) (hnode : node ∈ path.nodes)
    (hd : d ∈ t.nodeDetails node) (hadd : ∀ fc ∈ addFcs, fc.Bounded)
    (hdel : ∀ fc ∈ delFcs, fc.Bounded) :
    ({ ruleOf env node d host segment addFcs delFcs groupRefs with
      sharedWith := shared } : FlowRule).Programmable ports := by
  obtain ⟨id, -, hknown⟩ := mem_nodeDetails.1 hd
  obtain ⟨hingress, hegress⟩ := attached_of_genuine hattached (h.genuine id d hknown).2
  exact
    { ingress := hingress
      egress := hegress
      whole := fun hrole => ((h.shaped _ _ hpath).isPairOf hnode hd hrole).ingress_isSome
      addFcs := bounded_classifiersFor hadd
      delFcs := bounded_classifiersFor hdel }

end Topology

end ServiceChain
