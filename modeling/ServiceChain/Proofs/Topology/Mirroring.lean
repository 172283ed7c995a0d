import ServiceChain.Proofs.Topology.Lasting

/-!
# Deletions mirror installations

A chain is deleted by the rules that install it, one by one in the same order, each of which takes away what
the other adds (`deletion_mirrors`).  The two walk the nodes alike, except that a deletion finds out anew
whether there is a way back; in a well-formed topology this is what every node says already
(`directed_node`).

A rule that is taken away carries the rules of the other chains for its detail.  These are found through the
nodes that list the detail, and could as well be found through the ids of the rules
(`sharingRules_eq_filter`): as long as no colon is in the id of a node, what follows the first colon in the id
of a rule is the id of its detail.
-/

namespace ServiceChain

/-- No id that is issued has a colon, so it ends where the id of a rule has its first one. -/
def TopologyEnv.PlainIds (env : TopologyEnv) : Prop := ∀ n, ':' ∉ (env.newId n).toList

namespace FlowRule

/-- The id of the detail that the rule is for. -/
def detailId? (r : FlowRule) : Option String :=
  (Text.cut? ':' r.id.toList).map fun (_, after) => String.ofList after

/-- One rule takes away what another installs, and carries those of the given rules that are for the same
detail. -/
def Mirrors (others : List FlowRule) (removal installed : FlowRule) : Prop :=
  ∃ groupRefs, removal =
    installed.removal groupRefs (others.filter (·.detailId? == installed.detailId?))

end FlowRule

namespace Topology

variable {env : TopologyEnv} {t : Topology} {chainId : String} {path : ChainPath}
  {node : PathNode} {nodes : List PathNode} {counts : Std.ExtTreeMap UInt32 Nat} {d : PortDetail}
  {fcs : List FlowClassifier} {rules removals others shared : List FlowRule}
  {groupRefs : Option UInt32}

/-! ## Rules for a detail -/

/-- The rule that installs a detail at a node, if it has a rule. -/
def installRule? (env : TopologyEnv) (t : Topology) (fcs : List FlowClassifier) (node : PathNode)
    (d : PortDetail) : Option FlowRule :=
  (t.detailRule env node d fcs [] none).toOption.join

/-- The rules of a path for a detail, node by node. -/
def rulesFor (env : TopologyEnv) (t : Topology) (path : ChainPath) (d : PortDetail) :
    List FlowRule :=
  (path.nodes.filter (·.portDetails.contains d.id)).filterMap
    (t.installRule? env path.classifiers · d)

/-- The rules of all live chains but one, in the order of the ids of chains. -/
def otherRules (env : TopologyEnv) (t : Topology) (chainId : String) :
    Except TopologyError (List FlowRule) :=
  ((t.chains.keys.filter (· != chainId)).mapM (t.flowRules env)).map List.flatten

theorem installRule?_eq {found : Option FlowRule}
    (h : t.detailRule env node d fcs [] none = .ok found) :
    t.installRule? env fcs node d = found := by
  simp [installRule?, h, Except.toOption]

theorem detailId?_ruleOf (hplain : ':' ∉ node.id.toList) {host : String} {segment : SegmentId}
    {addFcs delFcs : List FlowClassifier} :
    (ruleOf env node d host segment addFcs delFcs groupRefs).detailId? = some d.id := by
  simp [FlowRule.detailId?, ruleOf, Text.cut?_append_cons hplain]

theorem detailId?_installRule? (hplain : ':' ∉ node.id.toList) {rule : FlowRule}
    (h : t.installRule? env fcs node d = some rule) : rule.detailId? = some d.id := by
  cases hfound : t.detailRule env node d fcs [] none with
  | error e => simp [installRule?, hfound, Except.toOption] at h
  | ok found =>
    rw [installRule?_eq hfound] at h
    subst h
    obtain ⟨host, segment, -, -, rfl⟩ := detailRule_eq_some.1 hfound
    exact detailId?_ruleOf hplain

theorem nodeRules_eq (h : t.nodeRules env node fcs = .ok rules) :
    rules = (t.nodeDetails node).filterMap (t.installRule? env fcs node) := by
  rw [List.filterMap_eq_flatMap_toList, ← List.flatMap_singleton' rules]
  refine Except.flatMap_of_mapM_reduceOption h fun d found hfound => ?_
  rw [installRule?_eq hfound, List.flatMap_singleton']

theorem pathRules_eq (h : t.pathRules env path = .ok rules) :
    rules = path.nodes.flatMap fun node =>
      (t.nodeDetails node).filterMap (t.installRule? env path.classifiers node) := by
  rw [← List.flatMap_singleton' rules]
  refine Except.flatMap_of_mapM_flatten h fun node rules hrules => ?_
  rw [List.flatMap_singleton', nodeRules_eq hrules]

/-- A node that lists a detail has it once. -/
theorem filter_nodeDetails (hnodup : node.portDetails.Nodup)
    (hgenuine : ∀ (id : String) (d : PortDetail), t.details[id]? = some d → d.id = id)
    (hd : t.details[d.id]? = some d) :
    (t.nodeDetails node).filter (·.id == d.id) =
      if node.portDetails.contains d.id then [d] else [] := by
  have hnamed : ∀ id, (t.details[id]?).filter (·.id == d.id) =
      if id == d.id then some d else none := by
    intro id
    split
    · rename_i hid
      rw [beq_iff_eq.1 hid, hd]
      simp
    · rename_i hne
      rw [Option.filter_eq_none_iff]
      intro d' hd' hid
      exact hne (by simpa [hgenuine id d' hd'] using hid)
  rw [nodeDetails, List.filter_filterMap]
  simp only [hnamed]
  rw [← List.filterMap_filter, List.filter_beq, hnodup.count]
  by_cases hlisted : d.id ∈ node.portDetails <;> simp [hlisted]

/-- The rules of a node for a detail are those whose ids name it. -/
theorem filter_nodeRules (hplain : ':' ∉ node.id.toList) (hnodup : node.portDetails.Nodup)
    (hgenuine : ∀ (id : String) (d : PortDetail), t.details[id]? = some d → d.id = id)
    (hd : t.details[d.id]? = some d) :
    ((t.nodeDetails node).filterMap (t.installRule? env fcs node)).filter
        (·.detailId? == some d.id) =
      (if node.portDetails.contains d.id then t.installRule? env fcs node d else none).toList := by
  have hnamed : ∀ d', (t.installRule? env fcs node d').filter (·.detailId? == some d.id) =
      if d'.id == d.id then t.installRule? env fcs node d' else none := by
    intro d'
    cases hrule : t.installRule? env fcs node d' with
    | none => simp
    | some rule => simp [Option.filter, detailId?_installRule? hplain hrule]
  rw [List.filter_filterMap]
  simp only [hnamed]
  rw [← List.filterMap_filter, filter_nodeDetails hnodup hgenuine hd]
  split
  · cases hrule : t.installRule? env fcs node d <;> simp [hrule]
  · rfl

theorem filter_pathRules (hwf : WellFormed env t) (hplain : env.PlainIds)
    (hpath : t.path? chainId = some path) (hd : t.details[d.id]? = some d)
    (h : t.pathRules env path = .ok rules) :
    rules.filter (·.detailId? == some d.id) = t.rulesFor env path d := by
  rw [pathRules_eq h, List.filter_flatMap, rulesFor, List.filterMap_filter,
    List.filterMap_eq_flatMap_toList]
  refine List.flatMap_congr fun node hnode => ?_
  obtain ⟨n, -, hid⟩ := hwf.issued chainId path hpath node hnode
  exact filter_nodeRules (hid ▸ hplain n) ((hwf.shaped chainId path hpath).nodup node hnode)
    (fun id d hd => (hwf.genuine id d hd).1) hd

/-! ## Rules of other chains -/

theorem filter_otherRules (hwf : WellFormed env t) (hplain : env.PlainIds)
    (hd : t.details[d.id]? = some d) (h : t.otherRules env chainId = .ok others) :
    others.filter (·.detailId? == some d.id) =
      (t.chains.toList.filter (·.1 != chainId)).flatMap fun entry => t.rulesFor env entry.2 d := by
  have hchain : ∀ other rules, t.flowRules env other = .ok rules →
      rules.filter (·.detailId? == some d.id) =
        (t.path? other).toList.flatMap fun path => t.rulesFor env path d := by
    intro other rules hrules
    obtain ⟨path, hpath, hrules⟩ := exists_path_of_flowRules hrules
    rw [hpath, filter_pathRules hwf hplain hpath hd hrules]
    simp
  rw [← List.flatMap_singleton' others, List.filter_flatMap, Except.flatMap_of_mapM_flatten h
    (k := fun other => (t.path? other).toList.flatMap fun path => t.rulesFor env path d)
    (fun other rules hrules => by
      rw [← List.filter_flatMap, List.flatMap_singleton', hchain other rules hrules])]
  rw [← Std.ExtTreeMap.map_fst_toList_eq_keys, List.filter_map, List.flatMap_map]
  refine List.flatMap_congr fun entry hentry => ?_
  have hpath : t.path? entry.1 = some entry.2 :=
    Std.ExtTreeMap.mem_toList_iff_getElem?_eq_some.1 (List.mem_filter.1 hentry).1
  simp [hpath]

theorem Ruled.exists_otherRules (hruled : Ruled env t) (chainId : String) :
    ∃ others, t.otherRules env chainId = .ok others := by
  obtain ⟨ruless, hruless⟩ : ∃ ruless,
      (t.chains.keys.filter (· != chainId)).mapM (t.flowRules env) = .ok ruless := by
    refine Except.exists_mapM_eq_ok fun other hother => ?_
    obtain ⟨path, hpath⟩ : ∃ path, t.path? other = some path := by
      have hlive := (List.mem_filter.1 hother).1
      rwa [Std.ExtTreeMap.mem_keys, Std.ExtTreeMap.mem_iff_isSome_getElem?,
        Option.isSome_iff_exists] at hlive
    exact hruled other path hpath
  exact ⟨ruless.flatten, Except.map_eq_ok.2 ⟨ruless, hruless, rfl⟩⟩

/-- What a rule carries of the other chains' rules are those whose ids name its detail. -/
theorem sharingRules_eq_filter (hwf : WellFormed env t) (hplain : env.PlainIds)
    (hd : t.details[d.id]? = some d) (hothers : t.otherRules env chainId = .ok others)
    (hshared : t.sharingRules env chainId d = .ok shared) :
    shared = others.filter (·.detailId? == some d.id) := by
  rw [filter_otherRules hwf hplain hd hothers, ← List.flatMap_singleton' shared,
    Except.flatMap_of_mapM_reduceOption hshared
      (k := fun (entry : PathNode × List FlowClassifier) =>
        (t.installRule? env entry.2 entry.1 d).toList)
      (fun _ _ hfound => by rw [List.flatMap_singleton', installRule?_eq hfound]),
    List.flatMap_assoc]
  refine List.flatMap_congr fun entry _ => ?_
  rw [List.flatMap_map, rulesFor, List.filterMap_eq_flatMap_toList]

/-! ## Rules of a chain -/

theorem mirrors_of_removalRule (hwf : WellFormed env t) (hplain : env.PlainIds)
    (hpath : t.path? chainId = some path) (hnode : node ∈ path.nodes)
    (hd : d ∈ t.nodeDetails node) (hothers : t.otherRules env chainId = .ok others)
    {removal installed : Option FlowRule}
    (hremoval : t.removalRule env chainId node fcs groupRefs d = .ok removal)
    (hinstalled : t.detailRule env node d fcs [] none = .ok installed) :
    Option.Rel (FlowRule.Mirrors others) removal installed := by
  obtain ⟨id, -, hd⟩ := mem_nodeDetails.1 hd
  have hd : t.details[d.id]? = some d := by rwa [(hwf.genuine id d hd).1]
  obtain ⟨n, -, hid⟩ := hwf.issued chainId path hpath node hnode
  obtain ⟨found, hfound, hrest⟩ := Except.bind_eq_ok.1 hremoval
  cases hhost : d.host with
  | none =>
    simp only [detailRule, hhost] at hfound hinstalled
    obtain rfl := Except.ok.inj hfound
    obtain rfl := Except.ok.inj hinstalled
    obtain rfl := Except.pure_eq_ok.1 hrest
    exact .none
  | some host =>
    simp only [detailRule, hhost, Except.map_eq_ok] at hinstalled
    obtain ⟨segment, hsegment, rfl⟩ := hinstalled
    have hbase : t.detailRule env node d [] fcs groupRefs =
        .ok (some (ruleOf env node d host segment [] fcs groupRefs)) :=
      detailRule_eq_some.2 ⟨host, segment, hhost, hsegment, rfl⟩
    obtain rfl := Except.ok.inj (hfound.symm.trans hbase)
    obtain ⟨shared, hshared, hremoval⟩ := Except.bind_eq_ok.1 hrest
    obtain rfl := Except.pure_eq_ok.1 hremoval
    refine .some ⟨groupRefs, ?_⟩
    change { ruleOf env node d host segment [] fcs groupRefs with sharedWith := shared } =
      (ruleOf env node d host segment fcs [] none).removal groupRefs
        (others.filter (·.detailId? == (ruleOf env node d host segment fcs [] none).detailId?))
    rw [removal_ruleOf, sharingRules_eq_filter hwf hplain hd hothers hshared,
      detailId?_ruleOf (hid ▸ hplain n)]

theorem mirrors_of_removalRules (hwf : WellFormed env t) (hplain : env.PlainIds)
    (hpath : t.path? chainId = some path) (hnode : node ∈ path.nodes)
    (hothers : t.otherRules env chainId = .ok others)
    (hremovals : t.removalRules env chainId node fcs groupRefs = .ok removals)
    (hrules : t.nodeRules env node fcs = .ok rules) :
    List.Forall₂ (FlowRule.Mirrors others) removals rules :=
  Except.forall₂_of_mapM_reduceOption hremovals hrules fun _ hd _ _ hremoval hinstalled =>
    mirrors_of_removalRule hwf hplain hpath hnode hd hothers hremoval hinstalled

/-- The induction is over the nodes that are left; those before them matter to the counts only. -/
theorem mirrors_of_nodesRemoval (hwf : WellFormed env t) (hplain : env.PlainIds)
    (hpath : t.path? chainId = some path) (hothers : t.otherRules env chainId = .ok others)
    (hnodes : ∀ node ∈ nodes, node ∈ path.nodes)
    (hremovals : t.nodesRemoval env chainId fcs (t.headIsBidirectional path) counts nodes =
      .ok removals)
    (hrules : (nodes.mapM fun node => t.nodeRules env node fcs).map List.flatten = .ok rules) :
    List.Forall₂ (FlowRule.Mirrors others) removals rules := by
  induction nodes generalizing counts removals rules with
  | nil =>
    cases hremovals
    cases hrules
    exact .nil
  | cons node nodes ih =>
    simp only [nodesRemoval, Except.bind_eq_ok, Except.pure_eq_ok] at hremovals
    obtain ⟨first, hfirst, more, hmore, rfl⟩ := hremovals
    simp only [List.mapM_cons, Except.map_eq_ok, Except.bind_eq_ok, Except.pure_eq_ok] at hrules
    obtain ⟨_, ⟨first', hfirst', more', hmore', rfl⟩, rfl⟩ := hrules
    have hnode := hnodes node List.mem_cons_self
    rw [directed_node (hwf.shaped chainId path hpath) hnode] at hfirst
    rw [List.flatten_cons]
    exact List.rel_append (mirrors_of_removalRules hwf hplain hpath hnode hothers hfirst hfirst')
      (ih (fun node' hnode' => hnodes node' (List.mem_cons_of_mem _ hnode')) hmore
        (Except.map_eq_ok.2 ⟨more', hmore', rfl⟩))

/-- Where no change of classifiers failed, a chain is deleted by the rules that install it, in their order:
each takes away what the other adds, and carries those of the other chains' rules that are for its detail;
and every node knows already whether there is a way back. -/
theorem deletion_mirrors (hlaw : env.Lawful) (hplain : env.PlainIds)
    (hrun : Evolves env (fun t call => ¬ UpdateFails env t call) {} t)
    (hpath : t.path? chainId = some path) :
    ∃ rules removals others, t.flowRules env chainId = .ok rules ∧
      (t.deleteChain env chainId).result = .ok removals ∧
      t.otherRules env chainId = .ok others ∧
      List.Forall₂ (FlowRule.Mirrors others) removals rules ∧
      ∀ node ∈ path.nodes, node.reversePath = t.headIsBidirectional path := by
  have hwf := (Reachable.empty.evolves hrun).wellFormed hlaw
  have hruled := hrun.ruled hlaw
  obtain ⟨rules, hrules⟩ := hruled chainId path hpath
  have hbuilt := (flowRules_eq_pathRules hpath).symm.trans hrules
  obtain ⟨removals, hremovals⟩ : ∃ removals, t.pathRemoval env chainId path = .ok removals :=
    exists_pathRemoval_iff.2 ⟨rules, hbuilt⟩
  obtain ⟨others, hothers⟩ := hruled.exists_otherRules chainId
  have hshaped := hwf.shaped chainId path hpath
  refine ⟨rules, removals, others, hrules, by simp only [deleteChain, hpath, hremovals], hothers,
    mirrors_of_nodesRemoval hwf hplain hpath hothers (fun _ h => h) hremovals hbuilt, ?_⟩
  intro node hnode
  rw [hshaped.headIsBidirectional_eq, hshaped.reversePath node hnode]

theorem crossingEnv_plainIds : crossingEnv.PlainIds := by
  intro n h
  change ':' ∈ (String.ofList (List.replicate n 'n')).toList at h
  rw [String.toList_ofList] at h
  exact absurd (List.eq_of_mem_replicate h) (by decide)

/-- Two live chains go through the same service function: the deletion of one has three rules, and the last
carries the rule of the other. -/
theorem crossingMiddle_mirrors :
    ∃ rules removals others, crossingMiddle.flowRules crossingEnv "z" = .ok rules ∧
      (crossingMiddle.deleteChain crossingEnv "z").result = .ok removals ∧
      crossingMiddle.otherRules crossingEnv "z" = .ok others ∧
      removals.map (·.sharedWith.length) = [0, 0, 1] ∧
      List.Forall₂ (FlowRule.Mirrors others) removals rules := by
  have hlive : (crossingMiddle.path? "z").isSome ∧
      (crossingMiddle.deleteChain crossingEnv "z").result.toOption.map
        (List.map (·.sharedWith.length)) = some [0, 0, 1] := by decide +kernel
  obtain ⟨hlive, hshared⟩ := hlive
  obtain ⟨path, hpath⟩ := Option.isSome_iff_exists.1 hlive
  obtain ⟨rules, removals, others, hrules, hremovals, hothers, hmirrors, -⟩ :=
    deletion_mirrors crossingEnv_lawful crossingEnv_plainIds crossingMiddle_run hpath
  rw [hremovals] at hshared
  exact ⟨rules, removals, others, hrules, hremovals, hothers, Option.some.inj hshared, hmirrors⟩

end Topology

end ServiceChain
