import ServiceChain.Proofs.Topology.Deleting

/-!
# The groups that chains lead to

A chain leads to the groups of its nodes (`Topology.LeadsTo`), and no call changes that for a chain that
stays live.  A group that no other chain leads to is released by the deletion of a chain exactly if the last
node of the chain that leads to it has a rule that sets it (`exists_releases_iff_setsLast`).
-/

namespace ServiceChain

namespace Topology

variable {env : TopologyEnv} {t t' : Topology} {chainId : String} {path : ChainPath}
  {rules : List FlowRule} {p : NextHopGroup → Prop}

/-- A node of the chain leads to a group with the property. -/
def LeadsTo (t : Topology) (chainId : String) (p : NextHopGroup → Prop) : Prop :=
  ∃ path, t.path? chainId = some path ∧
    ∃ node ∈ path.nodes, ∃ group, node.nextGroup = some group ∧ p group

/-- The last node of the chain that leads to a group has a rule that sets it. -/
def SetsLast (env : TopologyEnv) (t : Topology) (chainId : String) (id : UInt32) : Prop :=
  ∃ path before node after d rule group, t.path? chainId = some path ∧
    path.nodes = before ++ node :: after ∧ (∀ later ∈ after, later.groupId ≠ some id) ∧
      HasRule env t path node d rule ∧ rule.groupSet = some group ∧ group.id = id

theorem nextGroup_of_groupSet {node : PathNode} {d : PortDetail} {rule : FlowRule}
    {group : NextHopGroup} (h : HasRule env t path node d rule) (hset : rule.groupSet = some group) :
    node.nextGroup = some group := by
  obtain ⟨host, segment, -, -, rfl⟩ := detailRule_eq_some.1 h.rule_eq
  exact (Option.filter_eq_some_iff.1 (FlowRule.mem_groupSet.1 hset).1).1

theorem groupId_of_groupSet {node : PathNode} {d : PortDetail} {rule : FlowRule}
    {group : NextHopGroup} (h : HasRule env t path node d rule) (hset : rule.groupSet = some group) :
    node.groupId = some group.id := by
  rw [PathNode.groupId, nextGroup_of_groupSet h hset]
  rfl

theorem leadsTo_of_groupSet {node : PathNode} {d : PortDetail} {rule : FlowRule}
    {group : NextHopGroup} (hpath : t.path? chainId = some path)
    (h : HasRule env t path node d rule) (hset : rule.groupSet = some group) (hp : p group) :
    t.LeadsTo chainId p :=
  ⟨path, hpath, node, h.node_mem, group, nextGroup_of_groupSet h hset, hp⟩

theorem not_usedElsewhere {id : UInt32}
    (h : ∀ other, chainId ≠ other → ¬ t.LeadsTo other (·.id = id)) : ¬ t.UsedElsewhere chainId id := by
  rintro ⟨other, path, hne, hpath, node, hnode, hid⟩
  obtain ⟨group, hgroup, hgroupId⟩ := Option.map_eq_some_iff.1 hid
  exact h other hne ⟨path, hpath, node, hnode, group, hgroup, hgroupId⟩

/-- A group that no other chain leads to is released exactly if the last node of the chain that leads to
it has a rule that sets it. -/
theorem exists_releases_iff_setsLast (hwf : WellFormed env t) {id : UInt32}
    (h : ∀ other, chainId ≠ other → ¬ t.LeadsTo other (·.id = id)) :
    (∃ d group, t.Releases env chainId d group ∧ group.id = id) ↔ t.SetsLast env chainId id := by
  have hunused := not_usedElsewhere h
  constructor
  · rintro ⟨d, group, ⟨path, before, node, after, rule, n, hpath, heq, hrule, hset, hrefs⟩, hid⟩
    have hgroup : node.groupId = some id := hid ▸ groupId_of_groupSet hrule hset
    have hlast := (groupRefs_le_one_iff (hwf.shaped _ _ hpath) hpath heq hgroup hunused).1 ⟨n, hrefs⟩
    exact ⟨path, before, node, after, d, rule, group, hpath, heq, hlast, hrule, hset, hid⟩
  · rintro ⟨path, before, node, after, d, rule, group, hpath, heq, hlast, hrule, hset, hid⟩
    have hgroup : node.groupId = some id := hid ▸ groupId_of_groupSet hrule hset
    obtain ⟨n, hrefs⟩ :=
      (groupRefs_le_one_iff (hwf.shaped _ _ hpath) hpath heq hgroup hunused).2 hlast
    exact ⟨d, group, ⟨path, before, node, after, rule, n, hpath, heq, hrule, hset, hrefs⟩, hid⟩

/-! ## After a call -/

theorem LeadsTo.after_create (hlaw : env.Lawful) (hwf : WellFormed env t) {other : String}
    (h : t.LeadsTo other p) (chainId : String) :
    (t.createChain env chainId).topology.LeadsTo other p := by
  obtain ⟨path, hpath, hnode⟩ := h
  exact ⟨path, (hwf.createChain_keeps hlaw hpath).1, hnode⟩

/-- A change of classifiers leaves every node with its group. -/
theorem LeadsTo.after_update (hlaw : env.Lawful) (hwf : WellFormed env t) {other : String}
    (h : t.LeadsTo other p) (chainId : String) (added removed : List String) :
    (t.updateClassifiers env chainId added removed).topology.LeadsTo other p := by
  rcases updateClassifiers_cases hlaw hwf chainId added removed with
    ⟨hsame, -⟩ | ⟨path, plan, path', hpath, -, hchanged, -⟩
  · rw [hsame]
    exact h
  obtain ⟨path₀, hpath₀, node, hnode, group, hgroup, hp⟩ := h
  by_cases hne : chainId = other
  · subst hne
    obtain rfl := Option.some.inj (hpath.symm.trans hpath₀)
    have hkept : ∃ node' ∈ path'.nodes, node'.nextGroup = node.nextGroup := by
      simp only [ChainPath.nodes, List.mem_append, List.mem_cons, List.not_mem_nil, or_false]
        at hnode ⊢
      rcases hnode with (rfl | hhop) | rfl
      · exact ⟨path'.head, .inl (.inl rfl), by rw [hchanged.head]⟩
      · refine ⟨{ node with reversePath := spansBothEnds plan.remaining }, .inl (.inr ?_), rfl⟩
        rw [hchanged.hops]
        exact List.mem_map_of_mem hhop
      · exact ⟨path'.tail, .inr rfl, by rw [hchanged.tail]⟩
    obtain ⟨node', hnode', hsame⟩ := hkept
    exact ⟨path', hchanged.path?, node', hnode', group, hsame.trans hgroup, hp⟩
  · exact ⟨path₀, (hchanged.alters.path? other hne).trans hpath₀, node, hnode, group, hgroup, hp⟩

/-- After the deletion of a chain the others lead to their groups, and it to none. -/
theorem exists_leadsTo_deleteChain (hwf : WellFormed env t)
    (h : (t.deleteChain env chainId).result = .ok rules) :
    (∃ other, (t.deleteChain env chainId).topology.LeadsTo other p) ↔
      ∃ other, chainId ≠ other ∧ t.LeadsTo other p := by
  have halters := hwf.alters_deleteChain chainId
  constructor
  · rintro ⟨other, path, hpath, hnode⟩
    have hne : chainId ≠ other := by
      rintro rfl
      cases (path?_deleteChain h).symm.trans hpath
    exact ⟨other, hne, path, (halters.path? other hne).symm.trans hpath, hnode⟩
  · rintro ⟨other, hne, path, hpath, hnode⟩
    exact ⟨other, path, (halters.path? other hne).trans hpath, hnode⟩

end Topology

end ServiceChain
