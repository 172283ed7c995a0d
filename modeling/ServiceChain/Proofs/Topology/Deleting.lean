import ServiceChain.Proofs.Topology.Rules
import ServiceChain.Proofs.Topology.Uses

/-!
# Deleting a chain

The deletion of a chain has the rules of its path with all classifiers to be taken away; each carries the
number of nodes that use its group, less those before it on the path (`mem_pathRemoval`).  A group that
no other chain uses is down to one use at the last node of the chain that uses it, and not before
(`groupRefs_le_one_iff`).
-/

namespace ServiceChain

namespace Topology

variable {env : TopologyEnv} {t : Topology} {chainId : String} {path : ChainPath}
  {fcs : List FlowClassifier} {reversePath : Bool} {counts : Std.ExtTreeMap UInt32 Nat}
  {nodes : List PathNode}
  {node : PathNode} {d : PortDetail} {rule : FlowRule} {rules : List FlowRule}

/-! ## Rules -/

theorem exists_of_mem_nodesRemoval
    (h : t.nodesRemoval env chainId fcs reversePath counts nodes = .ok rules)
    (hrule : rule ∈ rules) :
    ∃ before node after, nodes = before ++ node :: after ∧
      ∃ removals, t.removalRules env chainId { node with reversePath } fcs
        (currentRefs (before.foldl countDown counts) node) = .ok removals ∧ rule ∈ removals := by
  induction nodes generalizing counts rules with
  | nil =>
    obtain rfl := Except.ok.inj h
    cases hrule
  | cons first nodes ih =>
    simp only [nodesRemoval, Except.bind_eq_ok, Except.pure_eq_ok] at h
    obtain ⟨removals, hremovals, more, hmore, rfl⟩ := h
    rcases List.mem_append.1 hrule with hrule | hrule
    · exact ⟨[], first, nodes, rfl, removals, hremovals, hrule⟩
    · obtain ⟨before, node, after, rfl, hrest⟩ := ih hmore hrule
      exact ⟨first :: before, node, after, rfl, hrest⟩

/-- The removal of nodes has rules for each of them. -/
theorem exists_of_nodesRemoval {before after : List PathNode}
    (h : t.nodesRemoval env chainId fcs reversePath counts (before ++ node :: after) = .ok rules) :
    ∃ removals, t.removalRules env chainId { node with reversePath } fcs
      (currentRefs (before.foldl countDown counts) node) = .ok removals ∧
        ∀ rule ∈ removals, rule ∈ rules := by
  induction before generalizing counts rules with
  | nil =>
    simp only [List.nil_append, nodesRemoval, Except.bind_eq_ok, Except.pure_eq_ok] at h
    obtain ⟨removals, hremovals, more, -, rfl⟩ := h
    exact ⟨removals, hremovals, fun _ => List.mem_append_left _⟩
  | cons first before ih =>
    simp only [List.cons_append, nodesRemoval, Except.bind_eq_ok, Except.pure_eq_ok] at h
    obtain ⟨_, -, more, hmore, rfl⟩ := h
    obtain ⟨removals, hremovals, hmem⟩ := ih hmore
    exact ⟨removals, hremovals, fun rule hrule => List.mem_append_right _ (hmem rule hrule)⟩

/-- A rule of a chain with its classifiers to be taken away, at a node after given others. -/
structure RemovesAt (env : TopologyEnv) (t : Topology) (chainId : String) (path : ChainPath)
    (before : List PathNode) (node : PathNode) (after : List PathNode) (d : PortDetail)
    (installed rule : FlowRule) : Prop where
  nodes_eq : path.nodes = before ++ node :: after
  hasRule : HasRule env t path node d installed
  rule_eq : ∃ shared, t.sharingRules env chainId d = .ok shared ∧
    rule = installed.removal (t.groupRefs before node) shared

theorem removal_ruleOf {host : String} {segment : SegmentId} {shared : List FlowRule}
    {groupRefs : Option UInt32} :
    { ruleOf env node d host segment [] fcs groupRefs with sharedWith := shared } =
      (ruleOf env node d host segment fcs [] none).removal groupRefs shared := by
  have hnone : classifiersFor env node.role d [] = [] := by cases node.role <;> rfl
  simp [ruleOf, FlowRule.removal, hnone]

/-- The nodes of a live chain know already whether there is a way back. -/
theorem directed_node (hshaped : path.Shaped env t) (hnode : node ∈ path.nodes) :
    ({ node with reversePath := t.headIsBidirectional path } : PathNode) = node := by
  rw [hshaped.headIsBidirectional_eq, ← hshaped.reversePath node hnode]

/-- The removal of a path has rules for each of its nodes. -/
theorem exists_removalRules_of_pathRemoval (hshaped : path.Shaped env t)
    (hpath : t.path? chainId = some path) (h : t.pathRemoval env chainId path = .ok rules)
    {before after : List PathNode} (heq : path.nodes = before ++ node :: after) :
    ∃ removals, t.removalRules env chainId node path.classifiers (t.groupRefs before node) =
      .ok removals ∧ ∀ rule ∈ removals, rule ∈ rules := by
  rw [pathRemoval, heq] at h
  obtain ⟨removals, hremovals, hmem⟩ := exists_of_nodesRemoval h
  rw [directed_node hshaped (by simp [heq]), currentRefs_eq_groupRefs hpath heq] at hremovals
  exact ⟨removals, hremovals, hmem⟩

/-- The deletion of a chain has a rule for each rule of the chain. -/
theorem exists_removesAt (hshaped : path.Shaped env t) (hpath : t.path? chainId = some path)
    (h : t.pathRemoval env chainId path = .ok rules) {before after : List PathNode}
    (heq : path.nodes = before ++ node :: after) {installed : FlowRule}
    (hinstalled : HasRule env t path node d installed) :
    ∃ rule ∈ rules, RemovesAt env t chainId path before node after d installed rule := by
  obtain ⟨removals, hremovals, hmem⟩ := exists_removalRules_of_pathRemoval hshaped hpath h heq
  obtain ⟨host, segment, hhost, hsegment, rfl⟩ := detailRule_eq_some.1 hinstalled.rule_eq
  obtain ⟨shared, hshared, hrule⟩ :=
    exists_of_removalRules hremovals hinstalled.detail_mem hhost hsegment
  exact ⟨_, hmem _ hrule, heq, hinstalled, shared, hshared, removal_ruleOf⟩

theorem mem_pathRemoval (hshaped : path.Shaped env t) (hpath : t.path? chainId = some path)
    (h : t.pathRemoval env chainId path = .ok rules) :
    rule ∈ rules ↔ ∃ before node after d installed,
      RemovesAt env t chainId path before node after d installed rule := by
  constructor
  · intro hrule
    obtain ⟨before, node, after, heq, removals, hremovals, hrule⟩ :=
      exists_of_mem_nodesRemoval h hrule
    have hnode : node ∈ path.nodes := by simp [heq]
    rw [directed_node hshaped hnode, currentRefs_eq_groupRefs hpath heq] at hremovals
    obtain ⟨d, hd, host, segment, shared, hhost, hsegment, hshared, rfl⟩ :=
      (mem_removalRules hremovals).1 hrule
    have hinstalled : HasRule env t path node d
        (ruleOf env node d host segment path.classifiers [] none) :=
      ⟨hnode, hd, detailRule_eq_some.2 ⟨host, segment, hhost, hsegment, rfl⟩⟩
    exact ⟨before, node, after, d, _, heq, hinstalled, shared, hshared, removal_ruleOf⟩
  · rintro ⟨before, node, after, d, installed, hat⟩
    obtain ⟨rule', hrule', hat'⟩ := exists_removesAt hshaped hpath h hat.nodes_eq hat.hasRule
    obtain ⟨shared, hshared, rfl⟩ := hat.rule_eq
    obtain ⟨shared', hshared', rfl⟩ := hat'.rule_eq
    obtain rfl := Except.ok.inj (hshared.symm.trans hshared')
    exact hrule'

/-- The deletion of a chain takes a group down at a detail: the chain's rule for it sets the group, and
with the nodes before it gone, no more than one node leads to the group. -/
def Releases (env : TopologyEnv) (t : Topology) (chainId : String) (d : PortDetail)
    (group : NextHopGroup) : Prop :=
  ∃ path before node after rule n, t.path? chainId = some path ∧
    path.nodes = before ++ node :: after ∧ HasRule env t path node d rule ∧
      rule.groupSet = some group ∧ t.groupRefs before node = some n ∧ n ≤ 1

theorem RemovesAt.releases_iff {before after : List PathNode} {installed : FlowRule}
    (h : RemovesAt env t chainId path before node after d installed rule) {group : NextHopGroup} :
    rule.releases = some group ↔
      installed.groupSet = some group ∧ ∃ n, t.groupRefs before node = some n ∧ n ≤ 1 := by
  obtain ⟨shared, -, rfl⟩ := h.rule_eq
  exact FlowRule.releases_eq_some

theorem exists_releases_iff (hshaped : path.Shaped env t) (hpath : t.path? chainId = some path)
    (h : t.pathRemoval env chainId path = .ok rules) {group : NextHopGroup} :
    (∃ rule ∈ rules, rule.releases = some group) ↔ ∃ d, t.Releases env chainId d group := by
  constructor
  · rintro ⟨rule, hrule, hreleases⟩
    obtain ⟨before, node, after, d, installed, hat⟩ := (mem_pathRemoval hshaped hpath h).1 hrule
    obtain ⟨hset, n, hrefs, hle⟩ := hat.releases_iff.1 hreleases
    exact ⟨d, path, before, node, after, installed, n, hpath, hat.nodes_eq, hat.hasRule, hset,
      hrefs, hle⟩
  · rintro ⟨d, path', before, node, after, installed, n, hpath', heq, hinstalled, hset, hrefs, hle⟩
    obtain rfl := Option.some.inj (hpath.symm.trans hpath')
    obtain ⟨rule, hrule, hat⟩ := exists_removesAt hshaped hpath h heq hinstalled
    exact ⟨rule, hrule, hat.releases_iff.2 ⟨hset, n, hrefs, hle⟩⟩

/-! ## Counts -/

/-- Some live chain but the given one has a node that leads to a group. -/
def UsedElsewhere (t : Topology) (chainId : String) (groupId : UInt32) : Prop :=
  ∃ other path, chainId ≠ other ∧ t.path? other = some path ∧
    ∃ node ∈ path.nodes, node.groupId = some groupId

/-- The nodes of a chain stand together among all nodes. -/
theorem exists_allNodes (hpath : t.path? chainId = some path) :
    ∃ front back, t.allNodes = front ++ path.nodes ++ back ∧ ∀ node, node ∈ front ++ back ↔
      ∃ other path', chainId ≠ other ∧ t.path? other = some path' ∧ node ∈ path'.nodes := by
  have hmem : (chainId, path) ∈ t.chains.toList :=
    Std.ExtTreeMap.mem_toList_iff_getElem?_eq_some.2 hpath
  obtain ⟨l, r, hsplit⟩ := List.append_of_mem hmem
  have hdistinct := t.chains.distinct_keys_toList
  rw [hsplit, List.pairwise_append, List.pairwise_cons] at hdistinct
  obtain ⟨-, ⟨hright, -⟩, hleft⟩ := hdistinct
  refine ⟨l.flatMap (·.2.nodes), r.flatMap (·.2.nodes), ?_, fun node => ?_⟩
  · rw [allNodes, Std.ExtTreeMap.values_eq_map_toList, hsplit]
    simp [List.flatMap_map]
  · -- an entry besides the chain's is that of another chain
    have hother : ∀ entry, entry ∈ l ++ r ↔ chainId ≠ entry.1 ∧ t.path? entry.1 = some entry.2 := by
      intro entry
      have hentry : entry ∈ t.chains.toList ↔ t.path? entry.1 = some entry.2 :=
        Std.ExtTreeMap.mem_toList_iff_getElem?_eq_some
      rw [← hentry, hsplit]
      constructor
      · intro h
        refine ⟨?_, by rcases List.mem_append.1 h with h | h <;> simp [h]⟩
        rcases List.mem_append.1 h with h | h
        · have hne := hleft entry h _ List.mem_cons_self
          rintro rfl
          simp at hne
        · have hne := hright entry h
          rintro rfl
          simp at hne
      · rintro ⟨hne, h⟩
        rcases List.mem_append.1 h with h | h
        · exact List.mem_append_left _ h
        · rcases List.mem_cons.1 h with rfl | h
          · exact absurd rfl hne
          · exact List.mem_append_right _ h
    rw [← List.flatMap_append, List.mem_flatMap]
    constructor
    · rintro ⟨entry, hentry, hnode⟩
      obtain ⟨hne, hpath'⟩ := (hother entry).1 hentry
      exact ⟨entry.1, entry.2, hne, hpath', hnode⟩
    · rintro ⟨other, path', hne, hpath', hnode⟩
      exact ⟨(other, path'), (hother _).2 ⟨hne, hpath'⟩, hnode⟩

/-- A group is used by the nodes before one that leads to it, by that one and those after it on the path, and
by other chains. -/
theorem exists_groupUses_eq {before after : List PathNode} {groupId : UInt32}
    (hpath : t.path? chainId = some path) (heq : path.nodes = before ++ node :: after)
    (hgroup : node.groupId = some groupId) :
    ∃ elsewhere, t.groupUses groupId = before.countP (·.groupId == some groupId) +
        (after.countP (·.groupId == some groupId) + 1 + elsewhere) ∧
      (elsewhere = 0 ↔ ¬ t.UsedElsewhere chainId groupId) := by
  obtain ⟨front, back, hall, hmem⟩ := exists_allNodes hpath
  refine ⟨(front ++ back).countP (·.groupId == some groupId), ?_, ?_⟩
  · rw [groupUses, hall, heq]
    simp only [List.countP_append, List.countP_cons, hgroup, beq_self_eq_true, if_true]
    omega
  · rw [List.countP_eq_zero]
    constructor
    · rintro hnone ⟨other, path', hne, hpath', node', hin, huses⟩
      exact hnone node' ((hmem node').2 ⟨other, path', hne, hpath', hin⟩) (by simp [huses])
    · intro hunused node' hnode' huses
      obtain ⟨other, path', hne, hpath', hin⟩ := (hmem node').1 hnode'
      exact hunused ⟨other, path', hne, hpath', node', hin, by simpa using huses⟩

/-- A group that no other chain uses is down to one use at the last node of the chain that leads to
it. -/
theorem groupRefs_le_one_iff {before after : List PathNode} {groupId : UInt32}
    (hshaped : path.Shaped env t) (hpath : t.path? chainId = some path)
    (heq : path.nodes = before ++ node :: after) (hgroup : node.groupId = some groupId)
    (hunused : ¬ t.UsedElsewhere chainId groupId) :
    (∃ n, t.groupRefs before node = some n ∧ n ≤ 1) ↔
      ∀ later ∈ after, later.groupId ≠ some groupId := by
  obtain ⟨elsewhere, huses, helsewhere⟩ := exists_groupUses_eq hpath heq hgroup
  have hcount : t.groupUses groupId - before.countP (·.groupId == some groupId) =
      after.countP (·.groupId == some groupId) + 1 := by
    rw [huses, helsewhere.2 hunused]
    omega
  have hlength : after.countP (·.groupId == some groupId) < 256 := by
    have hle := List.countP_le_length (p := (·.groupId == some groupId)) (l := after)
    have hlen := congrArg List.length heq
    have hmax := hshaped.length_le
    simp only [ChainPath.nodes, maxHops, List.length_append, List.length_cons, List.length_nil]
      at hlen hmax
    omega
  simp only [groupRefs, hgroup, Option.map_some, Option.some.injEq, exists_eq_left', hcount]
  rw [UInt32.le_iff_toNat_le, UInt32.toNat_ofNat', Nat.mod_eq_of_lt (by omega)]
  have hzero : after.countP (·.groupId == some groupId) + 1 ≤ (1 : UInt32).toNat ↔
      after.countP (·.groupId == some groupId) = 0 := by
    change _ + 1 ≤ 1 ↔ _
    omega
  rw [hzero, List.countP_eq_zero]
  simp

/-- A group that another chain uses has a use left when the nodes of a chain are gone. -/
theorem one_lt_groupRefs {before after : List PathNode} {groupId n : UInt32}
    (hpath : t.path? chainId = some path) (heq : path.nodes = before ++ node :: after)
    (hgroup : node.groupId = some groupId) (hused : t.UsedElsewhere chainId groupId)
    (hcount : t.allNodes.length < UInt32.size) (hrefs : t.groupRefs before node = some n) : 1 < n := by
  obtain ⟨elsewhere, huses, helsewhere⟩ := exists_groupUses_eq hpath heq hgroup
  have hpos : elsewhere ≠ 0 := fun hzero => helsewhere.1 hzero hused
  have hle : t.groupUses groupId ≤ t.allNodes.length := List.countP_le_length
  have hn : UInt32.ofNat (t.groupUses groupId - before.countP (·.groupId == some groupId)) = n := by
    simpa [groupRefs, hgroup] using hrefs
  rw [← hn, UInt32.lt_iff_toNat_lt, UInt32.toNat_ofNat', Nat.mod_eq_of_lt]
  · change 1 < _
    omega
  · change _ < UInt32.size
    omega

/-! ## The topology after it -/

/-- A deletion leaves the topology as it was, or drops the chain. -/
theorem deleteChain_cases (env : TopologyEnv) (t : Topology) (chainId : String) :
    ((t.deleteChain env chainId).topology = t ∧
        ∃ e, (t.deleteChain env chainId).result = .error e) ∨
      ∃ path rules stats, t.path? chainId = some path ∧
        t.pathRemoval env chainId path = .ok rules ∧
        (t.deleteChain env chainId).result = .ok rules ∧
        (t.deleteChain env chainId).topology = { t.dropChain chainId with stats } := by
  cases hpath : t.path? chainId with
  | none =>
    simp only [deleteChain, hpath]
    exact .inl ⟨trivial, _, rfl⟩
  | some path =>
    cases hrules : t.pathRemoval env chainId path with
    | error e =>
      simp only [deleteChain, hpath, hrules]
      exact .inl ⟨trivial, e, rfl⟩
    | ok rules =>
      simp only [deleteChain, hpath, hrules]
      exact .inr ⟨path, rules, _, rfl, hrules, rfl, rfl⟩

theorem exists_path_of_deleteChain (h : (t.deleteChain env chainId).result = .ok rules) :
    ∃ path, t.path? chainId = some path ∧ t.pathRemoval env chainId path = .ok rules := by
  rcases deleteChain_cases env t chainId with ⟨-, e, he⟩ | ⟨path, rules', -, hpath, hrules, hok, -⟩
  · cases h.symm.trans he
  · obtain rfl := Except.ok.inj (h.symm.trans hok)
    exact ⟨path, hpath, hrules⟩

theorem path?_deleteChain {rules : List FlowRule}
    (h : (t.deleteChain env chainId).result = .ok rules) :
    (t.deleteChain env chainId).topology.path? chainId = none := by
  rcases deleteChain_cases env t chainId with ⟨-, e, he⟩ | ⟨path, -, stats, hpath, -, -, heq⟩
  · cases h.symm.trans he
  · rw [heq]
    exact (path?_dropChain hpath).trans (if_pos rfl)

/-- A deletion, successful or not, alters no other chain. -/
theorem WellFormed.alters_deleteChain (h : WellFormed env t) (chainId : String) :
    Alters env t chainId (t.deleteChain env chainId).topology := by
  rcases deleteChain_cases env t chainId with ⟨hsame, -⟩ | ⟨path, rules, stats, -, -, -, heq⟩
  · rw [hsame]
    exact Alters.refl h chainId
  · rw [heq]
    exact (h.alters_dropChain chainId).withStats stats

theorem ruled_deleteChain (hwf : WellFormed env t) (hruled : Ruled env t)
    (h : (t.deleteChain env chainId).result = .ok rules) :
    Ruled env (t.deleteChain env chainId).topology := by
  refine (hwf.alters_deleteChain chainId).ruled hruled fun path hpath => ?_
  rw [path?_deleteChain h] at hpath
  cases hpath

end Topology

end ServiceChain
