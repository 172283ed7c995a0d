import ServiceChain.Proofs.Topology.Mirroring

/-!
# Uses of a group, counted down

The rules that delete a chain carry, node by node, how many nodes of all live chains use the group that the
node leads to, those before it on the path being counted as gone (`CountsUses`).  Other chains and the nodes
that are left make up the number (`exists_groupUses_eq`), so it is down to one just at the last node that uses
the group (`deletion_counts_uses`).
-/

namespace ServiceChain

namespace Topology

variable {env : TopologyEnv} {t : Topology} {chainId : String} {path : ChainPath}
  {before after : List PathNode} {node : PathNode} {rule : FlowRule} {rules : List FlowRule}
  {groupId : UInt32}

/-- No other chain uses the group, and no later node on the path. -/
def LastUse (t : Topology) (chainId : String) (after : List PathNode) (groupId : UInt32) : Prop :=
  ¬ t.UsedElsewhere chainId groupId ∧ ∀ later ∈ after, later.groupId ≠ some groupId

/-- A rule that deletes a node carries the uses of the node's group, without those by the nodes before it; this
is one or less just at the last use.  The number in the rule has 32 bits. -/
structure CountsUses (t : Topology) (chainId : String) (before : List PathNode) (node : PathNode)
    (after : List PathNode) (rule : FlowRule) : Prop where
  noGroup : node.groupId = none → rule.groupRefs = none
  group : ∀ groupId, node.groupId = some groupId → ∃ n,
    n + before.countP (·.groupId == some groupId) = t.groupUses groupId ∧
      rule.groupRefs = some (UInt32.ofNat n) ∧
      (n ≤ 1 ↔ t.LastUse chainId after groupId) ∧
      (t.groupUses groupId < UInt32.size →
        (UInt32.ofNat n ≤ 1 ↔ t.LastUse chainId after groupId))

/-- The uses that are left are those of the nodes from this one on and of the other chains. -/
theorem exists_uses_left (hpath : t.path? chainId = some path)
    (heq : path.nodes = before ++ node :: after) (hgroup : node.groupId = some groupId) :
    ∃ n, n + before.countP (·.groupId == some groupId) = t.groupUses groupId ∧
      (n ≤ 1 ↔ t.LastUse chainId after groupId) := by
  obtain ⟨elsewhere, huses, helsewhere⟩ := exists_groupUses_eq hpath heq hgroup
  refine ⟨after.countP (·.groupId == some groupId) + 1 + elsewhere, by omega, ?_⟩
  have hafter : after.countP (·.groupId == some groupId) = 0 ↔
      ∀ later ∈ after, later.groupId ≠ some groupId := by
    rw [List.countP_eq_zero]
    simp
  rw [LastUse, ← helsewhere, ← hafter]
  omega

theorem countsUses_of_groupRefs (hpath : t.path? chainId = some path)
    (heq : path.nodes = before ++ node :: after)
    (hrefs : rule.groupRefs = t.groupRefs before node) :
    t.CountsUses chainId before node after rule where
  noGroup hgroup := by rw [hrefs, groupRefs, hgroup, Option.map_none]
  group groupId hgroup := by
    obtain ⟨n, huses, hlast⟩ := exists_uses_left hpath heq hgroup
    have hleft : t.groupUses groupId - before.countP (·.groupId == some groupId) = n := by omega
    refine ⟨n, huses, ?_, hlast, fun hsize => ?_⟩
    · rw [hrefs, groupRefs, hgroup, Option.map_some, hleft]
    · have hn : n < UInt32.size := by omega
      rw [← hlast]
      exact UInt32.ofNat_le_iff_le hn (by decide : 1 < UInt32.size)

theorem RemovesAt.nodeId_eq {d : PortDetail} {installed : FlowRule}
    (h : RemovesAt env t chainId path before node after d installed rule)
    (hplain : ':' ∉ node.id.toList) : rule.nodeId = node.id := by
  obtain ⟨shared, -, rfl⟩ := h.rule_eq
  obtain ⟨host, segment, -, -, rfl⟩ := detailRule_eq_some.1 h.hasRule.rule_eq
  simp [FlowRule.nodeId, FlowRule.removal, ruleOf, beforeColon, Text.cut?_append_cons hplain]

/-- A node stands at one place of a live path. -/
theorem WellFormed.place_unique (hwf : WellFormed env t) (hpath : t.path? chainId = some path)
    {before' after' : List PathNode} {node' : PathNode}
    (heq : path.nodes = before ++ node :: after) (heq' : path.nodes = before' ++ node' :: after')
    (hid : node'.id = node.id) : before' = before ∧ node' = node ∧ after' = after := by
  have hnodup := hwf.nodes_nodup chainId path hpath
  have hsame : node' = node :=
    List.inj_on_of_nodup_map hnodup (by simp [heq']) (by simp [heq]) hid
  have hnodes := hnodup.of_map
  rw [heq, List.nodup_middle, List.nodup_cons, List.mem_append, not_or] at hnodes
  obtain ⟨⟨hbefore, hafter⟩, -⟩ := hnodes
  have hplace := (List.append_cons_inj_of_notMem (hsame ▸ hbefore) (hsame ▸ hafter)).1
    (heq.symm.trans heq')
  exact ⟨hplace.1.symm, hplace.2.1.symm, hplace.2.2.symm⟩

/-- The rules that delete a chain are those of its nodes, and each carries what is left of the uses of its
node's group. -/
theorem deletion_counts_uses (hlaw : env.Lawful) (hplain : env.PlainIds) (hreach : Reachable env t)
    (h : (t.deleteChain env chainId).result = .ok rules) :
    ∃ path, t.path? chainId = some path ∧
      (∀ rule ∈ rules, ∃ node ∈ path.nodes, rule.nodeId = node.id) ∧
      ∀ before node after, path.nodes = before ++ node :: after →
        ∀ rule ∈ rules, rule.nodeId = node.id → t.CountsUses chainId before node after rule := by
  have hwf := hreach.wellFormed hlaw
  obtain ⟨path, hpath, hrules⟩ := exists_path_of_deleteChain h
  have hshaped := hwf.shaped chainId path hpath
  have hplace : ∀ rule ∈ rules, ∃ before node after, path.nodes = before ++ node :: after ∧
      rule.nodeId = node.id ∧ rule.groupRefs = t.groupRefs before node := by
    intro rule hrule
    obtain ⟨before, node, after, d, installed, hat⟩ := (mem_pathRemoval hshaped hpath hrules).1 hrule
    have hnode : node ∈ path.nodes := by simp [hat.nodes_eq]
    obtain ⟨n, -, hid⟩ := hwf.issued chainId path hpath node hnode
    refine ⟨before, node, after, hat.nodes_eq, hat.nodeId_eq (hid ▸ hplain n), ?_⟩
    obtain ⟨shared, -, rfl⟩ := hat.rule_eq
    rfl
  refine ⟨path, hpath, fun rule hrule => ?_, fun before node after heq rule hrule hid => ?_⟩
  · obtain ⟨before, node, after, heq, hid, -⟩ := hplace rule hrule
    exact ⟨node, by simp [heq], hid⟩
  · obtain ⟨before', node', after', heq', hid', hrefs⟩ := hplace rule hrule
    obtain ⟨rfl, rfl, rfl⟩ := hwf.place_unique hpath heq heq' (hid'.symm.trans hid)
    exact countsUses_of_groupRefs hpath heq hrefs

/-! ## A sample -/

/-- Two chains through the same two instances, the first of them twice. -/
def meetingChains : List PortChain :=
  [{ id := "x", nsp := 1, groups := ["g", "g"], classifiers := ["f"] },
    { id := "y", nsp := 2, groups := ["g"], classifiers := ["f"] }]

def meetingPairs : List PortPair := [⟨"p", "p-in", "p-out", 1⟩, ⟨"q", "q-in", "q-out", 1⟩]

def meetingEnv : TopologyEnv where
  store :=
    { chain? := fun id => meetingChains.find? (·.id == id)
      group? := fun id => if id = "g" then some ⟨"g", 4, ["p", "q"]⟩ else none
      pair? := fun id => meetingPairs.find? (·.id == id)
      classifier? := fun id => if id = "f" then some { id := "f", logicalSource := some "s" } else none
      binding? := fun port =>
        if port ∈ ["s", "p-in", "p-out", "q-in", "q-out"] then
          some (tunnelBinding port .vlan (some 7) 5)
        else none }
  policy := .atLeastOne
  newId := tunnelEnv.newId

theorem meetingEnv_lawful : meetingEnv.Lawful where
  chain_id _ _ h := PortChain.id_eq_of_find? h
  pair_id id pair h := by
    have hfind : meetingPairs.find? (·.id == id) = some pair := h
    simpa using List.find?_some hfind
  newId_injective := tunnelEnv_lawful.newId_injective
  newId_ne_pair n id pair h hid := by
    have hfind : meetingPairs.find? (·.id == id) = some pair := h
    have hother : ∀ pair ∈ meetingPairs, pair.id.toList.any (· != 'n') := by decide
    have hpair : pair.id = id := by simpa using List.find?_some hfind
    have hany := hother pair (List.mem_of_find?_eq_some hfind)
    rw [hpair, ← hid] at hany
    change (String.ofList (List.replicate n 'n')).toList.any (· != 'n') at hany
    rw [String.toList_ofList, List.any_replicate] at hany
    simp at hany

theorem meetingEnv_plainIds : meetingEnv.PlainIds := crossingEnv_plainIds

/-- The first chain is live. -/
def meetingFirst : Topology := (answer meetingEnv {} (.create "x")).1

theorem meetingFirst_reachable : Reachable meetingEnv meetingFirst := Reachable.empty.answer _

/-- Both chains are live. -/
def meetingBoth : Topology := (meetingFirst.answer meetingEnv (.create "y")).1

theorem meetingBoth_reachable : Reachable meetingEnv meetingBoth := meetingFirst_reachable.answer _

/-- Of the three nodes that lead to the group, two are of the chain that is deleted; its second node finds the
first one gone, and its last node leads to no group. -/
theorem meetingBoth_counts : ∃ path rules, meetingBoth.path? "x" = some path ∧
    (meetingBoth.deleteChain meetingEnv "x").result = .ok rules ∧
    rules.map (·.groupRefs) = [some 3, some 2, some 2, none, none] ∧
    ∀ before node after, path.nodes = before ++ node :: after →
      ∀ rule ∈ rules, rule.nodeId = node.id →
        meetingBoth.CountsUses "x" before node after rule := by
  have hrefs : (meetingBoth.deleteChain meetingEnv "x").result.toOption.map
      (List.map (·.groupRefs)) = some [some 3, some 2, some 2, none, none] := by decide +kernel
  cases hrules : (meetingBoth.deleteChain meetingEnv "x").result with
  | error e => simp [hrules, Except.toOption] at hrefs
  | ok rules =>
    obtain ⟨path, hpath, -, hcounts⟩ :=
      deletion_counts_uses meetingEnv_lawful meetingEnv_plainIds meetingBoth_reachable hrules
    exact ⟨path, rules, hpath, rfl, by simpa [hrules, Except.toOption] using hrefs, hcounts⟩

end Topology

end ServiceChain
