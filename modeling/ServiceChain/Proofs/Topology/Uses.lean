import Mathlib.Data.List.Basic
import Mathlib.Data.List.Induction
import ServiceChain.Proofs.Map
import ServiceChain.Topology.Delete

/-!
# Uses of groups

The counts of a deletion start at the number of nodes of all live chains that lead to a group
(`getElem?_groupReferences`), and each node of the chain takes its use away (`getElem?_foldl_countDown`).  So
the rules of a node carry the uses of its group less those by the nodes before it on the path
(`currentRefs_eq_groupRefs`).
-/

namespace ServiceChain

namespace Topology

variable {t : Topology} {chainId : String} {path : ChainPath} {node : PathNode}

/-- The number of nodes that lead to a group. -/
def groupUses (t : Topology) (groupId : UInt32) : Nat :=
  t.allNodes.countP (·.groupId == some groupId)

/-- The number of nodes that lead to a node's group, less the given ones. -/
def groupRefs (t : Topology) (earlier : List PathNode) (node : PathNode) : Option UInt32 :=
  node.groupId.map fun groupId =>
    UInt32.ofNat (t.groupUses groupId - earlier.countP (·.groupId == some groupId))

theorem mem_allNodes : node ∈ t.allNodes ↔ ∃ chainId path, t.path? chainId = some path ∧
    node ∈ path.nodes := by
  simp only [allNodes, List.mem_flatMap, Std.ExtTreeMap.mem_values]
  constructor
  · rintro ⟨path, ⟨chainId, hpath⟩, hnode⟩
    exact ⟨chainId, path, hpath, hnode⟩
  · rintro ⟨chainId, path, hpath, hnode⟩
    exact ⟨path, ⟨chainId, hpath⟩, hnode⟩

theorem groupUses_pos {groupId : UInt32} (hnode : node ∈ t.allNodes)
    (hgroup : node.groupId = some groupId) : 0 < t.groupUses groupId :=
  List.countP_pos_iff.2 ⟨node, hnode, by rw [hgroup, beq_self_eq_true]⟩

/-- Every group that a node leads to has the number of the nodes that lead to it. -/
theorem getElem?_groupReferences (t : Topology) (groupId : UInt32) :
    t.groupReferences[groupId]? =
      if t.groupUses groupId = 0 then none else some (t.groupUses groupId) := by
  rw [groupReferences, groupUses, ← List.count_filterMap]
  induction t.allNodes.filterMap PathNode.groupId using List.reverseRecOn with
  | nil => exact Std.ExtTreeMap.getElem?_empty
  | append_singleton ids id ih =>
    rw [List.foldl_concat, Std.ExtTreeMap.getElem?_alter, List.count_append]
    by_cases hid : id = groupId
    · subst hid
      rw [if_pos Std.ReflCmp.compare_self, ih]
      by_cases hnone : ids.count id = 0 <;> simp [hnone]
    · simpa [hid] using ih

/-- Nodes that go one by one take as many uses away as lead to the group. -/
theorem getElem?_foldl_countDown (nodes : List PathNode) (counts : Std.ExtTreeMap UInt32 Nat)
    (groupId : UInt32) : (nodes.foldl countDown counts)[groupId]? =
      counts[groupId]?.map (· - nodes.countP (·.groupId == some groupId)) := by
  induction nodes generalizing counts with
  | nil => simp
  | cons node nodes ih =>
    have hstep : (countDown counts node)[groupId]? =
        counts[groupId]?.map (· - if node.groupId = some groupId then 1 else 0) := by
      cases hgroup : node.groupId with
      | none => simp [countDown, hgroup]
      | some id =>
        simp only [countDown, hgroup, Std.ExtTreeMap.getElem?_modify, Option.some.injEq]
        by_cases hid : id = groupId
        · subst hid
          simp
        · simp [hid]
    rw [List.foldl_cons, ih, hstep, Option.map_map, List.countP_cons]
    congr 1
    funext count
    simp only [Function.comp_apply, beq_iff_eq]
    omega

/-- At a node of a live chain the counts tell the uses of its group, without those by the nodes before it. -/
theorem currentRefs_eq_groupRefs {before after : List PathNode} (hpath : t.path? chainId = some path)
    (heq : path.nodes = before ++ node :: after) :
    currentRefs (before.foldl countDown t.groupReferences) node = t.groupRefs before node := by
  cases hgroup : node.groupId with
  | none => simp [currentRefs, groupRefs, hgroup]
  | some groupId =>
    have hpos : 0 < t.groupUses groupId :=
      groupUses_pos (mem_allNodes.2 ⟨chainId, path, hpath, by simp [heq]⟩) hgroup
    rw [currentRefs, groupRefs, hgroup, Option.bind_some, getElem?_foldl_countDown,
      getElem?_groupReferences, if_neg (by omega), Option.map_some, Option.map_some, Option.map_some]

end Topology

end ServiceChain
