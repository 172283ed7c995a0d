import ServiceChain.Proofs.Map
import ServiceChain.Proofs.Topology.WellFormed

/-!
# Dropping what nothing names

Pruning keeps the details that are associated and the tags of their networks (`details_prune`,
`tags_prune`), so it changes nothing for a live chain (`Booked.retains_prune`).  Dropping a chain
leaves a well-formed topology in which every other chain is as it was (`WellFormed.dropChain`,
`Booked.retains_dropChain`).
-/

namespace ServiceChain

namespace Topology

variable {env : TopologyEnv} {t : Topology} {chainId : String} {path : ChainPath} {id : String}
  {d : PortDetail}

/-! ## Pruning -/

@[simp]
theorem prune_pairs : t.prune.pairs = t.pairs := rfl

@[simp]
theorem path?_prune : t.prune.path? chainId = t.path? chainId := rfl

theorem details_prune :
    t.prune.details[id]? = some d ↔ t.details[id]? = some d ∧ ∃ nodeId, (nodeId, id) ∈ t.pairs := by
  have hnamed : (Std.ExtTreeSet.ofList (t.assocs.map PathPort.detailId)).contains id = true ↔
      ∃ nodeId, (nodeId, id) ∈ t.pairs := by
    simp [pairs]
  rw [← hnamed]
  simp only [prune, Std.ExtTreeMap.getElem?_filter', Option.filter_eq_some_iff]

theorem tags_prune {vni : UInt32} {tag : SegmentId} :
    t.prune.tags[vni]? = some tag ↔ t.tags[vni]? = some tag ∧
      ∃ (id : String) (d : PortDetail), t.prune.details[id]? = some d ∧ d.vni? = some vni := by
  have hused : (Std.ExtTreeSet.ofList (t.prune.details.values.filterMap PortDetail.vni?)).contains
      vni = true ↔ ∃ (id : String) (d : PortDetail), t.prune.details[id]? = some d ∧
        d.vni? = some vni := by
    simp only [Std.ExtTreeSet.contains_ofList, List.contains_iff_mem, List.mem_filterMap,
      Std.ExtTreeMap.mem_values]
    constructor
    · rintro ⟨d, ⟨id, hid⟩, hvni⟩
      exact ⟨id, d, hid, hvni⟩
    · rintro ⟨id, d, hid, hvni⟩
      exact ⟨d, ⟨id, hid⟩, hvni⟩
  rw [← hused]
  simp only [prune, Std.ExtTreeMap.getElem?_filter', Option.filter_eq_some_iff]

/-- Pruning changes nothing for a path whose details are associated. -/
theorem retains_prune (h : ∀ nodeId detailId, path.Lists nodeId detailId →
    (nodeId, detailId) ∈ t.pairs) : Retains t t.prune path where
  detail node hnode id hid := by
    have hpair := h node.id id ⟨node, hnode, rfl, hid⟩
    apply Option.ext
    intro d
    rw [details_prune]
    exact and_iff_left ⟨_, hpair⟩
  tag node hnode d hd vni tag hvni htag := by
    obtain ⟨id, hid, hd⟩ := mem_nodeDetails.1 hd
    have hpair := h node.id id ⟨node, hnode, rfl, hid⟩
    exact tags_prune.2 ⟨htag, id, d, details_prune.2 ⟨hd, _, hpair⟩, hvni⟩

theorem Booked.retains_prune (h : Booked env t) (hpath : t.path? chainId = some path) :
    Retains t t.prune path :=
  Topology.retains_prune fun _ _ hlists => (h.pair _ _).2 ⟨chainId, path, hpath, hlists⟩

theorem Booked.prune (h : Booked env t) : Booked env t.prune :=
  { pairs_nodup := h.pairs_nodup
    pair := h.pair
    known := fun nodeId id hpair => by
      have hknown := h.known nodeId id hpair
      rw [Std.ExtTreeMap.mem_iff_isSome_getElem?, Option.isSome_iff_exists] at hknown ⊢
      obtain ⟨d, hd⟩ := hknown
      exact ⟨d, details_prune.2 ⟨hd, nodeId, hpair⟩⟩
    genuine := fun id d hd => h.genuine id d (details_prune.1 hd).1
    end_unique := fun e id id' d d' hd hd' =>
      h.end_unique e id id' d d' (details_prune.1 hd).1 (details_prune.1 hd').1
    issued := h.issued
    nodes_nodup := h.nodes_nodup
    nodes_disjoint := h.nodes_disjoint }

theorem associated_prune (hid : id ∈ t.prune.details) : ∃ nodeId, (nodeId, id) ∈ t.prune.pairs := by
  rw [Std.ExtTreeMap.mem_iff_isSome_getElem?, Option.isSome_iff_exists] at hid
  obtain ⟨d, hd⟩ := hid
  exact (details_prune.1 hd).2

/-! ## Dropping a chain -/

/-- A topology without a chain and the associations of its nodes. -/
def forget (t : Topology) (chainId : String) (path : ChainPath) : Topology :=
  { t with
    chains := t.chains.erase chainId
    assocs := t.assocs.filter fun a => !(path.nodes.map PathNode.id).contains a.nodeId }

theorem dropChain_eq (hpath : t.path? chainId = some path) :
    t.dropChain chainId = (t.forget chainId path).prune := by
  simp only [dropChain, hpath, forget]

theorem path?_forget {other : String} :
    (t.forget chainId path).path? other = if chainId = other then none else t.path? other := by
  simp [path?, forget, Std.ExtTreeMap.getElem?_erase]

theorem pair_forget {nodeId detailId : String} :
    (nodeId, detailId) ∈ (t.forget chainId path).pairs ↔
      (nodeId, detailId) ∈ t.pairs ∧ nodeId ∉ path.nodes.map PathNode.id := by
  simp only [pairs, forget, List.mem_map, List.mem_filter]
  constructor
  · rintro ⟨a, ⟨ha, hnode⟩, heq⟩
    obtain ⟨rfl, rfl⟩ := Prod.mk.inj heq
    exact ⟨⟨a, ha, rfl⟩, by simpa using hnode⟩
  · rintro ⟨⟨a, ha, heq⟩, hnode⟩
    obtain ⟨rfl, rfl⟩ := Prod.mk.inj heq
    exact ⟨a, ⟨ha, by simpa using hnode⟩, rfl⟩

theorem Booked.forget (h : Booked env t) (hpath : t.path? chainId = some path) :
    Booked env (t.forget chainId path) where
  pairs_nodup := h.pairs_nodup.sublist (List.filter_sublist.map _)
  pair nodeId detailId := by
    rw [pair_forget, h.pair]
    constructor
    · rintro ⟨⟨other, path', hpath', node, hnode, rfl, hid⟩, hnot⟩
      have hne : chainId ≠ other := by
        rintro rfl
        obtain rfl := Option.some.inj (hpath.symm.trans hpath')
        exact hnot (List.mem_map_of_mem hnode)
      exact ⟨other, path', by rw [path?_forget, if_neg hne, hpath'], node, hnode, rfl, hid⟩
    · rintro ⟨other, path', hpath', node, hnode, rfl, hid⟩
      rw [path?_forget] at hpath'
      split at hpath'
      · cases hpath'
      · rename_i hne
        refine ⟨⟨other, path', hpath', node, hnode, rfl, hid⟩, fun hmem => hne ?_⟩
        obtain ⟨node', hnode', heq⟩ := List.mem_map.1 hmem
        exact h.nodes_disjoint _ _ _ _ hpath hpath' node' hnode' node hnode heq
  known nodeId id hpair := h.known nodeId id (pair_forget.1 hpair).1
  genuine := h.genuine
  end_unique := h.end_unique
  issued other path' hpath' := by
    rw [path?_forget] at hpath'
    split at hpath'
    · cases hpath'
    · exact h.issued other path' hpath'
  nodes_nodup other path' hpath' := by
    rw [path?_forget] at hpath'
    split at hpath'
    · cases hpath'
    · exact h.nodes_nodup other path' hpath'
  nodes_disjoint other path' other' path'' hpath' hpath'' := by
    rw [path?_forget] at hpath' hpath''
    split at hpath'
    · cases hpath'
    · split at hpath''
      · cases hpath''
      · exact h.nodes_disjoint other path' other' path'' hpath' hpath''

theorem path?_dropChain (hpath : t.path? chainId = some path) {other : String} :
    (t.dropChain chainId).path? other = if chainId = other then none else t.path? other := by
  rw [dropChain_eq hpath, path?_prune, path?_forget]

/-- Every other chain is as it was. -/
theorem Booked.retains_dropChain (h : Booked env t) (hpath : t.path? chainId = some path)
    {other : String} {path' : ChainPath} (hother : t.path? other = some path')
    (hne : chainId ≠ other) : Retains t (t.dropChain chainId) path' := by
  have hforget : Retains t (t.forget chainId path) path' :=
    ⟨fun _ _ _ _ => rfl, fun _ _ _ _ _ _ _ htag => htag⟩
  have hpath' : (t.forget chainId path).path? other = some path' := by
    rw [path?_forget, if_neg hne, hother]
  rw [dropChain_eq hpath]
  exact hforget.trans ((h.forget hpath).retains_prune hpath')

theorem WellFormed.dropChain (h : WellFormed env t) (chainId : String) :
    WellFormed env (t.dropChain chainId) := by
  cases hpath : t.path? chainId with
  | none =>
    rw [Topology.dropChain, hpath]
    exact h
  | some path =>
    have hbooked := (h.toBooked.forget hpath).prune
    rw [← dropChain_eq hpath] at hbooked
    refine { hbooked with associated := fun id hid => ?_, shaped := fun other path' hpath' => ?_ }
    · rw [dropChain_eq hpath] at hid ⊢
      exact associated_prune hid
    · rw [path?_dropChain hpath] at hpath'
      split at hpath'
      · cases hpath'
      · rename_i hne
        exact (h.shaped other path' hpath').of_retains
          (h.toBooked.retains_dropChain hpath hpath' hne)

end Topology

end ServiceChain
