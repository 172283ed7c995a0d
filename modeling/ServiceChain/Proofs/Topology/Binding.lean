import Mathlib.Data.List.Nodup
import ServiceChain.Topology.State

/-!
# Binding details to nodes

Binding details to a node lists them at the node, adds an association for each that was not listed,
and adds the details to those known (`Binds`, `associateAll_binds`).  Nothing known of another detail
changes, as long as what is bound agrees with what is known (`Topology.Agrees`), and no tag that is
held changes.
-/

namespace ServiceChain

namespace Topology

/-- The pairs of a node and a detail that are associated. -/
def pairs (t : Topology) : List (String × String) := t.assocs.map fun a => (a.nodeId, a.detailId)

/-- Details under one id are one detail, among the given ones and with those known. -/
structure Agrees (t : Topology) (details : List PortDetail) : Prop where
  known : ∀ d ∈ details, ∀ d', t.details[d.id]? = some d' → d' = d
  unique : ∀ d ∈ details, ∀ d' ∈ details, d.id = d'.id → d = d'

/-- What binding details makes of a topology and a node. -/
structure Binds (s : Binding) (details : List PortDetail) (s' : Binding) : Prop where
  node : s'.node = { s.node with portDetails := s'.node.portDetails }
  listed : ∀ id, id ∈ s'.node.portDetails ↔ id ∈ s.node.portDetails ∨ ∃ d ∈ details, d.id = id
  nodup : s.node.portDetails.Nodup → s'.node.portDetails.Nodup
  chains : s'.topology.chains = s.topology.chains
  issued : s'.topology.issued = s.topology.issued
  pair : ∀ node id, (node, id) ∈ s'.topology.pairs ↔ (node, id) ∈ s.topology.pairs ∨
    node = s.node.id ∧ id ∉ s.node.portDetails ∧ id ∈ s'.node.portDetails
  pairs_nodup : s.topology.pairs.Nodup →
    (∀ id, (s.node.id, id) ∈ s.topology.pairs → id ∈ s.node.portDetails) →
      s'.topology.pairs.Nodup
  detail : ∀ (id : String) (d : PortDetail), s'.topology.details[id]? = some d ↔
    s.topology.details[id]? = some d ∨ d ∈ details ∧ d.id = id
  tag : ∀ (vni : UInt32) (tag : SegmentId),
    s.topology.tags[vni]? = some tag → s'.topology.tags[vni]? = some tag

variable {t : Topology} {s s' : Binding} {d : PortDetail} {details : List PortDetail}

theorem Binds.nil (s : Binding) : Binds s [] s where
  node := rfl
  listed id := by simp
  nodup h := h
  chains := rfl
  issued := rfl
  pair node id := by
    refine (or_iff_left ?_).symm
    rintro ⟨-, hnot, hmem⟩
    exact hnot hmem
  pairs_nodup h _ := h
  detail id d := by simp
  tag _ _ h := h

theorem Binds.trans {s'' : Binding} {more : List PortDetail} (h : Binds s details s')
    (h' : Binds s' more s'') : Binds s (details ++ more) s'' where
  node := by rw [h'.node, h.node]
  listed id := by
    rw [h'.listed, h.listed]
    simp only [List.mem_append, or_and_right, exists_or, or_assoc]
  nodup hnodup := h'.nodup (h.nodup hnodup)
  chains := h'.chains.trans h.chains
  issued := h'.issued.trans h.issued
  pair node id := by
    have hid : s'.node.id = s.node.id := by rw [h.node]
    have hgrow : id ∈ s.node.portDetails → id ∈ s'.node.portDetails :=
      fun hmem => (h.listed id).2 (.inl hmem)
    have hgrow' : id ∈ s'.node.portDetails → id ∈ s''.node.portDetails :=
      fun hmem => (h'.listed id).2 (.inl hmem)
    rw [h'.pair, h.pair, hid]
    tauto
  pairs_nodup hnodup hnew := by
    refine h'.pairs_nodup (h.pairs_nodup hnodup hnew) fun id hpair => ?_
    rw [h.node] at hpair
    rcases (h.pair _ _).1 hpair with hpair | ⟨-, -, hmem⟩
    · exact (h.listed id).2 (.inl (hnew id hpair))
    · exact hmem
  detail id d := by
    rw [h'.detail, h.detail, List.mem_append, or_and_right, or_assoc]
  tag vni tag htag := h'.tag vni tag (h.tag vni tag htag)

theorem tags_reserveTag {vni : UInt32} {tag : SegmentId} (h : t.tags[vni]? = some tag) :
    (t.reserveTag d).tags[vni]? = some tag := by
  unfold reserveTag
  split
  · exact h
  · rename_i vni' huntagged
    split
    · exact h
    · -- a tag is only reserved for a network that holds none
      obtain ⟨-, hfree⟩ := Option.filter_eq_some_iff.1 huntagged
      rw [Std.ExtTreeMap.getElem?_insert]
      have hne : vni' ≠ vni := by
        rintro rfl
        simp [Std.ExtTreeMap.contains_eq_isSome_getElem?, h] at hfree
      simp [hne, h]

@[simp]
theorem reserveTag_chains : (t.reserveTag d).chains = t.chains := by
  unfold reserveTag
  split <;> try split
  all_goals rfl

@[simp]
theorem reserveTag_issued : (t.reserveTag d).issued = t.issued := by
  unfold reserveTag
  split <;> try split
  all_goals rfl

@[simp]
theorem reserveTag_assocs : (t.reserveTag d).assocs = t.assocs := by
  unfold reserveTag
  split <;> try split
  all_goals rfl

@[simp]
theorem reserveTag_details : (t.reserveTag d).details = t.details := by
  unfold reserveTag
  split <;> try split
  all_goals rfl

theorem nodup_append_singleton {α : Type} {as : List α} {a : α} (h : as.Nodup) (ha : a ∉ as) :
    (as ++ [a]).Nodup := by
  rw [← List.concat_eq_append]
  exact h.concat ha

/-- A detail that the node lists already stays bound. -/
theorem binds_of_listed (hagree : s.topology.Agrees [d])
    (hknown : ∀ id ∈ s.node.portDetails, id ∈ s.topology.details)
    (hlisted : d.id ∈ s.node.portDetails) : Binds s [d] s :=
  { Binds.nil s with
    listed := fun id => by
      simp only [List.mem_singleton, exists_eq_left]
      exact (or_iff_left_of_imp fun h => h ▸ hlisted).symm
    detail := fun id d' => by
      refine (or_iff_left_of_imp ?_).symm
      rintro ⟨hd, rfl⟩
      obtain rfl := List.mem_singleton.1 hd
      have hsome := hknown _ hlisted
      rw [Std.ExtTreeMap.mem_iff_isSome_getElem?, Option.isSome_iff_exists] at hsome
      obtain ⟨d'', hd''⟩ := hsome
      rw [hd'', hagree.known d' List.mem_cons_self d'' hd''] }

/-- A detail that is new at the node is listed there and associated with it. -/
theorem binds_of_new (weight : UInt32) (hagree : s.topology.Agrees [d])
    (hnew : d.id ∉ s.node.portDetails) : Binds s [d] (associate s d weight) := by
  rw [associate, if_neg (by simpa using hnew)]
  exact
    { node := rfl
      listed := fun id => by simp [eq_comm]
      nodup := fun hnodup => nodup_append_singleton hnodup hnew
      chains := by simp
      issued := by simp
      pair := fun node id => by
        simp only [pairs, reserveTag_assocs, List.map_append, List.map_cons, List.map_nil,
          List.mem_append, List.mem_singleton, Prod.mk.injEq]
        refine or_congr Iff.rfl ⟨?_, ?_⟩
        · rintro ⟨rfl, rfl⟩
          exact ⟨rfl, hnew, .inr rfl⟩
        · rintro ⟨rfl, hnot, hid⟩
          exact ⟨rfl, hid.resolve_left hnot⟩
      pairs_nodup := fun hnodup hpairs => by
        simp only [pairs, reserveTag_assocs, List.map_append, List.map_cons, List.map_nil]
        exact nodup_append_singleton hnodup fun hpair => hnew (hpairs d.id hpair)
      detail := fun id d' => by
        simp only [reserveTag_details, Std.ExtTreeMap.getElem?_insert, List.mem_singleton]
        by_cases hid : d.id = id
        · subst hid
          simp only [Std.compare_self, if_true, Option.some.injEq]
          constructor
          · rintro rfl
            exact .inr ⟨rfl, rfl⟩
          · rintro (hd' | ⟨rfl, -⟩)
            · exact (hagree.known d List.mem_cons_self d' hd').symm
            · rfl
        · have hne : compare d.id id ≠ .eq := by simpa using hid
          rw [if_neg hne]
          refine (or_iff_left ?_).symm
          rintro ⟨rfl, hd'⟩
          exact hid hd'
      tag := fun vni tag htag => tags_reserveTag htag }

/-- One detail is bound; it may be bound already. -/
theorem associate_binds (weight : UInt32) (hagree : s.topology.Agrees [d])
    (hknown : ∀ id ∈ s.node.portDetails, id ∈ s.topology.details) :
    Binds s [d] (associate s d weight) := by
  by_cases hlisted : d.id ∈ s.node.portDetails
  · rw [associate, if_pos (by simpa using hlisted)]
    exact binds_of_listed hagree hknown hlisted
  · exact binds_of_new weight hagree hlisted

/-- Details are bound in turn. -/
theorem associateAll_binds {node : PathNode} {details : List (PortDetail × UInt32)}
    (hagree : t.Agrees (details.map (·.1))) (hknown : ∀ id ∈ node.portDetails, id ∈ t.details) :
    Binds ⟨t, node, []⟩ (details.map (·.1)) (associateAll t node details) := by
  unfold associateAll
  generalize hs : (⟨t, node, []⟩ : Binding) = s
  have hagree' : s.topology.Agrees (details.map (·.1)) := by rw [← hs]; exact hagree
  have hknown' : ∀ id ∈ s.node.portDetails, id ∈ s.topology.details := by rw [← hs]; exact hknown
  clear hs hagree hknown
  induction details generalizing s with
  | nil => exact Binds.nil s
  | cons detail details ih =>
    obtain ⟨d, weight⟩ := detail
    simp only [List.map_cons] at hagree' ⊢
    have hone : s.topology.Agrees [d] :=
      ⟨fun d' hd' => hagree'.known d' (by simp_all), fun d' hd' d'' hd'' _ => by simp_all⟩
    have hfirst := associate_binds weight hone hknown'
    have hrest : (associate s d weight).topology.Agrees (details.map (·.1)) := by
      refine ⟨fun d' hd' d'' hd'' => ?_, fun d' hd' d'' hd'' => ?_⟩
      · rcases (hfirst.detail _ _).1 hd'' with hd'' | ⟨hmem, hid⟩
        · exact hagree'.known d' (List.mem_cons_of_mem _ hd') d'' hd''
        · obtain rfl := List.mem_singleton.1 hmem
          exact hagree'.unique _ List.mem_cons_self _ (List.mem_cons_of_mem _ hd') hid
      · exact hagree'.unique d' (List.mem_cons_of_mem _ hd') d'' (List.mem_cons_of_mem _ hd'')
    refine hfirst.trans (ih _ hrest fun id hid => ?_)
    rw [Std.ExtTreeMap.mem_iff_isSome_getElem?, Option.isSome_iff_exists]
    rcases (hfirst.listed id).1 hid with hid | ⟨d', hd', hid⟩
    · have hsome := hknown' id hid
      rw [Std.ExtTreeMap.mem_iff_isSome_getElem?, Option.isSome_iff_exists] at hsome
      obtain ⟨d', hd'⟩ := hsome
      exact ⟨d', (hfirst.detail _ _).2 (.inl hd')⟩
    · exact ⟨d', (hfirst.detail _ _).2 (.inr ⟨hd', hid⟩)⟩

end Topology

end ServiceChain
