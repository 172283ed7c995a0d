import ServiceChain.Proofs.Topology.Deleting

/-!
# Details that rules can be built for

All that can go wrong when rules are built is that a detail has a host, but no VLAN id and no tag for its
traffic (`Topology.Usable`).  So the rules of a path exist if every detail of its nodes is usable
(`exists_pathRules_iff`), and then so do those that remove the path (`exists_pathRemoval_iff`); otherwise the
answer names a detail that is not (`pathRules_error`).
-/

namespace ServiceChain

namespace Topology

variable {env : TopologyEnv} {t t' : Topology} {chainId : String} {path : ChainPath}
  {node : PathNode} {d d' : PortDetail} {fcs addFcs delFcs : List FlowClassifier}
  {groupRefs : Option UInt32} {e : TopologyError}

/-- Traffic of a detail with a host can be tagged. -/
def Usable (t : Topology) (d : PortDetail) : Prop :=
  d.host.isSome → ∃ segment, t.chainSegment d = .ok segment

/-- Tags that stay held keep a detail usable. -/
theorem Usable.mono (h : t.Usable d)
    (htag : ∀ (vni : UInt32) (tag : SegmentId), d.vni? = some vni → t.tags[vni]? = some tag →
      t'.tags[vni]? = some tag) : t'.Usable d := by
  intro hhost
  obtain ⟨segment, hsegment⟩ := h hhost
  exact ⟨segment, chainSegment_mono hsegment htag⟩

theorem chainSegment_eq_ok {segment : SegmentId} :
    t.chainSegment d = .ok segment ↔
      (match d.vni? with
        | some vni => t.tags[vni]?
        | none => d.segment.bind fun id => SegmentId.ofNat? id.toNat) = some segment := by
  unfold chainSegment
  cases d.vni? with
  | some vni => cases htag : t.tags[vni]? <;> simp [htag]
  | none => cases d.segment.bind fun id => SegmentId.ofNat? id.toNat <;> simp

theorem chainSegment_error (h : t.chainSegment d = .error e) : e = .invalidSegment d.id := by
  unfold chainSegment at h
  cases hvni : d.vni? with
  | some vni => cases htag : t.tags[vni]? <;> simp_all
  | none => cases hid : d.segment.bind fun id => SegmentId.ofNat? id.toNat <;> simp_all

theorem exists_detailRule_iff :
    (∃ found, t.detailRule env node d addFcs delFcs groupRefs = .ok found) ↔ t.Usable d := by
  unfold detailRule Usable
  cases d.host with
  | none => simp
  | some host =>
    simp only [Except.map_eq_ok, Option.isSome_some, forall_const]
    constructor
    · rintro ⟨-, segment, hsegment, -⟩
      exact ⟨segment, hsegment⟩
    · rintro ⟨segment, hsegment⟩
      exact ⟨_, segment, hsegment, rfl⟩

theorem detailRule_error (h : t.detailRule env node d addFcs delFcs groupRefs = .error e) :
    ¬ t.Usable d ∧ e = .invalidSegment d.id := by
  constructor
  · intro husable
    obtain ⟨found, hfound⟩ : ∃ found, t.detailRule env node d addFcs delFcs groupRefs = .ok found :=
      exists_detailRule_iff.2 husable
    cases h.symm.trans hfound
  · unfold detailRule at h
    split at h
    · cases h
    · exact chainSegment_error (Except.map_eq_error.1 h)

/-! ## Paths -/

theorem exists_nodeRules_iff :
    (∃ rules, t.nodeRules env node fcs = .ok rules) ↔ ∀ d ∈ t.nodeDetails node, t.Usable d := by
  simp only [nodeRules, Except.map_eq_ok]
  rw [exists_comm]
  simp only [exists_and_left, exists_eq', and_true, Except.exists_mapM_iff, exists_detailRule_iff]

theorem exists_pathRules_iff :
    (∃ rules, t.pathRules env path = .ok rules) ↔
      ∀ node ∈ path.nodes, ∀ d ∈ t.nodeDetails node, t.Usable d := by
  simp only [pathRules, Except.map_eq_ok]
  rw [exists_comm]
  simp only [exists_and_left, exists_eq', and_true, Except.exists_mapM_iff, exists_nodeRules_iff]

/-- The rules of a path fail for a detail of one of its nodes. -/
theorem pathRules_error (h : t.pathRules env path = .error e) :
    ∃ node ∈ path.nodes, ∃ d ∈ t.nodeDetails node, ¬ t.Usable d ∧ e = .invalidSegment d.id := by
  obtain ⟨node, hnode, hrules⟩ := Except.exists_of_mapM_error (Except.map_eq_error.1 h)
  obtain ⟨d, hd, hrule⟩ := Except.exists_of_mapM_error (Except.map_eq_error.1 hrules)
  exact ⟨node, hnode, d, hd, detailRule_error hrule⟩

/-! ## Removals -/

/-- The rules of other chains for a detail are all built from the detail. -/
theorem exists_sharingRules (h : t.Usable d) : ∃ rules, t.sharingRules env chainId d = .ok rules := by
  unfold sharingRules
  simp only [Except.map_eq_ok]
  rw [exists_comm]
  simp only [exists_and_left, exists_eq', and_true, Except.exists_mapM_iff]
  exact fun _ _ => exists_detailRule_iff.2 h

theorem exists_removalRule_iff :
    (∃ found, t.removalRule env chainId node fcs groupRefs d = .ok found) ↔ t.Usable d := by
  constructor
  · rintro ⟨found, hfound⟩
    obtain ⟨rule, hrule, -⟩ := Except.bind_eq_ok.1 hfound
    exact exists_detailRule_iff.1 ⟨rule, hrule⟩
  · intro h
    obtain ⟨found, hfound⟩ : ∃ found, t.detailRule env node d [] fcs groupRefs = .ok found :=
      exists_detailRule_iff.2 h
    obtain ⟨shared, hshared⟩ : ∃ rules, t.sharingRules env chainId d = .ok rules :=
      exists_sharingRules h
    simp only [removalRule, Except.bind_eq_ok]
    cases found with
    | none => exact ⟨none, none, hfound, rfl⟩
    | some base => exact ⟨_, some base, hfound, Except.bind_eq_ok.2 ⟨shared, hshared, rfl⟩⟩

theorem exists_removalRules_iff :
    (∃ rules, t.removalRules env chainId node fcs groupRefs = .ok rules) ↔
      ∀ d ∈ t.nodeDetails node, t.Usable d := by
  simp only [removalRules, Except.map_eq_ok]
  rw [exists_comm]
  simp only [exists_and_left, exists_eq', and_true, Except.exists_mapM_iff, exists_removalRule_iff]

theorem exists_nodesRemoval_iff {reversePath : Bool} {counts : Std.ExtTreeMap UInt32 Nat}
    {nodes : List PathNode} :
    (∃ rules, t.nodesRemoval env chainId fcs reversePath counts nodes = .ok rules) ↔
      ∀ node ∈ nodes, ∀ d ∈ t.nodeDetails node, t.Usable d := by
  induction nodes generalizing counts with
  | nil => simp [nodesRemoval]
  | cons node nodes ih =>
    have hfirst : (∃ rules, t.removalRules env chainId { node with reversePath } fcs
        (currentRefs counts node) = .ok rules) ↔ ∀ d ∈ t.nodeDetails node, t.Usable d :=
      exists_removalRules_iff
    have hrest : (∃ rules, t.nodesRemoval env chainId fcs reversePath (countDown counts node) nodes =
        .ok rules) ↔ ∀ node ∈ nodes, ∀ d ∈ t.nodeDetails node, t.Usable d := ih
    rw [List.forall_mem_cons, ← hfirst, ← hrest]
    simp only [nodesRemoval, Except.bind_eq_ok, Except.pure_eq_ok]
    constructor
    · rintro ⟨-, rules, hrules, more, hmore, -⟩
      exact ⟨⟨rules, hrules⟩, more, hmore⟩
    · rintro ⟨⟨rules, hrules⟩, more, hmore⟩
      exact ⟨_, rules, hrules, more, hmore, rfl⟩

/-- A path can be removed if its rules can be built. -/
theorem exists_pathRemoval_iff :
    (∃ rules, t.pathRemoval env chainId path = .ok rules) ↔
      ∃ rules, t.pathRules env path = .ok rules := by
  rw [exists_pathRules_iff]
  exact exists_nodesRemoval_iff

end Topology

end ServiceChain
