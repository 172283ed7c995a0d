import ServiceChain.Proofs.Topology.Lasting

/-!
# Tags of networks

As far as details and tags go, a call enrolls details one after the other (`Enrolls`), and then gives up
those that nothing names any more (`Settles`, `exists_rebinds`).  A network without a tag gets one when a
detail on it is enrolled, and the tag is one that is in use nowhere; no tag that is held changes, and a tag is
given up only with the last detail of its network.

So no two networks hold the same tag, and a network keeps its tag as long as it has a detail
(`tags_unique_and_stable`).
-/

namespace ServiceChain

namespace Topology

variable {env : TopologyEnv} {t t' t'' : Topology} {chainId : String} {path : ChainPath}
  {plan : ChainPlan} {d : PortDetail} {details details' : List PortDetail} {vni : UInt32}
  {tag : SegmentId}

/-! ## Enrolling details -/

theorem mem_usedVlans {n : Nat} :
    n ∈ t.usedVlans ↔ (∃ (vni : UInt32) (tag : SegmentId), t.tags[vni]? = some tag ∧ tag.toNat = n) ∨
      ∃ (id : String) (d : PortDetail) (vlan : UInt32), t.details[id]? = some d ∧
        d.vlan? = some vlan ∧ vlan.toNat = n := by
  simp only [usedVlans, List.mem_append, List.mem_map, List.mem_filterMap,
    Std.ExtTreeMap.mem_values]
  refine or_congr ?_ ?_
  · constructor
    · rintro ⟨tag, ⟨vni, htag⟩, hn⟩
      exact ⟨vni, tag, htag, hn⟩
    · rintro ⟨vni, tag, htag, hn⟩
      exact ⟨tag, ⟨vni, htag⟩, hn⟩
  · constructor
    · rintro ⟨vlan, ⟨d, ⟨id, hd⟩, hvlan⟩, hn⟩
      exact ⟨id, d, vlan, hd, hvlan, hn⟩
    · rintro ⟨id, d, vlan, hd, hvlan, hn⟩
      exact ⟨vlan, ⟨d, ⟨id, hd⟩, hvlan⟩, hn⟩

/-- A detail becomes known, and a tag is held for its network if one is left. -/
def enroll (t : Topology) (d : PortDetail) : Topology :=
  { t.reserveTag d with details := t.details.insert d.id d }

/-- Details are enrolled one after the other, but for some under known ids.  Only details and tags are
told. -/
inductive Enrolls : Topology → List PortDetail → Topology → Prop
  | done {t t' : Topology} (hdetails : t'.details = t.details) (htags : t'.tags = t.tags) :
      Enrolls t [] t'
  | pass {t t' : Topology} {d : PortDetail} {details : List PortDetail} (hknown : d.id ∈ t.details)
      (h : Enrolls t details t') : Enrolls t (d :: details) t'
  | step {t t' : Topology} {d : PortDetail} {details : List PortDetail}
      (h : Enrolls (t.enroll d) details t') : Enrolls t (d :: details) t'

theorem tags_reserveTag_congr (hdetails : t'.details = t.details) (htags : t'.tags = t.tags) :
    (t'.reserveTag d).tags = (t.reserveTag d).tags := by
  simp only [reserveTag, untagged?, freeTag?, usedVlans, hdetails, htags]
  split <;> try split
  all_goals simp only [htags]

theorem Enrolls.of_same (h : Enrolls t details t'') (hdetails : t'.details = t.details)
    (htags : t'.tags = t.tags) : Enrolls t' details t'' := by
  induction h generalizing t' with
  | done hdetails' htags' => exact .done (hdetails'.trans hdetails.symm) (htags'.trans htags.symm)
  | pass hknown _ ih => exact .pass (hdetails ▸ hknown) (ih hdetails htags)
  | @step t _ d _ _ ih =>
    have hmore : (t'.enroll d).details = (t.enroll d).details := by simp only [enroll, hdetails]
    exact .step (ih hmore (tags_reserveTag_congr hdetails htags))

theorem Enrolls.trans (h : Enrolls t details t') (h' : Enrolls t' details' t'') :
    Enrolls t (details ++ details') t'' := by
  induction h with
  | done hdetails htags => exact h'.of_same hdetails.symm htags.symm
  | pass hknown _ ih => exact .pass hknown (ih h')
  | step _ ih => exact .step (ih h')

theorem Enrolls.to_same (h : Enrolls t details t') (hdetails : t''.details = t'.details)
    (htags : t''.tags = t'.tags) : Enrolls t details t'' := by
  have hall := h.trans (.done hdetails htags)
  rwa [List.append_nil] at hall

theorem associate_enrolls (s : Binding) (d : PortDetail) (weight : UInt32)
    (hknown : ∀ id ∈ s.node.portDetails, id ∈ s.topology.details) :
    Enrolls s.topology [d] (associate s d weight).topology ∧
      ∀ id ∈ (associate s d weight).node.portDetails,
        id ∈ (associate s d weight).topology.details := by
  unfold associate
  split
  · rename_i hlisted
    exact ⟨.pass (hknown _ (by simpa using hlisted)) (.done rfl rfl), hknown⟩
  · refine ⟨.step (.done (by simp [enroll]) rfl), fun id hid => ?_⟩
    simp only [reserveTag_details, Std.ExtTreeMap.mem_insert]
    rcases List.mem_append.1 hid with hid | hid
    · exact .inr (hknown id hid)
    · exact .inl (by simp [List.mem_singleton.1 hid])

theorem associateAll_enrolls (t : Topology) (node : PathNode) (details : List (PortDetail × UInt32))
    (hknown : ∀ id ∈ node.portDetails, id ∈ t.details) :
    Enrolls t (details.map (·.1)) (associateAll t node details).topology := by
  unfold associateAll
  generalize hs : (⟨t, node, []⟩ : Binding) = s
  obtain ⟨rfl, rfl⟩ : t = s.topology ∧ node = s.node := by rw [← hs]; exact ⟨rfl, rfl⟩
  clear hs
  induction details generalizing s with
  | nil => exact .done rfl rfl
  | cons detail details ih =>
    obtain ⟨hfirst, hknown⟩ := associate_enrolls s detail.1 detail.2 hknown
    exact hfirst.trans (ih _ hknown)

theorem layHops_enrolls (env : TopologyEnv) (plan : ChainPlan) (t : Topology) (position : Nat)
    (hops : List Hop) :
    Enrolls t (hopDetails hops) (layHops env plan t position hops).topology := by
  induction hops generalizing t position with
  | nil => exact .done rfl rfl
  | cons hop hops ih =>
    exact (associateAll_enrolls t _ hop.details (by simp [newNode])).trans (ih _ _)

theorem attachEnds_enrolls (ends : List PortDetail) (hpath : t.path? chainId = some path)
    (hknown : ∀ id ∈ path.head.portDetails, id ∈ t.details) :
    Enrolls t ends (t.attachEnds chainId ends).1 := by
  have hall := associateAll_enrolls t path.head (ends.map (·, 1)) hknown
  simp only [List.map_map, Function.comp_def, List.map_id'] at hall
  simp only [attachEnds, hpath]
  exact hall.to_same rfl rfl

theorem details_refreshReversePath :
    (t.refreshReversePath chainId).details = t.details := by
  unfold refreshReversePath
  split <;> rfl

theorem tags_refreshReversePath : (t.refreshReversePath chainId).tags = t.tags := by
  unfold refreshReversePath
  split <;> rfl

theorem lay_enrolls (env : TopologyEnv) (t : Topology) (plan : ChainPlan) :
    Enrolls t (hopDetails plan.hops ++ plan.ends) (t.lay env plan).1 := by
  obtain ⟨laid, hlaid⟩ : ∃ laid, layHops env plan
      { t with issued := plan.nextId + plan.hops.length + 2 } 1 plan.hops = laid := ⟨_, rfl⟩
  have hpath : (laid.topology.setPath plan.chainId (barePath env plan laid.nodes)).path?
      plan.chainId = some (barePath env plan laid.nodes) := path?_setPath.trans (if_pos rfl)
  have hhops : Enrolls t (hopDetails plan.hops) laid.topology := by
    have hall := layHops_enrolls env plan
      { t with issued := plan.nextId + plan.hops.length + 2 } 1 plan.hops
    rw [hlaid] at hall
    exact hall.of_same rfl rfl
  have hends := attachEnds_enrolls plan.ends hpath (by simp [barePath, newNode])
  rw [lay_eq env t plan hlaid]
  exact (hhops.trans (hends.of_same rfl rfl)).to_same
    details_refreshReversePath tags_refreshReversePath

/-- Enrolling details changes no tag that is held. -/
theorem Enrolls.tags_mono (h : Enrolls t details t') (htag : t.tags[vni]? = some tag) :
    t'.tags[vni]? = some tag := by
  induction h with
  | done _ htags => rwa [htags]
  | pass _ _ ih => exact ih htag
  | step _ ih => exact ih (tags_reserveTag htag)

/-- No two networks hold the same tag. -/
def TagsDistinct (t : Topology) : Prop :=
  ∀ (vni vni' : UInt32) (tag : SegmentId),
    t.tags[vni]? = some tag → t.tags[vni']? = some tag → vni = vni'

theorem TagsDistinct.enroll (h : TagsDistinct t) (d : PortDetail) : TagsDistinct (t.enroll d) := by
  intro vni vni' tag htag htag'
  rcases tags_of_reserveTag htag with hold | ⟨hvni, hfree⟩ <;>
    rcases tags_of_reserveTag htag' with hold' | ⟨hvni', hfree'⟩
  · exact h vni vni' tag hold hold'
  · exact absurd (mem_usedVlans.2 (.inl ⟨vni, tag, hold, rfl⟩)) hfree'
  · exact absurd (mem_usedVlans.2 (.inl ⟨vni', tag, hold', rfl⟩)) hfree
  · exact Option.some.inj (hvni.symm.trans hvni')

theorem TagsDistinct.enrolls (h : TagsDistinct t) (henrolls : Enrolls t details t') :
    TagsDistinct t' := by
  induction henrolls with
  | done _ htags =>
    intro vni vni' tag
    rw [htags]
    exact h vni vni' tag
  | pass _ _ ih => exact ih h
  | step _ ih => exact ih (h.enroll _)

/-! ## Giving details up -/

/-- Some known detail is on a VXLAN network. -/
def OnNetwork (t : Topology) (vni : UInt32) : Prop :=
  ∃ (id : String) (d : PortDetail), t.details[id]? = some d ∧ d.vni? = some vni

/-- Details are given up, and the tags of networks that have no detail left. -/
structure Settles (t t' : Topology) : Prop where
  detail : ∀ (id : String) (d : PortDetail), t'.details[id]? = some d → t.details[id]? = some d
  tag : ∀ (vni : UInt32) (tag : SegmentId), t'.tags[vni]? = some tag → t.tags[vni]? = some tag
  kept : ∀ (vni : UInt32) (tag : SegmentId), t.tags[vni]? = some tag → t'.OnNetwork vni →
    t'.tags[vni]? = some tag

theorem Settles.of_same (hdetails : t'.details = t.details) (htags : t'.tags = t.tags) :
    Settles t t' where
  detail _ _ hd := by rwa [← hdetails]
  tag _ _ htag := by rwa [← htags]
  kept _ _ htag _ := by rwa [htags]

theorem Settles.trans (h : Settles t t') (h' : Settles t' t'') : Settles t t'' where
  detail id d hd := h.detail id d (h'.detail id d hd)
  tag vni tag htag := h.tag vni tag (h'.tag vni tag htag)
  kept vni tag htag hon := by
    obtain ⟨id, d, hd, hvni⟩ := hon
    exact h'.kept vni tag (h.kept vni tag htag ⟨id, d, h'.detail id d hd, hvni⟩) ⟨id, d, hd, hvni⟩

theorem settles_prune (t : Topology) : Settles t t.prune where
  detail _ _ hd := (details_prune.1 hd).1
  tag _ _ htag := (tags_prune.1 htag).1
  kept _ _ htag hon := tags_prune.2 ⟨htag, hon⟩

theorem settles_dropChain (t : Topology) (chainId : String) : Settles t (t.dropChain chainId) := by
  cases hpath : t.path? chainId with
  | none =>
    simp only [dropChain, hpath]
    exact .of_same rfl rfl
  | some path =>
    rw [dropChain_eq hpath]
    have hforget : Settles t (t.forget chainId path) := .of_same rfl rfl
    exact hforget.trans (settles_prune _)

theorem settles_detachUnusedEnds (t : Topology) (chainId : String) :
    Settles t (t.detachUnusedEnds chainId) := by
  cases hpath : t.path? chainId with
  | none =>
    simp only [detachUnusedEnds, hpath]
    exact .of_same rfl rfl
  | some path =>
    rw [detachUnusedEnds_eq hpath]
    have hdetach : Settles t (t.detach chainId path) := .of_same rfl rfl
    exact hdetach.trans (settles_prune _)

theorem TagsDistinct.settles (h : TagsDistinct t) (hsettles : Settles t t') : TagsDistinct t' :=
  fun vni vni' tag htag htag' =>
    h vni vni' tag (hsettles.tag vni tag htag) (hsettles.tag vni' tag htag')

/-! ## Calls -/

/-- The details that a call binds, in their order: those of the pairs of hops, then those of the ends of
traffic. -/
def bindings (env : TopologyEnv) (t : Topology) : ChainCall → List PortDetail
  | .create chainId =>
    match t.plan env chainId with
    | .error _ => []
    | .ok plan => hopDetails plan.hops ++ plan.ends
  | .update chainId added removed =>
    match t.path? chainId with
    | none => []
    | some path =>
      match t.planUpdate env chainId path added removed with
      | .error _ => []
      | .ok plan => plan.ends
  | .delete _ => []

/-- Details are enrolled, which makes them known and nothing else; then some are given up. -/
structure Rebinds (t : Topology) (details : List PortDetail) (bound t' : Topology) : Prop where
  enrolls : Enrolls t details bound
  detail : ∀ (id : String) (d : PortDetail), bound.details[id]? = some d ↔
    t.details[id]? = some d ∨ d ∈ details ∧ d.id = id
  settles : Settles bound t'

theorem Rebinds.of_settles (h : Settles t t') : Rebinds t [] t t' :=
  ⟨.done rfl rfl, by simp, h⟩

theorem exists_rebinds_create (hlaw : env.Lawful) (hwf : WellFormed env t) (chainId : String) :
    ∃ bound, Rebinds t (t.bindings env (.create chainId)) bound
      (t.createChain env chainId).topology := by
  obtain ⟨stats, heq⟩ := createChain_topology env t chainId
  have hstats : Settles (t.build env chainId).topology (t.createChain env chainId).topology := by
    rw [heq]
    exact .of_same rfl rfl
  cases hplan : t.plan env chainId with
  | error e =>
    simp only [bindings, hplan]
    simp only [build, hplan] at hstats
    exact ⟨t, .of_settles hstats⟩
  | ok plan =>
    obtain ⟨path, hlaid⟩ := lay_laidOut hlaw hwf (plan_eq_ok hlaw hplan)
    have hdetail : ∀ (id : String) (d : PortDetail),
        (t.lay env plan).1.details[id]? = some d ↔
          t.details[id]? = some d ∨ d ∈ hopDetails plan.hops ++ plan.ends ∧ d.id = id := by
      intro id d
      rw [hlaid.detail, List.mem_append, mem_hopDetails]
    have hbuilt : Settles (t.lay env plan).1 (t.build env chainId).topology := by
      cases hrules : (t.lay env plan).1.flowRules env plan.chainId with
      | ok rules =>
        simp only [build, hplan, hrules]
        exact .of_same rfl rfl
      | error e =>
        simp only [build, hplan, hrules]
        exact settles_dropChain _ _
    simp only [bindings, hplan]
    exact ⟨_, lay_enrolls env t plan, hdetail, hbuilt.trans hstats⟩

theorem details_attachEnds {ends : List PortDetail} (hpath : t.path? chainId = some path)
    (hagree : t.Agrees ends) (hknown : ∀ id ∈ path.head.portDetails, id ∈ t.details) (id : String)
    (d : PortDetail) : (t.attachEnds chainId ends).1.details[id]? = some d ↔
      t.details[id]? = some d ∨ d ∈ ends ∧ d.id = id := by
  obtain ⟨bound, hbinds, hattach⟩ := attachEnds_binds hpath hagree hknown
  rw [hattach, details_setPath]
  exact hbinds.detail id d

/-- Before anything is given up, a change of classifiers has bound the details of the new ends. -/
theorem exists_rebinds_reclassify (hlaw : env.Lawful) (hwf : WellFormed env t)
    (hpath : t.path? chainId = some path) {removed : List String} {plan : UpdatePlan}
    (hplan : UpdatePlanned env t chainId path removed plan) :
    ∃ bound, Rebinds t plan.ends bound (t.reclassify chainId path plan).1 := by
  generalize ht₀ : ({ t with
    chains := t.chains.insert chainId { path with classifiers := plan.remaining }
    issued := plan.nextId } : Topology) = t₀
  have hdetails : t₀.details = t.details := by rw [← ht₀]
  have htags : t₀.tags = t.tags := by rw [← ht₀]
  have hset : t₀.path? chainId = some { path with classifiers := plan.remaining } := by
    rw [← ht₀]
    simp [path?]
  have hknown : ∀ id ∈ path.head.portDetails, id ∈ t₀.details := fun id hid => hdetails ▸
    hwf.known _ id ((hwf.pair _ _).2 ⟨chainId, path, hpath, _, path.head_mem_nodes, rfl, hid⟩)
  have hagree : t₀.Agrees plan.ends :=
    (endDetails_found hlaw hwf.genuine (Nat.le_refl _) hplan.ends).agrees hlaw (Nat.le_refl _)
      (fun id d hd => hwf.genuine id d (hdetails ▸ hd)) fun _ _ hd => hdetails ▸ hd
  refine ⟨(t₀.attachEnds chainId plan.ends).1,
    (attachEnds_enrolls plan.ends hset hknown).of_same hdetails.symm htags.symm, fun id d => ?_, ?_⟩
  · rw [← hdetails]
    exact details_attachEnds hset hagree hknown id d
  · rw [reclassify, ht₀]
    exact (settles_detachUnusedEnds _ chainId).trans
      (.of_same details_refreshReversePath tags_refreshReversePath)

theorem exists_rebinds_update (hlaw : env.Lawful) (hwf : WellFormed env t) (chainId : String)
    (added removed : List String) :
    ∃ bound, Rebinds t (t.bindings env (.update chainId added removed)) bound
      (t.updateClassifiers env chainId added removed).topology := by
  cases hpath : t.path? chainId with
  | none =>
    simp only [bindings, updateClassifiers, hpath]
    exact ⟨t, .of_settles (.of_same rfl rfl)⟩
  | some path =>
    cases hplan : t.planUpdate env chainId path added removed with
    | error e =>
      simp only [bindings, updateClassifiers, hpath, hplan]
      exact ⟨t, .of_settles (.of_same rfl rfl)⟩
    | ok plan =>
      obtain ⟨bound, hrebinds⟩ :=
        exists_rebinds_reclassify hlaw hwf hpath (planUpdate_eq_ok hplan)
      refine ⟨bound, ?_⟩
      simp only [bindings, hpath, hplan]
      cases hrules : (t.reclassify chainId path plan).1.flowRules env chainId <;>
      · simp only [updateClassifiers, hpath, hplan, hrules]
        exact ⟨hrebinds.enrolls, hrebinds.detail, hrebinds.settles.trans (.of_same rfl rfl)⟩

theorem exists_rebinds (hlaw : env.Lawful) (hwf : WellFormed env t) (call : ChainCall) :
    ∃ bound, Rebinds t (t.bindings env call) bound (t.answer env call).1 := by
  cases call with
  | create chainId => exact exists_rebinds_create hlaw hwf chainId
  | update chainId added removed => exact exists_rebinds_update hlaw hwf chainId added removed
  | delete chainId =>
    refine ⟨t, .of_settles ?_⟩
    change Settles t (t.deleteChain env chainId).topology
    rcases deleteChain_cases env t chainId with ⟨hsame, -⟩ | ⟨-, -, stats, -, -, -, heq⟩
    · rw [hsame]
      exact .of_same rfl rfl
    · rw [heq]
      exact (settles_dropChain t chainId).trans (.of_same rfl rfl)

/-! ## Tags -/

theorem Reachable.tagsDistinct (hlaw : env.Lawful) (h : Reachable env t) : TagsDistinct t := by
  induction h with
  | empty => simp [TagsDistinct]
  | answer hreach call ih =>
    obtain ⟨bound, hrebinds⟩ := exists_rebinds hlaw (hreach.wellFormed hlaw) call
    exact (ih.enrolls hrebinds.enrolls).settles hrebinds.settles
  | report _ _ ih => exact ih

/-- After any calls, no two VXLAN networks hold the same tag; each tag is held for the network of a detail of
a live chain; and the next call, successful or not, leaves a network with the tag that it holds, as long as
there is a detail on it. -/
theorem tags_unique_and_stable (hlaw : env.Lawful) (h : Reachable env t) :
    TagsDistinct t ∧
      (∀ (vni : UInt32) (tag : SegmentId), t.tags[vni]? = some tag → ∃ (id : String) (d : PortDetail),
        t.details[id]? = some d ∧ d.vni? = some vni ∧ t.ListsDetail id) ∧
      ∀ (call : ChainCall) (vni : UInt32) (tag : SegmentId), t.tags[vni]? = some tag →
        (t.answer env call).1.OnNetwork vni → (t.answer env call).1.tags[vni]? = some tag := by
  have hwf := h.wellFormed hlaw
  refine ⟨h.tagsDistinct hlaw, fun vni tag htag => ?_, fun call vni tag htag hon => ?_⟩
  · obtain ⟨id, d, hd, hvni⟩ := h.tagsUsed hlaw vni tag htag
    have hknown : id ∈ t.details := by
      rw [Std.ExtTreeMap.mem_iff_isSome_getElem?, hd]
      rfl
    obtain ⟨nodeId, hpair⟩ := hwf.associated id hknown
    exact ⟨id, d, hd, hvni, nodeId, (hwf.pair nodeId id).1 hpair⟩
  · obtain ⟨bound, hrebinds⟩ := exists_rebinds hlaw hwf call
    exact hrebinds.settles.kept vni tag (hrebinds.enrolls.tags_mono htag) hon

/-- Where two live chains share a service function, its network keeps the largest tag when the chain is
deleted for which the tag was taken. -/
theorem crossingMiddle_keeps_tag :
    TagsDistinct crossingMiddle ∧
      (∃ d : PortDetail, (crossingMiddle.answer crossingEnv (.delete "x")).1.details["p"]? = some d ∧
        d.vni? = some 5000) ∧
      ((crossingMiddle.answer crossingEnv (.delete "x")).1.tags[(5000 : UInt32)]?).map
        SegmentId.toNat = some 4094 := by
  have hheld : (crossingMiddle.tags[(5000 : UInt32)]?).map SegmentId.toNat = some 4094 ∧
      ((crossingMiddle.answer crossingEnv (.delete "x")).1.details["p"]?).any
        (·.vni? == some 5000) := by decide +kernel
  simp only [Option.map_eq_some_iff, Option.any_eq_true, beq_iff_eq] at hheld
  obtain ⟨⟨tag, htag, hlargest⟩, d, hd, hvni⟩ := hheld
  obtain ⟨hdistinct, -, hstable⟩ :=
    tags_unique_and_stable crossingEnv_lawful (Reachable.empty.evolves crossingMiddle_run)
  have hkept := hstable (.delete "x") 5000 tag htag ⟨"p", d, hd, hvni⟩
  exact ⟨hdistinct, ⟨d, hd, hvni⟩, by rw [hkept, Option.map_some, hlargest]⟩

end Topology

end ServiceChain
