import ServiceChain.Proofs.Topology.Undoing

/-!
# Changes of classifiers that fail

All checks of a change but one come before it is carried out; the last step, to build the rules of the
changed chain, fails for a detail that the head has just been given (`GainsUnusable`,
`Reclassified.gainsUnusable`).  So a change that fails leaves the books as they were exactly if it fails for
another reason, and it does wherever the ports of the added classifiers can be programmed
(`failed_update_keeps_iff`).
-/

namespace ServiceChain

namespace Topology

variable {env : TopologyEnv} {t t' : Topology} {chainId : String} {path path' : ChainPath}
  {plan : UpdatePlan} {added removed : List String} {d d' : PortDetail} {e : TopologyError}

/-! ## Details of the changed chain -/

/-- The details of the nodes of the chain were all usable before the change. -/
theorem UpdatePlanned.usable (h : UpdatePlanned env t chainId path removed plan) {node : PathNode}
    (hnode : node ∈ path.nodes) (hd : d ∈ t.nodeDetails node) : t.Usable d := by
  obtain ⟨rules, hrules, -⟩ := h.delete
  obtain ⟨removals, -, hremovals⟩ := Except.exists_of_mem_of_mapM hrules hnode
  exact exists_removalRules_iff.1 ⟨removals, hremovals⟩ d hd

/-- The head of a chain has got a detail for which no rule can be built. -/
def GainsUnusable (t : Topology) (chainId : String) (t' : Topology) (d : PortDetail) : Prop :=
  ∃ path path', t.path? chainId = some path ∧ t'.path? chainId = some path' ∧
    d.id ∉ path.head.portDetails ∧ d.id ∈ path'.head.portDetails ∧ t'.details[d.id]? = some d ∧
      ¬ t'.Usable d

/-- What cannot be programmed after a change is new at the head. -/
theorem Reclassified.gainsUnusable (hwf : WellFormed env t) (hpath : t.path? chainId = some path)
    (hplan : UpdatePlanned env t chainId path removed plan)
    (h : Reclassified env t chainId path plan path' t') {node : PathNode}
    (hnode : node ∈ path'.nodes) (hd : d ∈ t'.nodeDetails node) (hunusable : ¬ t'.Usable d) :
    GainsUnusable t chainId t' d := by
  have hshaped := hwf.shaped _ _ hpath
  obtain ⟨id, hid, hknown⟩ := mem_nodeDetails.1 hd
  obtain rfl := (h.alters.wellFormed.genuine id d hknown).1
  -- a detail that a node had before was usable, and still is
  have hold : ∀ node₀ ∈ path.nodes, d.id ∉ node₀.portDetails := by
    intro node₀ hnode₀ hid₀
    obtain ⟨d₀, hd₀⟩ := hwf.toBooked.exists_detail hpath hnode₀ hid₀
    obtain rfl := Option.some.inj ((h.detail node hnode _ hid d₀ hd₀).symm.trans hknown)
    have husable := hplan.usable hnode₀ (mem_nodeDetails.2 ⟨_, hid₀, hd₀⟩)
    exact hunusable (husable.mono (h.tag node hnode _ hid d₀ hd₀))
  rcases ChainPath.mem_nodes.1 hnode with rfl | hhop | rfl
  · exact ⟨path, path', hpath, h.path?, hold _ path.head_mem_nodes, hid, hknown, hunusable⟩
  · rw [h.hops] at hhop
    obtain ⟨node₀, hnode₀, rfl⟩ := List.mem_map.1 hhop
    exact absurd hid (hold node₀ (ChainPath.hop_mem_nodes hnode₀))
  · rw [h.tail] at hid
    change d.id ∈ path.tail.portDetails at hid
    rw [hshaped.tail_empty] at hid
    cases hid

/-! ## Ports of the added classifiers -/

/-- Every port that the classifiers name is bound where its traffic can be tagged. -/
def EndsUsable (env : TopologyEnv) (t : Topology) (ids : List String) : Prop :=
  ∀ id ∈ ids, ∀ fc, env.store.classifier? id = some fc → ∀ e ∈ ChainEnd.ofClassifier fc,
    ∀ binding, env.store.binding? e.port = some binding →
      t.Usable ((e.detail e.port).bind binding)

theorem usable_detail_iff {e : ChainEnd} {id id' : String} {binding : PortBinding} :
    t.Usable ((e.detail id).bind binding) ↔ t.Usable ((e.detail id').bind binding) := by
  -- the segment depends on the binding; only an error names the detail
  unfold Usable
  simp only [chainSegment_eq_ok]
  cases e <;> exact Iff.rfl

theorem exists_of_mem_added (h : t.planUpdate env chainId path added removed = .ok plan)
    {fc : FlowClassifier} (hfc : fc ∈ plan.added) :
    ∃ id ∈ added, env.store.classifier? id = some fc := by
  simp only [planUpdate, Except.bind_eq_ok, Except.pure_eq_ok, Prod.exists] at h
  obtain ⟨loaded, hloaded, ends, nextId, hends, rules, hrules, rfl⟩ := h
  obtain ⟨id, hid, hload⟩ := Except.exists_of_mem_mapM hloaded (List.mem_filter.1 hfc).1
  exact ⟨id, hid, (loadClassifier_eq_ok.1 hload).1⟩

theorem tags_reclassify (hlaw : env.Lawful) (h : WellFormed env t)
    (hpath : t.path? chainId = some path)
    (hplan : UpdatePlanned env t chainId path removed plan) {vni : UInt32} {tag : SegmentId}
    {id : String} (htag : t.tags[vni]? = some tag)
    (hd : (t.reclassify chainId path plan).1.details[id]? = some d) (hvni : d.vni? = some vni) :
    (t.reclassify chainId path plan).1.tags[vni]? = some tag := by
  obtain ⟨path₁, t₁, hserves, heq⟩ := reclassify_servesEnds hlaw h hpath hplan
  have hpath₁ : t₁.prune.path? chainId = some path₁ := by
    rw [path?_prune, hserves.path?, if_pos rfl]
  rw [heq, refreshReversePath_eq hpath₁] at hd ⊢
  exact tags_prune.2 ⟨hserves.tag vni tag htag, id, d, hd, hvni⟩

/-- The head gets no detail that is not usable from classifiers whose ports are. -/
theorem not_gainsUnusable (hlaw : env.Lawful) (hwf : WellFormed env t)
    (hpath : t.path? chainId = some path)
    (hplan : t.planUpdate env chainId path added removed = .ok plan)
    (hends : EndsUsable env t added) :
    ¬ GainsUnusable t chainId (t.reclassify chainId path plan).1 d := by
  rintro ⟨path₀, path', hpath₀, hpath', hnew, hid, hknown, hunusable⟩
  obtain rfl := Option.some.inj (hpath.symm.trans hpath₀)
  have hplanned := planUpdate_eq_ok hplan
  obtain ⟨path'', h⟩ := reclassify_reclassified hlaw hwf hpath hplanned
  obtain rfl := Option.some.inj (h.path?.symm.trans hpath')
  have hwf' := h.alters.wellFormed
  obtain ⟨d', hd', e, he, hof⟩ := (hwf'.shaped _ _ hpath').head_detail _ hid
  obtain rfl := Option.some.inj (hknown.symm.trans hd')
  obtain ⟨fc, hfc, hnames⟩ := ChainEnd.mem_ofClassifiers.1 he
  rw [h.classifiers, hplanned.remaining, List.mem_append, List.mem_filter] at hfc
  rcases hfc with ⟨hfc, hkept⟩ | hfc
  · -- the head had a detail for the end before
    have hremains : e ∈ ChainEnd.ofClassifiers plan.remaining := by
      rw [← h.classifiers]
      exact he
    obtain ⟨id₀, hid₀, d₀, hd₀, hof₀⟩ := (hwf.shaped _ _ hpath).head_end e
      (ChainEnd.mem_ofClassifiers.2 ⟨fc, hfc, hnames⟩)
    have hlisted := h.head_kept id₀ hid₀ d₀ e hd₀ hof₀ hremains
    have hd₀' := h.detail _ path''.head_mem_nodes id₀ hlisted d₀ hd₀
    obtain rfl := hwf'.end_unique e _ id₀ d d₀ hknown hd₀' hof hof₀
    rw [(hwf'.genuine id₀ d hd₀').1] at hnew
    exact hnew hid₀
  · obtain ⟨fcId, hfcId, hstored⟩ := exists_of_mem_added hplan hfc
    rcases (hwf'.genuine _ d hknown).2 with hpair | ⟨e', n, -, binding, hbinding, rfl⟩
    · exact ChainEnd.not_isOf_of_pair hpair hof
    obtain rfl := ChainEnd.isOf_unique hof (e'.isOf_detail_bind _ _)
    have husable : t.Usable ((e.detail (env.newId n)).bind binding) :=
      usable_detail_iff.1 (hends fcId hfcId fc hstored e hnames binding hbinding)
    exact hunusable (husable.mono fun vni tag hvni htag =>
      tags_reclassify hlaw hwf hpath hplanned htag hknown hvni)

/-! ## Changes that fail -/

/-- The live chains with their nodes and classifiers, the details, the associations and the tags are the
same. -/
structure SameBooks (t t' : Topology) : Prop where
  chains : t'.chains = t.chains
  details : t'.details = t.details
  assocs : t'.assocs = t.assocs
  tags : t'.tags = t.tags

theorem SameBooks.refl (t : Topology) : SameBooks t t := ⟨rfl, rfl, rfl, rfl⟩

theorem GainsUnusable.not_sameBooks (h : GainsUnusable t chainId t' d) : ¬ SameBooks t t' := by
  intro hsame
  obtain ⟨path, path', hpath, hpath', hnew, hid, -⟩ := h
  rw [path?, hsame.chains] at hpath'
  obtain rfl := Option.some.inj (hpath.symm.trans hpath')
  exact hnew hid

/-- A change that fails was not carried out, or the rules of the changed chain could not be built. -/
theorem updateClassifiers_error
    (h : (t.updateClassifiers env chainId added removed).result = .error e) :
    (t.updateClassifiers env chainId added removed).topology = t ∨
      ∃ path plan, t.path? chainId = some path ∧
        t.planUpdate env chainId path added removed = .ok plan ∧
        (t.updateClassifiers env chainId added removed).topology =
          (t.reclassify chainId path plan).1 ∧
        (t.reclassify chainId path plan).1.flowRules env chainId = .error e := by
  cases hpath : t.path? chainId with
  | none =>
    simp only [updateClassifiers, hpath]
    exact .inl trivial
  | some path =>
    cases hplan : t.planUpdate env chainId path added removed with
    | error e' =>
      simp only [updateClassifiers, hpath, hplan]
      exact .inl trivial
    | ok plan =>
      cases hrules : (t.reclassify chainId path plan).1.flowRules env chainId with
      | ok rules => simp [updateClassifiers, hpath, hplan, hrules] at h
      | error e' =>
        simp only [updateClassifiers, hpath, hplan, hrules, Except.error.injEq] at h ⊢
        exact .inr ⟨path, plan, rfl, hplan, rfl, by rw [hrules, h]⟩

/-- A change of classifiers that fails leaves the books as they were, unless it fails because the head has
got a detail that has a host, and no VLAN id or tag.  That does not happen where the ports of the added
classifiers can be programmed. -/
theorem failed_update_keeps_iff (hlaw : env.Lawful) (hreach : Reachable env t)
    (hfails : (t.updateClassifiers env chainId added removed).result = .error e) :
    (SameBooks t (t.updateClassifiers env chainId added removed).topology ↔
        ¬ ∃ d, GainsUnusable t chainId (t.updateClassifiers env chainId added removed).topology d ∧
          e = .invalidSegment d.id) ∧
      (EndsUsable env t added →
        SameBooks t (t.updateClassifiers env chainId added removed).topology) := by
  have hwf := hreach.wellFormed hlaw
  rcases updateClassifiers_error hfails with hsame | ⟨path, plan, hpath, hplan, heq, herror⟩
  · rw [hsame]
    refine ⟨iff_of_true (SameBooks.refl t) ?_, fun _ => SameBooks.refl t⟩
    rintro ⟨d, hgains, -⟩
    exact hgains.not_sameBooks (SameBooks.refl t)
  · obtain ⟨path', h⟩ := reclassify_reclassified hlaw hwf hpath (planUpdate_eq_ok hplan)
    rw [flowRules_eq_pathRules h.path?] at herror
    obtain ⟨node, hnode, d, hd, hunusable, he⟩ := pathRules_error herror
    have hgains := h.gainsUnusable hwf hpath (planUpdate_eq_ok hplan) hnode hd hunusable
    rw [heq]
    refine ⟨iff_of_false hgains.not_sameBooks (not_not.2 ⟨d, hgains, he⟩), fun hends => ?_⟩
    exact absurd hgains (not_gainsUnusable hlaw hwf hpath hplan hends)

/-! ## A change that is not taken back -/

/-- A classifier is added whose port has a host, but no VLAN id. -/
theorem tunnelLive_fails :
    ∃ e, (tunnelLive.updateClassifiers tunnelEnv "x" ["g"] []).result = .error e :=
  Except.toOption_eq_none.1 (by decide +kernel)

theorem tunnelLive_not_sameBooks :
    ¬ SameBooks tunnelLive (tunnelLive.updateClassifiers tunnelEnv "x" ["g"] []).topology := by
  intro hsame
  have hsize : (tunnelLive.updateClassifiers tunnelEnv "x" ["g"] []).topology.details.size ≠
      tunnelLive.details.size := by decide +kernel
  exact hsize (congrArg (·.size) hsame.details)

/-- The head keeps the detail of that port; a change that names no recorded classifier leaves nothing. -/
theorem tunnelLive_gains :
    (∃ d, GainsUnusable tunnelLive "x"
        (tunnelLive.updateClassifiers tunnelEnv "x" ["g"] []).topology d) ∧
      SameBooks tunnelLive (tunnelLive.updateClassifiers tunnelEnv "x" ["h"] []).topology := by
  constructor
  · obtain ⟨e, he⟩ := tunnelLive_fails
    have hiff := (failed_update_keeps_iff tunnelEnv_lawful tunnelLive_reachable he).1
    by_contra hnone
    refine tunnelLive_not_sameBooks (hiff.2 ?_)
    rintro ⟨d, hgains, -⟩
    exact hnone ⟨d, hgains⟩
  · obtain ⟨e, he⟩ : ∃ e, (tunnelLive.updateClassifiers tunnelEnv "x" ["h"] []).result = .error e :=
      Except.toOption_eq_none.1 (by decide +kernel)
    refine (failed_update_keeps_iff tunnelEnv_lawful tunnelLive_reachable he).2 ?_
    rintro id hid fc hfc
    obtain rfl := List.mem_singleton.1 hid
    have hnone : tunnelEnv.store.classifier? "h" = none := by decide +kernel
    cases hnone.symm.trans hfc

/-- A change of classifiers that fails need not leave the books as they were. -/
theorem not_failed_update_keeps :
    ¬ ∀ (env : TopologyEnv) (t : Topology) (chainId : String) (added removed : List String)
      (e : TopologyError), env.Lawful → Reachable env t →
        (t.updateClassifiers env chainId added removed).result = .error e →
          SameBooks t (t.updateClassifiers env chainId added removed).topology := by
  intro hall
  obtain ⟨e, he⟩ := tunnelLive_fails
  exact tunnelLive_not_sameBooks
    (hall tunnelEnv tunnelLive "x" ["g"] [] e tunnelEnv_lawful tunnelLive_reachable he)

end Topology

end ServiceChain
