import ServiceChain.Proofs.Topology.Interference

/-!
# Live chains last

Rules can be built for a new chain, or it is refused, and no call about one chain spoils the rules of
another; only a change of classifiers that fails can leave a chain without rules.  So wherever no such change
fails, every live chain has its rules (`Evolves.ruled`), and can be deleted.

The rules need a VLAN id at every detail with a host, which may be a tag that several chains share.  A call
may drop details and tags that no chain needs any more, but changes none that stays (`keeps_answer`), so a
detail has the same VLAN id as long as some chain lists it (`Evolves.keeps`).
-/

namespace ServiceChain

namespace Topology

variable {env : TopologyEnv} {t t' : Topology} {call : ChainCall} {chainId id : String}
  {path : ChainPath} {d : PortDetail} {segment : SegmentId}

/-! ## Chains with their rules -/

/-- The call changes classifiers, and fails. -/
def UpdateFails (env : TopologyEnv) (t : Topology) (call : ChainCall) : Prop :=
  ∃ chainId added removed, call = .update chainId added removed ∧
    ∃ e, (t.updateClassifiers env chainId added removed).result = .error e

theorem ruled_updateClassifiers (hlaw : env.Lawful) (hwf : WellFormed env t) (hruled : Ruled env t)
    {added removed : List String} {update : ClassifierUpdate}
    (h : (t.updateClassifiers env chainId added removed).result = .ok update) :
    Ruled env (t.updateClassifiers env chainId added removed).topology := by
  rcases updateClassifiers_cases hlaw hwf chainId added removed with
    ⟨hsame, -⟩ | ⟨path, plan, path', -, -, hchanged, hupdate⟩
  · rw [hsame]
    exact hruled
  · exact hchanged.alters.ruled hruled fun _ _ => ⟨_, (hupdate update h).2⟩

/-- A call leaves every live chain with its rules, unless it changes classifiers and fails. -/
theorem ruled_answer (hlaw : env.Lawful) (hwf : WellFormed env t) (hruled : Ruled env t)
    (hcall : ¬ UpdateFails env t call) : Ruled env (t.answer env call).1 := by
  cases call with
  | create chainId => exact ruled_createChain hlaw hwf hruled chainId
  | update chainId added removed =>
    cases hresult : (t.updateClassifiers env chainId added removed).result with
    | error e => exact absurd ⟨chainId, added, removed, rfl, e, hresult⟩ hcall
    | ok update => exact ruled_updateClassifiers hlaw hwf hruled hresult
  | delete chainId =>
    change Ruled env (t.deleteChain env chainId).topology
    rcases deleteChain_cases env t chainId with ⟨hsame, -⟩ | ⟨-, rules, -, -, -, hok, -⟩
    · rw [hsame]
      exact hruled
    · exact ruled_deleteChain hwf hruled hok

theorem ruled_recordStatuses (hruled : Ruled env t) (reports : List RuleReport) :
    Ruled env (t.recordStatuses reports).1 := by
  intro chainId path hpath
  obtain ⟨mentions, hreported⟩ := exists_reported t reports
  rw [hreported, Option.map_eq_some_iff] at hpath
  obtain ⟨path, hpath, -⟩ := hpath
  rw [flowRules_recordStatuses]
  exact hruled chainId path hpath

theorem Evolves.ruled (hlaw : env.Lawful)
    (h : Evolves env (fun t call => ¬ UpdateFails env t call) {} t) : Ruled env t := by
  induction h with
  | refl =>
    intro chainId path hpath
    simp [path?] at hpath
  | answer hrun hcall ih =>
    exact ruled_answer hlaw ((Reachable.empty.evolves hrun).wellFormed hlaw) ih hcall
  | report _ reports ih => exact ruled_recordStatuses ih reports

/-! ## VLAN ids of details -/

/-- Traffic of a chain is tagged with a VLAN id at the detail: with the tag held for a VXLAN network, or
with the id of the network itself. -/
def HasSegment (t : Topology) (d : PortDetail) (segment : SegmentId) : Prop :=
  ∃ id, d.segment = some id ∧
    if d.networkType = some .vxlan then t.tags[id]? = some segment else id.toNat = segment.toNat

theorem hasSegment_iff : t.HasSegment d segment ↔ t.chainSegment d = .ok segment := by
  rw [chainSegment_eq_ok, HasSegment, PortDetail.vni?]
  by_cases hvxlan : d.networkType = some .vxlan
  · cases d.segment <;> simp [hvxlan]
  · simp only [hvxlan, if_false, Option.bind_eq_some_iff]
    refine exists_congr fun id => and_congr_right fun _ => ?_
    constructor
    · intro hid
      rw [hid, SegmentId.ofNat?_toNat]
    · exact fun hid => (SegmentId.toNat_of_ofNat? hid).symm

/-! ## Details that stay -/

/-- A detail that is still known is the same, and the tag of its network is still held. -/
def Keeps (t t' : Topology) : Prop :=
  ∀ (id : String) (d : PortDetail), t.details[id]? = some d → id ∈ t'.details →
    t'.details[id]? = some d ∧ ∀ (vni : UInt32) (tag : SegmentId), d.vni? = some vni →
      t.tags[vni]? = some tag → t'.tags[vni]? = some tag

/-- Where one chain was altered, the details of its own nodes decide. -/
theorem Alters.keeps (h : Alters env t chainId t')
    (hown : ∀ path, t'.path? chainId = some path → ∀ node ∈ path.nodes, ∀ id ∈ node.portDetails,
      ∀ d : PortDetail, t.details[id]? = some d → t'.details[id]? = some d ∧
        ∀ (vni : UInt32) (tag : SegmentId), d.vni? = some vni → t.tags[vni]? = some tag →
          t'.tags[vni]? = some tag) : Keeps t t' := by
  intro id d hd hid
  -- a known detail is listed by a live chain
  obtain ⟨nodeId, hpair⟩ := h.wellFormed.associated id hid
  obtain ⟨other, path, hpath, node, hnode, -, hlisted⟩ := (h.wellFormed.pair nodeId id).1 hpair
  by_cases hne : chainId = other
  · subst hne
    exact hown path hpath node hnode id hlisted d hd
  · have hretains := h.retains other path hne ((h.path? other hne).symm.trans hpath)
    have hmem : d ∈ t.nodeDetails node := mem_nodeDetails.2 ⟨id, hlisted, hd⟩
    exact ⟨(hretains.detail node hnode id hlisted).trans hd, hretains.tag node hnode d hmem⟩

theorem keeps_createChain (hlaw : env.Lawful) (hwf : WellFormed env t) (chainId : String) :
    Keeps t (t.createChain env chainId).topology := by
  refine (hwf.alters_createChain hlaw chainId).keeps fun path hpath _ _ id _ d hd => ?_
  obtain ⟨stats, heq⟩ := createChain_topology env t chainId
  rw [heq] at hpath ⊢
  rcases build_cases hlaw t chainId with ⟨hsame, -⟩ | ⟨plan, hplan, hcases⟩
  · rw [hsame]
    exact ⟨hd, fun _ _ _ htag => htag⟩
  · obtain ⟨path', hlaid⟩ := lay_laidOut hlaw hwf hplan
    rcases hcases with ⟨hlay, -⟩ | ⟨hdrop, -⟩
    · have hjoins := hlaid.joins hlaw hwf hplan
      rw [hlay]
      exact ⟨hjoins.detail id d hd, fun vni tag _ => hjoins.tag vni tag⟩
    · -- the path was dropped again
      have hlive : (t.lay env plan).1.path? chainId = some path' := by
        rw [hlaid.path?, if_pos rfl]
      change (t.build env chainId).topology.path? chainId = some path at hpath
      rw [hdrop, path?_dropChain hlive, if_pos rfl] at hpath
      cases hpath

theorem keeps_updateClassifiers (hlaw : env.Lawful) (hwf : WellFormed env t) (chainId : String)
    (added removed : List String) :
    Keeps t (t.updateClassifiers env chainId added removed).topology := by
  refine (hwf.alters_updateClassifiers hlaw chainId added removed).keeps
    fun path hpath node hnode id hid d hd => ?_
  rcases updateClassifiers_cases hlaw hwf chainId added removed with
    ⟨hsame, -⟩ | ⟨old, plan, path', -, -, hchanged, -⟩
  · rw [hsame]
    exact ⟨hd, fun _ _ _ htag => htag⟩
  · obtain rfl := Option.some.inj (hchanged.path?.symm.trans hpath)
    exact ⟨hchanged.detail node hnode id hid d hd, hchanged.tag node hnode id hid d hd⟩

theorem keeps_deleteChain (hwf : WellFormed env t) (chainId : String) :
    Keeps t (t.deleteChain env chainId).topology := by
  refine (hwf.alters_deleteChain chainId).keeps fun path hpath _ _ id _ d hd => ?_
  rcases deleteChain_cases env t chainId with ⟨hsame, -⟩ | ⟨-, rules, -, -, -, hok, -⟩
  · rw [hsame]
    exact ⟨hd, fun _ _ _ htag => htag⟩
  · rw [path?_deleteChain hok] at hpath
    cases hpath

/-- A call, successful or not, changes no detail that stays known, nor the tag of its network. -/
theorem keeps_answer (hlaw : env.Lawful) (hwf : WellFormed env t) (call : ChainCall) :
    Keeps t (t.answer env call).1 := by
  cases call with
  | create chainId => exact keeps_createChain hlaw hwf chainId
  | update chainId added removed => exact keeps_updateClassifiers hlaw hwf chainId added removed
  | delete chainId => exact keeps_deleteChain hwf chainId

/-- A node of a live chain lists the detail. -/
def ListsDetail (t : Topology) (id : String) : Prop := ∃ nodeId, t.Lists nodeId id

/-- A detail is the same, with the VLAN id that it has, as long as some live chain lists it. -/
theorem Evolves.keeps (hlaw : env.Lawful) (hreach : Reachable env t)
    (h : Evolves env (fun t call => (t.answer env call).1.ListsDetail id) t t')
    (hd : t.details[id]? = some d) (hsegment : t.HasSegment d segment) :
    t'.details[id]? = some d ∧ t'.HasSegment d segment := by
  induction h with
  | refl => exact ⟨hd, hsegment⟩
  | @answer t' hrun call hlists ih =>
    obtain ⟨hd', hsegment'⟩ := ih
    have hwf := (hreach.evolves hrun).wellFormed hlaw
    have hwf' := (hwf.alters_answer hlaw call).wellFormed
    obtain ⟨nodeId, hlists⟩ := hlists
    have hknown := hwf'.known nodeId id ((hwf'.pair nodeId id).2 hlists)
    obtain ⟨hsame, htag⟩ := keeps_answer hlaw hwf call id d hd' hknown
    rw [hasSegment_iff] at hsegment' ⊢
    exact ⟨hsame, chainSegment_mono hsegment' htag⟩
  | report _ reports ih => exact ih

/-! ## The last of a chain -/

/-- Where no change of classifiers failed, the rules of a live chain can be built and taken back, and a
detail with a host that it lists has a VLAN id, the same as long as any live chain lists it. -/
theorem live_chain_lasts (hlaw : env.Lawful)
    (hrun : Evolves env (fun t call => ¬ UpdateFails env t call) {} t)
    (hpath : t.path? chainId = some path) :
    (∃ rules, t.flowRules env chainId = .ok rules) ∧
      (∃ rules, (t.deleteChain env chainId).result = .ok rules) ∧
      ∀ node ∈ path.nodes, ∀ id ∈ node.portDetails, ∃ d, t.details[id]? = some d ∧
        (d.host.isSome → ∃ segment, t.HasSegment d segment ∧
          ∀ t', Evolves env (fun t call => (t.answer env call).1.ListsDetail id) t t' →
            t'.details[id]? = some d ∧ t'.HasSegment d segment) := by
  have hreach := Reachable.empty.evolves hrun
  obtain ⟨rules, hrules⟩ := hrun.ruled hlaw chainId path hpath
  have hbuilt : ∃ rules, t.pathRules env path = .ok rules :=
    ⟨rules, (flowRules_eq_pathRules hpath).symm.trans hrules⟩
  refine ⟨⟨rules, hrules⟩, ?_, fun node hnode id hid => ?_⟩
  · obtain ⟨removals, hremovals⟩ : ∃ rules, t.pathRemoval env chainId path = .ok rules :=
      exists_pathRemoval_iff.2 hbuilt
    exact ⟨removals, by simp only [Topology.deleteChain, hpath, hremovals]⟩
  · obtain ⟨d, hd⟩ := (hreach.wellFormed hlaw).toBooked.exists_detail hpath hnode hid
    refine ⟨d, hd, fun hhost => ?_⟩
    obtain ⟨segment, hsegment⟩ :=
      exists_pathRules_iff.1 hbuilt node hnode d (mem_nodeDetails.2 ⟨id, hid, hd⟩) hhost
    have hsegment := hasSegment_iff.2 hsegment
    exact ⟨segment, hsegment, fun t' hrun' => hrun'.keeps hlaw hreach hd hsegment⟩

theorem crossingMiddle_run :
    Evolves crossingEnv (fun t call => ¬ UpdateFails crossingEnv t call) {} crossingMiddle := by
  have hcreate : ∀ (t : Topology) chainId, ¬ UpdateFails crossingEnv t (.create chainId) := by
    rintro t chainId ⟨_, _, _, h, -⟩
    cases h
  have hstart : Evolves crossingEnv (fun t call => ¬ UpdateFails crossingEnv t call) {}
      crossingStart := Evolves.refl.answer (hcreate _ "x")
  refine ((hstart.answer (hcreate _ "y")).answer (hcreate _ "z")).answer ?_
  rintro ⟨_, _, _, hcall, e, he⟩
  cases hcall
  have hok : ((((crossingStart.answer crossingEnv (.create "y")).1.answer crossingEnv
      (.create "z")).1.updateClassifiers crossingEnv "z" [] ["f"]).result.toOption).isSome := by
    decide +kernel
  rw [Except.toOption_eq_none.2 ⟨e, he⟩] at hok
  cases hok

/-- The detail that two live chains have in common keeps its tag when one of them is deleted. -/
theorem crossingMiddle_lasts :
    (∃ rules, crossingMiddle.flowRules crossingEnv "z" = .ok rules) ∧
      (∃ rules, (crossingMiddle.deleteChain crossingEnv "z").result = .ok rules) ∧
      ∃ d segment, crossingMiddle.details["p"]? = some d ∧ crossingMiddle.HasSegment d segment ∧
        (crossingMiddle.answer crossingEnv (.delete "x")).1.HasSegment d segment := by
  have hlisted : ((crossingMiddle.path? "z").any fun path =>
      path.nodes.any (·.portDetails.contains "p")) ∧
        (crossingMiddle.details["p"]?).all (·.host.isSome) := by decide +kernel
  simp only [Option.any_eq_true, List.any_eq_true, List.contains_iff_mem] at hlisted
  obtain ⟨⟨path, hpath, node, hnode, hid⟩, hhost⟩ := hlisted
  obtain ⟨hrules, hremoval, hlasts⟩ := live_chain_lasts crossingEnv_lawful crossingMiddle_run hpath
  obtain ⟨d, hd, hsegment⟩ := hlasts node hnode "p" hid
  rw [hd] at hhost
  obtain ⟨segment, hsegment, hkept⟩ := hsegment hhost
  -- the other chain still lists the detail
  have hwf := (Reachable.empty.evolves crossingMiddle_run).wellFormed crossingEnv_lawful
  have hother := (hwf.alters_answer crossingEnv_lawful (.delete "x")).path? "z" (by decide)
  have hrun : Evolves crossingEnv (fun t call => (t.answer crossingEnv call).1.ListsDetail "p")
      crossingMiddle (crossingMiddle.answer crossingEnv (.delete "x")).1 :=
    Evolves.refl.answer ⟨node.id, "z", path, hother.trans hpath, node, hnode, rfl, hid⟩
  exact ⟨hrules, hremoval, d, segment, hd, hsegment, (hkept _ hrun).2⟩

end Topology

end ServiceChain
