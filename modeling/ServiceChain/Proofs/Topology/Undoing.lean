import ServiceChain.Proofs.Topology.Calls
import ServiceChain.Proofs.Topology.Usable

/-!
# Undoing a creation

The path of a new chain appends associations of its own nodes, and holds tags for the networks of its own
details (`Appends`, `lay_appends`).  In a reachable topology no tag is held without need
(`Reachable.tagsUsed`), so dropping the path leaves the books as they were (`LaidOut.restores`): a chain that
is refused leaves nothing behind, and deleting a chain takes its creation back (`create_undone`).
-/

namespace ServiceChain

namespace Topology

variable {env : TopologyEnv} {t t' t'' : Topology} {chainId : String} {path : ChainPath}
  {plan : ChainPlan} {nodes nodes' : List String} {details details' : List PortDetail}
  {d : PortDetail} {added removed : List String}

/-! ## What binding appends -/

/-- One topology is another with more associations, all of given nodes, and more tags, all for the networks
of given details. -/
structure Appends (t : Topology) (nodes : List String) (details : List PortDetail)
    (t' : Topology) : Prop where
  assocs : ∃ more, t'.assocs = t.assocs ++ more ∧ ∀ a ∈ more, a.nodeId ∈ nodes
  tag : ∀ (vni : UInt32) (tag : SegmentId), t'.tags[vni]? = some tag →
    t.tags[vni]? = some tag ∨ ∃ d ∈ details, d.vni? = some vni

theorem Appends.refl (t : Topology) : Appends t [] [] t :=
  ⟨⟨[], by simp, nofun⟩, fun _ _ h => .inl h⟩

theorem Appends.trans (h : Appends t nodes details t') (h' : Appends t' nodes' details' t'') :
    Appends t (nodes ++ nodes') (details ++ details') t'' := by
  obtain ⟨more, heq, hmore⟩ := h.assocs
  obtain ⟨more', heq', hmore'⟩ := h'.assocs
  refine ⟨⟨more ++ more', by rw [heq', heq, List.append_assoc], fun a ha => ?_⟩,
    fun vni tag htag => ?_⟩
  · exact List.mem_append.2 ((List.mem_append.1 ha).imp (hmore a) (hmore' a))
  · rcases h'.tag vni tag htag with htag | ⟨d, hd, hvni⟩
    · refine (h.tag vni tag htag).imp_right ?_
      rintro ⟨d, hd, hvni⟩
      exact ⟨d, List.mem_append_left _ hd, hvni⟩
    · exact .inr ⟨d, List.mem_append_right _ hd, hvni⟩

/-- A tag that is new is held for the network of the detail, and was in use nowhere. -/
theorem tags_of_reserveTag {vni : UInt32} {tag : SegmentId}
    (h : (t.reserveTag d).tags[vni]? = some tag) :
    t.tags[vni]? = some tag ∨ d.vni? = some vni ∧ tag.toNat ∉ t.usedVlans := by
  unfold reserveTag at h
  split at h
  · exact .inl h
  · rename_i vni' huntagged
    split at h
    · exact .inl h
    · rename_i free hfree
      obtain ⟨hvni, -⟩ := Option.filter_eq_some_iff.1 huntagged
      simp only [Std.ExtTreeMap.getElem?_insert] at h
      split at h
      · rename_i hsame
        obtain rfl := Std.LawfulEqCmp.eq_of_compare hsame
        obtain rfl := Option.some.inj h
        exact .inr ⟨hvni, (SegmentId.highestOutside_eq_some hfree).1⟩
      · exact .inl h

theorem associate_appends (s : Binding) (d : PortDetail) (weight : UInt32) :
    Appends s.topology [s.node.id] [d] (associate s d weight).topology ∧
      (associate s d weight).node.id = s.node.id := by
  unfold associate
  split
  · exact ⟨⟨⟨[], by simp, nofun⟩, fun _ _ h => .inl h⟩, rfl⟩
  · refine ⟨⟨⟨[⟨s.node.id, d.id, weight⟩], by simp, by simp⟩, fun vni tag htag => ?_⟩, rfl⟩
    exact (tags_of_reserveTag htag).imp_right fun hnew => ⟨d, List.mem_cons_self, hnew.1⟩

theorem associateAll_appends (t : Topology) (node : PathNode) (details : List (PortDetail × UInt32)) :
    Appends t [node.id] (details.map (·.1)) (associateAll t node details).topology ∧
      (associateAll t node details).node.id = node.id := by
  unfold associateAll
  generalize hs : (⟨t, node, []⟩ : Binding) = s
  obtain ⟨rfl, rfl⟩ : t = s.topology ∧ node = s.node := by rw [← hs]; exact ⟨rfl, rfl⟩
  clear hs
  induction details generalizing s with
  | nil => exact ⟨⟨⟨[], by simp, nofun⟩, fun _ _ h => .inl h⟩, rfl⟩
  | cons detail details ih =>
    obtain ⟨d, weight⟩ := detail
    obtain ⟨hfirst, hid⟩ := associate_appends s d weight
    obtain ⟨hrest, hid'⟩ := ih (associate s d weight)
    obtain ⟨⟨more, heq, hmore⟩, htag⟩ := hfirst.trans hrest
    rw [hid] at hmore
    exact ⟨⟨⟨more, heq, fun a ha => by simpa using hmore a ha⟩, htag⟩, hid'.trans hid⟩

/-- The details of hops. -/
def hopDetails (hops : List Hop) : List PortDetail := hops.flatMap fun hop => hop.details.map (·.1)

theorem mem_hopDetails {hops : List Hop} :
    d ∈ hopDetails hops ↔ ∃ hop ∈ hops, d ∈ hop.details.map (·.1) :=
  List.mem_flatMap

theorem layHops_appends (env : TopologyEnv) (plan : ChainPlan) (t : Topology)
    (position : Nat) (hops : List Hop) :
    Appends t ((List.range' position hops.length).map fun i => env.newId (plan.nextId + i))
      (hopDetails hops) (layHops env plan t position hops).topology := by
  induction hops generalizing t position with
  | nil => exact Appends.refl t
  | cons hop hops ih =>
    have hfirst := (associateAll_appends t
      (newNode env plan .serviceFunction position (hops.head?.bind Hop.nextGroup))
      hop.details).1
    exact hfirst.trans (ih _ (position + 1))

theorem attachEnds_appends (ends : List PortDetail) (hpath : t.path? chainId = some path) :
    Appends t [path.head.id] ends (t.attachEnds chainId ends).1 := by
  obtain ⟨⟨hassocs, htag⟩, -⟩ := associateAll_appends t path.head (ends.map (·, 1))
  simp only [List.map_map, Function.comp_def, List.map_id'] at htag
  simp only [attachEnds, hpath]
  exact ⟨hassocs, htag⟩

theorem refreshReversePath_appends (t : Topology) (chainId : String) :
    Appends t [] [] (t.refreshReversePath chainId) := by
  unfold refreshReversePath
  split
  · exact Appends.refl t
  · exact ⟨⟨[], by simp, nofun⟩, fun _ _ h => .inl h⟩

theorem lay_appends (env : TopologyEnv) (t : Topology) (plan : ChainPlan) :
    Appends t ((List.range' 0 (plan.hops.length + 2)).map fun i => env.newId (plan.nextId + i))
      (hopDetails plan.hops ++ plan.ends) (t.lay env plan).1 := by
  obtain ⟨laid, hlaid⟩ : ∃ laid, layHops env plan (t.counted plan) 1 plan.hops = laid := ⟨_, rfl⟩
  have hhops := layHops_appends env plan (t.counted plan) 1 plan.hops
  rw [hlaid] at hhops
  rw [lay_eq env t plan hlaid]
  have hends := attachEnds_appends plan.ends
    (t := laid.topology.setPath plan.chainId (barePath env plan laid.nodes))
    (path?_setPath.trans (if_pos rfl))
  have hboth : Appends t _ (hopDetails plan.hops ++ plan.ends) _ :=
    (Appends.trans ⟨hhops.assocs, hhops.tag⟩ ⟨hends.assocs, hends.tag⟩)
  obtain ⟨⟨more, heq, hmore⟩, htag⟩ := hboth.trans (refreshReversePath_appends _ plan.chainId)
  refine ⟨⟨more, heq, fun a ha => ?_⟩, by simpa using htag⟩
  -- the head has the first of the new ids, and the hops have those after it
  have hnode := hmore a ha
  simp only [List.append_nil, List.mem_append, List.mem_map, List.mem_range'_1,
    List.mem_singleton] at hnode ⊢
  rcases hnode with ⟨i, hi, hid⟩ | hid
  · exact ⟨i, by omega, hid⟩
  · exact ⟨0, by omega, hid.symm⟩

/-! ## Tags in use -/

/-- Every tag is held for the network of a known detail. -/
def TagsUsed (t : Topology) : Prop :=
  ∀ (vni : UInt32) (tag : SegmentId), t.tags[vni]? = some tag →
    ∃ (id : String) (d : PortDetail), t.details[id]? = some d ∧ d.vni? = some vni

theorem tagsUsed_prune : TagsUsed t.prune := fun _ _ htag => (tags_prune.1 htag).2

theorem TagsUsed.dropChain (h : TagsUsed t) (chainId : String) :
    TagsUsed (t.dropChain chainId) := by
  cases hpath : t.path? chainId with
  | none =>
    rw [Topology.dropChain, hpath]
    exact h
  | some path =>
    rw [dropChain_eq hpath]
    exact tagsUsed_prune

theorem TagsUsed.refreshReversePath (h : TagsUsed t) : TagsUsed (t.refreshReversePath chainId) := by
  unfold Topology.refreshReversePath
  split <;> exact h

/-- The tags held for the path of a plan are those of its own details. -/
theorem TagsUsed.lay (h : TagsUsed t) (hlaid : LaidOut env t chainId plan path (t.lay env plan).1) :
    TagsUsed (t.lay env plan).1 := by
  intro vni tag htag
  rcases (lay_appends env t plan).tag vni tag htag with htag | ⟨d, hd, hvni⟩
  · obtain ⟨id, d, hd, hvni⟩ := h vni tag htag
    exact ⟨id, d, (hlaid.detail id d).2 (.inl hd), hvni⟩
  · rw [List.mem_append, mem_hopDetails] at hd
    exact ⟨d.id, d, (hlaid.detail d.id d).2 (.inr ⟨hd, rfl⟩), hvni⟩

theorem TagsUsed.createChain (hlaw : env.Lawful) (hwf : WellFormed env t) (h : TagsUsed t)
    (chainId : String) : TagsUsed (t.createChain env chainId).topology := by
  obtain ⟨stats, heq⟩ := createChain_topology env t chainId
  rw [heq]
  change TagsUsed (t.build env chainId).topology
  rcases build_cases hlaw t chainId with ⟨hsame, -⟩ | ⟨plan, hplan, hcases⟩
  · rw [hsame]
    exact h
  · obtain ⟨path, hlaid⟩ := lay_laidOut hlaw hwf hplan
    rcases hcases with ⟨hlay, -⟩ | ⟨hdrop, -⟩
    · rw [hlay]
      exact h.lay hlaid
    · rw [hdrop]
      exact (h.lay hlaid).dropChain chainId

theorem TagsUsed.updateClassifiers (hlaw : env.Lawful) (hwf : WellFormed env t) (h : TagsUsed t)
    (chainId : String) (added removed : List String) :
    TagsUsed (t.updateClassifiers env chainId added removed).topology := by
  cases hpath : t.path? chainId with
  | none =>
    simp only [Topology.updateClassifiers, hpath]
    exact h
  | some path =>
    cases hplan : t.planUpdate env chainId path added removed with
    | error e =>
      simp only [Topology.updateClassifiers, hpath, hplan]
      exact h
    | ok plan =>
      obtain ⟨-, pruned, -, heq⟩ := reclassify_servesEnds hlaw hwf hpath (planUpdate_eq_ok hplan)
      have hused : TagsUsed (t.reclassify chainId path plan).1 := by
        rw [heq]
        exact tagsUsed_prune.refreshReversePath
      cases hrules : (t.reclassify chainId path plan).1.flowRules env chainId <;>
      · simp only [Topology.updateClassifiers, hpath, hplan, hrules]
        exact hused

theorem TagsUsed.deleteChain (h : TagsUsed t) (chainId : String) :
    TagsUsed (t.deleteChain env chainId).topology := by
  rcases deleteChain_cases env t chainId with ⟨hsame, -⟩ | ⟨path, rules, stats, -, -, -, heq⟩
  · rw [hsame]
    exact h
  · rw [heq]
    exact h.dropChain chainId

theorem Reachable.tagsUsed (hlaw : env.Lawful) (h : Reachable env t) : TagsUsed t := by
  induction h with
  | empty => simp [TagsUsed]
  | answer hreach call ih =>
    have hwf := hreach.wellFormed hlaw
    cases call with
    | create chainId => exact ih.createChain hlaw hwf chainId
    | update chainId added removed => exact ih.updateClassifiers hlaw hwf chainId added removed
    | delete chainId => exact ih.deleteChain chainId
  | report _ _ ih => exact ih

/-! ## Back to the books before -/

/-- The chains, the details and the associations are the same.  The tags that were held still are; a tag
that is held besides is for the network of a detail that was known. -/
structure Restores (t t' : Topology) : Prop where
  chains : t'.chains = t.chains
  details : t'.details = t.details
  assocs : t'.assocs = t.assocs
  tag : ∀ (vni : UInt32) (tag : SegmentId), t.tags[vni]? = some tag → t'.tags[vni]? = some tag
  new_tag : ∀ (vni : UInt32) (tag : SegmentId), t'.tags[vni]? = some tag →
    t.tags[vni]? = some tag ∨
      ∃ (id : String) (d : PortDetail), t.details[id]? = some d ∧ d.vni? = some vni

theorem Restores.refl (t : Topology) : Restores t t :=
  ⟨rfl, rfl, rfl, fun _ _ h => h, fun _ _ h => .inl h⟩

theorem dropChain_withStats (stats : TopologyStats) :
    ({ t with stats } : Topology).dropChain chainId = { t.dropChain chainId with stats } := by
  cases hpath : t.path? chainId with
  | none =>
    have hpath' : ({ t with stats } : Topology).path? chainId = none := hpath
    simp only [Topology.dropChain, hpath, hpath']
  | some path =>
    have hpath' : ({ t with stats } : Topology).path? chainId = some path := hpath
    rw [dropChain_eq hpath, dropChain_eq hpath']
    rfl

theorem Restores.withStats (h : Restores t t') (stats : TopologyStats) :
    Restores t { t' with stats } :=
  ⟨h.chains, h.details, h.assocs, h.tag, h.new_tag⟩

/-- Forgetting a path that was laid leaves the associations as they were. -/
theorem LaidOut.assocs_forget (hlaw : env.Lawful) (h : WellFormed env t)
    (hplan : Planned env t chainId plan)
    (hlaid : LaidOut env t chainId plan path (t.lay env plan).1) :
    ((t.lay env plan).1.forget chainId path).assocs = t.assocs := by
  obtain ⟨more, heq, hmore⟩ := (lay_appends env t plan).assocs
  have hjoins := hlaid.joins hlaw h hplan
  have hnew : (more.filter fun a => !(path.nodes.map PathNode.id).contains a.nodeId) = [] := by
    rw [List.filter_eq_nil_iff]
    intro a ha
    simpa [hlaid.ids] using hmore a ha
  have hold : (t.assocs.filter fun a => !(path.nodes.map PathNode.id).contains a.nodeId) =
      t.assocs := by
    rw [List.filter_eq_self]
    intro a ha
    -- the nodes of live chains have older ids
    have hpair : (a.nodeId, a.detailId) ∈ t.pairs := List.mem_map.2 ⟨a, ha, rfl⟩
    obtain ⟨other, path', hother, node, hnode, hid, -⟩ := (h.pair _ _).1 hpair
    obtain ⟨n, hn, hn'⟩ := h.issued other path' hother node hnode
    simp only [Bool.not_eq_true', List.contains_eq_mem, decide_eq_false_iff_not, List.mem_map,
      not_exists, not_and]
    intro new hnew hsame
    obtain ⟨m, hm, -, hm'⟩ := hjoins.ids new hnew
    have := hlaw.newId_injective (hm'.symm.trans (hsame.trans (hid.symm.trans hn')))
    omega
  change (t.lay env plan).1.assocs.filter _ = t.assocs
  rw [heq, List.filter_append, hold, hnew, List.append_nil]

/-- Dropping a path that was laid leaves the books as they were. -/
theorem LaidOut.restores (hlaw : env.Lawful) (h : WellFormed env t) (hused : TagsUsed t)
    (hplan : Planned env t chainId plan)
    (hlaid : LaidOut env t chainId plan path (t.lay env plan).1) :
    Restores t ((t.lay env plan).1.dropChain chainId) := by
  have hpath : (t.lay env plan).1.path? chainId = some path := by
    rw [hlaid.path?, if_pos rfl]
  have hassocs := hlaid.assocs_forget hlaw h hplan
  rw [dropChain_eq hpath]
  have hdetails : ((t.lay env plan).1.forget chainId path).prune.details = t.details := by
    apply Std.ExtTreeMap.ext_getElem?
    intro id
    apply Option.ext
    intro d
    have hpairs : ((t.lay env plan).1.forget chainId path).pairs = t.pairs := by
      rw [pairs, hassocs]
      rfl
    rw [details_prune, hpairs]
    change (t.lay env plan).1.details[id]? = some d ∧ _ ↔ _
    constructor
    · rintro ⟨hd, nodeId, hpair⟩
      have hknown := h.known nodeId id hpair
      rw [Std.ExtTreeMap.mem_iff_isSome_getElem?, Option.isSome_iff_exists] at hknown
      obtain ⟨d', hd'⟩ := hknown
      rw [(hlaid.detail id d').2 (.inl hd')] at hd
      rw [hd', hd]
    · intro hd
      have hmem : id ∈ t.details := by
        rw [Std.ExtTreeMap.mem_iff_isSome_getElem?, hd]
        rfl
      exact ⟨(hlaid.detail id d).2 (.inl hd), h.associated id hmem⟩
  refine
    { chains := ?_
      details := hdetails
      assocs := hassocs
      tag := fun vni tag htag => ?_
      new_tag := fun vni tag htag => ?_ }
  · apply Std.ExtTreeMap.ext_getElem?
    intro other
    change ((t.lay env plan).1.forget chainId path).path? other = t.path? other
    rw [path?_forget, hlaid.path?]
    split
    · rename_i hsame
      rw [← hsame, hplan.absent]
    · rfl
  · obtain ⟨id, d, hd, hvni⟩ := hused vni tag htag
    exact tags_prune.2 ⟨hlaid.tag vni tag htag, id, d, by rw [hdetails, hd], hvni⟩
  · obtain ⟨id, d, hd, hvni⟩ := (tags_prune.1 htag).2
    rw [hdetails] at hd
    exact .inr ⟨id, d, hd, hvni⟩

/-- A chain that is refused leaves nothing behind, and one that is created can be deleted at once, which
takes its creation back. -/
theorem create_undone (hlaw : env.Lawful) (hreach : Reachable env t) (chainId : String) :
    (∀ e, (t.createChain env chainId).result = .error e →
        Restores t (t.createChain env chainId).topology) ∧
      ∀ rules, (t.createChain env chainId).result = .ok rules →
        (∃ removals,
            ((t.createChain env chainId).topology.deleteChain env chainId).result = .ok removals) ∧
          Restores t ((t.createChain env chainId).topology.deleteChain env chainId).topology := by
  have hwf := hreach.wellFormed hlaw
  have hused := hreach.tagsUsed hlaw
  obtain ⟨stats, heq⟩ := createChain_topology env t chainId
  constructor
  · intro e he
    rw [createChain_result] at he
    rw [heq]
    apply Restores.withStats
    rcases build_cases hlaw t chainId with ⟨hsame, -⟩ | ⟨plan, hplan, ⟨-, rules, hok, -⟩ | ⟨hdrop, -⟩⟩
    · rw [hsame]
      exact Restores.refl t
    · cases he.symm.trans hok
    · obtain ⟨path, hlaid⟩ := lay_laidOut hlaw hwf hplan
      rw [hdrop]
      exact hlaid.restores hlaw hwf hused hplan
  · intro rules hrules
    obtain ⟨path, hpath, hbuilt⟩ := exists_path_of_flowRules (flowRules_createChain hlaw hrules)
    obtain ⟨removals, hremovals⟩ : ∃ removals,
        (t.createChain env chainId).topology.pathRemoval env chainId path = .ok removals :=
      exists_pathRemoval_iff.2 ⟨rules, hbuilt⟩
    rcases deleteChain_cases env (t.createChain env chainId).topology chainId with
      ⟨-, e, he⟩ | ⟨-, removals', stats', -, -, hok, hdropped⟩
    · simp [Topology.deleteChain, hpath, hremovals] at he
    refine ⟨⟨removals', hok⟩, ?_⟩
    rw [hdropped]
    apply Restores.withStats
    rw [createChain_result] at hrules
    rcases build_cases hlaw t chainId with
      ⟨-, e, he⟩ | ⟨plan, hplan, ⟨hlay, -⟩ | ⟨-, e, he⟩⟩
    · cases hrules.symm.trans he
    · obtain ⟨path, hlaid⟩ := lay_laidOut hlaw hwf hplan
      have hrestores := hlaid.restores hlaw hwf hused hplan
      rw [heq, hlay]
      change Restores t (({ (t.lay env plan).1 with stats } : Topology).dropChain chainId)
      rw [dropChain_withStats]
      exact hrestores.withStats stats
    · cases hrules.symm.trans he

/-! ## A sample -/

/-- One service function on a VXLAN network; traffic comes from a port there, or from one whose network has
no VLAN id. -/
def tunnelBinding (port : String) (networkType : NetworkType) (segment : Option UInt32) (n : UInt8) :
    PortBinding where
  portId := port
  host := some "h"
  networkType
  segment
  mac := ⟨#v[6, 0, 0, 0, 0, n]⟩

def tunnelBindings : List PortBinding :=
  [tunnelBinding "s" .vxlan (some 5000) 1, tunnelBinding "u" .vlan none 2,
    tunnelBinding "p-in" .vxlan (some 5000) 3, tunnelBinding "p-out" .vxlan (some 5000) 4]

def tunnelClassifiers : List FlowClassifier :=
  [{ id := "f", logicalSource := some "s" }, { id := "g", logicalSource := some "u" }]

/-- The same service function, fed from either port. -/
def tunnelChains : List PortChain :=
  [{ id := "x", nsp := 1, groups := ["g1"], classifiers := ["f"] },
    { id := "y", nsp := 2, groups := ["g1"], classifiers := ["g"] }]

def tunnelEnv : TopologyEnv where
  store :=
    { chain? := fun id => tunnelChains.find? (·.id == id)
      group? := fun id => if id = "g1" then some ⟨"g1", 1, ["p"]⟩ else none
      pair? := fun id => if id = "p" then some ⟨"p", "p-in", "p-out", 1⟩ else none
      classifier? := fun id => tunnelClassifiers.find? (·.id == id)
      binding? := fun port => tunnelBindings.find? (·.portId == port) }
  policy := .atLeastOne
  newId n := String.ofList (List.replicate n 'n')

theorem tunnelEnv_lawful : tunnelEnv.Lawful where
  chain_id _ _ h := PortChain.id_eq_of_find? h
  pair_id id pair h := by
    simp only [tunnelEnv, Option.ite_none_right_eq_some, Option.some.injEq] at h
    obtain ⟨rfl, rfl⟩ := h
    rfl
  newId_injective m n h := by
    have hlength := congrArg (fun s : String => s.toList.length) h
    simpa [tunnelEnv] using hlength
  newId_ne_pair n id pair h hid := by
    simp only [tunnelEnv, Option.ite_none_right_eq_some] at h
    rw [h.1] at hid
    have hlist := congrArg String.toList hid
    cases n <;> simp [tunnelEnv, List.replicate_succ] at hlist

/-- One chain is live. -/
def tunnelLive : Topology := (answer tunnelEnv {} (.create "x")).1

theorem tunnelLive_reachable : Reachable tunnelEnv tunnelLive := Reachable.empty.answer _

/-- A chain is refused beside a live one, which can be deleted right after its own creation. -/
theorem tunnel_undone :
    Restores tunnelLive (tunnelLive.createChain tunnelEnv "y").topology ∧
      Restores {} ((createChain tunnelEnv {} "x").topology.deleteChain tunnelEnv "x").topology := by
  constructor
  · obtain ⟨e, he⟩ : ∃ e, (tunnelLive.createChain tunnelEnv "y").result = .error e :=
      Except.toOption_eq_none.1 (by decide +kernel)
    exact (create_undone tunnelEnv_lawful tunnelLive_reachable "y").1 e he
  · have hok : (createChain tunnelEnv {} "x").result.toOption.isSome := by decide +kernel
    cases hresult : (createChain tunnelEnv {} "x").result with
    | error e => simp [hresult, Except.toOption] at hok
    | ok rules => exact ((create_undone tunnelEnv_lawful .empty "x").2 rules hresult).2

end Topology

end ServiceChain
