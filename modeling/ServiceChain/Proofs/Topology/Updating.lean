import ServiceChain.Proofs.Topology.Creating

/-!
# Changing the classifiers of a chain

A change of classifiers leaves the nodes of the chain where they are, with the details of its hops.  The new
ends are bound to the head (`BindsEnds`), which then gives up the details that no remaining classifier names
(`ServesEnds`); what is left without an association is dropped (`Reclassified`).  No other chain is altered,
whether the change succeeds or fails half way (`WellFormed.alters_updateClassifiers`).
-/

namespace ServiceChain

namespace Topology

variable {env : TopologyEnv} {t t' : Topology} {chainId : String} {path : ChainPath}
  {plan : UpdatePlan} {added removed : List String}

/-! ## Plans -/

/-- The classifiers whose entries are withdrawn: the dropped ones, or all when the chain loses its way
back. -/
def withdrawn (t : Topology) (path : ChainPath) (plan : UpdatePlan) : List FlowClassifier :=
  if t.headIsBidirectional path && !spansBothEnds plan.remaining then path.classifiers
  else plan.dropped

/-- What was looked up and checked for a change of classifiers. -/
structure UpdatePlanned (env : TopologyEnv) (t : Topology) (chainId : String) (path : ChainPath)
    (removed : List String) (plan : UpdatePlan) : Prop where
  added_valid : ∀ fc ∈ plan.added, fc.validate env.policy = .ok ()
  added_stored : ∀ fc ∈ plan.added, ∃ id, env.store.classifier? id = some fc
  dropped : plan.dropped = path.classifiers.filter (removed.contains ·.id)
  remaining : plan.remaining = path.classifiers.filter (!removed.contains ·.id) ++ plan.added
  ends : t.endDetails env t.issued (ChainEnd.ofClassifiers plan.added) =
    .ok (plan.ends, plan.nextId)
  delete : ∃ rules, (path.nodes.mapM fun node =>
    t.removalRules env chainId node (t.withdrawn path plan) none) = .ok rules ∧
      plan.delete = rules.flatten

theorem planUpdate_eq_ok (h : t.planUpdate env chainId path added removed = .ok plan) :
    UpdatePlanned env t chainId path removed plan := by
  simp only [planUpdate, Except.bind_eq_ok, Except.pure_eq_ok, Prod.exists] at h
  obtain ⟨loaded, hloaded, ends, nextId, hends, rules, hrules, rfl⟩ := h
  have hadded : ∀ fc ∈ loaded.filter fun fc => !path.classifiers.any (·.id == fc.id),
      ∃ id, env.store.classifier? id = some fc ∧ fc.validate env.policy = .ok () := by
    intro fc hfc
    obtain ⟨id, -, hload⟩ := Except.exists_of_mem_mapM hloaded (List.mem_filter.1 hfc).1
    exact ⟨id, loadClassifier_eq_ok.1 hload⟩
  refine ⟨fun fc hfc => ?_, fun fc hfc => ?_, rfl, rfl, hends, rules, hrules, rfl⟩
  · obtain ⟨-, -, hvalid⟩ := hadded fc hfc
    exact hvalid
  · obtain ⟨id, hstored, -⟩ := hadded fc hfc
    exact ⟨id, hstored⟩

theorem UpdatePlanned.valid (h : UpdatePlanned env t chainId path removed plan)
    (hshaped : path.Shaped env t) : ∀ fc ∈ plan.remaining, fc.validate env.policy = .ok () := by
  intro fc hfc
  rw [h.remaining, List.mem_append] at hfc
  rcases hfc with hfc | hfc
  · exact hshaped.valid fc (List.mem_filter.1 hfc).1
  · exact h.added_valid fc hfc

theorem UpdatePlanned.stored (h : UpdatePlanned env t chainId path removed plan)
    (hstored : ∀ fc ∈ path.classifiers, ∃ id, env.store.classifier? id = some fc) :
    ∀ fc ∈ plan.remaining, ∃ id, env.store.classifier? id = some fc := by
  intro fc hfc
  rw [h.remaining, List.mem_append] at hfc
  rcases hfc with hfc | hfc
  · exact hstored fc (List.mem_filter.1 hfc).1
  · exact h.added_stored fc hfc

/-! ## The books -/

/-- A node lists what is associated with its id. -/
theorem Booked.mem_portDetails (h : Booked env t) (hpath : t.path? chainId = some path)
    {node : PathNode} (hnode : node ∈ path.nodes) {id : String}
    (hpair : (node.id, id) ∈ t.pairs) : id ∈ node.portDetails := by
  obtain ⟨other, path', hpath', node', hnode', hsame, hid⟩ := (h.pair _ _).1 hpair
  obtain rfl := h.nodes_disjoint _ _ _ _ hpath' hpath node' hnode' node hnode hsame
  obtain rfl := Option.some.inj (hpath.symm.trans hpath')
  rw [← List.inj_on_of_nodup_map (h.nodes_nodup _ _ hpath) hnode' hnode hsame]
  exact hid

/-- Books in order over paths whose nodes have the ids they had. -/
theorem Booked.of_same_ids (h : Booked env t)
    (hold : ∀ (other : String) (p : ChainPath), t'.path? other = some p →
      ∃ p₀, t.path? other = some p₀ ∧ p.nodes.map PathNode.id = p₀.nodes.map PathNode.id)
    (hle : t.issued ≤ t'.issued) (hnodup : t'.pairs.Nodup)
    (hpair : ∀ nodeId detailId, (nodeId, detailId) ∈ t'.pairs ↔ t'.Lists nodeId detailId)
    (hknown : ∀ nodeId id, (nodeId, id) ∈ t'.pairs → id ∈ t'.details)
    (hgenuine : Genuine env t'.issued t')
    (hunique : ∀ (e : ChainEnd) (id id' : String) (d d' : PortDetail),
      t'.details[id]? = some d → t'.details[id']? = some d' → e.isOf d → e.isOf d' → d = d') :
    Booked env t' := by
  have hnode : ∀ {other p}, t'.path? other = some p → ∃ p₀, t.path? other = some p₀ ∧
      ∀ node ∈ p.nodes, ∃ node₀ ∈ p₀.nodes, node₀.id = node.id := by
    intro other p hp
    obtain ⟨p₀, hp₀, hids⟩ := hold other p hp
    refine ⟨p₀, hp₀, fun node hnode => ?_⟩
    have hmem := List.mem_map_of_mem (f := PathNode.id) hnode
    rw [hids] at hmem
    exact List.mem_map.1 hmem
  exact
    { pairs_nodup := hnodup
      pair := hpair
      known := hknown
      genuine := hgenuine
      end_unique := hunique
      issued := fun other p hp node hn => by
        obtain ⟨p₀, hp₀, hnodes⟩ := hnode hp
        obtain ⟨node₀, hn₀, hid⟩ := hnodes node hn
        obtain ⟨n, hlt, hn⟩ := h.issued other p₀ hp₀ node₀ hn₀
        exact ⟨n, Nat.lt_of_lt_of_le hlt hle, hid.symm.trans hn⟩
      nodes_nodup := fun other p hp => by
        obtain ⟨p₀, hp₀, hids⟩ := hold other p hp
        rw [hids]
        exact h.nodes_nodup other p₀ hp₀
      nodes_disjoint := fun a pa b pb ha hb na hna nb hnb hid => by
        obtain ⟨pa₀, ha₀, hnodesa⟩ := hnode ha
        obtain ⟨pb₀, hb₀, hnodesb⟩ := hnode hb
        obtain ⟨na₀, hna₀, hida⟩ := hnodesa na hna
        obtain ⟨nb₀, hnb₀, hidb⟩ := hnodesb nb hnb
        exact h.nodes_disjoint a pa₀ b pb₀ ha₀ hb₀ na₀ hna₀ nb₀ hnb₀
          (hida.trans (hid.trans hidb.symm)) }

/-- A path with the same nodes, as far as the books go, can take the place of one. -/
theorem Booked.setPath {path' : ChainPath} (h : Booked env t) (hpath : t.path? chainId = some path)
    (hids : path'.nodes.map PathNode.id = path.nodes.map PathNode.id)
    (hlists : ∀ nodeId id, path'.Lists nodeId id ↔ path.Lists nodeId id) :
    Booked env (t.setPath chainId path') := by
  refine h.of_same_ids (fun other p hp => ?_) (Nat.le_refl _) h.pairs_nodup
    (fun nodeId id => ?_) h.known h.genuine h.end_unique
  · rw [path?_setPath] at hp
    split at hp
    · rename_i heq
      obtain rfl := heq
      obtain rfl := Option.some.inj hp
      exact ⟨path, hpath, hids⟩
    · exact ⟨p, hp, rfl⟩
  · rw [pairs_setPath, h.pair]
    constructor
    · rintro ⟨other, p, hp, hlist⟩
      by_cases heq : chainId = other
      · subst heq
        obtain rfl := Option.some.inj (hpath.symm.trans hp)
        exact ⟨chainId, path', by rw [path?_setPath, if_pos rfl], (hlists _ _).2 hlist⟩
      · exact ⟨other, p, by rw [path?_setPath, if_neg heq, hp], hlist⟩
    · rintro ⟨other, p, hp, hlist⟩
      rw [path?_setPath] at hp
      split at hp
      · rename_i heq
        obtain rfl := heq
        obtain rfl := Option.some.inj hp
        exact ⟨chainId, path, hpath, (hlists _ _).1 hlist⟩
      · exact ⟨other, p, hp, hlist⟩

/-- One topology is another where the head of a chain has other details. -/
structure Reheads (env : TopologyEnv) (t : Topology) (chainId : String) (path path' : ChainPath)
    (t' : Topology) : Prop where
  path? : ∀ other, t'.path? other = if chainId = other then some path' else t.path? other
  head_id : path'.head.id = path.head.id
  hops : path'.hops = path.hops
  tail : path'.tail = path.tail
  le : t.issued ≤ t'.issued
  pairs_nodup : t'.pairs.Nodup
  pair : ∀ nodeId id, (nodeId, id) ∈ t'.pairs ↔
    nodeId ≠ path.head.id ∧ (nodeId, id) ∈ t.pairs ∨
      nodeId = path.head.id ∧ id ∈ path'.head.portDetails
  detail : ∀ (id : String) (d : PortDetail), t.details[id]? = some d → t'.details[id]? = some d
  known : ∀ id ∈ path'.head.portDetails, id ∈ t'.details
  genuine : Genuine env t'.issued t'
  end_unique : ∀ (e : ChainEnd) (id id' : String) (d d' : PortDetail),
    t'.details[id]? = some d → t'.details[id']? = some d' → e.isOf d → e.isOf d' → d = d'
  tag : ∀ (vni : UInt32) (tag : SegmentId), t.tags[vni]? = some tag → t'.tags[vni]? = some tag

section Reheads

variable {path' : ChainPath}

theorem Reheads.map_id (h : Reheads env t chainId path path' t') :
    path'.nodes.map PathNode.id = path.nodes.map PathNode.id := by
  simp only [ChainPath.nodes, h.hops, h.tail, List.map_cons, List.map_append, h.head_id]

/-- A path has the ids that its place had before. -/
theorem Reheads.exists_old (h : Reheads env t chainId path path' t')
    (hpath : t.path? chainId = some path) {other : String} {p : ChainPath}
    (hp : t'.path? other = some p) :
    ∃ p₀, t.path? other = some p₀ ∧ p.nodes.map PathNode.id = p₀.nodes.map PathNode.id := by
  rw [h.path?] at hp
  split at hp
  · rename_i heq
    obtain rfl := heq
    obtain rfl := Option.some.inj hp
    exact ⟨path, hpath, h.map_id⟩
  · exact ⟨p, hp, rfl⟩

theorem Booked.reheads (hbooked : Booked env t) (hpath : t.path? chainId = some path)
    (h : Reheads env t chainId path path' t') : Booked env t' := by
  -- only the head of the path has its id
  have hothers : ∀ {other p}, t.path? other = some p → ∀ node ∈ p.nodes,
      node.id = path.head.id → chainId = other := by
    intro other p hp node hn hid
    exact (hbooked.nodes_disjoint _ _ _ _ hp hpath node hn _ path.head_mem_nodes hid).symm
  refine hbooked.of_same_ids (fun other p hp => h.exists_old hpath hp) h.le h.pairs_nodup
    (fun nodeId id => ?_) (fun nodeId id hpair => ?_) h.genuine h.end_unique
  · rw [h.pair, hbooked.pair]
    constructor
    · rintro (⟨hne, other, p, hp, node, hn, rfl, hid⟩ | ⟨rfl, hid⟩)
      · by_cases heq : chainId = other
        · subst heq
          obtain rfl := Option.some.inj (hpath.symm.trans hp)
          refine ⟨chainId, path', by rw [h.path?, if_pos rfl], node, ?_, rfl, hid⟩
          rw [ChainPath.mem_nodes, h.hops, h.tail]
          rcases ChainPath.mem_nodes.1 hn with rfl | hn
          · exact absurd rfl hne
          · exact .inr hn
        · exact ⟨other, p, by rw [h.path?, if_neg heq, hp], node, hn, rfl, hid⟩
      · exact ⟨chainId, path', by rw [h.path?, if_pos rfl], path'.head, path'.head_mem_nodes,
          h.head_id, hid⟩
    · rintro ⟨other, p, hp, node, hn, rfl, hid⟩
      rw [h.path?] at hp
      split at hp
      · rename_i heq
        obtain rfl := heq
        obtain rfl := Option.some.inj hp
        by_cases hhead : node.id = path.head.id
        · -- a node of the path with the id of the head is the head
          have hnodup := hbooked.nodes_nodup _ _ hpath
          rw [← h.map_id] at hnodup
          have hsame := List.inj_on_of_nodup_map hnodup hn path'.head_mem_nodes
            (hhead.trans h.head_id.symm)
          exact .inr ⟨hhead, hsame ▸ hid⟩
        · refine .inl ⟨hhead, chainId, path, hpath, node, ?_, rfl, hid⟩
          rw [ChainPath.mem_nodes, h.hops, h.tail] at hn
          rw [ChainPath.mem_nodes]
          rcases hn with rfl | hn
          · exact absurd h.head_id hhead
          · exact .inr hn
      · rename_i hne
        exact .inl ⟨fun hid => hne (hothers hp node hn hid), other, p, hp, node, hn, rfl, hid⟩
  · rcases (h.pair nodeId id).1 hpair with ⟨-, hpair⟩ | ⟨-, hid⟩
    · have hknown := hbooked.known nodeId id hpair
      rw [Std.ExtTreeMap.mem_iff_isSome_getElem?, Option.isSome_iff_exists] at hknown ⊢
      obtain ⟨d, hd⟩ := hknown
      exact ⟨d, h.detail id d hd⟩
    · exact h.known id hid

end Reheads

/-! ## Carrying out a change -/

/-- A topology where the head of a chain gave up the details that are no end of a classifier. -/
def detach (t : Topology) (chainId : String) (path : ChainPath) : Topology :=
  let used := t.isUsedEnd path.classifiers
  { t.setPath chainId
      { path with head := { path.head with portDetails := path.head.portDetails.filter used } } with
    assocs := t.assocs.filter fun a =>
      !(a.nodeId == path.head.id && (path.head.portDetails.filter (!used ·)).contains a.detailId) }

theorem detachUnusedEnds_eq (hpath : t.path? chainId = some path) :
    t.detachUnusedEnds chainId = (t.detach chainId path).prune := by
  simp only [detachUnusedEnds, hpath]
  rfl

theorem mem_pairs_detach {nodeId id : String} :
    (nodeId, id) ∈ (t.detach chainId path).pairs ↔ (nodeId, id) ∈ t.pairs ∧
      (nodeId = path.head.id → id ∈ path.head.portDetails →
        t.isUsedEnd path.classifiers id = true) := by
  simp only [pairs, detach, List.mem_map, List.mem_filter]
  constructor
  · rintro ⟨a, ⟨ha, hkept⟩, heq⟩
    obtain ⟨rfl, rfl⟩ := Prod.mk.inj heq
    exact ⟨⟨a, ha, rfl⟩, fun hnode hid => by simpa [hnode, hid] using hkept⟩
  · rintro ⟨⟨a, ha, heq⟩, hkept⟩
    obtain ⟨rfl, rfl⟩ := Prod.mk.inj heq
    refine ⟨a, ⟨ha, ?_⟩, rfl⟩
    simp only [Bool.not_eq_true', Bool.and_eq_false_imp, beq_iff_eq, List.contains_eq_mem,
      List.mem_filter, decide_eq_false_iff_not, not_and, Bool.not_eq_false]
    exact hkept

theorem isUsedEnd_iff {fcs : List FlowClassifier} {id : String} {d : PortDetail} {e : ChainEnd}
    (hd : t.details[id]? = some d) (he : e.isOf d) :
    t.isUsedEnd fcs id = true ↔ e ∈ ChainEnd.ofClassifiers fcs := by
  simp only [isUsedEnd, hd, Option.any_some, List.any_eq_true, ChainEnd.touches_iff he,
    ChainEnd.mem_ofClassifiers]

/-! ### Binding the new ends -/

/-- The chain has the classifiers of a plan, and the details of the new ends are bound to its head. -/
structure BindsEnds (t : Topology) (chainId : String) (path : ChainPath) (plan : UpdatePlan)
    (path' : ChainPath) (t' : Topology) : Prop where
  path? : ∀ other, t'.path? other = if chainId = other then some path' else t.path? other
  classifiers : path'.classifiers = plan.remaining
  head : path'.head = { path.head with portDetails := path'.head.portDetails }
  hops : path'.hops = path.hops
  tail : path'.tail = path.tail
  issued : t'.issued = plan.nextId
  listed : ∀ id, id ∈ path'.head.portDetails ↔
    id ∈ path.head.portDetails ∨ ∃ d ∈ plan.ends, d.id = id
  nodup : path.head.portDetails.Nodup → path'.head.portDetails.Nodup
  pair : ∀ nodeId id, (nodeId, id) ∈ t'.pairs ↔ (nodeId, id) ∈ t.pairs ∨
    nodeId = path.head.id ∧ id ∉ path.head.portDetails ∧ id ∈ path'.head.portDetails
  pairs_nodup : t.pairs.Nodup →
    (∀ id, (path.head.id, id) ∈ t.pairs → id ∈ path.head.portDetails) → t'.pairs.Nodup
  detail : ∀ (id : String) (d : PortDetail), t'.details[id]? = some d ↔
    t.details[id]? = some d ∨ d ∈ plan.ends ∧ d.id = id
  tag : ∀ (vni : UInt32) (tag : SegmentId), t.tags[vni]? = some tag → t'.tags[vni]? = some tag

/-- A change of classifiers binds the new ends, and then gives up the unused ones. -/
theorem exists_bindsEnds (chainId : String) (hagree : t.Agrees plan.ends)
    (hknown : ∀ id ∈ path.head.portDetails, id ∈ t.details) :
    ∃ path' t', BindsEnds t chainId path plan path' t' ∧
      (t.reclassify chainId path plan).1 =
        (t'.detach chainId path').prune.refreshReversePath chainId := by
  have hset : ({ t with
        chains := t.chains.insert chainId { path with classifiers := plan.remaining }
        issued := plan.nextId } : Topology).path? chainId =
      some { path with classifiers := plan.remaining } := by simp [path?]
  have hagreeSet : ({ t with
        chains := t.chains.insert chainId { path with classifiers := plan.remaining }
        issued := plan.nextId } : Topology).Agrees plan.ends := ⟨hagree.known, hagree.unique⟩
  obtain ⟨bound, hbinds, hattach⟩ := attachEnds_binds hset hagreeSet hknown
  refine ⟨{ path with classifiers := plan.remaining, head := bound.node },
    bound.topology.setPath chainId { path with classifiers := plan.remaining, head := bound.node },
    { path? := fun other => ?_
      classifiers := rfl
      head := hbinds.node
      hops := rfl
      tail := rfl
      issued := hbinds.issued
      listed := hbinds.listed
      nodup := hbinds.nodup
      pair := hbinds.pair
      pairs_nodup := hbinds.pairs_nodup
      detail := hbinds.detail
      tag := hbinds.tag }, ?_⟩
  · rw [path?_setPath]
    split
    · rfl
    · rename_i hne
      simp [path?, hbinds.chains, Std.ExtTreeMap.getElem?_insert, hne]
  · change ((attachEnds _ chainId plan.ends).1.detachUnusedEnds chainId).refreshReversePath chainId = _
    rw [hattach, detachUnusedEnds_eq (path?_setPath.trans (if_pos rfl))]

section BindsEnds

variable {path' : ChainPath} {ends : List ChainEnd} {nodeId id : String}

theorem BindsEnds.head_id (h : BindsEnds t chainId path plan path' t') :
    path'.head.id = path.head.id := by
  rw [h.head]

/-- Every detail at the head is that of an end. -/
theorem BindsEnds.exists_end (h : BindsEnds t chainId path plan path' t') (hshaped : path.Shaped env t)
    (hends : EndsFound env t t.issued plan.nextId ends plan.ends) (hid : id ∈ path'.head.portDetails) :
    ∃ d, t'.details[id]? = some d ∧ ∃ e : ChainEnd, e.isOf d := by
  rcases (h.listed id).1 hid with hid | ⟨d, hd, rfl⟩
  · obtain ⟨d, hd, e, -, hof⟩ := hshaped.head_detail id hid
    exact ⟨d, (h.detail _ _).2 (.inl hd), e, hof⟩
  · obtain ⟨e, -, hof⟩ := exists_end_of_matched hends.matched hd
    exact ⟨d, (h.detail _ _).2 (.inr ⟨hd, rfl⟩), e, hof⟩

/-- Each end that the new classifiers name has a detail at the head, an old one or a new one. -/
theorem BindsEnds.exists_listed (h : BindsEnds t chainId path plan path' t')
    (hplan : UpdatePlanned env t chainId path removed plan) (hshaped : path.Shaped env t)
    (hends : EndsFound env t t.issued plan.nextId (ChainEnd.ofClassifiers plan.added) plan.ends)
    {e : ChainEnd} (he : e ∈ ChainEnd.ofClassifiers plan.remaining) :
    ∃ id ∈ path'.head.portDetails, ∃ d, t'.details[id]? = some d ∧ e.isOf d := by
  obtain ⟨fc, hfc, hnames⟩ := ChainEnd.mem_ofClassifiers.1 he
  rw [hplan.remaining, List.mem_append, List.mem_filter] at hfc
  rcases hfc with ⟨hfc, -⟩ | hfc
  · obtain ⟨id, hid, d, hd, hof⟩ :=
      hshaped.head_end e (ChainEnd.mem_ofClassifiers.2 ⟨fc, hfc, hnames⟩)
    exact ⟨id, (h.listed id).2 (.inl hid), d, (h.detail _ _).2 (.inl hd), hof⟩
  · obtain ⟨d, hd, hof⟩ := hends.exists_detail (ChainEnd.mem_ofClassifiers.2 ⟨fc, hfc, hnames⟩)
    exact ⟨d.id, (h.listed _).2 (.inr ⟨d, hd, rfl⟩), d, (h.detail _ _).2 (.inr ⟨hd, rfl⟩), hof⟩

theorem BindsEnds.genuine (h : BindsEnds t chainId path plan path' t')
    (hgenuine : Genuine env t.issued t)
    (hends : EndsFound env t t.issued plan.nextId ends plan.ends) : Genuine env plan.nextId t' := by
  intro id d hd
  rcases (h.detail id d).1 hd with hd | ⟨hd, hid⟩
  · exact ⟨(hgenuine id d hd).1, (hgenuine id d hd).2.imp (fun h => h) (·.mono hends.le)⟩
  · refine ⟨hid, ?_⟩
    rcases hends.found d hd with hknown | hnew
    · exact (hgenuine _ d hknown).2.imp (fun h => h) (·.mono hends.le)
    · exact .inr hnew.isEndOf

/-- Once the unused details are given up, the head lists what is associated with it. -/
theorem BindsEnds.mem_pairs_detach (h : BindsEnds t chainId path plan path' t')
    (hbooked : Booked env t) (hpath : t.path? chainId = some path) :
    (nodeId, id) ∈ (t'.detach chainId path').pairs ↔
      nodeId ≠ path.head.id ∧ (nodeId, id) ∈ t.pairs ∨ nodeId = path.head.id ∧
        id ∈ path'.head.portDetails.filter (t'.isUsedEnd path'.classifiers) := by
  rw [Topology.mem_pairs_detach, h.pair, List.mem_filter, h.head_id]
  constructor
  · rintro ⟨hpair, hkept⟩
    by_cases hnode : nodeId = path.head.id
    · have hid : id ∈ path'.head.portDetails := by
        rcases hpair with hpair | ⟨-, -, hid⟩
        · subst hnode
          exact (h.listed id).2 (.inl (hbooked.mem_portDetails hpath path.head_mem_nodes hpair))
        · exact hid
      exact .inr ⟨hnode, hid, hkept hnode hid⟩
    · exact .inl ⟨hnode, hpair.resolve_right fun h => hnode h.1⟩
  · rintro (⟨hnode, hpair⟩ | ⟨rfl, hid, hkept⟩)
    · exact ⟨.inl hpair, fun h => absurd h hnode⟩
    · refine ⟨?_, fun _ _ => hkept⟩
      by_cases hold : id ∈ path.head.portDetails
      · exact .inl ((hbooked.pair _ _).2 ⟨chainId, path, hpath, _, path.head_mem_nodes, rfl, hold⟩)
      · exact .inr ⟨rfl, hold, hid⟩

end BindsEnds

/-! ### Giving up the unused ends -/

/-- The head of the chain has a detail for each end that the classifiers of a plan name, and no other. -/
structure ServesEnds (env : TopologyEnv) (t : Topology) (chainId : String) (path : ChainPath)
    (plan : UpdatePlan) (path' : ChainPath) (t' : Topology) : Prop
    extends Reheads env t chainId path path' t' where
  classifiers : path'.classifiers = plan.remaining
  head : path'.head = { path.head with portDetails := path'.head.portDetails }
  nodup : path'.head.portDetails.Nodup
  head_detail : ∀ id ∈ path'.head.portDetails,
    ∃ d, t'.details[id]? = some d ∧ ∃ e ∈ ChainEnd.ofClassifiers plan.remaining, e.isOf d
  head_end : ∀ e ∈ ChainEnd.ofClassifiers plan.remaining,
    ∃ id ∈ path'.head.portDetails, ∃ d, t'.details[id]? = some d ∧ e.isOf d

/-- What a change of classifiers makes of the head of a chain, before anything is dropped. -/
theorem reclassify_servesEnds (hlaw : env.Lawful) (h : WellFormed env t)
    (hpath : t.path? chainId = some path)
    (hplan : UpdatePlanned env t chainId path removed plan) :
    ∃ path' t', ServesEnds env t chainId path plan path' t' ∧
      (t.reclassify chainId path plan).1 = t'.prune.refreshReversePath chainId := by
  have hshaped := h.shaped _ _ hpath
  have hends := endDetails_found hlaw h.genuine (Nat.le_refl _) hplan.ends
  have hagree : t.Agrees plan.ends :=
    hends.agrees hlaw (Nat.le_refl _) h.genuine fun _ _ hd => hd
  have hknown : ∀ id ∈ path.head.portDetails, id ∈ t.details := fun id hid =>
    h.known _ id ((h.pair _ _).2 ⟨chainId, path, hpath, _, path.head_mem_nodes, rfl, hid⟩)
  obtain ⟨p, t₁, hbinds, heq⟩ := exists_bindsEnds chainId hagree hknown
  have hgenuine := hbinds.genuine h.genuine hends
  have hused : ∀ {id d} {e : ChainEnd}, t₁.details[id]? = some d → e.isOf d →
      (t₁.isUsedEnd p.classifiers id = true ↔ e ∈ ChainEnd.ofClassifiers plan.remaining) := by
    intro id d e hd he
    rw [isUsedEnd_iff hd he, hbinds.classifiers]
  have hissued : (t₁.detach chainId p).issued = plan.nextId := hbinds.issued
  refine ⟨{ p with head := { p.head with
      portDetails := p.head.portDetails.filter (t₁.isUsedEnd p.classifiers) } },
    t₁.detach chainId p,
    { path? := fun other => ?_
      head_id := hbinds.head_id
      hops := hbinds.hops
      tail := hbinds.tail
      le := by rw [hissued]; exact hends.le
      pairs_nodup := ?_
      pair := fun nodeId id => hbinds.mem_pairs_detach h.toBooked hpath
      detail := fun id d hd => (hbinds.detail id d).2 (.inl hd)
      known := fun id hid => ?_
      genuine := by rw [hissued]; exact hgenuine
      end_unique := hends.end_unique h.toBooked (nodup_ofClassifiers _) fun id d hd => ?_
      tag := hbinds.tag
      classifiers := hbinds.classifiers
      head := by rw [hbinds.head]
      nodup := (hbinds.nodup (hshaped.nodup _ path.head_mem_nodes)).filter _
      head_detail := fun id hid => ?_
      head_end := fun e he => ?_ }, heq⟩
  · change (t₁.setPath chainId _).path? other = _
    rw [path?_setPath, hbinds.path?]
    split <;> rfl
  · have hnodup := hbinds.pairs_nodup h.pairs_nodup fun id hpair =>
      h.toBooked.mem_portDetails hpath path.head_mem_nodes hpair
    exact hnodup.sublist (List.filter_sublist.map _)
  · obtain ⟨d, hd, -⟩ := hbinds.exists_end hshaped hends (List.mem_filter.1 hid).1
    rw [Std.ExtTreeMap.mem_iff_isSome_getElem?]
    exact Option.isSome_iff_exists.2 ⟨d, hd⟩
  · exact ((hbinds.detail id d).1 hd).imp (fun h => h) .inr
  · obtain ⟨hid, hkept⟩ := List.mem_filter.1 hid
    obtain ⟨d, hd, e, he⟩ := hbinds.exists_end hshaped hends hid
    exact ⟨d, hd, e, (hused hd he).1 hkept, he⟩
  · obtain ⟨id, hid, d, hd, hof⟩ := hbinds.exists_listed hplan hshaped hends he
    exact ⟨id, List.mem_filter.2 ⟨hid, (hused hd hof).2 he⟩, d, hd, hof⟩

section ServesEnds

variable {path' : ChainPath} {reversePath : Bool}

theorem ServesEnds.spans (h : ServesEnds env t chainId path plan path' t') (hbooked : Booked env t')
    (hpath' : t'.path? chainId = some path') :
    t'.prune.headIsBidirectional path' = spansBothEnds plan.remaining := by
  have hretains := hbooked.retains_prune hpath'
  refine headIsBidirectional_eq (fun id hid => ?_) fun e he => ?_
  · obtain ⟨d, hd, hof⟩ := h.head_detail id hid
    exact ⟨d, (hretains.detail _ path'.head_mem_nodes id hid).trans hd, hof⟩
  · obtain ⟨id, hid, d, hd, hof⟩ := h.head_end e he
    exact ⟨id, hid, d, (hretains.detail _ path'.head_mem_nodes id hid).trans hd, hof⟩

/-- The nodes of the new path are those of the old one but for the head. -/
theorem Reheads.mem_nodes (h : Reheads env t chainId path path' t') {node : PathNode}
    (hnode : node ∈ path'.nodes) : node = path'.head ∨ node ∈ path.nodes := by
  rw [ChainPath.mem_nodes, h.hops, h.tail] at hnode
  exact hnode.imp id fun h => ChainPath.mem_nodes.2 (.inr h)

/-- The new path is shaped, once its nodes know whether there is a way back. -/
theorem ServesEnds.shaped (h : ServesEnds env t chainId path plan path' t')
    (hshaped : path.Shaped env t) (hvalid : ∀ fc ∈ plan.remaining, fc.validate env.policy = .ok ()) :
    (directed path' (spansBothEnds plan.remaining)).Shaped env t' where
  head_role := by
    change path'.head.role = .source
    rw [h.head]
    exact hshaped.head_role
  hop_role node hnode := by
    obtain ⟨old, hold, rfl⟩ := List.mem_map.1 hnode
    rw [h.hops] at hold
    exact hshaped.hop_role old hold
  tail_role := by
    change path'.tail.role = .destination
    rw [h.tail]
    exact hshaped.tail_role
  tail_empty := by
    change path'.tail.portDetails = []
    rw [h.tail]
    exact hshaped.tail_empty
  length_le := by
    change (path'.hops.map _).length ≤ maxHops
    rw [List.length_map, h.hops]
    exact hshaped.length_le
  nodup node hnode := by
    rw [nodes_directed, List.mem_map] at hnode
    obtain ⟨old, hold, rfl⟩ := hnode
    rcases h.mem_nodes hold with rfl | hold
    · exact h.nodup
    · exact hshaped.nodup old hold
  hop_detail node hnode id hid := by
    obtain ⟨old, hold, rfl⟩ := List.mem_map.1 hnode
    rw [h.hops] at hold
    obtain ⟨d, hd, hpair⟩ := hshaped.hop_detail old hold id hid
    exact ⟨d, h.detail id d hd, hpair⟩
  head_detail := by
    change ∀ id ∈ path'.head.portDetails, ∃ d, t'.details[id]? = some d ∧
      ∃ e ∈ ChainEnd.ofClassifiers path'.classifiers, e.isOf d
    rw [h.classifiers]
    exact h.head_detail
  head_end := by
    change ∀ e ∈ ChainEnd.ofClassifiers path'.classifiers,
      ∃ id ∈ path'.head.portDetails, ∃ d, t'.details[id]? = some d ∧ e.isOf d
    rw [h.classifiers]
    exact h.head_end
  valid := by
    change ∀ fc ∈ path'.classifiers, _
    rw [h.classifiers]
    exact hvalid
  reversePath node hnode := by
    rw [reversePath_of_mem_directed hnode, ← h.classifiers]
    rfl

/-- The new path keeps what it lists when the rest is dropped and its nodes are told of the way back. -/
theorem Booked.retains_directed (hbooked : Booked env t') (hpath' : t'.path? chainId = some path') :
    Retains t' (t'.prune.setPath chainId (directed path' reversePath)) (directed path' reversePath) where
  detail node hnode id hid := by
    rw [nodes_directed, List.mem_map] at hnode
    obtain ⟨old, hold, rfl⟩ := hnode
    exact (hbooked.retains_prune hpath').detail old hold id hid
  tag node hnode d hd := by
    rw [nodes_directed, List.mem_map] at hnode
    obtain ⟨old, hold, rfl⟩ := hnode
    exact (hbooked.retains_prune hpath').tag old hold d hd

theorem Reheads.path?_directed (h : Reheads env t chainId path path' t') (other : String) :
    (t'.prune.setPath chainId (directed path' reversePath)).path? other =
      if chainId = other then some (directed path' reversePath) else t.path? other := by
  rw [path?_setPath, path?_prune, h.path?]
  split <;> rfl

/-- Every other chain keeps what it lists when the rest is dropped. -/
theorem Reheads.retains_prune (h : Reheads env t chainId path path' t') (hbooked : Booked env t)
    (hbooked' : Booked env t') {other : String} {p : ChainPath} (hne : chainId ≠ other)
    (hother : t.path? other = some p) : Retains t t'.prune p := by
  have hother' : t'.path? other = some p := by rw [h.path?, if_neg hne, hother]
  exact (hbooked.retains_of_grows hother h.detail h.tag).trans (hbooked'.retains_prune hother')

/-- A change of classifiers alters no other chain. -/
theorem ServesEnds.alters (h : ServesEnds env t chainId path plan path' t') (hwf : WellFormed env t)
    (hpath : t.path? chainId = some path)
    (hvalid : ∀ fc ∈ plan.remaining, fc.validate env.policy = .ok ()) :
    Alters env t chainId
      (t'.prune.setPath chainId (directed path' (spansBothEnds plan.remaining))) := by
  have hpath' : t'.path? chainId = some path' := by rw [h.path?, if_pos rfl]
  have hbooked' := hwf.toBooked.reheads hpath h.toReheads
  have hshaped := h.shaped (hwf.shaped _ _ hpath) hvalid
  generalize spansBothEnds plan.remaining = reversePath at hshaped ⊢
  have hbooked : Booked env (t'.prune.setPath chainId (directed path' reversePath)) :=
    hbooked'.prune.setPath hpath' map_id_directed fun _ _ => lists_directed
  have hretains : ∀ other p, chainId ≠ other → t.path? other = some p →
      Retains t (t'.prune.setPath chainId (directed path' reversePath)) p := by
    intro other p hne hother
    have hpruned := h.retains_prune hwf.toBooked hbooked' hne hother
    exact ⟨hpruned.detail, hpruned.tag⟩
  refine ⟨{ hbooked with
    associated := fun id hid => associated_prune (t := t') hid
    shaped := fun other p hother => ?_ }, fun other hne => by rw [h.path?_directed, if_neg hne], hretains⟩
  rw [h.path?_directed] at hother
  split at hother
  · obtain rfl := Option.some.inj hother
    exact hshaped.of_retains (hbooked'.retains_directed hpath')
  · rename_i hne
    exact (hwf.shaped other p hother).of_retains (hretains other p hne hother)

end ServesEnds

/-! ### The whole change -/

/-- What a change of classifiers comes to: the chain keeps its nodes, which learn whether there is a
way back, and its head the details of the ends that remain. -/
structure Reclassified (env : TopologyEnv) (t : Topology) (chainId : String) (path : ChainPath)
    (plan : UpdatePlan) (path' : ChainPath) (t' : Topology) : Prop where
  alters : Alters env t chainId t'
  path? : t'.path? chainId = some path'
  classifiers : path'.classifiers = plan.remaining
  head : path'.head = { path.head with
    portDetails := path'.head.portDetails, reversePath := spansBothEnds plan.remaining }
  hops : path'.hops = path.hops.map ({ · with reversePath := spansBothEnds plan.remaining })
  tail : path'.tail = { path.tail with reversePath := spansBothEnds plan.remaining }
  head_kept : ∀ id ∈ path.head.portDetails, ∀ (d : PortDetail) (e : ChainEnd),
    t.details[id]? = some d → e.isOf d → e ∈ ChainEnd.ofClassifiers plan.remaining →
      id ∈ path'.head.portDetails
  detail : ∀ node ∈ path'.nodes, ∀ id ∈ node.portDetails, ∀ d : PortDetail,
    t.details[id]? = some d → t'.details[id]? = some d
  tag : ∀ node ∈ path'.nodes, ∀ id ∈ node.portDetails, ∀ d : PortDetail,
    t.details[id]? = some d → ∀ (vni : UInt32) (tag : SegmentId),
      d.vni? = some vni → t.tags[vni]? = some tag → t'.tags[vni]? = some tag

theorem reclassify_reclassified (hlaw : env.Lawful) (h : WellFormed env t)
    (hpath : t.path? chainId = some path)
    (hplan : UpdatePlanned env t chainId path removed plan) :
    ∃ path', Reclassified env t chainId path plan path' (t.reclassify chainId path plan).1 := by
  obtain ⟨path₁, t₁, hserves, heq⟩ := reclassify_servesEnds hlaw h hpath hplan
  have hpath₁ : t₁.path? chainId = some path₁ := by rw [hserves.path?, if_pos rfl]
  have hbooked₁ := h.toBooked.reheads hpath hserves.toReheads
  have halters := hserves.alters h hpath (hplan.valid (h.shaped _ _ hpath))
  have hpruned : t₁.prune.path? chainId = some path₁ := hpath₁
  rw [heq, refreshReversePath_eq hpruned, hserves.spans hbooked₁ hpath₁]
  generalize hreverse : spansBothEnds plan.remaining = reversePath at halters
  have hretains : Retains t₁ (t₁.prune.setPath chainId (directed path₁ reversePath))
      (directed path₁ reversePath) := hbooked₁.retains_directed hpath₁
  refine ⟨directed path₁ reversePath,
    { alters := halters
      path? := by rw [hserves.path?_directed, if_pos rfl]
      classifiers := hserves.classifiers
      head := ?_
      hops := ?_
      tail := ?_
      head_kept := fun id hid d e hd he hends => ?_
      detail := fun node hnode id hid d hd => ?_
      tag := fun node hnode id hid d hd vni tag hvni htag => ?_ }⟩
  · change ({ path₁.head with reversePath } : PathNode) = _
    rw [hserves.head, hreverse]
    rfl
  · change path₁.hops.map ({ · with reversePath }) = _
    rw [hserves.hops, hreverse]
  · change ({ path₁.tail with reversePath } : PathNode) = _
    rw [hserves.tail, hreverse]
  · -- the end has one detail at most, and the head has one for it
    obtain ⟨id', hid', d', hd', he'⟩ := hserves.head_end e hends
    have hd₁ := hserves.detail id d hd
    obtain rfl := hbooked₁.end_unique e id id' d d' hd₁ hd' he he'
    rw [← (hbooked₁.genuine id d hd₁).1, (hbooked₁.genuine id' d hd').1]
    exact hid'
  · exact (hretains.detail node hnode id hid).trans (hserves.detail id d hd)
  · have hd₁ : d ∈ t₁.nodeDetails node := mem_nodeDetails.2 ⟨id, hid, hserves.detail id d hd⟩
    exact hretains.tag node hnode d hd₁ vni tag hvni (hserves.tag vni tag htag)

/-- The withdrawn classifiers are all, or the dropped ones; these only if the chain keeps a way back that
it has. -/
theorem withdrawn_cases (hshaped : path.Shaped env t) (plan : UpdatePlan) :
    t.withdrawn path plan = path.classifiers ∨ t.withdrawn path plan = plan.dropped ∧
      (spansBothEnds path.classifiers = true → spansBothEnds plan.remaining = true) := by
  unfold withdrawn
  rw [hshaped.headIsBidirectional_eq]
  split
  · exact .inl rfl
  · rename_i hkept
    exact .inr ⟨rfl, by simpa using hkept⟩

/-- A detail of a node stays at the node, or it is at the head and no remaining classifier touches it. -/
theorem Reclassified.detail_cases {path' : ChainPath}
    (h : Reclassified env t chainId path plan path' t') (hshaped : path.Shaped env t)
    {node : PathNode} (hnode : node ∈ path.nodes) {d : PortDetail} (hd : d ∈ t.nodeDetails node) :
    (node.role = .source ∧ ∀ fc ∈ plan.remaining, touches d.ingress d.egress fc = false) ∨
      ∃ node' ∈ path'.nodes, node' = { node with
          portDetails := node'.portDetails, reversePath := spansBothEnds plan.remaining } ∧
        d ∈ t'.nodeDetails node' ∧ ∀ (vni : UInt32) (tag : SegmentId),
          d.vni? = some vni → t.tags[vni]? = some tag → t'.tags[vni]? = some tag := by
  obtain ⟨id, hid, hknown⟩ := mem_nodeDetails.1 hd
  -- where the detail is still listed, it is the same
  have hstays : ∀ node' ∈ path'.nodes, id ∈ node'.portDetails →
      d ∈ t'.nodeDetails node' ∧ ∀ (vni : UInt32) (tag : SegmentId),
        d.vni? = some vni → t.tags[vni]? = some tag → t'.tags[vni]? = some tag := by
    intro node' hnode' hid'
    exact ⟨mem_nodeDetails.2 ⟨id, hid', h.detail node' hnode' id hid' d hknown⟩,
      h.tag node' hnode' id hid' d hknown⟩
  rcases ChainPath.mem_nodes.1 hnode with rfl | hhop | rfl
  · by_cases htouched : ∃ fc ∈ plan.remaining, touches d.ingress d.egress fc = true
    · obtain ⟨fc, hfc, htouches⟩ := htouched
      obtain ⟨d', hd', e, -, hof⟩ := hshaped.head_detail id hid
      obtain rfl := Option.some.inj (hknown.symm.trans hd')
      have hends := ChainEnd.mem_ofClassifiers.2 ⟨fc, hfc, (ChainEnd.touches_iff hof).1 htouches⟩
      have hkept := h.head_kept id hid d e hknown hof hends
      exact .inr ⟨path'.head, path'.head_mem_nodes, h.head, hstays _ path'.head_mem_nodes hkept⟩
    · push Not at htouched
      exact .inl ⟨hshaped.head_role, by simpa using htouched⟩
  · have hhop' : ({ node with reversePath := spansBothEnds plan.remaining } : PathNode) ∈
        path'.hops := by
      rw [h.hops]
      exact List.mem_map_of_mem hhop
    have hnode' := ChainPath.hop_mem_nodes hhop'
    exact .inr ⟨_, hnode', rfl, hstays _ hnode' hid⟩
  · rw [hshaped.tail_empty] at hid
    cases hid

theorem Reclassified.withStats {path' : ChainPath}
    (h : Reclassified env t chainId path plan path' t') (stats : TopologyStats) :
    Reclassified env t chainId path plan path' { t' with stats } where
  alters := h.alters.withStats stats
  path? := h.path?
  classifiers := h.classifiers
  head := h.head
  hops := h.hops
  tail := h.tail
  head_kept := h.head_kept
  detail := h.detail
  tag := h.tag

/-- A change of classifiers leaves the topology as it was, or carries out a plan. -/
theorem updateClassifiers_cases (hlaw : env.Lawful) (h : WellFormed env t) (chainId : String)
    (added removed : List String) :
    ((t.updateClassifiers env chainId added removed).topology = t ∧
        ∃ e, (t.updateClassifiers env chainId added removed).result = .error e) ∨
      ∃ path plan path', t.path? chainId = some path ∧
        UpdatePlanned env t chainId path removed plan ∧
        Reclassified env t chainId path plan path'
          (t.updateClassifiers env chainId added removed).topology ∧
        ∀ update, (t.updateClassifiers env chainId added removed).result = .ok update →
          update.delete = plan.delete ∧
            (t.updateClassifiers env chainId added removed).topology.flowRules env chainId =
              .ok update.apply := by
  cases hpath : t.path? chainId with
  | none =>
    simp only [updateClassifiers, hpath]
    exact .inl ⟨trivial, _, rfl⟩
  | some path =>
    cases hplan : t.planUpdate env chainId path added removed with
    | error e =>
      simp only [updateClassifiers, hpath, hplan]
      exact .inl ⟨trivial, e, rfl⟩
    | ok plan =>
      have hplanned := planUpdate_eq_ok hplan
      obtain ⟨path', hchanged⟩ := reclassify_reclassified hlaw h hpath hplanned
      cases hrules : (t.reclassify chainId path plan).1.flowRules env chainId with
      | error e =>
        simp only [updateClassifiers, hpath, hplan, hrules]
        exact .inr ⟨path, plan, path', rfl, hplanned, hchanged, fun update h => by cases h⟩
      | ok rules =>
        simp only [updateClassifiers, hpath, hplan, hrules]
        refine .inr ⟨path, plan, path', rfl, hplanned, hchanged.withStats _, fun update h => ?_⟩
        obtain rfl := Except.ok.inj h
        exact ⟨rfl, hrules⟩

/-- A change of classifiers, successful or not, alters no other chain. -/
theorem WellFormed.alters_updateClassifiers (hlaw : env.Lawful) (h : WellFormed env t)
    (chainId : String) (added removed : List String) :
    Alters env t chainId (t.updateClassifiers env chainId added removed).topology := by
  rcases updateClassifiers_cases hlaw h chainId added removed with
    ⟨hsame, -⟩ | ⟨path, plan, path', -, -, hchanged, -⟩
  · rw [hsame]
    exact Alters.refl h chainId
  · exact hchanged.alters

end Topology

end ServiceChain
