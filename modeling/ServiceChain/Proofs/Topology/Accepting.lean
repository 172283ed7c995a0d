import ServiceChain.Proofs.Topology.Counts
import ServiceChain.Proofs.Topology.Recreating

/-!
# Which chains are created

A chain can be planned if its records are complete and its hops fit together (`Plannable`), whatever other
chains there are (`exists_plan_iff`): the detail of a port that is in use already has the recorded binding as
well.  The path of the plan has rules if the traffic can be tagged at each of its details, which without
tunnels is up to the bindings (`exists_rules_iff`).  So a chain that is not live is created just if it is
`Acceptable` (`create_ok_iff`).
-/

namespace ServiceChain

/-- On a VLAN network, a port with a host has a VLAN id. -/
def PortBinding.HasVlanId (b : PortBinding) : Prop :=
  b.networkType = .vlan → b.host.isSome → ∃ id, b.segment = some id ∧ 1 ≤ id.toNat ∧ id.toNat ≤ 4094

namespace Store

/-- The pair is one of a group. -/
def HasPair (store : Store) (groupId : String) (pair : PortPair) : Prop :=
  ∃ group, store.group? groupId = some group ∧ ∃ id ∈ group.pairs, store.pair? id = some pair

/-- A classifier of the chain names the port as the source or the destination of its traffic. -/
def IsEnd (store : Store) (chain : PortChain) (port : String) : Prop :=
  ∃ id ∈ chain.classifiers, ∃ fc, store.classifier? id = some fc ∧
    (fc.logicalSource = some port ∨ fc.logicalDestination = some port)

/-- The port is the ingress of a pair of the chain. -/
def IsIngress (store : Store) (chain : PortChain) (port : String) : Prop :=
  ∃ id ∈ chain.groups, ∃ pair, store.HasPair id pair ∧ pair.ingress = port

/-- The subnets of two ports are the same, if both are known. -/
def Adjoins (store : Store) (port port' : String) : Prop :=
  ∀ binding binding' subnet subnet', store.binding? port = some binding →
    store.binding? port' = some binding' → binding.subnet = some subnet →
      binding'.subnet = some subnet' → subnet = subnet'

end Store

namespace Topology

variable {env : TopologyEnv} {t t' : Topology} {chainId : String} {chain : PortChain}
  {plan : ChainPlan} {path : ChainPath} {issued : Nat}

/-- All records of a chain are there, and its hops fit together. -/
structure Plannable (env : TopologyEnv) (chain : PortChain) : Prop where
  length : 1 ≤ chain.groups.length ∧ chain.groups.length ≤ 254
  classifier : ∀ id ∈ chain.classifiers,
    ∃ fc, env.store.classifier? id = some fc ∧ fc.validate env.policy = .ok ()
  group : ∀ id ∈ chain.groups, ∃ group, env.store.group? id = some group ∧
    ∀ pairId ∈ group.pairs, ∃ pair, env.store.pair? pairId = some pair ∧
      (env.store.binding? pair.ingress).isSome ∧ (env.store.binding? pair.egress).isSome
  adjoins : chain.groups.IsChain fun id next => ∀ pair pair', env.store.HasPair id pair →
    env.store.HasPair next pair' → env.store.Adjoins pair.egress pair'.ingress
  bound : ∀ port, env.store.IsEnd chain port → (env.store.binding? port).isSome

/-- Besides, the traffic of the chain can be tagged at each of its ports. -/
structure Acceptable (env : TopologyEnv) (chain : PortChain) : Prop extends Plannable env chain where
  segment : ∀ port, env.store.IsEnd chain port ∨ env.store.IsIngress chain port →
    ∀ binding, env.store.binding? port = some binding → binding.HasVlanId

/-! ## Lookups -/

theorem checkLength_eq_ok_iff {length : Nat} :
    checkLength chainId length = .ok () ↔ 1 ≤ length ∧ length ≤ 254 := by
  unfold checkLength maxHops
  split
  · simp only [reduceCtorEq, false_iff]
    omega
  · split
    · simp only [reduceCtorEq, false_iff]
      omega
    · simp only [true_iff]
      omega

theorem exists_resolvePair_iff {id : String} : (∃ rp, resolvePair env id = .ok rp) ↔
    ∃ pair, env.store.pair? id = some pair ∧ (env.store.binding? pair.ingress).isSome ∧
      (env.store.binding? pair.egress).isSome := by
  simp only [resolvePair_eq_ok, Option.isSome_iff_exists]
  constructor
  · intro ⟨rp, hpair, hingress, hegress⟩
    exact ⟨rp.pair, hpair, ⟨_, hingress⟩, _, hegress⟩
  · intro ⟨pair, hpair, ⟨ingress, hingress⟩, egress, hegress⟩
    exact ⟨⟨pair, ingress, egress⟩, hpair, hingress, hegress⟩

theorem exists_resolveHop_iff {id : String} : (∃ hop, resolveHop env id = .ok hop) ↔
    ∃ group, env.store.group? id = some group ∧ ∀ pairId ∈ group.pairs,
      ∃ rp, resolvePair env pairId = .ok rp := by
  constructor
  · intro ⟨hop, hhop⟩
    obtain ⟨group, hgroup, -, hpairs⟩ := resolveHop_eq_ok hhop
    exact ⟨group, hgroup, Except.exists_mapM_iff.1 ⟨_, hpairs⟩⟩
  · intro ⟨group, hgroup, hall⟩
    obtain ⟨pairs, hpairs⟩ := Except.exists_mapM_iff.2 hall
    refine ⟨⟨group.groupId, pairs⟩, ?_⟩
    simp only [resolveHop, hgroup, hpairs]
    rfl

/-- A resolved hop has the pairs of the group, with the bindings of their ports. -/
theorem mem_pairs_iff {id : String} {hop : Hop} (h : resolveHop env id = .ok hop) {rp : ResolvedPair} :
    rp ∈ hop.pairs ↔ env.store.HasPair id rp.pair ∧
      env.store.binding? rp.pair.ingress = some rp.ingress ∧
      env.store.binding? rp.pair.egress = some rp.egress := by
  obtain ⟨group, hgroup, -, hpairs⟩ := resolveHop_eq_ok h
  rw [Except.mem_of_mapM_iff hpairs]
  simp only [resolvePair_eq_ok, Store.HasPair, hgroup, Option.some.injEq, exists_eq_left']
  constructor
  · intro ⟨pairId, hmem, hpair, hbindings⟩
    exact ⟨⟨pairId, hmem, hpair⟩, hbindings⟩
  · intro ⟨⟨pairId, hmem, hpair⟩, hbindings⟩
    exact ⟨pairId, hmem, hpair, hbindings⟩

theorem exists_mem_pairs {id : String} {hop : Hop} (h : resolveHop env id = .ok hop) {pair : PortPair}
    (hpair : env.store.HasPair id pair) : ∃ rp ∈ hop.pairs, rp.pair = pair := by
  obtain ⟨group, hgroup, -, hpairs⟩ := resolveHop_eq_ok h
  obtain ⟨group', hgroup', pairId, hmem, hpair⟩ := hpair
  obtain rfl := Option.some.inj (hgroup.symm.trans hgroup')
  obtain ⟨rp, hrp, hresolved⟩ := Except.exists_of_mem_of_mapM hpairs hmem
  exact ⟨rp, hrp, Option.some.inj ((resolvePair_eq_ok.1 hresolved).1.symm.trans hpair)⟩

/-! ## Subnets -/

theorem subnetFault?_eq_none_iff {x y : ResolvedPair} : subnetFault? x y = none ↔
    ∀ subnet subnet', x.egress.subnet = some subnet → y.ingress.subnet = some subnet' →
      subnet = subnet' := by
  unfold subnetFault?
  cases x.egress.subnet <;> cases y.ingress.subnet <;> simp

theorem checkSubnets_eq_ok_iff {hops : List Hop} : checkSubnets hops = .ok () ↔
    hops.IsChain fun hop next => ∀ x ∈ hop.pairs, ∀ y ∈ next.pairs, subnetFault? x y = none := by
  fun_induction checkSubnets hops with
  | case1 a b hops fault hfault =>
    simp only [reduceCtorEq, false_iff, List.isChain_cons_cons, not_and_or]
    left
    intro hnone
    obtain ⟨x, hx, hfault⟩ := List.exists_of_findSome?_eq_some hfault
    obtain ⟨y, hy, hfault⟩ := List.exists_of_findSome?_eq_some hfault
    rw [hnone x hx y hy] at hfault
    cases hfault
  | case2 a b hops hnone ih =>
    simp only [List.findSome?_eq_none_iff] at hnone
    rw [ih, List.isChain_cons_cons]
    exact (and_iff_right hnone).symm
  | case3 hops hshort =>
    match hops with
    | [] => simp
    | [_] => simp
    | a :: b :: hops => exact absurd rfl (hshort a b hops)

/-- Neighbours in one list are related just as those in the other are. -/
theorem isChain_iff_of_forall₂ {α β : Type} {P : α → β → Prop} {R : α → α → Prop} {S : β → β → Prop}
    {as : List α} {bs : List β} (h : List.Forall₂ P as bs)
    (hiff : ∀ a b a' b', P a b → P a' b' → (R a a' ↔ S b b')) : as.IsChain R ↔ bs.IsChain S := by
  induction h with
  | nil => simp
  | cons hfirst hrest ih =>
    cases hrest with
    | nil => simp
    | cons hnext _ =>
      rw [List.isChain_cons_cons, List.isChain_cons_cons, ih, hiff _ _ _ _ hfirst hnext]

theorem checkSubnets_iff {ids : List String} {hops : List Hop}
    (h : ids.mapM (resolveHop env) = .ok hops) : checkSubnets hops = .ok () ↔
      ids.IsChain fun id next => ∀ pair pair', env.store.HasPair id pair →
        env.store.HasPair next pair' → env.store.Adjoins pair.egress pair'.ingress := by
  rw [checkSubnets_eq_ok_iff]
  refine (isChain_iff_of_forall₂ (Except.mapM_eq_ok.1 h) ?_).symm
  intro id hop next hop' hhop hhop'
  simp only [subnetFault?_eq_none_iff]
  constructor
  · intro hadjoins x hx y hy subnet subnet' hsubnet hsubnet'
    obtain ⟨hpair, -, hegress⟩ := (mem_pairs_iff hhop).1 hx
    obtain ⟨hpair', hingress, -⟩ := (mem_pairs_iff hhop').1 hy
    exact hadjoins _ _ hpair hpair' _ _ _ _ hegress hingress hsubnet hsubnet'
  · intro hsame pair pair' hpair hpair' binding binding' subnet subnet' hegress hingress
    obtain ⟨x, hx, rfl⟩ := exists_mem_pairs hhop hpair
    obtain ⟨y, hy, rfl⟩ := exists_mem_pairs hhop' hpair'
    obtain ⟨-, -, hegress'⟩ := (mem_pairs_iff hhop).1 hx
    obtain ⟨-, hingress', -⟩ := (mem_pairs_iff hhop').1 hy
    obtain rfl := Option.some.inj (hegress'.symm.trans hegress)
    obtain rfl := Option.some.inj (hingress'.symm.trans hingress)
    exact hsame x hx y hy subnet subnet'

/-! ## Ends -/

/-- The details of ends are found just if all their ports are bound: those that other chains use already are. -/
theorem exists_endDetails_iff (hgenuine : Genuine env issued t) {next : Nat} {ends : List ChainEnd} :
    (∃ found, t.endDetails env next ends = .ok found) ↔
      ∀ e ∈ ends, (env.store.binding? e.port).isSome := by
  constructor
  · intro h
    induction ends generalizing next with
    | nil => nofun
    | cons e ends ih =>
      obtain ⟨found, hfound⟩ := h
      rw [endDetails] at hfound
      cases hknown : t.endDetail? e with
      | some d =>
        simp only [hknown, Except.bind_eq_ok] at hfound
        obtain ⟨rest, hrest, -⟩ := hfound
        obtain ⟨hd, hof⟩ := endDetail?_eq_some hgenuine hknown
        obtain ⟨binding, hbinding, -⟩ := hgenuine.exists_binding hd hof
        exact List.forall_mem_cons.2 ⟨by rw [hbinding]; rfl, ih ⟨rest, hrest⟩⟩
      | none =>
        simp only [hknown, Except.bind_eq_ok] at hfound
        obtain ⟨binding, hbinding, rest, hrest, -⟩ := hfound
        exact List.forall_mem_cons.2
          ⟨Option.isSome_iff_exists.2 ⟨binding, bindingOf_eq_ok.1 hbinding⟩, ih ⟨rest, hrest⟩⟩
  · intro h
    exact exists_endDetails fun e he => Option.isSome_iff_exists.1 (h e he)

theorem exists_end_of_classifier {fc : FlowClassifier} {port : String} :
    (∃ e ∈ ChainEnd.ofClassifier fc, e.port = port) ↔
      fc.logicalSource = some port ∨ fc.logicalDestination = some port := by
  unfold ChainEnd.ofClassifier
  cases fc.logicalSource <;> cases fc.logicalDestination <;> simp [ChainEnd.port]

/-- The ends of a chain's traffic are those of its classifiers. -/
theorem isEnd_iff {fcs : List FlowClassifier}
    (h : loadClassifiers env chain.classifiers = .ok fcs) {port : String} :
    env.store.IsEnd chain port ↔ ∃ e ∈ ChainEnd.ofClassifiers fcs, e.port = port := by
  constructor
  · intro ⟨id, hid, fc, hstored, hnamed⟩
    obtain ⟨e, he, hport⟩ := exists_end_of_classifier.2 hnamed
    obtain ⟨fc', hfc', hload⟩ := Except.exists_of_mem_of_mapM h hid
    obtain rfl := Option.some.inj ((loadClassifier_eq_ok.1 hload).1.symm.trans hstored)
    exact ⟨e, ChainEnd.mem_ofClassifiers.2 ⟨fc', hfc', he⟩, hport⟩
  · intro ⟨e, he, hport⟩
    obtain ⟨fc, hfc, he⟩ := ChainEnd.mem_ofClassifiers.1 he
    obtain ⟨id, hid, hload⟩ := Except.exists_of_mem_mapM h hfc
    exact ⟨id, hid, fc, (loadClassifier_eq_ok.1 hload).1, exists_end_of_classifier.1 ⟨e, he, hport⟩⟩

/-! ## Plans -/

/-- A chain that is not live can be planned just if its records allow it. -/
theorem exists_plan_iff (hgenuine : Genuine env issued t) :
    (∃ plan, t.plan env chainId = .ok plan) ↔ t.path? chainId = none ∧
      ∃ chain, env.store.chain? chainId = some chain ∧ Plannable env chain := by
  constructor
  · intro ⟨plan, hplan⟩
    obtain ⟨habsent, chain, hchain, hlength, hload, hhops, hsubnets, hends, -⟩ := plan_eq_ok_iff.1 hplan
    refine ⟨habsent, chain, hchain, ?_⟩
    have hbound := (exists_endDetails_iff hgenuine).1 ⟨_, hends⟩
    refine ⟨checkLength_eq_ok_iff.1 hlength, fun id hid => ?_, fun id hid => ?_,
      (checkSubnets_iff hhops).1 hsubnets, fun port hport => ?_⟩
    · obtain ⟨fc, -, hfc⟩ := Except.exists_of_mem_of_mapM hload hid
      exact ⟨fc, loadClassifier_eq_ok.1 hfc⟩
    · obtain ⟨hop, -, hhop⟩ := Except.exists_of_mem_of_mapM hhops hid
      obtain ⟨group, hgroup, hpairs⟩ := exists_resolveHop_iff.1 ⟨hop, hhop⟩
      exact ⟨group, hgroup, fun pairId hmem => exists_resolvePair_iff.1 (hpairs pairId hmem)⟩
    · obtain ⟨e, he, rfl⟩ := (isEnd_iff hload).1 hport
      exact hbound e he
  · intro ⟨habsent, chain, hchain, h⟩
    obtain ⟨fcs, hload⟩ : ∃ fcs, loadClassifiers env chain.classifiers = .ok fcs := by
      refine Except.exists_mapM_iff.2 fun id hid => ?_
      obtain ⟨fc, hfc⟩ := h.classifier id hid
      exact ⟨fc, loadClassifier_eq_ok.2 hfc⟩
    obtain ⟨hops, hhops⟩ : ∃ hops, chain.groups.mapM (resolveHop env) = .ok hops := by
      refine Except.exists_mapM_iff.2 fun id hid => ?_
      obtain ⟨group, hgroup, hpairs⟩ := h.group id hid
      exact exists_resolveHop_iff.2
        ⟨group, hgroup, fun pairId hmem => exists_resolvePair_iff.2 (hpairs pairId hmem)⟩
    obtain ⟨⟨ends, nextId⟩, hends⟩ : ∃ found,
        t.endDetails env t.issued (ChainEnd.ofClassifiers fcs) = .ok found :=
      (exists_endDetails_iff hgenuine).2 fun e he => h.bound e.port ((isEnd_iff hload).2 ⟨e, he, rfl⟩)
    exact ⟨⟨chain.id, chain.nsp, fcs, hops, ends, nextId⟩, plan_eq_ok_iff.2 ⟨habsent, chain, hchain,
      checkLength_eq_ok_iff.2 h.length, hload, hhops, (checkSubnets_iff hhops).2 h.adjoins, hends, rfl,
      rfl⟩⟩

/-! ## Rules -/

theorem exists_ofNat?_iff {id : Nat} :
    (∃ segment, SegmentId.ofNat? id = some segment) ↔ 1 ≤ id ∧ id ≤ 4094 := by
  rw [← Option.isSome_iff_exists]
  exact SegmentId.ofNat?_isSome_iff

/-- Where there are no tunnels, it is up to a binding whether traffic can be tagged. -/
theorem usable_bind_iff {bare : PortDetail} {binding : PortBinding} (hhost : bare.host = none)
    (hne : binding.networkType ≠ .vxlan) : t.Usable (bare.bind binding) ↔ binding.HasVlanId := by
  have hvni : (bare.bind binding).vni? = none := by simp [PortDetail.vni?, PortDetail.bind, hne]
  have hsegment : (∃ segment, t.chainSegment (bare.bind binding) = .ok segment) ↔
      ∃ id, binding.segment = some id ∧ 1 ≤ id.toNat ∧ id.toNat ≤ 4094 := by
    have hown : (bare.bind binding).segment = binding.segment := rfl
    simp only [chainSegment_eq_ok, hvni, hown, Option.bind_eq_some_iff, ← exists_ofNat?_iff]
    rw [exists_comm]
    simp only [exists_and_left]
  unfold Usable PortBinding.HasVlanId
  rw [hsegment]
  cases htype : binding.networkType with
  | vxlan => exact absurd htype hne
  | _ => simp [PortDetail.bind, htype, NetworkType.isSupported, hhost]

/-- The nodes of a path that was laid have the details of the plan. -/
theorem LaidOut.usable_iff (hlaid : LaidOut env t chainId plan path t') :
    (∀ node ∈ path.nodes, ∀ d ∈ t'.nodeDetails node, t'.Usable d) ↔
      (∀ hop ∈ plan.hops, ∀ d ∈ hop.details.map (·.1), t'.Usable d) ∧
        ∀ d ∈ plan.ends, t'.Usable d := by
  have hknown : ∀ d, ((∃ hop ∈ plan.hops, d ∈ hop.details.map (·.1)) ∨ d ∈ plan.ends) →
      t'.details[d.id]? = some d := fun d hd => (hlaid.detail d.id d).2 (.inr ⟨hd, rfl⟩)
  constructor
  · intro h
    refine ⟨fun hop hhop d hd => ?_, fun d hd => ?_⟩
    · obtain ⟨node, hnode, hlisted⟩ := (hlaid.hop_listed d.id).2 ⟨hop, hhop, d, hd, rfl⟩
      exact h node (ChainPath.hop_mem_nodes hnode) d
        (mem_nodeDetails.2 ⟨d.id, hlisted, hknown d (.inl ⟨hop, hhop, hd⟩)⟩)
    · have hlisted := (hlaid.head_listed d.id).2 ⟨d, hd, rfl⟩
      exact h path.head path.head_mem_nodes d (mem_nodeDetails.2 ⟨d.id, hlisted, hknown d (.inr hd)⟩)
  · intro ⟨hhops, hends⟩ node hnode d hd
    obtain ⟨id, hlisted, hd⟩ := mem_nodeDetails.1 hd
    rcases ChainPath.mem_nodes.1 hnode with rfl | hnode | rfl
    · obtain ⟨found, hfound, rfl⟩ := (hlaid.head_listed id).1 hlisted
      obtain rfl := Option.some.inj (hd.symm.trans (hknown found (.inr hfound)))
      exact hends d hfound
    · obtain ⟨hop, hhop, found, hfound, rfl⟩ := (hlaid.hop_listed id).1 ⟨node, hnode, hlisted⟩
      obtain rfl := Option.some.inj (hd.symm.trans (hknown found (.inl ⟨hop, hhop, hfound⟩)))
      exact hhops hop hhop d hfound
    · rw [hlaid.tail_empty] at hlisted
      cases hlisted

/-- The details of hops are bound to the ingress ports of the chain. -/
theorem hops_usable_iff (hvxlan : env.store.HasNoVxlan) {hops : List Hop}
    (h : chain.groups.mapM (resolveHop env) = .ok hops) :
    (∀ hop ∈ hops, ∀ d ∈ hop.details.map (·.1), t.Usable d) ↔
      ∀ port, env.store.IsIngress chain port →
        ∀ binding, env.store.binding? port = some binding → binding.HasVlanId := by
  have husable : ∀ {id hop} {rp : ResolvedPair}, resolveHop env id = .ok hop → rp ∈ hop.pairs →
      (t.Usable ((PortDetail.forPair rp.pair.id rp.pair).bind rp.ingress) ↔ rp.ingress.HasVlanId) := by
    intro id hop rp hhop hrp
    obtain ⟨-, hingress, -⟩ := (mem_pairs_iff hhop).1 hrp
    exact usable_bind_iff rfl (hvxlan _ _ hingress)
  constructor
  · rintro hall port ⟨id, hid, pair, hpair, rfl⟩ binding hbinding
    obtain ⟨hop, hmem, hhop⟩ := Except.exists_of_mem_of_mapM h hid
    obtain ⟨rp, hrp, rfl⟩ := exists_mem_pairs hhop hpair
    obtain ⟨-, hingress, -⟩ := (mem_pairs_iff hhop).1 hrp
    obtain rfl := Option.some.inj (hingress.symm.trans hbinding)
    refine (husable hhop hrp).1 (hall hop hmem _ ?_)
    rw [Hop.details, List.map_map]
    exact List.mem_map_of_mem hrp
  · intro hall hop hmem d hd
    obtain ⟨id, hid, hhop⟩ := Except.exists_of_mem_mapM h hmem
    rw [Hop.details, List.map_map] at hd
    obtain ⟨rp, hrp, rfl⟩ := List.mem_map.1 hd
    obtain ⟨hpair, hingress, -⟩ := (mem_pairs_iff hhop).1 hrp
    exact (husable hhop hrp).2 (hall rp.pair.ingress ⟨id, hid, rp.pair, hpair, rfl⟩ _ hingress)

/-- The details of ends are bound to the logical ports of the chain. -/
theorem ends_usable_iff (hvxlan : env.store.HasNoVxlan) (hgenuine : Genuine env issued t')
    {fcs : List FlowClassifier} (hload : loadClassifiers env chain.classifiers = .ok fcs)
    {next last : Nat} {ends : List PortDetail}
    (hends : EndsFound env t next last (ChainEnd.ofClassifiers fcs) ends)
    (hknown : ∀ d ∈ ends, t'.details[d.id]? = some d) :
    (∀ d ∈ ends, t'.Usable d) ↔ ∀ port, env.store.IsEnd chain port →
      ∀ binding, env.store.binding? port = some binding → binding.HasVlanId := by
  have husable : ∀ {e : ChainEnd} {d}, d ∈ ends → e.isOf d → ∃ binding,
      env.store.binding? e.port = some binding ∧ (t'.Usable d ↔ binding.HasVlanId) := by
    intro e d hd hof
    obtain ⟨binding, hbinding, heq⟩ := hgenuine.exists_binding (hknown d hd) hof
    refine ⟨binding, hbinding, ?_⟩
    rw [heq]
    exact usable_bind_iff (by cases e <;> rfl) (hvxlan _ _ hbinding)
  constructor
  · intro hall port hport binding hbinding
    obtain ⟨e, he, rfl⟩ := (isEnd_iff hload).1 hport
    obtain ⟨d, hd, hof⟩ := hends.exists_detail he
    obtain ⟨found, hfound, hiff⟩ := husable hd hof
    obtain rfl := Option.some.inj (hfound.symm.trans hbinding)
    exact hiff.1 (hall d hd)
  · intro hall d hd
    obtain ⟨e, he, hof⟩ := exists_end_of_matched hends.matched hd
    obtain ⟨binding, hbinding, hiff⟩ := husable hd hof
    exact hiff.2 (hall e.port ((isEnd_iff hload).2 ⟨e, he, rfl⟩) binding hbinding)

/-- The rules of a plan can be built just if traffic can be tagged at its ports. -/
theorem exists_rules_iff (hlaw : env.Lawful) (hvxlan : env.store.HasNoVxlan) (hwf : WellFormed env t)
    (hchain : env.store.chain? chainId = some chain) (hplan : t.plan env chainId = .ok plan) :
    (∃ rules, (t.lay env plan).1.flowRules env plan.chainId = .ok rules) ↔
      ∀ port, env.store.IsEnd chain port ∨ env.store.IsIngress chain port →
        ∀ binding, env.store.binding? port = some binding → binding.HasVlanId := by
  have hplanned := plan_eq_ok hlaw hplan
  obtain ⟨-, chain', hchain', -, hload, hhops, -⟩ := plan_eq_ok_iff.1 hplan
  obtain rfl := Option.some.inj (hchain.symm.trans hchain')
  obtain ⟨path, hlaid⟩ := lay_laidOut hlaw hwf hplanned
  have hpath : (t.lay env plan).1.path? plan.chainId = some path := by
    rw [hlaid.path?, if_pos hplanned.chainId_eq.symm]
  have hgenuine := (hwf.alters_lay hlaw hplanned).wellFormed.genuine
  have hends := endDetails_found hlaw hwf.genuine (Nat.le_refl _) hplanned.ends
  have hknown : ∀ d ∈ plan.ends, (t.lay env plan).1.details[d.id]? = some d :=
    fun d hd => (hlaid.detail d.id d).2 (.inr ⟨.inr hd, rfl⟩)
  rw [flowRules_eq_pathRules hpath, exists_pathRules_iff, hlaid.usable_iff,
    hops_usable_iff hvxlan hhops, ends_usable_iff hvxlan hgenuine hload hends hknown, and_comm,
    ← forall_and]
  simp only [or_imp]

/-- Where no port is on a tunnel, a chain that is not live is created just if it is acceptable. -/
theorem create_ok_iff (hlaw : env.Lawful) (hvxlan : env.store.HasNoVxlan) (hreach : Reachable env t) :
    (∃ rules, (t.createChain env chainId).result = .ok rules) ↔ t.path? chainId = none ∧
      ∃ chain, env.store.chain? chainId = some chain ∧ Acceptable env chain := by
  have hwf := hreach.wellFormed hlaw
  constructor
  · intro ⟨rules, hrules⟩
    obtain ⟨plan, hplan, hrules⟩ := createChain_eq_ok_iff.1 hrules
    obtain ⟨habsent, chain, hchain, hplannable⟩ := (exists_plan_iff hwf.genuine).1 ⟨plan, hplan⟩
    have hsegment := (exists_rules_iff hlaw hvxlan hwf hchain hplan).1 ⟨rules, hrules⟩
    exact ⟨habsent, chain, hchain, hplannable, hsegment⟩
  · intro ⟨habsent, chain, hchain, haccept⟩
    obtain ⟨plan, hplan⟩ := (exists_plan_iff hwf.genuine).2
      ⟨habsent, chain, hchain, haccept.toPlannable⟩
    obtain ⟨rules, hrules⟩ := (exists_rules_iff hlaw hvxlan hwf hchain hplan).2 haccept.segment
    exact ⟨rules, createChain_eq_ok_iff.2 ⟨plan, hplan, hrules⟩⟩

theorem meetingEnv_noVxlan : meetingEnv.store.HasNoVxlan := by
  intro port binding h
  simp only [meetingEnv, Option.ite_none_right_eq_some, Option.some.injEq] at h
  obtain ⟨-, rfl⟩ := h
  exact (by decide : NetworkType.vlan ≠ .vxlan)

/-- The second chain is created beside the first one, from whose port its traffic comes as well; so it is
acceptable. -/
theorem meetingFirst_accepts :
    ∃ chain, meetingEnv.store.chain? "y" = some chain ∧ Acceptable meetingEnv chain := by
  have hok : ((meetingFirst.createChain meetingEnv "y").result.toOption).isSome := by decide +kernel
  have hcreated : ∃ rules, (meetingFirst.createChain meetingEnv "y").result = .ok rules := by
    cases hresult : (meetingFirst.createChain meetingEnv "y").result with
    | error e => simp [hresult, Except.toOption] at hok
    | ok rules => exact ⟨rules, rfl⟩
  exact ((create_ok_iff meetingEnv_lawful meetingEnv_noVxlan meetingFirst_reachable).1 hcreated).2

end Topology

end ServiceChain
