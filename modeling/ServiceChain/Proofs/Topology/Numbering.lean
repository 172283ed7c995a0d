import ServiceChain.Proofs.Topology.Accepting

/-!
# The nodes of a new path

A path is laid node by node, each at the index below the one before it, and leads through the hops of its
plan (`lay_places`); the hops are the recorded groups in their order.  So the nodes of a chain that was
created are numbered down from 255 and lead to the groups of the chain one after the other
(`create_numbers_hops`).
The index has 8 bits, and it is the bound on the number of groups that keeps it from wrapping: a longer chain
is refused before anything of it is laid.
-/

namespace ServiceChain

namespace Store

/-- The next hop is the pair under an id: with the weight of the pair, and with the address and the host of its
ingress port, the host only on a network that carries chains. -/
def IsMember (store : Store) (pairId : String) (member : NextHop) : Prop :=
  ∃ pair binding, store.pair? pairId = some pair ∧ store.binding? pair.ingress = some binding ∧
    member.portPairId = pair.id ∧ member.weight = pair.weight ∧ member.mac = binding.mac ∧
    ∀ host, member.host = some host ↔ binding.host = some host ∧
      (binding.networkType = .vlan ∨ binding.networkType = .vxlan)

/-- A group lists more than one pair. -/
def FansOut (store : Store) (groupId : String) (group : PortPairGroup) : Prop :=
  store.group? groupId = some group ∧ 1 < group.pairs.length

end Store

namespace ChainPath

/-- The path leads through the groups of a chain. -/
structure Realizes (path : ChainPath) (store : Store) (chain : PortChain) : Prop where
  roles : path.nodes.map PathNode.role =
    .source :: List.replicate chain.groups.length .serviceFunction ++ [.destination]
  index : ∀ (i : Nat) (node : PathNode), path.nodes[i]? = some node →
    i ≤ 255 ∧ node.nsi.toNat = 255 - i
  decreasing : path.nodes.Pairwise fun node later => later.nsi < node.nsi
  last : path.tail.nsi.toNat = 254 - chain.groups.length
  /-- The node of a group has the details of its pairs, in the order in which they are listed. -/
  hop : ∀ (i : Nat) (groupId : String), chain.groups[i]? = some groupId → ∃ node group pairs,
    path.nodes[i + 1]? = some node ∧ store.group? groupId = some group ∧
      List.Forall₂ (fun id pair => store.pair? id = some pair) group.pairs pairs ∧
      node.portDetails = (pairs.map PortPair.id).eraseDups
  fanOut : ∀ (i : Nat) (node : PathNode), path.nodes[i]? = some node →
    (node.nextGroup.isSome ↔
      ∃ groupId group, chain.groups[i]? = some groupId ∧ store.FansOut groupId group)
  next : ∀ (i : Nat) (node : PathNode) (next : NextHopGroup), path.nodes[i]? = some node →
    node.nextGroup = some next → ∃ groupId group, chain.groups[i]? = some groupId ∧
      store.group? groupId = some group ∧ next.id = group.groupId ∧
      List.Forall₂ store.IsMember group.pairs next.members

/-- The path leads through the hops of a plan. -/
structure Places (path : ChainPath) (plan : ChainPlan) : Prop where
  roles : path.nodes.map PathNode.role =
    .source :: List.replicate plan.hops.length .serviceFunction ++ [.destination]
  node : ∀ (i : Nat) (node : PathNode), path.nodes[i]? = some node → i ≤ plan.hops.length + 1 ∧
    node.nsi = UInt8.ofNat (Topology.headIndex - i) ∧ node.nextGroup = plan.hops[i]?.bind Hop.nextGroup
  hop : ∀ (i : Nat) (hop : Hop), plan.hops[i]? = some hop → ∃ node, path.nodes[i + 1]? = some node ∧
    node.portDetails = (hop.details.map (·.1.id)).eraseDups

end ChainPath

namespace Topology

variable {env : TopologyEnv} {t : Topology} {chainId : String} {chain : PortChain} {plan : ChainPlan}
  {path : ChainPath} {hops : List Hop} {hop : Hop} {node : PathNode} {position : Nat}

/-! ## Laying a path -/

/-- Binding in turn lists what is bound once each, in order, after what was listed before. -/
theorem foldl_eraseDups (ids seen : List String) :
    ids.foldl (fun seen id => if seen.contains id then seen else seen ++ [id]) seen =
      seen ++ (ids.filter (!seen.contains ·)).eraseDups := by
  induction ids generalizing seen with
  | nil => simp
  | cons id ids ih =>
    rw [List.foldl_cons, ih]
    cases hseen : seen.contains id with
    | true => simp only [List.filter_cons, hseen, Bool.not_true, Bool.false_eq_true, if_false, if_true]
    | false =>
      simp only [List.filter_cons, hseen, Bool.not_false, Bool.false_eq_true, if_false, if_true,
        List.eraseDups_cons, List.filter_filter, List.append_assoc, List.singleton_append]
      congr 3
      refine List.filter_congr fun other _ => ?_
      rw [List.contains_append, List.contains_cons, List.contains_nil, Bool.or_false, Bool.not_or,
        Bool.and_comm]

/-- A node without details gets the given ones, each once. -/
theorem node_associateAll (t : Topology) {node : PathNode} (hnone : node.portDetails = [])
    (details : List (PortDetail × UInt32)) :
    (associateAll t node details).node =
      { node with portDetails := (details.map (·.1.id)).eraseDups } := by
  have hfold : ∀ s : Binding,
      (details.foldl (fun s detail => associate s detail.1 detail.2) s).node =
        { s.node with
          portDetails :=
            (details.map (·.1.id)).foldl
              (fun seen id => if seen.contains id then seen else seen ++ [id]) s.node.portDetails } := by
    induction details with
    | nil => exact fun _ => rfl
    | cons detail details ih =>
      intro s
      rw [List.foldl_cons, ih, associate_node]
      rfl
  refine (hfold ⟨t, node, []⟩).trans ?_
  rw [foldl_eraseDups]
  simp [hnone]

/-- Each hop gets a node at its place, which leads to the hop after it. -/
theorem getElem?_layHops (t : Topology) (position i : Nat) :
    (layHops env plan t position hops).nodes[i]? = hops[i]?.map fun hop =>
      { newNode env plan .serviceFunction (position + i) (hops[i + 1]?.bind Hop.nextGroup) with
        portDetails := (hop.details.map (·.1.id)).eraseDups } := by
  induction hops generalizing t position i with
  | nil => rfl
  | cons hop hops ih =>
    cases i with
    | zero =>
      simp only [layHops, List.getElem?_cons_zero, Option.map_some, Option.some.injEq]
      rw [node_associateAll _ rfl, List.head?_eq_getElem?]
      rfl
    | succ i =>
      have hplace : position + 1 + i = position + (i + 1) := by omega
      simp only [layHops, List.getElem?_cons_succ, ih, hplace]

/-- The node that the hop of a plan gets. -/
def hopNode (env : TopologyEnv) (plan : ChainPlan) (i : Nat) (hop : Hop) : PathNode :=
  { newNode env plan .serviceFunction (i + 1) (plan.hops[i + 1]?.bind Hop.nextGroup) with
    portDetails := (hop.details.map (·.1.id)).eraseDups }

theorem nodes_layHops (t : Topology) :
    (layHops env plan t 1 plan.hops).nodes = plan.hops.mapIdx (hopNode env plan) := by
  refine List.ext_getElem? fun i => ?_
  rw [getElem?_layHops, List.getElem?_mapIdx, Nat.add_comm 1 i]
  rfl

/-- A head, a node for each hop, and a tail lead through the hops of the plan. -/
theorem places_of_hops {portDetails : List String}
    (hhead : path.head =
      { newNode env plan .source 0 (plan.hops.head?.bind Hop.nextGroup) with portDetails })
    (hhops : path.hops = plan.hops.mapIdx (hopNode env plan))
    (htail : path.tail = newNode env plan .destination (plan.hops.length + 1) none) :
    path.Places plan := by
  have hnodes : path.nodes = path.head ::
      (plan.hops.mapIdx (hopNode env plan) ++ [path.tail]) := by
    rw [ChainPath.nodes, hhops, List.cons_append]
  refine ⟨?_, fun i node hi => ?_, fun i hop hhop => ?_⟩
  · have hroles : (plan.hops.mapIdx (hopNode env plan)).map PathNode.role =
        List.replicate plan.hops.length .serviceFunction := by
      refine List.eq_replicate_iff.2 ⟨by simp, fun role hrole => ?_⟩
      obtain ⟨node, hnode, rfl⟩ := List.mem_map.1 hrole
      obtain ⟨i, hi, rfl⟩ := List.mem_mapIdx.1 hnode
      rfl
    rw [hnodes, List.map_cons, List.map_append, hroles, hhead, htail]
    rfl
  · rw [hnodes] at hi
    cases i with
    | zero =>
      obtain rfl : path.head = node := by simpa using hi
      rw [hhead]
      exact ⟨Nat.zero_le _, rfl, by rw [← List.head?_eq_getElem?]; rfl⟩
    | succ i =>
      rw [List.getElem?_cons_succ, List.getElem?_append, List.length_mapIdx] at hi
      split at hi
      · rename_i hlt
        rw [List.getElem?_mapIdx, Option.map_eq_some_iff] at hi
        obtain ⟨hop, -, rfl⟩ := hi
        exact ⟨by omega, rfl, rfl⟩
      · rename_i hge
        obtain ⟨hlast, rfl⟩ := List.getElem?_eq_some_iff.1 hi
        simp only [List.length_singleton] at hlast
        obtain rfl : i = plan.hops.length := by omega
        refine ⟨Nat.le_refl _, ?_, ?_⟩
        · simp [htail, newNode]
        · simp [htail, newNode]
  · refine ⟨hopNode env plan i hop, ?_, rfl⟩
    have hlt := (List.getElem?_eq_some_iff.1 hhop).1
    rw [hnodes, List.getElem?_cons_succ, List.getElem?_append_left (by rwa [List.length_mapIdx]),
      List.getElem?_mapIdx, hhop, Option.map_some]

theorem places_directed (h : path.Places plan) (reversePath : Bool) :
    (directed path reversePath).Places plan where
  roles := by
    rw [← h.roles, nodes_directed, List.map_map]
    rfl
  node i node hi := by
    rw [nodes_directed, List.getElem?_map, Option.map_eq_some_iff] at hi
    obtain ⟨node, hi, rfl⟩ := hi
    exact h.node i node hi
  hop i hop hhop := by
    obtain ⟨node, hnode, hlisted⟩ := h.hop i hop hhop
    refine ⟨{ node with reversePath }, ?_, hlisted⟩
    rw [nodes_directed, List.getElem?_map, hnode, Option.map_some]

/-- The path that a plan is laid out as leads through the hops of the plan. -/
theorem lay_places (env : TopologyEnv) (t : Topology) (plan : ChainPlan) :
    ∃ path, (t.lay env plan).1.path? plan.chainId = some path ∧ path.Places plan := by
  obtain ⟨t₀, portDetails, reversePath, hpath⟩ := exists_laid_path env t plan
  exact ⟨_, hpath, places_directed (places_of_hops rfl (nodes_layHops t₀) rfl) reversePath⟩

/-! ## The records of a path -/

/-- A resolved pair makes the member that is recorded. -/
theorem isMember_of_resolvePair {pairId : String} {rp : ResolvedPair}
    (h : resolvePair env pairId = .ok rp) : env.store.IsMember pairId (Hop.member rp) := by
  obtain ⟨hpair, hingress, -⟩ := resolvePair_eq_ok.1 h
  refine ⟨rp.pair, rp.ingress, hpair, hingress, rfl, rfl, rfl, fun host => ?_⟩
  simp only [Hop.member]
  cases rp.ingress.networkType <;> simp [NetworkType.isSupported]

/-- A hop leads to a group just if its record lists more than one pair, and then to the recorded one. -/
theorem nextGroup_of_resolveHop {groupId : String} (h : resolveHop env groupId = .ok hop) :
    (hop.nextGroup.isSome ↔ ∃ group, env.store.FansOut groupId group) ∧
      ∀ next, hop.nextGroup = some next → ∃ group, env.store.group? groupId = some group ∧
        next.id = group.groupId ∧ List.Forall₂ env.store.IsMember group.pairs next.members := by
  obtain ⟨group, hgroup, hid, hpairs⟩ := resolveHop_eq_ok h
  have hmatched := Except.mapM_eq_ok.1 hpairs
  have hlength : hop.pairs.length = group.pairs.length := hmatched.length_eq.symm
  constructor
  · rw [Hop.nextGroup, hlength]
    constructor
    · intro hsome
      by_cases hmany : 1 < group.pairs.length
      · exact ⟨group, hgroup, hmany⟩
      · rw [if_neg hmany] at hsome
        cases hsome
    · rintro ⟨group', hgroup', hmany⟩
      obtain rfl := Option.some.inj (hgroup.symm.trans hgroup')
      rw [if_pos hmany]
      rfl
  · intro next hnext
    unfold Hop.nextGroup at hnext
    split at hnext
    · cases hnext
      refine ⟨group, hgroup, hid, ?_⟩
      rw [List.forall₂_map_right_iff]
      exact hmatched.imp fun _ _ => isMember_of_resolvePair
    · cases hnext

/-- The details of a hop are named after the pairs that its record lists. -/
theorem details_of_resolveHop {groupId : String} (h : resolveHop env groupId = .ok hop) :
    ∃ group pairs, env.store.group? groupId = some group ∧
      List.Forall₂ (fun id pair => env.store.pair? id = some pair) group.pairs pairs ∧
      hop.details.map (·.1.id) = pairs.map PortPair.id := by
  obtain ⟨group, hgroup, -, hpairs⟩ := resolveHop_eq_ok h
  refine ⟨group, hop.pairs.map (·.pair), hgroup, ?_, ?_⟩
  · rw [List.forall₂_map_right_iff]
    exact (Except.mapM_eq_ok.1 hpairs).imp fun _ _ hpair => (resolvePair_eq_ok.1 hpair).1
  · rw [Hop.details, List.map_map, List.map_map]
    rfl

theorem exists_getElem?_of_forall₂ {α β : Type} {R : α → β → Prop} {as : List α} {bs : List β}
    (h : List.Forall₂ R as bs) {i : Nat} {a : α} (ha : as[i]? = some a) :
    ∃ b, bs[i]? = some b ∧ R a b := by
  induction h generalizing i with
  | nil => cases ha
  | cons hab _ ih =>
    cases i with
    | zero =>
      obtain rfl := Option.some.inj ha
      exact ⟨_, rfl, hab⟩
    | succ i => exact ih ha

/-- No more than 254 hops fit below the head. -/
theorem index_of_places (h : path.Places plan) (hlength : plan.hops.length ≤ 254) {i : Nat}
    (hi : path.nodes[i]? = some node) : i ≤ 255 ∧ node.nsi.toNat = 255 - i := by
  obtain ⟨hle, hnsi, -⟩ := h.node i node hi
  refine ⟨by omega, ?_⟩
  rw [hnsi, headIndex]
  exact UInt8.toNat_ofNat_of_lt' (by change 255 - i < 256; omega)

theorem getElem?_tail_of_places (h : path.Places plan) :
    path.nodes[plan.hops.length + 1]? = some path.tail := by
  have hroles := congrArg List.length h.roles
  simp only [ChainPath.nodes, List.length_map, List.length_append, List.length_cons,
    List.length_replicate, List.length_nil] at hroles
  rw [ChainPath.nodes, List.cons_append, List.getElem?_cons_succ, List.getElem?_append_right]
  · simp [show plan.hops.length - path.hops.length = 0 by omega]
  · omega

/-- The hop at a place leads to a group just if the recorded group at the place lists more than one pair. -/
theorem nextGroup_isSome_iff (h : List.Forall₂ (fun id hop => resolveHop env id = .ok hop)
    chain.groups plan.hops) (i : Nat) : (plan.hops[i]?.bind Hop.nextGroup).isSome ↔
      ∃ groupId group, chain.groups[i]? = some groupId ∧ env.store.FansOut groupId group := by
  cases hhop : plan.hops[i]? with
  | none =>
    refine ⟨fun hsome => absurd hsome Bool.false_ne_true, ?_⟩
    rintro ⟨groupId, group, hgroup, -⟩
    obtain ⟨hop, hhop', -⟩ := exists_getElem?_of_forall₂ h hgroup
    cases hhop.symm.trans hhop'
  | some hop =>
    obtain ⟨groupId, hgroup, hresolve⟩ := exists_getElem?_of_forall₂ h.flip hhop
    rw [Option.bind_some, (nextGroup_of_resolveHop hresolve).1]
    constructor
    · rintro ⟨group, hfan⟩
      exact ⟨groupId, group, hgroup, hfan⟩
    · rintro ⟨groupId', group, hgroup', hfan⟩
      obtain rfl := Option.some.inj (hgroup.symm.trans hgroup')
      exact ⟨group, hfan⟩

/-- A path through the hops of a chain leads through the groups of the chain. -/
theorem realizes_of_places (h : path.Places plan) (hlength : chain.groups.length ≤ 254)
    (hhops : chain.groups.mapM (resolveHop env) = .ok plan.hops) :
    path.Realizes env.store chain := by
  have hmatched := Except.mapM_eq_ok.1 hhops
  have hcount : plan.hops.length = chain.groups.length := hmatched.length_eq.symm
  have hindex : ∀ (i : Nat) (node : PathNode), path.nodes[i]? = some node →
      i ≤ 255 ∧ node.nsi.toNat = 255 - i := fun _ _ => index_of_places h (by omega)
  refine ⟨?_, hindex, ?_, ?_, ?_, ?_, ?_⟩
  · rw [h.roles, hcount]
  · rw [List.pairwise_iff_getElem]
    intro i j hi hj hij
    obtain ⟨-, hnode⟩ := hindex i _ (List.getElem?_eq_getElem hi)
    obtain ⟨hle, hlater⟩ := hindex j _ (List.getElem?_eq_getElem hj)
    rw [UInt8.lt_iff_toNat_lt]
    omega
  · obtain ⟨-, htail⟩ := hindex _ _ (getElem?_tail_of_places h)
    omega
  · intro i groupId hgroup
    obtain ⟨hop, hhop, hresolve⟩ := exists_getElem?_of_forall₂ hmatched hgroup
    obtain ⟨node, hnode, hlisted⟩ := h.hop i hop hhop
    obtain ⟨group, pairs, hrecorded, hpairs, hids⟩ := details_of_resolveHop hresolve
    exact ⟨node, group, pairs, hnode, hrecorded, hpairs, by rw [hlisted, hids]⟩
  · intro i node hi
    obtain ⟨-, -, hnext⟩ := h.node i node hi
    rw [hnext]
    exact nextGroup_isSome_iff hmatched i
  · intro i node next hi hsome
    obtain ⟨-, -, hnext⟩ := h.node i node hi
    rw [hnext, Option.bind_eq_some_iff] at hsome
    obtain ⟨hop, hhop, hsome⟩ := hsome
    obtain ⟨groupId, hgroup, hresolve⟩ := exists_getElem?_of_forall₂ hmatched.flip hhop
    obtain ⟨group, hrecorded, hid, hmembers⟩ := (nextGroup_of_resolveHop hresolve).2 next hsome
    exact ⟨groupId, group, hgroup, hrecorded, hid, hmembers⟩

/-! ## Creating a chain -/

/-- A chain without a plan is refused, and only counted. -/
theorem createChain_of_plan_error {e : TopologyError} (hplan : t.plan env chainId = .error e) :
    (t.createChain env chainId).result = .error e ∧
      (t.createChain env chainId).topology =
        { t with stats := { t.stats with chainsRejected := t.stats.chainsRejected + 1 } } := by
  simp [createChain, build, hplan]

theorem plan_of_too_long (hchain : env.store.chain? chainId = some chain)
    (hlong : 254 < chain.groups.length) : t.plan env chainId =
      .error (if (t.path? chainId).isSome then .chainExists chainId
        else .chainTooLong chain.id chain.groups.length) := by
  have hlength : checkLength chain.id chain.groups.length =
      .error (.chainTooLong chain.id chain.groups.length) := by
    rw [checkLength, if_neg (by omega), maxHops, if_pos hlong]
  cases hpath : t.path? chainId <;> simp [plan, hpath, hchain, hlength, bind, Except.bind]

/-- The path of a chain that was created leads through its groups, from 1 to 254 of them; it is kept under
the id in the record of the chain.  A longer chain is refused, and nothing but the count of refusals
changes. -/
theorem create_numbers_hops :
    (∀ (env : TopologyEnv) (t : Topology) (chainId : String) (rules : List FlowRule),
      (t.createChain env chainId).result = .ok rules →
        ∃ chain path, env.store.chain? chainId = some chain ∧ 1 ≤ chain.groups.length ∧
          chain.groups.length ≤ 254 ∧
          (t.createChain env chainId).topology.path? chain.id = some path ∧
          path.Realizes env.store chain) ∧
      ∀ (env : TopologyEnv) (t : Topology) (chainId : String) (chain : PortChain),
        env.store.chain? chainId = some chain → 254 < chain.groups.length →
          (t.createChain env chainId).result =
              .error (if (t.path? chainId).isSome then .chainExists chainId
                else .chainTooLong chain.id chain.groups.length) ∧
            (t.createChain env chainId).topology =
              { t with stats := { t.stats with chainsRejected := t.stats.chainsRejected + 1 } } := by
  constructor
  · intro env t chainId rules hrules
    obtain ⟨plan, hplan, hrules⟩ := createChain_eq_ok_iff.1 hrules
    obtain ⟨-, chain, hchain, hlength, -, hhops, -, -, hid, -⟩ := plan_eq_ok_iff.1 hplan
    obtain ⟨hpos, hle⟩ := checkLength_eq_ok_iff.1 hlength
    obtain ⟨path, hpath, hplaces⟩ := lay_places env t plan
    obtain ⟨stats, heq⟩ := createChain_of_plan hplan hrules
    refine ⟨chain, path, hchain, hpos, hle, ?_, realizes_of_places hplaces hle hhops⟩
    rw [heq, ← hid]
    exact hpath
  · intro env t chainId chain hchain hlong
    exact createChain_of_plan_error (plan_of_too_long hchain hlong)

/-- Every id is that of a chain through one group 255 times. -/
def endlessEnv : TopologyEnv :=
  { meetingEnv with
    store :=
      { meetingEnv.store with
        chain? := fun id => some { id, nsp := 3, groups := List.replicate 255 "g" } } }

/-- A chain through the same two instances twice: its head and its first node lead to their group.  A chain
that is one group too long is refused. -/
theorem sample_numbers_hops :
    (∃ path, (({} : Topology).createChain meetingEnv "x").topology.path? "x" = some path ∧
      path.Realizes meetingEnv.store
        { id := "x", nsp := 1, groups := ["g", "g"], classifiers := ["f"] } ∧
      path.nodes.map (·.nsi) = [255, 254, 253, 252] ∧
      path.nodes.map (·.groupId) = [some 4, some 4, none, none]) ∧
    (({} : Topology).createChain endlessEnv "w").result = .error (.chainTooLong "w" 255) := by
  constructor
  · have hok : ((({} : Topology).createChain meetingEnv "x").result.toOption).isSome := by
      decide +kernel
    have hseen : ((({} : Topology).createChain meetingEnv "x").topology.path? "x").map
        (fun path => (path.nodes.map (·.nsi), path.nodes.map (·.groupId))) =
          some ([255, 254, 253, 252], [some 4, some 4, none, none]) := by decide +kernel
    cases hresult : (({} : Topology).createChain meetingEnv "x").result with
    | error e => simp [hresult, Except.toOption] at hok
    | ok rules =>
      obtain ⟨chain, path, hchain, -, -, hpath, hrealizes⟩ := create_numbers_hops.1 _ _ _ _ hresult
      obtain rfl : { id := "x", nsp := 1, groups := ["g", "g"], classifiers := ["f"] } = chain :=
        Option.some.inj hchain
      rw [hpath, Option.map_some, Option.some.injEq, Prod.mk.injEq] at hseen
      exact ⟨path, hpath, hrealizes, hseen⟩
  · have hlong : 254 < (List.replicate 255 "g").length := by rw [List.length_replicate]; decide
    have hrefused := (create_numbers_hops.2 endlessEnv {} "w" _ rfl hlong).1
    rw [List.length_replicate] at hrefused
    exact hrefused

end Topology

end ServiceChain
