import Mathlib.Data.List.Basic
import ServiceChain.Proofs.Topology.Binding
import ServiceChain.Topology.Delete
import ServiceChain.Topology.Update

/-!
# Well-formed topologies

In a well-formed topology the books agree with the paths: what is associated is what the nodes of live
chains list, what is associated is known (`Booked`), and nothing else is.  A detail is that of a recorded
pair or of an end of traffic; the first kind is bound to the hops of a path, and of the second kind the
head has one for each end that the chain's classifiers name (`ChainPath.Shaped`).

All of a path but its place in the books looks at the details of its own nodes, so it carries over to
any topology that has these unchanged (`Topology.Retains`).
-/

namespace ServiceChain

/-- Records answer to their ids, and an id that is issued is new. -/
structure TopologyEnv.Lawful (env : TopologyEnv) : Prop where
  chain_id : ∀ id chain, env.store.chain? id = some chain → chain.id = id
  pair_id : ∀ id pair, env.store.pair? id = some pair → pair.id = id
  newId_injective : Function.Injective env.newId
  newId_ne_pair : ∀ n id pair, env.store.pair? id = some pair → env.newId n ≠ id

/-- A chain that is looked for by its id has this id. -/
theorem PortChain.id_eq_of_find? {chains : List PortChain} {chain : PortChain} {id : String}
    (h : chains.find? (·.id == id) = some chain) : chain.id = id := by
  simpa using List.find?_some h

/-! ## Details -/

namespace PortDetail

/-- The detail of a recorded pair. -/
def IsPairOf (env : TopologyEnv) (d : PortDetail) : Prop :=
  ∃ id pair binding, env.store.pair? id = some pair ∧
    env.store.binding? pair.ingress = some binding ∧
      d = (PortDetail.forPair pair.id pair).bind binding

/-- The detail of an end of traffic, under an id with a number below the given one. -/
def IsEndOf (env : TopologyEnv) (issued : Nat) (d : PortDetail) : Prop :=
  ∃ e : ChainEnd, ∃ n < issued, ∃ binding, env.store.binding? e.port = some binding ∧
    d = (e.detail (env.newId n)).bind binding

variable {env : TopologyEnv} {d d' : PortDetail} {issued : Nat}

theorem IsPairOf.ingress_isSome (h : d.IsPairOf env) : d.ingress.isSome ∧ d.egress.isSome := by
  obtain ⟨-, -, -, -, -, rfl⟩ := h
  exact ⟨rfl, rfl⟩

/-- Details of pairs under one id are one detail. -/
theorem IsPairOf.eq_of_id (hlaw : env.Lawful) (h : d.IsPairOf env) (h' : d'.IsPairOf env)
    (hid : d.id = d'.id) : d = d' := by
  obtain ⟨id, pair, binding, hpair, hbinding, rfl⟩ := h
  obtain ⟨id', pair', binding', hpair', hbinding', rfl⟩ := h'
  have hid : pair.id = pair'.id := hid
  rw [hlaw.pair_id id pair hpair, hlaw.pair_id id' pair' hpair'] at hid
  obtain rfl := hid
  obtain rfl := Option.some.inj (hpair.symm.trans hpair')
  obtain rfl := Option.some.inj (hbinding.symm.trans hbinding')
  rfl

theorem IsPairOf.id_ne_newId (hlaw : env.Lawful) (h : d.IsPairOf env) (n : Nat) :
    env.newId n ≠ d.id := by
  obtain ⟨id, pair, binding, hpair, -, rfl⟩ := h
  have hid := hlaw.pair_id id pair hpair
  change env.newId n ≠ pair.id
  rw [hid]
  exact hlaw.newId_ne_pair n id pair hpair

theorem IsEndOf.mono {issued' : Nat} (h : d.IsEndOf env issued) (hle : issued ≤ issued') :
    d.IsEndOf env issued' := by
  obtain ⟨e, n, hn, hrest⟩ := h
  exact ⟨e, n, by omega, hrest⟩

end PortDetail

namespace ChainEnd

variable {e e' : ChainEnd} {d : PortDetail}

theorem isOf_iff : e.isOf d ↔
    (d.ingress, d.egress) = match e with
      | source port => (none, some port)
      | destination port => (some port, none) := by
  cases e <;> simp [isOf]

theorem isOf_detail_bind (e : ChainEnd) (id : String) (binding : PortBinding) :
    e.isOf ((e.detail id).bind binding) := by
  cases e <;> simp [isOf, detail, PortDetail.bind, PortDetail.forEgress, PortDetail.forIngress]

theorem id_detail_bind (e : ChainEnd) (id : String) (binding : PortBinding) :
    ((e.detail id).bind binding).id = id := by
  cases e <;> rfl

theorem isOf_unique (h : e.isOf d) (h' : e'.isOf d) : e = e' := by
  rw [isOf_iff] at h h'
  rw [h] at h'
  cases e <;> cases e' <;> simp_all

theorem mem_ofClassifiers {fcs : List FlowClassifier} :
    e ∈ ofClassifiers fcs ↔ ∃ fc ∈ fcs, e ∈ ofClassifier fc := by
  simp [ofClassifiers]

/-- A classifier touches the detail of an end if it names the end. -/
theorem touches_iff (h : e.isOf d) {fc : FlowClassifier} :
    Topology.touches d.ingress d.egress fc ↔ e ∈ ofClassifier fc := by
  rw [isOf_iff] at h
  cases e with
  | source port =>
    obtain ⟨hingress, hegress⟩ := Prod.mk.inj h
    simp only [Topology.touches, ofClassifier, hingress, hegress]
    cases fc.logicalSource <;> cases fc.logicalDestination <;> simp
  | destination port =>
    obtain ⟨hingress, hegress⟩ := Prod.mk.inj h
    simp only [Topology.touches, ofClassifier, hingress, hegress]
    cases fc.logicalSource <;> cases fc.logicalDestination <;> simp

theorem not_isOf_of_pair {env : TopologyEnv} (h : d.IsPairOf env) : ¬ e.isOf d := by
  obtain ⟨-, -, -, -, -, rfl⟩ := h
  rw [isOf_iff]
  cases e <;> simp [PortDetail.bind, PortDetail.forPair]

end ChainEnd

/-! ## Paths -/

theorem ChainPath.mem_nodes {path : ChainPath} {node : PathNode} :
    node ∈ path.nodes ↔ node = path.head ∨ node ∈ path.hops ∨ node = path.tail := by
  simp [ChainPath.nodes]

theorem ChainPath.head_mem_nodes (path : ChainPath) : path.head ∈ path.nodes :=
  mem_nodes.2 (.inl rfl)

theorem ChainPath.hop_mem_nodes {path : ChainPath} {node : PathNode} (h : node ∈ path.hops) :
    node ∈ path.nodes :=
  mem_nodes.2 (.inr (.inl h))

/-- A node of the path lists a detail. -/
def ChainPath.Lists (path : ChainPath) (nodeId detailId : String) : Prop :=
  ∃ node ∈ path.nodes, node.id = nodeId ∧ detailId ∈ node.portDetails

/-- A path as the topology builds it: a head with a detail for each end of its classifiers, hops with
the details of pairs, and an empty tail; a way back at every node if the classifiers span both
ends. -/
structure ChainPath.Shaped (env : TopologyEnv) (t : Topology) (path : ChainPath) : Prop where
  head_role : path.head.role = .source
  hop_role : ∀ node ∈ path.hops, node.role = .serviceFunction
  tail_role : path.tail.role = .destination
  tail_empty : path.tail.portDetails = []
  length_le : path.hops.length ≤ Topology.maxHops
  nodup : ∀ node ∈ path.nodes, node.portDetails.Nodup
  hop_detail : ∀ node ∈ path.hops, ∀ id ∈ node.portDetails,
    ∃ d, t.details[id]? = some d ∧ d.IsPairOf env
  head_detail : ∀ id ∈ path.head.portDetails,
    ∃ d, t.details[id]? = some d ∧ ∃ e ∈ ChainEnd.ofClassifiers path.classifiers, e.isOf d
  head_end : ∀ e ∈ ChainEnd.ofClassifiers path.classifiers,
    ∃ id ∈ path.head.portDetails, ∃ d, t.details[id]? = some d ∧ e.isOf d
  valid : ∀ fc ∈ path.classifiers, fc.validate env.policy = .ok ()
  reversePath : ∀ node ∈ path.nodes, node.reversePath = Topology.spansBothEnds path.classifiers

namespace Topology

/-! ## Books -/

/-- A node of a live chain lists a detail. -/
def Lists (t : Topology) (nodeId detailId : String) : Prop :=
  ∃ chainId path, t.path? chainId = some path ∧ path.Lists nodeId detailId

/-- Every known detail stands under its id, and is that of a pair or of an end. -/
def Genuine (env : TopologyEnv) (issued : Nat) (t : Topology) : Prop :=
  ∀ (id : String) (d : PortDetail), t.details[id]? = some d →
    d.id = id ∧ (d.IsPairOf env ∨ d.IsEndOf env issued)

/-- The books agree with the paths, and every id stands for one thing. -/
structure Booked (env : TopologyEnv) (t : Topology) : Prop where
  pairs_nodup : t.pairs.Nodup
  pair : ∀ nodeId detailId, (nodeId, detailId) ∈ t.pairs ↔ t.Lists nodeId detailId
  known : ∀ nodeId id, (nodeId, id) ∈ t.pairs → id ∈ t.details
  genuine : Genuine env t.issued t
  end_unique : ∀ (e : ChainEnd) (id id' : String) (d d' : PortDetail),
    t.details[id]? = some d → t.details[id']? = some d' → e.isOf d → e.isOf d' → d = d'
  issued : ∀ chainId path, t.path? chainId = some path → ∀ node ∈ path.nodes,
    ∃ n < t.issued, node.id = env.newId n
  nodes_nodup : ∀ chainId path, t.path? chainId = some path →
    (path.nodes.map PathNode.id).Nodup
  nodes_disjoint : ∀ chainId path chainId' path', t.path? chainId = some path →
    t.path? chainId' = some path' → ∀ node ∈ path.nodes, ∀ node' ∈ path'.nodes,
      node.id = node'.id → chainId = chainId'

/-- The books agree with the paths, every known detail is associated, and every path has the shape
that the topology gives it. -/
structure WellFormed (env : TopologyEnv) (t : Topology) : Prop extends Booked env t where
  associated : ∀ id, id ∈ t.details → ∃ nodeId, (nodeId, id) ∈ t.pairs
  shaped : ∀ chainId path, t.path? chainId = some path → path.Shaped env t

theorem wellFormed_empty (env : TopologyEnv) : WellFormed env {} where
  pairs_nodup := List.nodup_nil
  pair nodeId detailId := by simp [pairs, Lists, path?]
  known nodeId id h := by simp [pairs] at h
  associated id h := by simp at h
  genuine id d h := by simp at h
  end_unique e id id' d d' h := by simp at h
  issued chainId path h := by simp [path?] at h
  nodes_nodup chainId path h := by simp [path?] at h
  nodes_disjoint chainId path chainId' path' h := by simp [path?] at h
  shaped chainId path h := by simp [path?] at h

variable {env : TopologyEnv} {t t' t'' : Topology} {chainId : String} {path : ChainPath}
  {node : PathNode} {d : PortDetail}

theorem mem_nodeDetails :
    d ∈ t.nodeDetails node ↔ ∃ id ∈ node.portDetails, t.details[id]? = some d := by
  simp [nodeDetails]

/-- A detail that a node of a live chain lists is known. -/
theorem Booked.exists_detail (h : Booked env t) (hpath : t.path? chainId = some path)
    (hnode : node ∈ path.nodes) {id : String} (hid : id ∈ node.portDetails) :
    ∃ d, t.details[id]? = some d := by
  have hpair : (node.id, id) ∈ t.pairs :=
    (h.pair _ _).2 ⟨chainId, path, hpath, node, hnode, rfl, hid⟩
  have hknown := h.known _ id hpair
  rwa [Std.ExtTreeMap.mem_iff_isSome_getElem?, Option.isSome_iff_exists] at hknown

/-! ## Direction -/

theorem role_eq_egress : (d.role == .egress) = true ↔ ∃ port, (ChainEnd.source port).isOf d := by
  unfold PortDetail.role
  cases hi : d.ingress <;> cases he : d.egress <;> simp [ChainEnd.isOf_iff, hi, he]

theorem role_eq_ingress :
    (d.role == .ingress) = true ↔ ∃ port, (ChainEnd.destination port).isOf d := by
  unfold PortDetail.role
  cases hi : d.ingress <;> cases he : d.egress <;> simp [ChainEnd.isOf_iff, hi, he]

/-- A head with a detail for each end of some classifiers has a way back if these span both ends. -/
theorem headIsBidirectional_eq {fcs : List FlowClassifier}
    (hdetail : ∀ id ∈ path.head.portDetails,
      ∃ d, t.details[id]? = some d ∧ ∃ e ∈ ChainEnd.ofClassifiers fcs, e.isOf d)
    (hend : ∀ e ∈ ChainEnd.ofClassifiers fcs,
      ∃ id ∈ path.head.portDetails, ∃ d, t.details[id]? = some d ∧ e.isOf d) :
    t.headIsBidirectional path = spansBothEnds fcs := by
  have hany : ∀ (e : String → ChainEnd) (named : FlowClassifier → Option String),
      (∀ port, e port ∈ ChainEnd.ofClassifiers fcs ↔ ∃ fc ∈ fcs, named fc = some port) →
        ((∃ d ∈ t.nodeDetails path.head, ∃ port, (e port).isOf d) ↔
          ∃ fc ∈ fcs, (named fc).isSome) := by
    intro e named hnamed
    constructor
    · rintro ⟨d, hd, port, hof⟩
      obtain ⟨id, hid, hd⟩ := mem_nodeDetails.1 hd
      obtain ⟨d', hd', e', he', hof'⟩ := hdetail id hid
      obtain rfl := Option.some.inj (hd.symm.trans hd')
      obtain rfl := ChainEnd.isOf_unique hof hof'
      obtain ⟨fc, hfc, hport⟩ := (hnamed port).1 he'
      exact ⟨fc, hfc, by simp [hport]⟩
    · rintro ⟨fc, hfc, hsome⟩
      obtain ⟨port, hport⟩ := Option.isSome_iff_exists.1 hsome
      obtain ⟨id, hid, d, hd, hof⟩ := hend (e port) ((hnamed port).2 ⟨fc, hfc, hport⟩)
      exact ⟨d, mem_nodeDetails.2 ⟨id, hid, hd⟩, port, hof⟩
  have hsource := hany ChainEnd.source (·.logicalSource) fun port => by
    simp [ChainEnd.mem_ofClassifiers, ChainEnd.ofClassifier]
  have hdestination := hany ChainEnd.destination (·.logicalDestination) fun port => by
    simp [ChainEnd.mem_ofClassifiers, ChainEnd.ofClassifier]
  rw [Bool.eq_iff_iff]
  simp only [headIsBidirectional, isBidirectional, spansBothEnds, Bool.and_eq_true,
    List.any_eq_true, role_eq_egress, role_eq_ingress, hsource, hdestination]

/-! ## What a path depends on -/

/-- The details of a path's nodes are the same, and the tags of their networks are still held. -/
structure Retains (t t' : Topology) (path : ChainPath) : Prop where
  detail : ∀ node ∈ path.nodes, ∀ id ∈ node.portDetails, t'.details[id]? = t.details[id]?
  tag : ∀ node ∈ path.nodes, ∀ d ∈ t.nodeDetails node, ∀ (vni : UInt32) (tag : SegmentId),
    d.vni? = some vni → t.tags[vni]? = some tag → t'.tags[vni]? = some tag

theorem Retains.refl (t : Topology) (path : ChainPath) : Retains t t path :=
  ⟨fun _ _ _ _ => rfl, fun _ _ _ _ _ _ _ h => h⟩

theorem Retains.nodeDetails (h : Retains t t' path) (hnode : node ∈ path.nodes) :
    t'.nodeDetails node = t.nodeDetails node :=
  List.filterMap_congr fun id hid => h.detail node hnode id hid

theorem Retains.trans (h : Retains t t' path) (h' : Retains t' t'' path) :
    Retains t t'' path where
  detail node hnode id hid := (h'.detail node hnode id hid).trans (h.detail node hnode id hid)
  tag node hnode d hd vni tag hvni htag :=
    h'.tag node hnode d (h.nodeDetails hnode ▸ hd) vni tag hvni (h.tag node hnode d hd vni tag hvni htag)

end Topology

/-- The head of a shaped path has both ends if its classifiers span them. -/
theorem ChainPath.Shaped.headIsBidirectional_eq {env : TopologyEnv} {t : Topology}
    {path : ChainPath} (h : path.Shaped env t) :
    t.headIsBidirectional path = Topology.spansBothEnds path.classifiers :=
  Topology.headIsBidirectional_eq h.head_detail h.head_end

/-- A detail at a node that is not the head is that of a pair. -/
theorem ChainPath.Shaped.isPairOf {env : TopologyEnv} {t : Topology} {path : ChainPath}
    {node : PathNode} {d : PortDetail} (h : path.Shaped env t) (hnode : node ∈ path.nodes)
    (hd : d ∈ t.nodeDetails node) (hrole : node.role ≠ .source) : d.IsPairOf env := by
  obtain ⟨id, hid, hd⟩ := Topology.mem_nodeDetails.1 hd
  rcases ChainPath.mem_nodes.1 hnode with rfl | hnode | rfl
  · exact absurd h.head_role hrole
  · obtain ⟨d', hd', hpair⟩ := h.hop_detail node hnode id hid
    obtain rfl := Option.some.inj (hd.symm.trans hd')
    exact hpair
  · rw [h.tail_empty] at hid
    cases hid

theorem ChainPath.Shaped.of_retains {env : TopologyEnv} {t t' : Topology} {path : ChainPath}
    (h : path.Shaped env t) (hr : Topology.Retains t t' path) : path.Shaped env t' :=
  { h with
    hop_detail := fun node hnode id hid => by
      rw [hr.detail node (ChainPath.hop_mem_nodes hnode) id hid]
      exact h.hop_detail node hnode id hid
    head_detail := fun id hid => by
      rw [hr.detail _ path.head_mem_nodes id hid]
      exact h.head_detail id hid
    head_end := fun e he => by
      obtain ⟨id, hid, d, hd, hof⟩ := h.head_end e he
      exact ⟨id, hid, d, (hr.detail _ path.head_mem_nodes id hid).trans hd, hof⟩ }

end ServiceChain
