import ServiceChain.Proofs.Topology.Interference

/-!
# What the books say

In every topology that calls lead to, also failing ones, the associations are those of the nodes of live
chains, and the known details are those that are associated (`Accounts`).  The head of a chain has one detail
for each logical port that its classifiers name, and every node knows whether they name ports on both sides
(`ChainPath.Accounts`).  All this is read off the invariant `WellFormed`, which speaks of ends of traffic
(`ChainEnd`) where the books speak of ports.
-/

namespace ServiceChain

/-! ## Details of logical ports -/

namespace PortDetail

/-- Traffic leaves by the port, and does not enter. -/
def IsEgressOnly (d : PortDetail) (port : String) : Prop := d.ingress = none ∧ d.egress = some port

/-- Traffic enters by the port, and does not leave. -/
def IsIngressOnly (d : PortDetail) (port : String) : Prop := d.ingress = some port ∧ d.egress = none

/-- Traffic leaves by the logical source of a classifier, or enters by its logical destination. -/
def IsNamedBy (d : PortDetail) (fc : FlowClassifier) : Prop :=
  ∃ port, fc.logicalSource = some port ∧ d.IsEgressOnly port ∨
    fc.logicalDestination = some port ∧ d.IsIngressOnly port

variable {d : PortDetail} {port : String} {fc : FlowClassifier}

theorem isEgressOnly_iff : d.IsEgressOnly port ↔ (ChainEnd.source port).isOf d := by
  simp [IsEgressOnly, ChainEnd.isOf]

theorem isIngressOnly_iff : d.IsIngressOnly port ↔ (ChainEnd.destination port).isOf d := by
  simp [IsIngressOnly, ChainEnd.isOf]

theorem isNamedBy_iff : d.IsNamedBy fc ↔ ∃ e ∈ ChainEnd.ofClassifier fc, e.isOf d := by
  simp only [IsNamedBy, isEgressOnly_iff, isIngressOnly_iff, ChainEnd.ofClassifier, List.mem_append,
    Option.mem_toList, Option.map_eq_some_iff]
  constructor
  · rintro ⟨port, ⟨hport, hof⟩ | ⟨hport, hof⟩⟩
    · exact ⟨_, .inl ⟨port, hport, rfl⟩, hof⟩
    · exact ⟨_, .inr ⟨port, hport, rfl⟩, hof⟩
  · rintro ⟨e, ⟨port, hport, rfl⟩ | ⟨port, hport, rfl⟩, hof⟩
    · exact ⟨port, .inl ⟨hport, hof⟩⟩
    · exact ⟨port, .inr ⟨hport, hof⟩⟩

end PortDetail

/-! ## Books -/

/-- The head of a path lists, each once, the details of the logical ports that the classifiers name, and
every node has a way back if they name a source and a destination. -/
structure ChainPath.Accounts (t : Topology) (path : ChainPath) : Prop where
  head_nodup : path.head.portDetails.Nodup
  mem_head_iff : ∀ id, id ∈ path.head.portDetails ↔
    ∃ d, t.details[id]? = some d ∧ ∃ fc ∈ path.classifiers, d.IsNamedBy fc
  source_listed : ∀ fc ∈ path.classifiers, ∀ port, fc.logicalSource = some port →
    ∃ id ∈ path.head.portDetails, ∃ d, t.details[id]? = some d ∧ d.IsEgressOnly port
  destination_listed : ∀ fc ∈ path.classifiers, ∀ port, fc.logicalDestination = some port →
    ∃ id ∈ path.head.portDetails, ∃ d, t.details[id]? = some d ∧ d.IsIngressOnly port
  reversePath : ∀ node ∈ path.nodes, node.reversePath = true ↔
    (∃ fc ∈ path.classifiers, fc.logicalSource.isSome) ∧
      ∃ fc ∈ path.classifiers, fc.logicalDestination.isSome

namespace Topology

/-- The books of a topology tell of its live chains and of nothing else. -/
structure Accounts (t : Topology) : Prop where
  pairs_nodup : (t.assocs.map fun a => (a.nodeId, a.detailId)).Nodup
  assoc_iff : ∀ nodeId id, (∃ a ∈ t.assocs, a.nodeId = nodeId ∧ a.detailId = id) ↔
    ∃ chainId path, t.path? chainId = some path ∧
      ∃ node ∈ path.nodes, node.id = nodeId ∧ id ∈ node.portDetails
  known_iff : ∀ id, id ∈ t.details ↔ ∃ a ∈ t.assocs, a.detailId = id
  egress_unique : ∀ (port id id' : String) (d d' : PortDetail), t.details[id]? = some d →
    t.details[id']? = some d' → d.IsEgressOnly port → d'.IsEgressOnly port → id = id'
  ingress_unique : ∀ (port id id' : String) (d d' : PortDetail), t.details[id]? = some d →
    t.details[id']? = some d' → d.IsIngressOnly port → d'.IsIngressOnly port → id = id'
  path : ∀ chainId path, t.path? chainId = some path → path.Accounts t

variable {env : TopologyEnv} {t : Topology} {chainId : String} {path : ChainPath}

/-! ## Reading off the invariant -/

theorem mem_pairs {nodeId id : String} :
    (nodeId, id) ∈ t.pairs ↔ ∃ a ∈ t.assocs, a.nodeId = nodeId ∧ a.detailId = id := by
  simp [pairs]

/-- An end has one detail at most, so it has one id. -/
theorem Booked.id_unique (h : Booked env t) {e : ChainEnd} {id id' : String} {d d' : PortDetail}
    (hd : t.details[id]? = some d) (hd' : t.details[id']? = some d') (he : e.isOf d)
    (he' : e.isOf d') : id = id' := by
  have hsame := h.end_unique e id id' d d' hd hd' he he'
  rw [← (h.genuine id d hd).1, ← (h.genuine id' d' hd').1, hsame]

theorem WellFormed.accounts_path (h : WellFormed env t) (hpath : t.path? chainId = some path) :
    path.Accounts t := by
  have hshaped := h.shaped chainId path hpath
  -- a port that a classifier names is an end, for which the head has a detail
  have hlisted : ∀ fc ∈ path.classifiers, ∀ e ∈ ChainEnd.ofClassifier fc,
      ∃ id ∈ path.head.portDetails, ∃ d, t.details[id]? = some d ∧ e.isOf d := fun fc hfc e he =>
    hshaped.head_end e (ChainEnd.mem_ofClassifiers.2 ⟨fc, hfc, he⟩)
  refine
    { head_nodup := hshaped.nodup _ path.head_mem_nodes
      mem_head_iff := fun id => ⟨fun hid => ?_, ?_⟩
      source_listed := fun fc hfc port hport => ?_
      destination_listed := fun fc hfc port hport => ?_
      reversePath := fun node hnode => ?_ }
  · obtain ⟨d, hd, e, he, hof⟩ := hshaped.head_detail id hid
    obtain ⟨fc, hfc, he⟩ := ChainEnd.mem_ofClassifiers.1 he
    exact ⟨d, hd, fc, hfc, PortDetail.isNamedBy_iff.2 ⟨e, he, hof⟩⟩
  · rintro ⟨d, hd, fc, hfc, hnamed⟩
    obtain ⟨e, he, hof⟩ := PortDetail.isNamedBy_iff.1 hnamed
    obtain ⟨id', hid', d', hd', hof'⟩ := hlisted fc hfc e he
    rw [h.toBooked.id_unique hd hd' hof hof']
    exact hid'
  · simp only [PortDetail.isEgressOnly_iff]
    exact hlisted fc hfc _ (by simp [ChainEnd.ofClassifier, hport])
  · simp only [PortDetail.isIngressOnly_iff]
    exact hlisted fc hfc _ (by simp [ChainEnd.ofClassifier, hport])
  · rw [hshaped.reversePath node hnode]
    simp [spansBothEnds]

theorem WellFormed.accounts (h : WellFormed env t) : t.Accounts where
  pairs_nodup := h.pairs_nodup
  assoc_iff nodeId id := by
    rw [← mem_pairs, h.pair]
    rfl
  known_iff id := by
    constructor
    · intro hid
      obtain ⟨nodeId, hpair⟩ := h.associated id hid
      obtain ⟨a, ha, -, hdetail⟩ := mem_pairs.1 hpair
      exact ⟨a, ha, hdetail⟩
    · rintro ⟨a, ha, rfl⟩
      exact h.known a.nodeId a.detailId (mem_pairs.2 ⟨a, ha, rfl, rfl⟩)
  egress_unique port id id' d d' hd hd' hof hof' :=
    h.toBooked.id_unique hd hd' (PortDetail.isEgressOnly_iff.1 hof) (PortDetail.isEgressOnly_iff.1 hof')
  ingress_unique port id id' d d' hd hd' hof hof' :=
    h.toBooked.id_unique hd hd' (PortDetail.isIngressOnly_iff.1 hof)
      (PortDetail.isIngressOnly_iff.1 hof')
  path _ _ hpath := h.accounts_path hpath

/-- The books are right wherever calls lead, whether they succeed or fail. -/
theorem accounts_of_reachable (hlaw : env.Lawful) (hreach : Reachable env t) : t.Accounts :=
  (hreach.wellFormed hlaw).accounts

/-- Of two chains on one port pair, one was changed, and a third was refused beside them. -/
theorem crossingMiddle_accounts : crossingMiddle.Accounts ∧
    crossingMiddle.assocs.map (fun a => (a.nodeId, a.detailId)) =
      [("nn", "p"), ("n", ""), ("nnnnnnnnnnn", "p"), ("nnnnnnnnnn", "nnnnnnnn"),
        ("nnnnnnnnnn", "nnnnnnnnn")] := by
  have hreach : Reachable crossingEnv crossingMiddle :=
    ((crossingStart_reachable.answer _).answer _).answer _
  exact ⟨accounts_of_reachable crossingEnv_lawful hreach, by decide +kernel⟩

end Topology

end ServiceChain
