import ServiceChain.Proofs.Rule.Inverse
import ServiceChain.Proofs.Rule.Steps

/-!
# Classifiers of IPv6 traffic

A classifier of IPv6 traffic has no match fields and no destination, so no entry is about its traffic.
But a side of a hop reads more of its classifiers than their traffic.  Without a next-hop group it asks
whether there is any; before a group the egress side takes the first destination address that one of them
has, and the ingress side the sources of the first (`Delivery`).  A classifier of IPv6 traffic changes the
installation just if it changes one of these (`FlowRule.installOps_insert_iff`).
-/

namespace ServiceChain

namespace FlowClassifier

variable {fc : FlowClassifier}

theorem matchFields_of_ipv6 (h : fc.etherType = .ipv6) : fc.matchFields = .ok [] := by
  unfold matchFields
  rw [h]

theorem v4Destination?_of_ipv6 (h : fc.etherType = .ipv6) : fc.v4Destination? = none := by
  unfold v4Destination?
  rw [h]

end FlowClassifier

namespace FlowRule

/-- The rule with other classifiers to install. -/
def adding (r : FlowRule) (fcs : List FlowClassifier) : FlowRule := { r with addFcs := fcs }

/-- What an ingress side before a group delivers: to which port, from which sources, and under which
address. -/
structure Delivery where
  port : Port
  sources : Ipv4Net
  mac : Option MacAddress

/-- The entry that delivers. -/
def Delivery.entry (segment : SegmentId) (d : Delivery) : FlowEntry :=
  ⟨⟨.chainIngress, Priority.steering, { taggedFor segment d.port.mac with nwSrc := some d.sources }⟩,
    [.stripVlan] ++ (d.mac.map FlowAction.modDlSrc).toList ++ [.output d.port.number]⟩

/-- The entry that hands tagged traffic over for it. -/
def Delivery.handover (segment : SegmentId) (d : Delivery) : FlowEntry :=
  ⟨⟨.localSwitching, Priority.steering, taggedFor segment d.port.mac⟩, [.resubmit .chainIngress]⟩

/-- The operations that install the two entries. -/
def Delivery.ops (segment : SegmentId) (d : Delivery) : List BridgeOp :=
  [.addFlow (d.entry segment), .addFlow (d.handover segment)]

/-- The delivery of an ingress side before a group, if the first classifier's sources are IPv4. -/
def sideDeliveries (ports : PortTable) (r : FlowRule) (fcs : List FlowClassifier) : List Delivery :=
  match r.ingressPort ports, fcs with
  | .ok port, fc :: _ => (IpNet.v4OrAny? fc.sourceNet).toList.map fun nwSrc => ⟨port, nwSrc, fc.sourceMac⟩
  | _, _ => []

/-- What one pass over a rule before a group delivers. -/
def passDeliveries (ports : PortTable) (r : FlowRule) (fcs : List FlowClassifier) (p : Pass) :
    List Delivery :=
  match p.side with
  | .egress => []
  | .ingress => (r.seenBy p).sideDeliveries ports (p.turn fcs)

/-- What a rule before a group delivers, pass by pass. -/
def deliveries (ports : PortTable) (r : FlowRule) (fcs : List FlowClassifier) : List Delivery :=
  r.installPasses.flatMap (r.passDeliveries ports fcs)

/-- The egress sides of a rule before a group read the same address from both lists of classifiers. -/
def SameAddresses (r : FlowRule) (fcs fcs' : List FlowClassifier) : Prop :=
  ∀ p ∈ r.installPasses, p.side = .egress →
    (p.turn fcs).findSome? (·.destinationMac) = (p.turn fcs').findSome? (·.destinationMac)

/-- The rule has no ingress side in any direction, and the address of its node is known. -/
def OnlyLeaves (ports : PortTable) (r : FlowRule) : Prop :=
  ∀ p ∈ r.installPasses, p.side = .egress ∧ ∃ mac, (r.seenBy p).nodeMac ports = .ok mac

/-- What the sides of a rule read of their classifiers, apart from their traffic, is the same without
one of them. -/
def Overlooks (ports : PortTable) (r : FlowRule) (pre : List FlowClassifier) (fc : FlowClassifier)
    (post : List FlowClassifier) : Prop :=
  match r.activeGroup with
  | none => pre ++ post ≠ [] ∨ r.OnlyLeaves ports
  | some _ => r.SameAddresses (pre ++ fc :: post) (pre ++ post) ∧
      r.deliveries ports (pre ++ fc :: post) = r.deliveries ports (pre ++ post)

variable {ctx : HostContext} {ports : PortTable} {r : FlowRule} {fcs pre post : List FlowClassifier}
  {fc : FlowClassifier} {entries : List FlowEntry} {ops : List BridgeOp} {group : NextHopGroup}

/-! ## The sides of a hop -/

theorem classificationEntries_insert (h : fc.etherType = .ipv6) :
    r.classificationEntries ports (pre ++ fc :: post) = r.classificationEntries ports (pre ++ post) := by
  have hmapM : ((pre ++ fc :: post).mapM FlowClassifier.matchFields).map List.flatten =
      ((pre ++ post).mapM FlowClassifier.matchFields).map List.flatten := by
    rw [List.mapM_append, List.mapM_append, List.mapM_cons, FlowClassifier.matchFields_of_ipv6 h]
    cases pre.mapM FlowClassifier.matchFields with
    | error e => rfl
    | ok before =>
      cases post.mapM FlowClassifier.matchFields with
      | error e => rfl
      | ok after => simp [bind, Except.bind, pure, Except.pure, Except.map]
  unfold classificationEntries
  cases r.inboundPort ports with
  | error e => rfl
  | ok inPort =>
    cases hwith : (pre ++ fc :: post).mapM FlowClassifier.matchFields <;>
      cases hwithout : (pre ++ post).mapM FlowClassifier.matchFields <;>
      rw [hwith, hwithout] at hmapM <;>
      simp_all [Except.map, Except.mapError, bind, Except.bind, pure, Except.pure]

theorem exists_sourceEntries_iff :
    (∃ entries, r.sourceEntries ctx ports fcs = .ok entries) ↔
      (∃ inPort, r.inboundPort ports = .ok inPort) ∧
        (r.activeGroup = none → fcs ≠ [] → ∃ mac, r.nodeMac ports = .ok mac) := by
  unfold sourceEntries
  cases r.inboundPort ports with
  | error e => simp [bind, Except.bind]
  | ok inPort =>
    cases r.activeGroup with
    | some group => simp [bind, Except.bind]
    | none =>
      cases fcs with
      | nil => simp [bind, Except.bind]
      | cons fc fcs => cases r.nodeMac ports <;> simp [bind, Except.bind]

theorem exists_egressEntries_iff :
    (∃ entries, r.egressEntries ctx ports fcs = .ok entries) ↔
      (r.role = .source → ∃ entries, r.classificationEntries ports fcs = .ok entries) ∧
        ∃ entries, r.sourceEntries ctx ports fcs = .ok entries := by
  simp only [egressEntries_eq_ok]
  constructor
  · rintro ⟨_, classification, source, hclassify, -, hsource, rfl⟩
    exact ⟨fun hrole => ⟨_, hclassify hrole⟩, _, hsource⟩
  · rintro ⟨hclassify, source, hsource⟩
    by_cases hrole : r.role = .source
    · obtain ⟨classification, hclassify⟩ := hclassify hrole
      exact ⟨_, _, _, fun _ => hclassify, fun h => absurd hrole h, hsource, rfl⟩
    · exact ⟨_, [], _, fun h => absurd h hrole, fun _ => rfl, hsource, rfl⟩

theorem exists_destinationEntries_iff :
    (∃ entries, r.destinationEntries ctx ports fcs = .ok entries) ↔
      ∃ port, r.ingressPort ports = .ok port := by
  unfold destinationEntries
  cases r.ingressPort ports with
  | error e => simp [bind, Except.bind]
  | ok port => cases r.activeGroup <;> cases fcs <;> simp [bind, Except.bind]

/-- Without a group, the egress side overlooks the classifier if another is there, or if the address of
the node is known. -/
theorem egressEntries_insert (h : fc.etherType = .ipv6) (hgroup : r.activeGroup = none)
    (hread : pre ++ post ≠ [] ∨ ∃ mac, r.nodeMac ports = .ok mac) :
    r.egressEntries ctx ports (pre ++ fc :: post) = r.egressEntries ctx ports (pre ++ post) := by
  have hsource : r.sourceEntries ctx ports (pre ++ fc :: post) =
      r.sourceEntries ctx ports (pre ++ post) := by
    have hsteer : ∀ mac, (pre ++ fc :: post).filterMap (r.steeringEntry? ctx ports mac) =
        (pre ++ post).filterMap (r.steeringEntry? ctx ports mac) := by
      intro mac
      simp [List.filterMap_append, steeringEntry?,
        FlowClassifier.v4Destination?_of_ipv6 h]
    have hsome : (pre ++ fc :: post).isEmpty = false := by simp
    simp only [sourceEntries, hgroup, hsome, hsteer]
    cases hempty : (pre ++ post).isEmpty with
    | false => rfl
    | true =>
      obtain ⟨mac, hmac⟩ := hread.resolve_left (by simpa using hempty)
      rw [List.isEmpty_iff.1 hempty, hmac]
      cases r.inboundPort ports with
      | error e => rfl
      | ok inPort => simp [bind, Except.bind]
  simp only [egressEntries, classificationEntries_insert h, hsource]

/-- Without a group, the ingress side overlooks the classifier if another is there. -/
theorem destinationEntries_insert (h : fc.etherType = .ipv6) (hgroup : r.activeGroup = none)
    (hne : pre ++ post ≠ []) :
    r.destinationEntries ctx ports (pre ++ fc :: post) =
      r.destinationEntries ctx ports (pre ++ post) := by
  have heq : ∀ {fcs : List FlowClassifier}, fcs ≠ [] → r.destinationEntries ctx ports fcs =
      (r.ingressPort ports).map fun port =>
        fcs.filterMap (r.deliveryEntry? port) ++ [r.transportEntry ctx port] := by
    intro fcs hne
    obtain ⟨fc, fcs, rfl⟩ := List.exists_cons_of_ne_nil hne
    simp only [destinationEntries, hgroup]
    cases r.ingressPort ports <;> rfl
  have hdeliver : ∀ port, r.deliveryEntry? port fc = none := by
    intro port
    unfold deliveryEntry?
    rw [FlowClassifier.v4Destination?_of_ipv6 h]
    rfl
  rw [heq (by simp), heq hne]
  simp [List.filterMap_append, hdeliver]

/-- Before a group, the egress side overlooks the classifier if it leaves the first address as it is. -/
theorem egressEntries_insert_of_group (h : fc.etherType = .ipv6) (hgroup : r.activeGroup = some group)
    (haddress : (pre ++ fc :: post).findSome? (·.destinationMac) =
      (pre ++ post).findSome? (·.destinationMac)) :
    r.egressEntries ctx ports (pre ++ fc :: post) = r.egressEntries ctx ports (pre ++ post) := by
  simp only [egressEntries, classificationEntries_insert h, sourceEntries, hgroup,
    groupSteeringEntries, haddress]

/-! ## Before a group -/

theorem destinationEntries_of_group (hgroup : r.activeGroup = some group) :
    r.destinationEntries ctx ports fcs = (r.ingressPort ports).map fun _ =>
      (r.sideDeliveries ports fcs).flatMap fun d => [d.entry r.segment, d.handover r.segment] := by
  unfold destinationEntries sideDeliveries
  rw [hgroup]
  cases r.ingressPort ports with
  | error e => rfl
  | ok port =>
    cases fcs with
    | nil => rfl
    | cons fc fcs =>
      simp only [groupDeliveryEntries, bind, Except.bind, pure, Except.pure, Except.map]
      cases IpNet.v4OrAny? fc.sourceNet <;> rfl

/-- An address is read from the longer list if one is read from the shorter. -/
theorem length_groupSteeringEntries_le {inPort : Option UInt32} :
    (r.groupSteeringEntries group inPort (pre ++ post)).length ≤
      (r.groupSteeringEntries group inPort (pre ++ fc :: post)).length := by
  have hnone : (pre ++ fc :: post).findSome? (·.destinationMac) = none →
      (pre ++ post).findSome? (·.destinationMac) = none := by
    simp only [List.findSome?_eq_none_iff, List.mem_append, List.mem_cons]
    intro hall other hother
    exact hall other (hother.imp_right .inr)
  simp only [groupSteeringEntries]
  cases hwith : (pre ++ fc :: post).findSome? (·.destinationMac) with
  | none => exact Nat.le_of_eq (by rw [hnone hwith])
  | some mac =>
    simp only [Option.isNone_some, Bool.and_false, Bool.false_eq_true, if_false]
    split <;> simp

/-- The entry to a group tells which address was read. -/
theorem eq_of_groupSteeringEntries {inPort : Option UInt32} {fcs' : List FlowClassifier}
    (h : r.groupSteeringEntries group inPort fcs = r.groupSteeringEntries group inPort fcs') :
    fcs.findSome? (·.destinationMac) = fcs'.findSome? (·.destinationMac) := by
  simp only [groupSteeringEntries] at h
  generalize fcs.findSome? (·.destinationMac) = dlDst at h ⊢
  generalize fcs'.findSome? (·.destinationMac) = dlDst' at h ⊢
  cases dlDst <;> cases dlDst' <;> cases inPort <;> simp_all

/-! ## The passes of a rule -/

variable {p : Pass}

theorem Pass.turn_append (p : Pass) (fcs fcs' : List FlowClassifier) :
    p.turn (fcs ++ fcs') = p.turn fcs ++ p.turn fcs' := by
  unfold turn
  split <;> simp

theorem Pass.turn_eq_nil {p : Pass} : p.turn fcs = [] ↔ fcs = [] := by
  unfold turn
  split <;> simp

/-- A pass keeps the place of a classifier and the kind of its traffic. -/
theorem Pass.exists_turn_insert (p : Pass) (pre : List FlowClassifier) (fc : FlowClassifier)
    (post : List FlowClassifier) :
    ∃ seen : FlowClassifier, seen.etherType = fc.etherType ∧
      p.turn (pre ++ fc :: post) = p.turn pre ++ seen :: p.turn post := by
  unfold turn
  split
  · exact ⟨fc.reversed, rfl, by simp⟩
  · exact ⟨fc, rfl, rfl⟩

theorem passEntries_insert (h : fc.etherType = .ipv6) (hgroup : r.activeGroup = none)
    (hread : pre ++ post ≠ [] ∨ p.side = .egress ∧ ∃ mac, (r.seenBy p).nodeMac ports = .ok mac) :
    r.passEntries ctx ports (pre ++ fc :: post) p = r.passEntries ctx ports (pre ++ post) p := by
  obtain ⟨seen, hkind, hturn⟩ := p.exists_turn_insert pre fc post
  have hseen : seen.etherType = .ipv6 := hkind.trans h
  have hactive : (r.seenBy p).activeGroup = none := by rw [seenBy_activeGroup, hgroup]
  have hne : pre ++ post ≠ [] → p.turn pre ++ p.turn post ≠ [] := by
    intro hne hnil
    rw [← Pass.turn_append, Pass.turn_eq_nil] at hnil
    exact hne hnil
  unfold passEntries
  rw [hturn, p.turn_append]
  cases hside : p.side with
  | egress => exact egressEntries_insert hseen hactive (hread.imp hne And.right)
  | ingress =>
    refine destinationEntries_insert hseen hactive (hne (hread.resolve_right ?_))
    rintro ⟨hegress, -⟩
    cases hside.symm.trans hegress

theorem passEntries_insert_of_group (h : fc.etherType = .ipv6) (hgroup : r.activeGroup = some group)
    (hegress : p.side = .egress)
    (haddress : (p.turn (pre ++ fc :: post)).findSome? (·.destinationMac) =
      (p.turn (pre ++ post)).findSome? (·.destinationMac)) :
    r.passEntries ctx ports (pre ++ fc :: post) p = r.passEntries ctx ports (pre ++ post) p := by
  obtain ⟨seen, hkind, hturn⟩ := p.exists_turn_insert pre fc post
  have hseen : seen.etherType = .ipv6 := hkind.trans h
  have hactive : (r.seenBy p).activeGroup = some group := by rw [seenBy_activeGroup, hgroup]
  unfold passEntries
  rw [hturn, p.turn_append] at haddress ⊢
  rw [hegress]
  exact egressEntries_insert_of_group hseen hactive haddress

/-- With the classifier a pass has entries just if it has some without it, and without a group it also
needs the address of the node. -/
theorem exists_passEntries_insert_iff (h : fc.etherType = .ipv6) :
    (∃ entries, r.passEntries ctx ports (pre ++ fc :: post) p = .ok entries) ↔
      (∃ entries, r.passEntries ctx ports (pre ++ post) p = .ok entries) ∧
        (r.activeGroup = none → p.side = .egress → ∃ mac, (r.seenBy p).nodeMac ports = .ok mac) := by
  obtain ⟨seen, hkind, hturn⟩ := p.exists_turn_insert pre fc post
  have hseen : seen.etherType = .ipv6 := hkind.trans h
  unfold passEntries
  rw [hturn, p.turn_append]
  cases p.side with
  | ingress => simp [exists_destinationEntries_iff]
  | egress =>
    simp only [exists_egressEntries_iff, exists_sourceEntries_iff, classificationEntries_insert hseen,
      seenBy_activeGroup]
    constructor
    · rintro ⟨hclassify, hport, hmac⟩
      exact ⟨⟨hclassify, hport, fun hgroup _ => hmac hgroup (by simp)⟩,
        fun hgroup _ => hmac hgroup (by simp)⟩
    · rintro ⟨⟨hclassify, hport, -⟩, hmac⟩
      exact ⟨hclassify, hport, fun hgroup _ => hmac hgroup trivial⟩

theorem passEntries_adding (fcs : List FlowClassifier) (p : Pass) :
    (r.adding fcs).passEntries ctx ports ((r.adding fcs).classifiers true) p =
      r.passEntries ctx ports fcs p :=
  (passEntries_hop (r.adding fcs) p).symm.trans (passEntries_hop r p)

theorem passOps_adding (p : Pass) :
    (r.adding fcs).passOps ctx ports true p = (r.passEntries ctx ports fcs p).map fun entries =>
      r.passGroupOps ctx true p ++ BridgeOp.flows true entries := by
  rw [passOps_eq, passEntries_adding]
  rfl

theorem exists_installOps_adding_iff :
    (∃ ops, (r.adding fcs).installOps ctx ports = .ok ops) ↔
      ∀ p ∈ r.installPasses, ∃ entries, r.passEntries ctx ports fcs p = .ok entries := by
  constructor
  · rintro ⟨ops, hops⟩ p hp
    obtain ⟨entries, hentries⟩ := exists_passEntries hops hp
    exact ⟨entries, (passEntries_adding fcs p).symm.trans hentries⟩
  · intro h
    refine exists_passesOps fun p hp => ?_
    obtain ⟨entries, hentries⟩ := h p hp
    exact ⟨entries, (passEntries_adding fcs p).trans hentries⟩

/-- A classifier more does not make a rule compile. -/
theorem exists_installOps_of_insert (h : fc.etherType = .ipv6)
    (hops : (r.adding (pre ++ fc :: post)).installOps ctx ports = .ok ops) :
    ∃ ops, (r.adding (pre ++ post)).installOps ctx ports = .ok ops := by
  rw [exists_installOps_adding_iff]
  intro p hp
  exact ((exists_passEntries_insert_iff h).1 (exists_installOps_adding_iff.1 ⟨_, hops⟩ p hp)).1

theorem installOps_adding_congr {fcs' : List FlowClassifier}
    (h : ∀ p ∈ r.installPasses, r.passEntries ctx ports fcs p = r.passEntries ctx ports fcs' p) :
    (r.adding fcs).installOps ctx ports = (r.adding fcs').installOps ctx ports := by
  unfold installOps passesOps
  refine congrArg (Except.map List.flatten) (Except.mapM_congr fun p hp => ?_)
  rw [passOps_adding, passOps_adding, h p hp]

/-! ## Without a group -/

/-- Traffic from the transport port is handed over only by a rule with classifiers. -/
theorem Emits.addFcs_ne_nil {entry : FlowEntry} (h : r.Emits ctx ports .transport entry) :
    r.addFcs ≠ [] := by
  cases h with
  | @pass p _ _ _ h =>
    generalize hfcs : p.turn r.addFcs = fcs at h
    generalize p.side = side at h
    cases h with
    | transport _ _ hfc =>
      rw [Ne, ← Pass.turn_eq_nil (p := p), hfcs]
      exact List.ne_nil_of_mem hfc

/-- If the rule had no other classifier, the entry for traffic from the transport port is missed without
it, and the address of the node is not asked for. -/
theorem onlyLeaves_of_alone (h : fc.etherType = .ipv6) (hgroup : r.activeGroup = none)
    (hops : (r.adding [fc]).installOps ctx ports = .ok ops)
    (halone : (r.adding []).installOps ctx ports = .ok ops) : r.OnlyLeaves ports := by
  intro p hp
  cases hside : p.side with
  | egress =>
    have hpass : ∃ entries, r.passEntries ctx ports ([] ++ fc :: []) p = .ok entries :=
      exists_installOps_adding_iff.1 ⟨ops, hops⟩ p hp
    exact ⟨rfl, ((exists_passEntries_insert_iff h).1 hpass).2 hgroup hside⟩
  | ingress =>
    exfalso
    obtain ⟨port, hport⟩ : ∃ port, ((r.adding [fc]).seenBy p).ingressPort ports = .ok port := by
      obtain ⟨entries, hentries⟩ := exists_passEntries hops hp
      unfold passEntries at hentries
      rw [hside] at hentries
      exact exists_destinationEntries_iff.1 ⟨_, hentries⟩
    obtain ⟨seen, hseen⟩ := List.exists_mem_of_ne_nil (p.turn [fc])
      (Pass.turn_eq_nil.not.2 (List.cons_ne_nil fc []))
    have hemits : (r.adding [fc]).Emits ctx ports .transport
        (((r.adding [fc]).seenBy p).transportEntry ctx port) := by
      refine .pass hp ?_
      rw [hside]
      exact .transport ((seenBy_activeGroup p).trans hgroup) hport hseen
    have hmem := (addFlow_mem_installOps hops).2 ⟨_, rfl, hemits⟩
    obtain ⟨step, -, hagain⟩ := (addFlow_mem_installOps halone).1 hmem
    obtain rfl : step = .transport := hagain.step_key.symm.trans hemits.step_key
    exact hagain.addFcs_ne_nil rfl

/-! ## The operations before a group -/

/-- The entry that an operation installs, if it is of the step. -/
def stepEntries (step : Step) (op : BridgeOp) : List FlowEntry :=
  op.entry?.toList.filter (·.key.step = step)

/-- The entry of a pass that steers to the group. -/
def passSteering (ports : PortTable) (r : FlowRule) (group : NextHopGroup) (fcs : List FlowClassifier)
    (p : Pass) : List FlowEntry :=
  match p.side, (r.seenBy p).inboundPort ports with
  | .egress, .ok inPort => (r.seenBy p).groupSteeringEntries group inPort (p.turn fcs)
  | _, _ => []

theorem stepEntries_flows (step : Step) (entries : List FlowEntry) :
    (BridgeOp.flows true entries).flatMap (stepEntries step) =
      entries.filter (·.key.step = step) := by
  induction entries with
  | nil => rfl
  | cons entry entries ih =>
    rw [BridgeOp.flows, List.map_cons, List.flatMap_cons, List.filter_cons, ← BridgeOp.flows, ih]
    simp only [stepEntries, BridgeOp.flow_true, BridgeOp.entry?, Option.toList_some, List.filter_cons,
      List.filter_nil]
    split <;> rfl

theorem stepEntries_passGroupOps {step : Step} (hstep : step ≠ .member) (p : Pass) :
    (r.passGroupOps ctx true p).flatMap (stepEntries step) = [] := by
  rw [List.flatMap_eq_nil_iff]
  intro op hop
  have hensure : ∃ group, r.activeGroup = some group ∧ op ∈ group.ensureOps r.segment ctx := by
    unfold passGroupOps groupOps at hop
    cases hside : p.side <;> cases hgroup : r.activeGroup <;> simp_all
  obtain ⟨group, -, hop⟩ := hensure
  rcases mem_ensureOps.1 hop with rfl | ⟨member, -, rfl⟩
  · rfl
  · have hmember : (NextHopGroup.memberKey member.mac).step = .member := rfl
    simp [stepEntries, BridgeOp.entry?, hmember, hstep.symm]

/-- The entries of a step that one pass installs. -/
theorem stepEntries_passOps {step : Step} (hstep : step ≠ .member)
    (hops : (r.adding fcs).passOps ctx ports true p = .ok ops) :
    ∃ entries, r.passEntries ctx ports fcs p = .ok entries ∧
      ops.flatMap (stepEntries step) = entries.filter (·.key.step = step) := by
  rw [passOps_adding] at hops
  obtain ⟨entries, hentries, rfl⟩ := Except.map_eq_ok.1 hops
  refine ⟨entries, hentries, ?_⟩
  rw [List.flatMap_append, stepEntries_passGroupOps hstep, List.nil_append, stepEntries_flows]

theorem filter_step_eq_self {step : Step} (h : ∀ entry ∈ entries, entry.key.step = step) :
    entries.filter (·.key.step = step) = entries :=
  List.filter_eq_self.2 fun entry hentry => decide_eq_true (h entry hentry)

theorem filter_step_eq_nil {step : Step} (h : ∀ entry ∈ entries, entry.key.step ≠ step) :
    entries.filter (·.key.step = step) = [] :=
  List.filter_eq_nil_iff.2 fun entry hentry hstep => h entry hentry (of_decide_eq_true hstep)

/-- Of an egress side the step has the entry that steers to the group. -/
theorem filter_steering (hgroup : r.activeGroup = some group)
    (hentries : r.passEntries ctx ports fcs p = .ok entries) :
    entries.filter (·.key.step = .groupSteering) = r.passSteering ports group fcs p := by
  have hactive : (r.seenBy p).activeGroup = some group := by rw [seenBy_activeGroup, hgroup]
  unfold passEntries at hentries
  unfold passSteering
  cases hside : p.side with
  | ingress =>
    rw [hside] at hentries
    refine filter_step_eq_nil fun entry hentry hstep => ?_
    obtain ⟨step, hemits⟩ := (mem_ingressEntries hentries).1 hentry
    obtain rfl : step = .groupSteering := hemits.step_key.symm.trans hstep
    cases hemits
  | egress =>
    rw [hside] at hentries
    obtain ⟨classification, source, hclassify, hnone, hsource, rfl⟩ := egressEntries_eq_ok.1 hentries
    obtain ⟨inPort, hport, rfl⟩ := (sourceEntries_of_group hactive).1 hsource
    have hclassified : ∀ entry ∈ classification, entry.key.step ≠ .groupSteering := by
      intro entry hentry
      by_cases hrole : (r.seenBy p).role = .source
      · obtain ⟨fc, -, hfields⟩ := (mem_classificationEntries (hclassify hrole)).1 hentry
        rw [step_key_classification hfields]
        decide
      · rw [hnone hrole] at hentry
        cases hentry
    rw [List.filter_append, filter_step_eq_nil hclassified, List.nil_append, hport]
    refine filter_step_eq_self fun entry hentry => ?_
    have hemits : (r.seenBy p).SideEmits ctx ports (p.turn fcs) .egress .groupSteering entry :=
      .groupSteering hactive hport hentry
    exact hemits.step_key

/-- Of an ingress side the step has the entry that delivers. -/
theorem filter_delivery (hgroup : r.activeGroup = some group)
    (hentries : r.passEntries ctx ports fcs p = .ok entries) :
    entries.filter (·.key.step = .groupDelivery) =
      (r.passDeliveries ports fcs p).map (Delivery.entry r.segment) := by
  have hactive : (r.seenBy p).activeGroup = some group := by rw [seenBy_activeGroup, hgroup]
  unfold passEntries at hentries
  unfold passDeliveries
  cases hside : p.side with
  | egress =>
    rw [hside] at hentries
    refine filter_step_eq_nil fun entry hentry hstep => ?_
    obtain ⟨step, hemits⟩ := (mem_egressEntries hentries).1 hentry
    obtain rfl : step = .groupDelivery := hemits.step_key.symm.trans hstep
    cases hemits
  | ingress =>
    rw [hside] at hentries
    simp only [destinationEntries_of_group hactive] at hentries
    obtain ⟨port, -, rfl⟩ := Except.map_eq_ok.1 hentries
    rw [seenBy_segment]
    induction (r.seenBy p).sideDeliveries ports (p.turn fcs) with
    | nil => rfl
    | cons d ds ih =>
      rw [List.flatMap_cons, List.filter_append, ih]
      rfl

theorem Delivery.entry_injective (segment : SegmentId) :
    Function.Injective (Delivery.entry segment) := by
  rintro ⟨⟨number, address⟩, sources, mac⟩ ⟨⟨number', address'⟩, sources', mac'⟩ h
  cases mac <;> cases mac' <;> simp_all [Delivery.entry, taggedFor]

/-- Lists that are as long or longer piece by piece, and the same in all, are the same piece by piece. -/
theorem eq_of_flatMap_eq {α β : Type} {f g : α → List β} {as : List α}
    (hle : ∀ a, (g a).length ≤ (f a).length) (h : as.flatMap f = as.flatMap g) :
    ∀ a ∈ as, f a = g a := by
  have htotal : ∀ as : List α, (as.flatMap g).length ≤ (as.flatMap f).length := by
    intro as
    induction as with
    | nil => exact Nat.le_refl _
    | cons a as ih =>
      rw [List.flatMap_cons, List.flatMap_cons, List.length_append, List.length_append]
      exact Nat.add_le_add (hle a) ih
  induction as with
  | nil => nofun
  | cons a as ih =>
    have hlength := congrArg List.length h
    simp only [List.flatMap_cons, List.length_append] at h hlength
    obtain ⟨hfirst, hothers⟩ := List.append_inj h (by have := hle a; have := htotal as; omega)
    exact List.forall_mem_cons.2 ⟨hfirst, ih hothers⟩

theorem length_passSteering_le :
    (r.passSteering ports group (pre ++ post) p).length ≤
      (r.passSteering ports group (pre ++ fc :: post) p).length := by
  obtain ⟨seen, -, hturn⟩ := p.exists_turn_insert pre fc post
  unfold passSteering
  split
  · rw [hturn, p.turn_append]
    exact length_groupSteeringEntries_le
  · exact Nat.le_refl _

/-- The entries of a step are the same with the classifier if the operations are. -/
theorem flatMap_stepEntries {step : Step} {k : Pass → List FlowEntry} (hstep : step ≠ .member)
    (hk : ∀ p entries, r.passEntries ctx ports fcs p = .ok entries →
      entries.filter (·.key.step = step) = k p)
    (hops : (r.adding fcs).installOps ctx ports = .ok ops) :
    ops.flatMap (stepEntries step) = r.installPasses.flatMap k := by
  refine Except.flatMap_of_mapM_flatten hops fun p ops hpass => ?_
  obtain ⟨entries, hentries, heq⟩ := stepEntries_passOps hstep hpass
  rw [heq, hk p entries hentries]

/-- If the operations before a group are the same, so is what the sides read. -/
theorem reads_same_of_installOps (hgroup : r.activeGroup = some group)
    (hops : (r.adding (pre ++ fc :: post)).installOps ctx ports = .ok ops)
    (hops' : (r.adding (pre ++ post)).installOps ctx ports = .ok ops) :
    r.SameAddresses (pre ++ fc :: post) (pre ++ post) ∧
      r.deliveries ports (pre ++ fc :: post) = r.deliveries ports (pre ++ post) := by
  constructor
  · have hsteered := (flatMap_stepEntries (by decide) (fun _ _ => filter_steering hgroup) hops).symm.trans
      (flatMap_stepEntries (by decide) (fun _ _ => filter_steering hgroup) hops')
    intro p hp hegress
    have hpass := eq_of_flatMap_eq (fun _ => length_passSteering_le) hsteered p hp
    obtain ⟨entries, hentries⟩ := exists_installOps_adding_iff.1 ⟨_, hops⟩ p hp
    obtain ⟨inPort, hport⟩ : ∃ inPort, (r.seenBy p).inboundPort ports = .ok inPort := by
      unfold passEntries at hentries
      rw [hegress] at hentries
      exact (exists_sourceEntries_iff.1 (exists_egressEntries_iff.1 ⟨_, hentries⟩).2).1
    simp only [passSteering, hegress, hport] at hpass
    exact eq_of_groupSteeringEntries hpass
  · have hdelivered := (flatMap_stepEntries (by decide) (fun _ _ => filter_delivery hgroup) hops).symm.trans
      (flatMap_stepEntries (by decide) (fun _ _ => filter_delivery hgroup) hops')
    rw [← List.map_flatMap, ← List.map_flatMap] at hdelivered
    exact List.map_injective_iff.2 (Delivery.entry_injective _) hdelivered

/-- The operations of a pass over an egress side. -/
def egressPassOps (ctx : HostContext) (ports : PortTable) (r : FlowRule) (fcs : List FlowClassifier)
    (p : Pass) : List BridgeOp :=
  match p.side, (r.adding fcs).passOps ctx ports true p with
  | .egress, .ok ops => ops
  | _, _ => []

/-- Before a group, the passes do what the egress sides do, and deliver. -/
theorem installOps_eq_flatMap (hgroup : r.activeGroup = some group)
    (hops : (r.adding fcs).installOps ctx ports = .ok ops) :
    ops = r.installPasses.flatMap fun p =>
      r.egressPassOps ctx ports fcs p ++ (r.passDeliveries ports fcs p).flatMap (Delivery.ops r.segment) := by
  rw [← List.flatMap_singleton' ops]
  refine Except.flatMap_of_mapM_flatten hops fun p ops hpass => ?_
  rw [List.flatMap_singleton']
  unfold egressPassOps passDeliveries
  rw [hpass]
  cases hside : p.side with
  | egress => simp
  | ingress =>
    have hactive : (r.seenBy p).activeGroup = some group := by rw [seenBy_activeGroup, hgroup]
    rw [passOps_adding] at hpass
    unfold passEntries passGroupOps at hpass
    rw [hside] at hpass
    simp only [destinationEntries_of_group hactive] at hpass
    obtain ⟨entries, hentries, rfl⟩ := Except.map_eq_ok.1 hpass
    obtain ⟨port, -, rfl⟩ := Except.map_eq_ok.1 hentries
    rw [seenBy_segment, List.nil_append, List.nil_append, BridgeOp.flows, List.map_flatMap]
    rfl

/-- The egress sides come first and last. -/
theorem exists_flatMap_installPasses (r : FlowRule) :
    ∃ first last : List Pass, ∀ egress ingress : Pass → List BridgeOp,
      (∀ p, p.side = .ingress → egress p = []) → (∀ p, p.side = .egress → ingress p = []) →
        r.installPasses.flatMap (fun p => egress p ++ ingress p) =
          first.flatMap egress ++ r.installPasses.flatMap ingress ++ last.flatMap egress := by
  refine ⟨if r.egress.isSome then [⟨.egress, false⟩] else [],
    if r.ingress.isSome && r.reversePath then [⟨.egress, true⟩] else [], ?_⟩
  intro egress ingress hegress hingress
  cases he : r.egress.isSome <;> cases hi : r.ingress.isSome <;> cases hr : r.reversePath <;>
    simp [installPasses, he, hi, hr, hegress ⟨.ingress, _⟩ rfl, hingress ⟨.egress, _⟩ rfl]

/-- If the sides read the same before a group, the operations are the same. -/
theorem installOps_of_reads_same (h : fc.etherType = .ipv6) (hgroup : r.activeGroup = some group)
    (haddresses : r.SameAddresses (pre ++ fc :: post) (pre ++ post))
    (hdeliveries : r.deliveries ports (pre ++ fc :: post) = r.deliveries ports (pre ++ post))
    (hops : (r.adding (pre ++ post)).installOps ctx ports = .ok ops) :
    (r.adding (pre ++ fc :: post)).installOps ctx ports = .ok ops := by
  obtain ⟨ops', hops'⟩ : ∃ ops', (r.adding (pre ++ fc :: post)).installOps ctx ports = .ok ops' := by
    refine exists_installOps_adding_iff.2 fun p hp => (exists_passEntries_insert_iff h).2 ⟨?_, ?_⟩
    · exact exists_installOps_adding_iff.1 ⟨_, hops⟩ p hp
    · intro hnone
      cases hgroup.symm.trans hnone
  have hegress : ∀ p ∈ r.installPasses,
      r.egressPassOps ctx ports (pre ++ fc :: post) p = r.egressPassOps ctx ports (pre ++ post) p := by
    intro p hp
    unfold egressPassOps
    cases hside : p.side with
    | ingress => rfl
    | egress =>
      rw [passOps_adding, passOps_adding,
        passEntries_insert_of_group h hgroup hside (haddresses p hp hside)]
  obtain ⟨first, last, hsplit⟩ := r.exists_flatMap_installPasses
  have hnone : ∀ p : Pass, p.side = .ingress → r.egressPassOps ctx ports (pre ++ post) p = [] := by
    intro p hp
    simp only [egressPassOps, hp]
  have hdelivers : ∀ (fcs : List FlowClassifier) (p : Pass), p.side = .egress →
      (r.passDeliveries ports fcs p).flatMap (Delivery.ops r.segment) = [] := by
    intro fcs p hp
    simp only [passDeliveries, hp, List.flatMap_nil]
  have hsame : ops' = ops := calc
    ops' = r.installPasses.flatMap fun p => r.egressPassOps ctx ports (pre ++ fc :: post) p ++
        (r.passDeliveries ports (pre ++ fc :: post) p).flatMap (Delivery.ops r.segment) :=
      installOps_eq_flatMap hgroup hops'
    _ = r.installPasses.flatMap fun p => r.egressPassOps ctx ports (pre ++ post) p ++
        (r.passDeliveries ports (pre ++ fc :: post) p).flatMap (Delivery.ops r.segment) :=
      List.flatMap_congr fun p hp => by rw [hegress p hp]
    _ = r.installPasses.flatMap fun p => r.egressPassOps ctx ports (pre ++ post) p ++
        (r.passDeliveries ports (pre ++ post) p).flatMap (Delivery.ops r.segment) := by
      rw [hsplit _ _ hnone (hdelivers _), hsplit _ _ hnone (hdelivers _), ← List.flatMap_assoc,
        ← List.flatMap_assoc]
      unfold deliveries at hdeliveries
      rw [hdeliveries]
    _ = ops := (installOps_eq_flatMap hgroup hops).symm
  rw [hops', hsame]

/-! ## All rules -/

/-- A classifier of IPv6 traffic, at any place, leaves the installation of a rule as it is just if the
rule does not compile without it, or the sides of the rule overlook it. -/
theorem installOps_insert_iff (ctx : HostContext) (ports : PortTable) (r : FlowRule)
    (pre : List FlowClassifier) (fc : FlowClassifier) (post : List FlowClassifier)
    (h : fc.etherType = .ipv6) :
    ((r.adding (pre ++ fc :: post)).installOps ctx ports).toOption =
        ((r.adding (pre ++ post)).installOps ctx ports).toOption ↔
      ((r.adding (pre ++ post)).installOps ctx ports).toOption = none ∨ r.Overlooks ports pre fc post := by
  cases hops : (r.adding (pre ++ post)).installOps ctx ports with
  | error e =>
    refine iff_of_true ?_ (.inl rfl)
    cases hops' : (r.adding (pre ++ fc :: post)).installOps ctx ports with
    | error e' => rfl
    | ok ops' =>
      obtain ⟨ops, hops''⟩ := exists_installOps_of_insert h hops'
      cases hops.symm.trans hops''
  | ok ops =>
    have hcompiles : ((r.adding (pre ++ fc :: post)).installOps ctx ports).toOption =
          (Except.ok ops : Except CompileError (List BridgeOp)).toOption ↔
        (r.adding (pre ++ fc :: post)).installOps ctx ports = .ok ops := by
      cases (r.adding (pre ++ fc :: post)).installOps ctx ports <;> simp [Except.toOption]
    rw [hcompiles, or_iff_right (by simp [Except.toOption])]
    unfold Overlooks
    cases hgroup : r.activeGroup with
    | some group =>
      exact ⟨fun hops' => reads_same_of_installOps hgroup hops' hops,
        fun hread => installOps_of_reads_same h hgroup hread.1 hread.2 hops⟩
    | none =>
      constructor
      · intro hops'
        by_cases hne : pre ++ post = []
        · obtain ⟨rfl, rfl⟩ := List.append_eq_nil_iff.1 hne
          exact .inr (onlyLeaves_of_alone h hgroup hops' hops)
        · exact .inl hne
      · intro hread
        rw [← hops]
        exact installOps_adding_congr fun p hp =>
          passEntries_insert h hgroup (hread.imp_right fun hleaves => hleaves p hp)

/-- IPv6 traffic of the documentation network. -/
def sampleSix : FlowClassifier where
  id := "six"
  etherType := .ipv6
  sourceNet := some (.v6 (.around ⟨#v[0x2001, 0x0db8, 0, 0, 0, 0, 0, 0]⟩ 64 (by decide)))
  logicalSource := some "p8"

/-- After the classifier of the sample hop, one of IPv6 traffic is overlooked. -/
theorem sampleHop_overlooks_last :
    sampleSix.etherType = .ipv6 ∧
      ((sampleHop.adding (sampleHop.addFcs ++ [sampleSix])).installOps ⟨"br-int", "h1", 99⟩
          sampleBridge.ports).toOption =
        ((sampleHop.adding (sampleHop.addFcs ++ [])).installOps ⟨"br-int", "h1", 99⟩
          sampleBridge.ports).toOption ∧
      ((sampleHop.adding (sampleHop.addFcs ++ [])).installOps ⟨"br-int", "h1", 99⟩
          sampleBridge.ports).toOption.isSome := by
  refine ⟨rfl, (installOps_insert_iff _ _ _ _ _ _ rfl).2 (.inr ⟨?_, ?_⟩), by decide +kernel⟩
  · rintro ⟨side, isReverse⟩ - -
    cases isReverse <;> rfl
  · refine congrArg (sampleHop.installPasses.flatMap ·) (funext fun p => ?_)
    obtain ⟨side, isReverse⟩ := p
    cases side with
    | egress => rfl
    | ingress =>
      simp only [passDeliveries, sideDeliveries]
      cases (sampleHop.seenBy ⟨.ingress, isReverse⟩).ingressPort sampleBridge.ports <;>
        cases isReverse <;> rfl

/-- Before the classifier of the sample hop, one of IPv6 traffic hides what is delivered. -/
theorem not_installOps_insert :
    ¬∀ (ctx : HostContext) (ports : PortTable) (r : FlowRule) (pre : List FlowClassifier)
      (fc : FlowClassifier) (post : List FlowClassifier), fc.etherType = .ipv6 →
        ((r.adding (pre ++ fc :: post)).installOps ctx ports).toOption =
          ((r.adding (pre ++ post)).installOps ctx ports).toOption := by
  intro hall
  have hsame := hall ⟨"br-int", "h1", 99⟩ sampleBridge.ports sampleHop [] sampleSix sampleHop.addFcs rfl
  have hlengths :
      ((sampleHop.adding ([] ++ sampleSix :: sampleHop.addFcs)).installOps ⟨"br-int", "h1", 99⟩
          sampleBridge.ports).toOption.map List.length ≠
        ((sampleHop.adding ([] ++ sampleHop.addFcs)).installOps ⟨"br-int", "h1", 99⟩
          sampleBridge.ports).toOption.map List.length := by
    decide +kernel
  exact hlengths (congrArg (Option.map List.length) hsame)

end FlowRule

end ServiceChain
