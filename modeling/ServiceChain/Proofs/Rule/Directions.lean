import ServiceChain.Proofs.Rule.Overlooking

/-!
# The two directions of a rule

A rule for both directions is compiled twice, as it is and reversed, for the same hop.  A key tells its
step and so its side (`Step.side`), and a rule with one port has different sides in the two directions.
With both ports, the directions agree if each step does (`FlowRule.StepAgrees`).  Five steps have the same
actions in either direction (`FlowRule.fixedActions?`).  The entries of the others are told apart by
addresses and networks alone: without a group by the network that traffic goes to, a delivery before a
group by the network that it comes from.  Where these meet, as they do for classifiers without networks,
what is installed for the way back replaces what is installed for the way there.  So the directions agree
just if nothing that differs meets (`FlowRule.Reconciled`, `FlowRule.directions_agree_iff`).
-/

namespace ServiceChain

/-- The side of a hop that a step is on; a bridge as a whole counts as the egress side. -/
def Step.side : Step → FlowRule.Side
  | delivery | transport | groupDelivery | groupHandover => .ingress
  | labelled | miss | member | classification | groupSteering | returning | steering => .egress

/-- Where steered traffic of a classifier goes: the number of the logical destination if it is on this
bridge, and the address that the traffic is given. -/
def FlowClassifier.target (ports : PortTable) (fc : FlowClassifier) :
    Option UInt32 × Option MacAddress :=
  let localPort := fc.logicalDestination.bind (ports[·]?)
  (localPort.map Port.number, fc.destinationMac.or (localPort.map Port.mac))

namespace FlowRule

/-! ## Entries of one direction -/

/-- A pass in the direction, there or back, installs the entry. -/
def InstallsIn (ctx : HostContext) (ports : PortTable) (r : FlowRule) (isReverse : Bool)
    (entry : FlowEntry) : Prop :=
  ∃ p ∈ r.installPasses, p.isReverse = isReverse ∧
    ∃ ops, r.passOps ctx ports true p = .ok ops ∧ .addFlow entry ∈ ops

/-- What is installed under one key for the way there and for the way back has the same actions. -/
def DirectionsAgree (ctx : HostContext) (ports : PortTable) (r : FlowRule) : Prop :=
  ∀ entry back, r.InstallsIn ctx ports false entry → r.InstallsIn ctx ports true back →
    entry.key = back.key → entry.actions = back.actions

/-- A pass installs the entry in the step. -/
inductive PassEmits (ctx : HostContext) (ports : PortTable) (r : FlowRule) (p : Pass) :
    Step → FlowEntry → Prop
  | member {group member} (hside : p.side = .egress) (hgroup : r.activeGroup = some group)
      (hmember : member ∈ group.members) : PassEmits ctx ports r p .member
        ⟨NextHopGroup.memberKey member.mac, NextHopGroup.memberActions ctx r.segment member⟩
  | side {step entry} (h : (r.seenBy p).SideEmits ctx ports (p.turn r.addFcs) p.side step entry) :
      PassEmits ctx ports r p step entry

/-- What a step installs on a side under one key has the same actions in both directions. -/
def StepAgrees (ctx : HostContext) (ports : PortTable) (r : FlowRule) (step : Step) : Prop :=
  ∀ side entry back, r.PassEmits ctx ports ⟨side, false⟩ step entry →
    r.PassEmits ctx ports ⟨side, true⟩ step back → entry.key = back.key → entry.actions = back.actions

/-- The actions of a step, if they depend on neither classifiers nor direction. -/
def fixedActions? (r : FlowRule) : Step → Option (List FlowAction)
  | .classification => some r.forwardActions
  | .groupSteering => r.activeGroup.map fun group => [.modVlanVid r.segment.vid, .group group.id]
  | .returning => some [.modVlanVid r.segment.vid, .resubmit .crossSubnet]
  | .transport | .groupHandover => some [.resubmit .chainIngress]
  | .labelled | .miss | .member | .steering | .delivery | .groupDelivery => none

/-! ## Where the directions meet -/

/-- The first classifier's traffic goes to the IPv4 network that the second one's comes from. -/
structure Meet (r : FlowRule) (fc back : FlowClassifier) : Prop where
  mem : fc ∈ r.addFcs
  mem_back : back ∈ r.addFcs
  net : ∃ net, fc.v4Destination? = some net ∧ back.reversed.v4Destination? = some net

/-- Traffic is delivered to the first port on the way there and to the second on the way back, under one
address. -/
structure ShareAddress (ports : PortTable) (r : FlowRule) (port back : Port) : Prop where
  there : r.ingressPort ports = .ok port
  onReturn : r.reversed.ingressPort ports = .ok back
  mac : port.mac = back.mac

/-- Nothing that the two directions treat differently meets under one key. -/
structure Reconciled (ctx : HostContext) (ports : PortTable) (r : FlowRule) : Prop where
  /-- Members of the group with one address are all on this host or all on others. -/
  members : ∀ group, r.activeGroup = some group → ∀ member ∈ group.members, ∀ other ∈ group.members,
    member.mac = other.mac → ctx.isLocal member.host = ctx.isLocal other.host
  /-- Without a group, if the node has one address, traffic that goes to one network goes to one place. -/
  steering : r.activeGroup = none → ∀ mac, r.nodeMac ports = .ok mac →
    r.reversed.nodeMac ports = .ok mac → ∀ fc back, r.Meet fc back →
      fc.target ports = back.reversed.target ports
  /-- Without a group, traffic that goes to one network under one address is delivered to one port. -/
  delivery : r.activeGroup = none → ∀ port back, r.ShareAddress ports port back →
    ∀ fc other, r.Meet fc other → port.number = back.number
  /-- Before a group, if the first classifier's traffic comes from the network that it goes to, it is
  delivered to one port under one address. -/
  groupDelivery : r.activeGroup.isSome → ∀ port back, r.ShareAddress ports port back →
    ∀ fc, r.addFcs.head? = some fc → ∀ net, IpNet.v4OrAny? fc.sourceNet = some net →
      IpNet.v4OrAny? fc.destinationNet = some net →
        fc.sourceMac = fc.destinationMac ∧ port.number = back.number

variable {ctx : HostContext} {ports : PortTable} {r : FlowRule} {fcs : List FlowClassifier}
  {ops : List BridgeOp} {entry back : FlowEntry} {p : Pass} {side : Side} {step : Step}
  {isReverse : Bool}

/-! ## Passes and steps -/

theorem SideEmits.side_eq (h : r.SideEmits ctx ports fcs side step entry) : step.side = side := by
  cases h <;> rfl

theorem PassEmits.side_eq (h : r.PassEmits ctx ports p step entry) : step.side = p.side := by
  cases h with
  | member hside _ _ => exact hside.symm
  | side h => exact h.side_eq

theorem PassEmits.step_key (h : r.PassEmits ctx ports p step entry) : entry.key.step = step := by
  cases h with
  | member _ _ _ => rfl
  | side h => exact h.step_key

theorem addFlow_mem_passOps (h : r.passOps ctx ports true p = .ok ops) :
    .addFlow entry ∈ ops ↔ ∃ step, r.PassEmits ctx ports p step entry := by
  obtain ⟨entries, hentries, rfl⟩ := Except.map_eq_ok.1 ((passOps_eq p).symm.trans h)
  have hentries : r.passEntries ctx ports r.addFcs p = .ok entries := hentries
  have hgroupOps : .addFlow entry ∈ r.passGroupOps ctx true p ↔
      p.side = .egress ∧ ∃ group, r.activeGroup = some group ∧ ∃ member ∈ group.members,
        entry = ⟨NextHopGroup.memberKey member.mac, NextHopGroup.memberActions ctx r.segment member⟩ := by
    unfold passGroupOps groupOps
    cases p.side <;> cases r.activeGroup <;> simp [mem_ensureOps]
  have hflows : .addFlow entry ∈ BridgeOp.flows true entries ↔
      ∃ step, (r.seenBy p).SideEmits ctx ports (p.turn r.addFcs) p.side step entry := by
    rw [← mem_passEntries hentries, mem_flows]
    simp
  rw [List.mem_append, hgroupOps, hflows]
  constructor
  · rintro (⟨hside, group, hgroup, member, hmember, rfl⟩ | ⟨step, h⟩)
    · exact ⟨_, .member hside hgroup hmember⟩
    · exact ⟨_, .side h⟩
  · rintro ⟨step, h⟩
    cases h with
    | member hside hgroup hmember => exact .inl ⟨hside, _, hgroup, _, hmember, rfl⟩
    | side h => exact .inr ⟨_, h⟩

/-- The entries of a pass that is gone over are installed. -/
theorem InstallsIn.of_pass (hops : r.installOps ctx ports = .ok ops) (hp : p ∈ r.installPasses)
    (h : r.PassEmits ctx ports p step entry) : r.InstallsIn ctx ports p.isReverse entry := by
  obtain ⟨entries, hentries⟩ := exists_passEntries hops hp
  have hpass : r.passOps ctx ports true p =
      .ok (r.passGroupOps ctx true p ++ BridgeOp.flows true entries) := by
    rw [passOps_eq]
    exact Except.map_eq_ok.2 ⟨entries, hentries, rfl⟩
  exact ⟨p, hp, rfl, _, hpass, (addFlow_mem_passOps hpass).2 ⟨step, h⟩⟩

theorem InstallsIn.exists_pass (h : r.InstallsIn ctx ports isReverse entry) :
    ∃ p step, p ∈ r.installPasses ∧ p.isReverse = isReverse ∧ r.PassEmits ctx ports p step entry := by
  obtain ⟨p, hp, hdirection, ops, hops, hentry⟩ := h
  obtain ⟨step, hstep⟩ := (addFlow_mem_passOps hops).1 hentry
  exact ⟨p, step, hp, hdirection, hstep⟩

/-- Passes in the two directions that have entries under one key are over one side, and then the rule has
both ports. -/
theorem exists_side_of_key {p' : Pass} {step' : Step} (hp : p ∈ r.installPasses)
    (hp' : p' ∈ r.installPasses) (hthere : p.isReverse = false) (hback : p'.isReverse = true)
    (h : r.PassEmits ctx ports p step entry) (h' : r.PassEmits ctx ports p' step' back)
    (hkey : entry.key = back.key) :
    step = step' ∧ (∃ side, p = ⟨side, false⟩ ∧ p' = ⟨side, true⟩) ∧
      r.ingress.isSome ∧ r.egress.isSome := by
  obtain rfl : step = step' := by rw [← h.step_key, hkey, h'.step_key]
  have hside : p.side = p'.side := h.side_eq.symm.trans h'.side_eq
  obtain ⟨side, _⟩ := p
  obtain ⟨_, _⟩ := p'
  cases hthere
  cases hback
  cases hside
  rw [mem_installPasses] at hp hp'
  cases side with
  | egress => exact ⟨rfl, ⟨_, rfl, rfl⟩, hp'.2, hp⟩
  | ingress => exact ⟨rfl, ⟨_, rfl, rfl⟩, hp, hp'.2⟩

/-- At a hop with both ports, the directions agree step by step. -/
theorem stepAgrees_of_agree (hreverse : r.reversePath = true) (hops : r.installOps ctx ports = .ok ops)
    (hingress : r.ingress.isSome) (hegress : r.egress.isSome) (h : r.DirectionsAgree ctx ports)
    (step : Step) : r.StepAgrees ctx ports step := by
  have hpass : ∀ side, (⟨side, false⟩ : Pass) ∈ r.installPasses ∧ ⟨side, true⟩ ∈ r.installPasses := by
    intro side
    cases side with
    | egress => exact ⟨mem_installPasses.2 hegress, mem_installPasses.2 ⟨hreverse, hingress⟩⟩
    | ingress => exact ⟨mem_installPasses.2 hingress, mem_installPasses.2 ⟨hreverse, hegress⟩⟩
  intro side entry back hthere hback
  exact h entry back (.of_pass hops (hpass side).1 hthere) (.of_pass hops (hpass side).2 hback)

/-- A step that is not of members has its entries from the sides of the rule and of the reversed rule. -/
theorem stepAgrees_iff (hstep : step ≠ .member) :
    r.StepAgrees ctx ports step ↔ ∀ side entry back,
      r.SideEmits ctx ports r.addFcs side step entry →
        r.reversed.SideEmits ctx ports (r.addFcs.map FlowClassifier.reversed) side step back →
          entry.key = back.key → entry.actions = back.actions := by
  constructor
  · intro h side entry back hthere hback
    exact h side entry back (.side hthere) (.side hback)
  · intro h side entry back hthere hback
    cases hthere with
    | member _ _ _ => exact absurd rfl hstep
    | side hthere =>
      cases hback with
      | member _ _ _ => exact absurd rfl hstep
      | side hback => exact h side entry back hthere hback

/-! ## What a side before a group delivers -/

theorem groupDeliveryEntries_first {port : Port} {fc : FlowClassifier} :
    (r.groupDeliveryEntries port fc)[0]? = some entry ↔
      ∃ net, IpNet.v4OrAny? fc.sourceNet = some net ∧
        Delivery.entry r.segment ⟨port, net, fc.sourceMac⟩ = entry := by
  unfold groupDeliveryEntries Delivery.entry
  cases IpNet.v4OrAny? fc.sourceNet <;> simp

theorem groupDeliveryEntries_second {port : Port} {fc : FlowClassifier} :
    (r.groupDeliveryEntries port fc)[1]? = some entry ↔
      ∃ net, IpNet.v4OrAny? fc.sourceNet = some net ∧
        Delivery.handover r.segment ⟨port, net, fc.sourceMac⟩ = entry := by
  unfold groupDeliveryEntries Delivery.handover
  cases IpNet.v4OrAny? fc.sourceNet <;> simp

theorem Delivery.actions_eq_iff {segment segment' : SegmentId} {d d' : Delivery} :
    (d.entry segment).actions = (d'.entry segment').actions ↔
      d.mac = d'.mac ∧ d.port.number = d'.port.number := by
  unfold Delivery.entry
  cases d.mac <;> cases d'.mac <;> simp

/-! ## Steps whose actions are fixed -/

theorem SideEmits.actions_eq (h : r.SideEmits ctx ports fcs side step entry) {actions : List FlowAction}
    (hfixed : r.fixedActions? step = some actions) : entry.actions = actions := by
  cases h with
  | classification _ _ h =>
    obtain rfl := Option.some.inj hfixed
    obtain ⟨inPort, sets, -, -, fields, -, rfl⟩ := h
    rfl
  | groupSteering hgroup _ h =>
    obtain rfl := eq_of_mem_groupSteeringEntries h
    simpa [fixedActions?, hgroup] using hfixed
  | returning _ _ h =>
    obtain rfl := Option.some.inj hfixed
    obtain ⟨port, -, rfl⟩ := exists_of_mem_returnEntries h
    rfl
  | transport _ _ _ => exact Option.some.inj hfixed
  | groupHandover _ _ _ h =>
    obtain rfl := Option.some.inj hfixed
    obtain ⟨net, -, rfl⟩ := groupDeliveryEntries_second.1 h
    rfl
  | steering _ _ _ _ => cases hfixed
  | delivery _ _ _ _ => cases hfixed
  | groupDelivery _ _ _ _ => cases hfixed

theorem stepAgrees_of_fixed {actions : List FlowAction} (hfixed : r.fixedActions? step = some actions) :
    r.StepAgrees ctx ports step := by
  have hstep : step ≠ .member := by
    rintro rfl
    cases hfixed
  have hfixed' : r.reversed.fixedActions? step = some actions := by
    rw [← hfixed]
    cases step <;> rfl
  refine (stepAgrees_iff hstep).2 fun side entry back hthere hback _ => ?_
  rw [hthere.actions_eq hfixed, hback.actions_eq hfixed']

/-! ## Steps whose actions may differ -/

theorem memberActions_eq_iff {segment : SegmentId} {member other : NextHop} :
    NextHopGroup.memberActions ctx segment member = NextHopGroup.memberActions ctx segment other ↔
      ctx.isLocal member.host = ctx.isLocal other.host := by
  unfold NextHopGroup.memberActions
  cases ctx.isLocal member.host <;> cases ctx.isLocal other.host <;> simp

theorem stepAgrees_member :
    r.StepAgrees ctx ports .member ↔ ∀ group, r.activeGroup = some group →
      ∀ member ∈ group.members, ∀ other ∈ group.members, member.mac = other.mac →
        ctx.isLocal member.host = ctx.isLocal other.host := by
  constructor
  · intro h group hgroup member hmember other hother hmac
    exact memberActions_eq_iff.1 (h .egress _ _ (.member rfl hgroup hmember) (.member rfl hgroup hother)
      (congrArg NextHopGroup.memberKey hmac))
  · intro h side entry back hthere hback hkey
    cases hthere with
    | side h => cases h
    | member _ hgroup hmember =>
      cases hback with
      | side h => cases h
      | member _ hgroup' hother =>
        obtain rfl := Option.some.inj (hgroup.symm.trans hgroup')
        have hmac := by simpa [NextHopGroup.memberKey] using hkey
        exact memberActions_eq_iff.2 (h _ hgroup _ hmember _ hother hmac)

/-- Steering reads the target of a classifier, and loses nothing of it. -/
theorem steeringActions_eq_iff {mac : MacAddress} {fc back : FlowClassifier} :
    r.steeringActions ctx ports mac fc = r.reversed.steeringActions ctx ports mac back ↔
      fc.target ports = back.target ports := by
  unfold steeringActions FlowClassifier.target
  cases fc.logicalDestination.bind (ports[·]?) <;> cases back.logicalDestination.bind (ports[·]?) <;>
    cases fc.destinationMac <;> cases back.destinationMac <;> simp [reversed, and_comm]

theorem stepAgrees_steering :
    r.StepAgrees ctx ports .steering ↔ (r.activeGroup = none → ∀ mac, r.nodeMac ports = .ok mac →
      r.reversed.nodeMac ports = .ok mac → ∀ fc back, r.Meet fc back →
        fc.target ports = back.reversed.target ports) := by
  rw [stepAgrees_iff (by decide)]
  constructor
  · rintro h hgroup mac hmac hmac' fc back ⟨hfc, hback, net, hnet, hnet'⟩
    have hthere : r.SideEmits ctx ports r.addFcs .egress .steering _ :=
      .steering hgroup hmac hfc (Option.map_eq_some_iff.2 ⟨net, hnet, rfl⟩)
    have hreturn : r.reversed.SideEmits ctx ports (r.addFcs.map FlowClassifier.reversed) .egress
        .steering _ :=
      .steering hgroup hmac' (List.mem_map_of_mem hback) (Option.map_eq_some_iff.2 ⟨net, hnet', rfl⟩)
    exact steeringActions_eq_iff.1 (h _ _ _ hthere hreturn rfl)
  · intro h side entry back hthere hback hkey
    cases hthere with
    | @steering mac fc _ hgroup hmac hfc hentry =>
      cases hback with
      | @steering mac' _ _ _ hmac' hfc' hentry' =>
        obtain ⟨other, hother, rfl⟩ := List.mem_map.1 hfc'
        obtain ⟨net, hnet, rfl⟩ := Option.map_eq_some_iff.1 hentry
        obtain ⟨net', hnet', rfl⟩ := Option.map_eq_some_iff.1 hentry'
        obtain ⟨rfl, rfl⟩ : mac = mac' ∧ net = net' := by simpa [taggedFor, reversed] using hkey
        exact steeringActions_eq_iff.2 (h hgroup mac hmac hmac' fc other ⟨hfc, hother, net, hnet, hnet'⟩)

theorem stepAgrees_delivery :
    r.StepAgrees ctx ports .delivery ↔ (r.activeGroup = none → ∀ port back,
      r.ShareAddress ports port back → ∀ fc other, r.Meet fc other → port.number = back.number) := by
  rw [stepAgrees_iff (by decide)]
  constructor
  · rintro h hgroup port back ⟨hport, hport', hmac⟩ fc other ⟨hfc, hother, net, hnet, hnet'⟩
    have hthere : r.SideEmits ctx ports r.addFcs .ingress .delivery _ :=
      .delivery hgroup hport hfc (Option.map_eq_some_iff.2 ⟨net, hnet, rfl⟩)
    have hreturn : r.reversed.SideEmits ctx ports (r.addFcs.map FlowClassifier.reversed) .ingress
        .delivery _ :=
      .delivery hgroup hport' (List.mem_map_of_mem hother) (Option.map_eq_some_iff.2 ⟨net, hnet', rfl⟩)
    have hactions := h _ _ _ hthere hreturn (by simp [hmac, reversed])
    simpa using hactions
  · intro h side entry back hthere hback hkey
    cases hthere with
    | @delivery port fc _ hgroup hport hfc hentry =>
      cases hback with
      | @delivery port' _ _ _ hport' hfc' hentry' =>
        obtain ⟨other, hother, rfl⟩ := List.mem_map.1 hfc'
        obtain ⟨net, hnet, rfl⟩ := Option.map_eq_some_iff.1 hentry
        obtain ⟨net', hnet', rfl⟩ := Option.map_eq_some_iff.1 hentry'
        obtain ⟨hmac, rfl⟩ : port.mac = port'.mac ∧ net = net' := by
          simpa [taggedFor, reversed] using hkey
        have hnumber := h hgroup port port' ⟨hport, hport', hmac⟩ fc other
          ⟨hfc, hother, net, hnet, hnet'⟩
        simp [hnumber]

theorem stepAgrees_groupDelivery :
    r.StepAgrees ctx ports .groupDelivery ↔ (r.activeGroup.isSome → ∀ port back,
      r.ShareAddress ports port back → ∀ fc, r.addFcs.head? = some fc → ∀ net,
        IpNet.v4OrAny? fc.sourceNet = some net → IpNet.v4OrAny? fc.destinationNet = some net →
          fc.sourceMac = fc.destinationMac ∧ port.number = back.number) := by
  rw [stepAgrees_iff (by decide)]
  constructor
  · rintro h hgroup port back ⟨hport, hport', hmac⟩ fc hhead net hnet hnet'
    obtain ⟨group, hgroup⟩ := Option.isSome_iff_exists.1 hgroup
    have hthere : r.SideEmits ctx ports r.addFcs .ingress .groupDelivery _ :=
      .groupDelivery hgroup hport hhead
        (groupDeliveryEntries_first.2 ⟨net, hnet, rfl⟩)
    have hreturn : r.reversed.SideEmits ctx ports (r.addFcs.map FlowClassifier.reversed) .ingress
        .groupDelivery _ :=
      .groupDelivery hgroup hport' (by rw [List.head?_map, hhead]; rfl)
        (groupDeliveryEntries_first.2 ⟨net, hnet', rfl⟩)
    have hactions := h _ _ _ hthere hreturn (by simp [Delivery.entry, hmac, reversed])
    exact Delivery.actions_eq_iff.1 hactions
  · intro h side entry back hthere hback hkey
    cases hthere with
    | @groupDelivery group port fc _ hgroup hport hhead hentry =>
      cases hback with
      | @groupDelivery _ port' fc' _ _ hport' hhead' hentry' =>
        obtain ⟨net, hnet, rfl⟩ := groupDeliveryEntries_first.1 hentry
        obtain ⟨net', hnet', rfl⟩ := groupDeliveryEntries_first.1 hentry'
        obtain rfl : fc.reversed = fc' := by simpa [hhead] using hhead'
        obtain ⟨hmac, rfl⟩ : port.mac = port'.mac ∧ net = net' := by
          simpa [Delivery.entry, taggedFor, reversed] using hkey
        exact Delivery.actions_eq_iff.2 (h (Option.isSome_of_eq_some hgroup) port port'
          ⟨hport, hport', hmac⟩ fc hhead net hnet hnet')

/-- Nothing that differs meets just if every step agrees. -/
theorem reconciled_iff : r.Reconciled ctx ports ↔ ∀ step, r.StepAgrees ctx ports step := by
  constructor
  · intro h step
    cases hfixed : r.fixedActions? step with
    | some actions => exact stepAgrees_of_fixed hfixed
    | none =>
      cases step with
      | member => exact stepAgrees_member.2 h.members
      | steering => exact stepAgrees_steering.2 h.steering
      | delivery => exact stepAgrees_delivery.2 h.delivery
      | groupDelivery => exact stepAgrees_groupDelivery.2 h.groupDelivery
      | groupSteering =>
        -- without a group there is no such entry
        have hgroup : r.activeGroup = none := by simpa [fixedActions?] using hfixed
        refine (stepAgrees_iff (by decide)).2 fun _ _ _ hthere _ _ => ?_
        cases hthere with
        | groupSteering hgroup' _ _ => cases hgroup.symm.trans hgroup'
      | labelled | miss =>
        refine (stepAgrees_iff (by decide)).2 fun _ _ _ hthere _ _ => ?_
        cases hthere
      | classification | returning | transport | groupHandover => cases hfixed
  · intro h
    exact
      { members := stepAgrees_member.1 (h .member)
        steering := stepAgrees_steering.1 (h .steering)
        delivery := stepAgrees_delivery.1 (h .delivery)
        groupDelivery := stepAgrees_groupDelivery.1 (h .groupDelivery) }

/-! ## Both directions -/

/-- The entries that a rule for both directions installs for the way there and for the way back agree just
if the rule has one port only, or nothing that the directions treat differently meets. -/
theorem directions_agree_iff (hreverse : r.reversePath = true)
    (hops : r.installOps ctx ports = .ok ops) :
    r.DirectionsAgree ctx ports ↔
      (r.ingress.isSome → r.egress.isSome → r.Reconciled ctx ports) := by
  constructor
  · intro h hingress hegress
    exact reconciled_iff.2 (stepAgrees_of_agree hreverse hops hingress hegress h)
  · intro h entry back hentry hback hkey
    obtain ⟨p, step, hp, hthere, hemits⟩ := hentry.exists_pass
    obtain ⟨p', step', hp', hreturn, hemits'⟩ := hback.exists_pass
    obtain ⟨rfl, ⟨side, rfl, rfl⟩, hingress, hegress⟩ :=
      exists_side_of_key hp hp' hthere hreturn hemits hemits' hkey
    exact reconciled_iff.1 (h hingress hegress) step side entry back hemits hemits' hkey

/-- A service function between two hosts of one bridge, for traffic to a network or to any. -/
def sampleBetween (net : Option IpNet) : FlowRule where
  id := "n2:p"
  role := .serviceFunction
  nsp := 1
  nsi := 254
  ingress := some "p-in"
  egress := some "p-out"
  host := some "h"
  segment := ⟨102, by decide, by decide⟩
  addFcs := [{
    id := "f", destinationNet := net, logicalSource := some "s", logicalDestination := some "d"
    sourceMac := some ⟨#v[2, 0, 0, 0, 2, 1]⟩, destinationMac := some ⟨#v[2, 0, 0, 0, 2, 2]⟩ }]
  reversePath := true

/-- The ports of the hosts and of the service function. -/
def sampleBetweenPorts : PortTable :=
  (∅ : PortTable).insert "s" ⟨1, ⟨#v[2, 0, 0, 0, 2, 1]⟩⟩
    |>.insert "d" ⟨2, ⟨#v[2, 0, 0, 0, 2, 2]⟩⟩
    |>.insert "p-in" ⟨3, ⟨#v[2, 0, 0, 0, 2, 3]⟩⟩
    |>.insert "p-out" ⟨4, ⟨#v[2, 0, 0, 0, 2, 4]⟩⟩

theorem sampleBetween_compiles (net : Option IpNet) :
    ∃ ops, (sampleBetween net).installOps ⟨"br-int", "h", 99⟩ sampleBetweenPorts = .ok ops := by
  have hattached : ∀ port, port = "p-in" ∨ port = "p-out" →
      ∃ attached, sampleBetweenPorts[port]? = some attached := by
    rintro port (rfl | rfl)
    · exact ⟨⟨3, ⟨#v[2, 0, 0, 0, 2, 3]⟩⟩, by decide +kernel⟩
    · exact ⟨⟨4, ⟨#v[2, 0, 0, 0, 2, 4]⟩⟩, by decide +kernel⟩
  have hprogrammable : (sampleBetween net).Programmable sampleBetweenPorts :=
    { ingress := by
        rintro _ ⟨⟩
        exact hattached _ (.inl rfl)
      egress := by
        rintro _ ⟨⟩
        exact hattached _ (.inr rfl)
      whole := fun _ => ⟨rfl, rfl⟩
      addFcs := by
        intro fc hfc
        obtain rfl := List.mem_singleton.1 hfc
        exact ⟨rfl, rfl⟩
      delFcs := by
        rintro _ ⟨⟩ }
  exact hprogrammable.exists_installOps

/-- The network of the second host. -/
def sampleBetweenNet : IpNet := .v4 (.around ⟨0x0a000100⟩ 25 (by decide))

/-- Traffic to a network of its own meets no other. -/
theorem sampleBetween_agrees :
    (∃ ops, (sampleBetween (some sampleBetweenNet)).installOps ⟨"br-int", "h", 99⟩ sampleBetweenPorts =
      .ok ops) ∧
      (sampleBetween (some sampleBetweenNet)).DirectionsAgree ⟨"br-int", "h", 99⟩ sampleBetweenPorts := by
  obtain ⟨ops, hops⟩ := sampleBetween_compiles (some sampleBetweenNet)
  refine ⟨⟨ops, hops⟩, (directions_agree_iff rfl hops).2 fun _ _ => ?_⟩
  have hmeet : ∀ fc back, ¬ (sampleBetween (some sampleBetweenNet)).Meet fc back := by
    rintro fc back ⟨hfc, hback, net, hnet, hnet'⟩
    obtain rfl := List.mem_singleton.1 hfc
    obtain rfl := List.mem_singleton.1 hback
    exact absurd (hnet.trans hnet'.symm) (by decide)
  exact
    { members := nofun
      steering := fun _ _ _ _ fc back h => absurd h (hmeet fc back)
      delivery := fun _ _ _ _ fc other h => absurd h (hmeet fc other)
      groupDelivery := nofun }

/-- For traffic to any network, what is steered to the second host on the way there is steered to the first
on the way back, under one key. -/
theorem not_directions_agree :
    ¬ ∀ (ctx : HostContext) (ports : PortTable) (r : FlowRule) (ops : List BridgeOp),
      r.reversePath = true → r.installOps ctx ports = .ok ops → r.DirectionsAgree ctx ports := by
  intro hall
  obtain ⟨ops, hops⟩ := sampleBetween_compiles none
  have hagree := hall _ _ _ ops rfl hops
  have hmac : (sampleBetween none).nodeMac sampleBetweenPorts = .ok ⟨#v[2, 0, 0, 0, 2, 3]⟩ := by
    decide +kernel
  have hthere : (sampleBetween none).PassEmits ⟨"br-int", "h", 99⟩ sampleBetweenPorts ⟨.egress, false⟩
      .steering _ := .side (.steering rfl hmac List.mem_cons_self rfl)
  have hreturn : (sampleBetween none).PassEmits ⟨"br-int", "h", 99⟩ sampleBetweenPorts ⟨.egress, true⟩
      .steering _ := .side (.steering rfl hmac List.mem_cons_self rfl)
  have hactions := hagree _ _ (.of_pass hops (by decide) hthere) (.of_pass hops (by decide) hreturn) rfl
  exact absurd hactions (by decide +kernel)

end FlowRule

end ServiceChain
