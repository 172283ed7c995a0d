import ServiceChain.Proofs.Agent.Bootstrap
import ServiceChain.Proofs.Rule.HeadTraffic

/-!
# The steps of the compilation

Eleven steps install entries: two for a bridge as a whole, one for the members of a next-hop group, and
four on either side of a hop.  They share three tables and few priorities, and yet the key of an entry
tells which step it is of (`FlowKey.step`, `FlowRule.Emits.step_key`): by its table, its ether type, its
tag, its port and its priority, in this order.  So no two steps write one key, whatever the rules are
(`FlowRule.steps_apart`), and an installation has no other entries (`FlowRule.addFlow_mem_installOps`).
-/

namespace ServiceChain

/-- A step that installs entries. -/
inductive Step where
  /-- Traffic under an MPLS label is handed to the chain ingress table. -/
  | labelled
  /-- The chain ingress table drops what it does not know. -/
  | miss
  /-- A member of a next-hop group is delivered to, here or on its host. -/
  | member
  /-- The head tags classified traffic. -/
  | classification
  /-- Before a group, traffic is steered to the group. -/
  | groupSteering
  /-- What comes back from a service function is tagged again. -/
  | returning
  /-- Without a group, traffic is steered to its destination. -/
  | steering
  /-- Without a group, tagged traffic is delivered to the node. -/
  | delivery
  /-- Tagged traffic from the transport port is handed to the chain ingress table. -/
  | transport
  /-- Before a group, tagged traffic is delivered to the node. -/
  | groupDelivery
  /-- Before a group, tagged traffic is handed to the chain ingress table. -/
  | groupHandover
  deriving DecidableEq, Repr

namespace Step

/-- The step is for a bridge, whatever the rules are. -/
def isStatic : Step → Bool
  | labelled | miss => true
  | _ => false

end Step

/-- The step that a key is of. -/
def FlowKey.step (key : FlowKey) : Step :=
  match key.table with
  | .localSwitching =>
    if key.pattern.dlType = some EtherType.mplsUnicast then .labelled
    else if key.pattern.dlVlan.isSome then
      if key.pattern.inPort.isSome then .transport else .groupHandover
    else if key.priority = Priority.steering then .groupSteering
    else if key.priority = Priority.delivery then .returning
    else .classification
  | .crossSubnet => if key.pattern.dlVlan.isSome then .steering else .member
  | .chainIngress =>
    if key.pattern.dlVlan.isNone then .miss
    else if key.priority = Priority.steering then .groupDelivery
    else .delivery

namespace FlowRule

/-- A side of a hop installs the entry in the step. -/
inductive SideEmits (ctx : HostContext) (ports : PortTable) (r : FlowRule)
    (fcs : List FlowClassifier) : Side → Step → FlowEntry → Prop
  | classification {fc entry} (hrole : r.role = .source) (hfc : fc ∈ fcs)
      (h : r.Classifies ports fc entry) : SideEmits ctx ports r fcs .egress .classification entry
  | groupSteering {group inPort entry} (hgroup : r.activeGroup = some group)
      (hport : r.inboundPort ports = .ok inPort)
      (h : entry ∈ r.groupSteeringEntries group inPort fcs) :
      SideEmits ctx ports r fcs .egress .groupSteering entry
  | returning {inPort entry} (hgroup : r.activeGroup = none)
      (hport : r.inboundPort ports = .ok inPort) (h : entry ∈ r.returnEntries inPort) :
      SideEmits ctx ports r fcs .egress .returning entry
  | steering {mac fc entry} (hgroup : r.activeGroup = none) (hmac : r.nodeMac ports = .ok mac)
      (hfc : fc ∈ fcs) (h : r.steeringEntry? ctx ports mac fc = some entry) :
      SideEmits ctx ports r fcs .egress .steering entry
  | delivery {port fc entry} (hgroup : r.activeGroup = none)
      (hport : r.ingressPort ports = .ok port) (hfc : fc ∈ fcs)
      (h : r.deliveryEntry? port fc = some entry) :
      SideEmits ctx ports r fcs .ingress .delivery entry
  | transport {port fc} (hgroup : r.activeGroup = none) (hport : r.ingressPort ports = .ok port)
      (hfc : fc ∈ fcs) : SideEmits ctx ports r fcs .ingress .transport (r.transportEntry ctx port)
  | groupDelivery {group port fc entry} (hgroup : r.activeGroup = some group)
      (hport : r.ingressPort ports = .ok port) (hfc : fcs.head? = some fc)
      (h : (r.groupDeliveryEntries port fc)[0]? = some entry) :
      SideEmits ctx ports r fcs .ingress .groupDelivery entry
  | groupHandover {group port fc entry} (hgroup : r.activeGroup = some group)
      (hport : r.ingressPort ports = .ok port) (hfc : fcs.head? = some fc)
      (h : (r.groupDeliveryEntries port fc)[1]? = some entry) :
      SideEmits ctx ports r fcs .ingress .groupHandover entry

/-- The installation of a rule, on a bridge that was prepared, has the entry from the step. -/
inductive Emits (ctx : HostContext) (ports : PortTable) (r : FlowRule) : Step → FlowEntry → Prop
  | labelled {entry} (h : Agent.bootstrapOps[3]? = some (.addFlow entry)) :
      Emits ctx ports r .labelled entry
  | miss {entry} (h : Agent.bootstrapOps[4]? = some (.addFlow entry)) :
      Emits ctx ports r .miss entry
  | member {group member} (hgroup : r.groupSet = some group) (hmember : member ∈ group.members) :
      Emits ctx ports r .member
        ⟨NextHopGroup.memberKey member.mac, NextHopGroup.memberActions ctx r.segment member⟩
  | pass {p step entry} (hp : p ∈ r.installPasses)
      (h : (r.seenBy p).SideEmits ctx ports (p.turn r.addFcs) p.side step entry) :
      Emits ctx ports r step entry

variable {ctx : HostContext} {ports : PortTable} {r : FlowRule} {fcs : List FlowClassifier}
  {entries : List FlowEntry} {entry : FlowEntry} {ops : List BridgeOp} {side : Side} {step : Step}

/-! ## All entries are of some step -/

theorem mem_groupDeliveryEntries {port : Port} {fc : FlowClassifier} :
    entry ∈ r.groupDeliveryEntries port fc ↔
      (r.groupDeliveryEntries port fc)[0]? = some entry ∨
        (r.groupDeliveryEntries port fc)[1]? = some entry := by
  unfold groupDeliveryEntries
  split <;> simp [eq_comm]

theorem SideEmits.not_static (h : r.SideEmits ctx ports fcs side step entry) :
    step.isStatic = false := by
  cases h <;> rfl

/-- The egress side has the entries of its four steps. -/
theorem mem_egressEntries (h : r.egressEntries ctx ports fcs = .ok entries) :
    entry ∈ entries ↔ ∃ step, r.SideEmits ctx ports fcs .egress step entry := by
  obtain ⟨classification, source, hclassify, hnone, hsource, rfl⟩ := egressEntries_eq_ok.1 h
  rw [List.mem_append]
  constructor
  · rintro (hentry | hentry)
    · by_cases hrole : r.role = .source
      · obtain ⟨fc, hfc, hfields⟩ := (mem_classificationEntries (hclassify hrole)).1 hentry
        exact ⟨_, .classification hrole hfc hfields⟩
      · rw [hnone hrole] at hentry
        cases hentry
    · cases hgroup : r.activeGroup with
      | some group =>
        obtain ⟨inPort, hport, rfl⟩ := (sourceEntries_of_group hgroup).1 hsource
        exact ⟨_, .groupSteering hgroup hport hentry⟩
      | none =>
        rcases (mem_sourceEntries hgroup hsource).1 hentry with
          ⟨inPort, hport, hreturn⟩ | ⟨mac, hmac, fc, hfc, hsteer⟩
        · exact ⟨_, .returning hgroup hport hreturn⟩
        · exact ⟨_, .steering hgroup hmac hfc hsteer⟩
  · rintro ⟨step, hemits⟩
    cases hemits with
    | classification hrole hfc hfields =>
      exact .inl ((mem_classificationEntries (hclassify hrole)).2 ⟨_, hfc, hfields⟩)
    | groupSteering hgroup hport hentry =>
      obtain ⟨inPort, hport', rfl⟩ := (sourceEntries_of_group hgroup).1 hsource
      obtain rfl := Except.ok.inj (hport.symm.trans hport')
      exact .inr hentry
    | returning hgroup hport hreturn =>
      exact .inr ((mem_sourceEntries hgroup hsource).2 (.inl ⟨_, hport, hreturn⟩))
    | steering hgroup hmac hfc hsteer =>
      exact .inr ((mem_sourceEntries hgroup hsource).2 (.inr ⟨_, hmac, _, hfc, hsteer⟩))

/-- The ingress side has the entries of its four steps. -/
theorem mem_ingressEntries (h : r.destinationEntries ctx ports fcs = .ok entries) :
    entry ∈ entries ↔ ∃ step, r.SideEmits ctx ports fcs .ingress step entry := by
  constructor
  · intro hentry
    cases hgroup : r.activeGroup with
    | none =>
      obtain ⟨port, hport, ⟨fc, hfc, hdeliver⟩ | ⟨⟨fc, hfc⟩, rfl⟩⟩ :=
        (mem_destinationEntries hgroup h).1 hentry
      · exact ⟨_, .delivery hgroup hport hfc hdeliver⟩
      · exact ⟨_, .transport hgroup hport hfc⟩
    | some group =>
      obtain ⟨port, hport, fc, hfc, hdeliver⟩ := (mem_destinationEntries_of_group hgroup h).1 hentry
      rcases mem_groupDeliveryEntries.1 hdeliver with hfirst | hsecond
      · exact ⟨_, .groupDelivery hgroup hport hfc hfirst⟩
      · exact ⟨_, .groupHandover hgroup hport hfc hsecond⟩
  · rintro ⟨step, hemits⟩
    cases hemits with
    | delivery hgroup hport hfc hdeliver =>
      exact (mem_destinationEntries hgroup h).2 ⟨_, hport, .inl ⟨_, hfc, hdeliver⟩⟩
    | transport hgroup hport hfc =>
      exact (mem_destinationEntries hgroup h).2 ⟨_, hport, .inr ⟨⟨_, hfc⟩, rfl⟩⟩
    | groupDelivery hgroup hport hfc hfirst =>
      exact (mem_destinationEntries_of_group hgroup h).2
        ⟨_, hport, _, hfc, mem_groupDeliveryEntries.2 (.inl hfirst)⟩
    | groupHandover hgroup hport hfc hsecond =>
      exact (mem_destinationEntries_of_group hgroup h).2
        ⟨_, hport, _, hfc, mem_groupDeliveryEntries.2 (.inr hsecond)⟩

theorem mem_passEntries {p : Pass} (h : r.passEntries ctx ports fcs p = .ok entries) :
    entry ∈ entries ↔ ∃ step, (r.seenBy p).SideEmits ctx ports (p.turn fcs) p.side step entry := by
  obtain ⟨side, isReverse⟩ := p
  cases side with
  | egress => exact mem_egressEntries h
  | ingress => exact mem_ingressEntries h

/-- An installation has the entries of its steps. -/
theorem addFlow_mem_installOps (h : r.installOps ctx ports = .ok ops) :
    .addFlow entry ∈ ops ↔ ∃ step, step.isStatic = false ∧ r.Emits ctx ports step entry := by
  rw [mem_installOps h]
  constructor
  · rintro (⟨group, hgroup, hop⟩ | ⟨p, hp, entries, hentries, hop⟩)
    · rcases mem_ensureOps.1 hop with heq | ⟨member, hmember, heq⟩
      · cases heq
      · cases heq
        exact ⟨_, rfl, .member hgroup hmember⟩
    · obtain ⟨entry', hentry, heq⟩ := mem_flows.1 hop
      obtain rfl : entry = entry' := by cases heq; rfl
      obtain ⟨step, hemits⟩ := (mem_passEntries hentries).1 hentry
      exact ⟨step, hemits.not_static, .pass hp hemits⟩
  · rintro ⟨step, hstep, hemits⟩
    cases hemits with
    | labelled _ => cases hstep
    | miss _ => cases hstep
    | member hgroup hmember => exact .inl ⟨_, hgroup, mem_ensureOps.2 (.inr ⟨_, hmember, rfl⟩)⟩
    | pass hp hemits =>
      obtain ⟨entries, hentries⟩ := exists_passEntries h hp
      have hentry := (mem_passEntries hentries).2 ⟨_, hemits⟩
      exact .inr ⟨_, hp, entries, hentries, mem_flows.2 ⟨entry, hentry, rfl⟩⟩

/-- A removal installs nothing. -/
theorem addFlow_notMem_removeOps (h : r.removeOps ctx ports = .ok ops) : .addFlow entry ∉ ops := by
  obtain ⟨full, hfull, hmem⟩ := exists_uninstallOps_of_removeOps h
  intro hop
  rcases (mem_uninstallOps hfull).1 ((hmem _).1 hop).1 with
    ⟨p, -, entries, -, hop⟩ | hop | hop
  · obtain ⟨entry', -, heq⟩ := mem_flows.1 hop
    cases heq
  · obtain ⟨id, port, -, -, heq⟩ := mem_mplsCleanup.1 hop
    cases heq
  · unfold releaseOps at hop
    split at hop
    · split at hop
      · simp [NextHopGroup.teardownOps, BridgeOp.flow] at hop
      · cases hop
    · cases hop

/-- The bootstrap of a bridge has the entries of the static steps. -/
theorem addFlow_mem_bootstrapOps_iff (ctx : HostContext) (ports : PortTable) (r : FlowRule) :
    .addFlow entry ∈ Agent.bootstrapOps ↔
      ∃ step, step.isStatic = true ∧ r.Emits ctx ports step entry := by
  constructor
  · intro hentry
    rcases Agent.addFlow_mem_bootstrapOps.1 hentry with rfl | rfl
    · exact ⟨.labelled, rfl, .labelled rfl⟩
    · exact ⟨.miss, rfl, .miss rfl⟩
  · rintro ⟨step, hstep, hemits⟩
    cases hemits with
    | labelled h => exact List.mem_of_getElem? h
    | miss h => exact List.mem_of_getElem? h
    | member _ _ => cases hstep
    | pass hp hemits => exact absurd (hemits.not_static.symm.trans hstep) Bool.false_ne_true

/-! ## A key tells its step -/

theorem step_key_classification {fc : FlowClassifier} (h : r.Classifies ports fc entry) :
    entry.key.step = .classification := by
  obtain ⟨inPort, sets, -, hsets, fields, hfields, rfl⟩ := h
  have htype : fields.dlType = EtherType.ipv4Value := FlowClassifier.dlType_of_matchFields hsets hfields
  have hmpls : (fields.restrict { inPort := inPort }).dlType ≠ some EtherType.mplsUnicast := by
    change some fields.dlType ≠ _
    rw [htype]
    decide
  have htag : (fields.restrict { inPort := inPort }).dlVlan.isSome = false := rfl
  cases inPort <;> simp [FlowKey.step, hmpls, htag] <;> decide

theorem SideEmits.step_key (h : r.SideEmits ctx ports fcs side step entry) :
    entry.key.step = step := by
  cases h with
  | classification _ _ h => exact step_key_classification h
  | groupSteering _ _ h =>
    obtain rfl := eq_of_mem_groupSteeringEntries h
    rfl
  | returning _ _ h =>
    obtain ⟨port, -, rfl⟩ := exists_of_mem_returnEntries h
    rfl
  | steering _ _ _ h =>
    obtain ⟨nwDst, -, rfl⟩ := Option.map_eq_some_iff.1 h
    rfl
  | delivery _ _ _ h =>
    obtain ⟨nwDst, -, rfl⟩ := Option.map_eq_some_iff.1 h
    rfl
  | transport _ _ _ => rfl
  | groupDelivery _ _ _ h =>
    unfold groupDeliveryEntries at h
    split at h <;> cases h
    rfl
  | groupHandover _ _ _ h =>
    unfold groupDeliveryEntries at h
    split at h <;> cases h
    rfl

theorem Emits.step_key (h : r.Emits ctx ports step entry) : entry.key.step = step := by
  cases h with
  | labelled h =>
    cases h
    rfl
  | miss h =>
    cases h
    rfl
  | member _ _ => rfl
  | pass _ h => exact h.step_key

/-- What installs entries are the eleven steps: two for a bridge, and the others when a rule is installed,
not when it is removed.  No two steps write one key, for one rule or for two, on one host or on two. -/
theorem steps_apart :
    (∀ (ctx : HostContext) (ports : PortTable) (r : FlowRule) (ops : List BridgeOp),
        r.installOps ctx ports = .ok ops → ∀ entry, .addFlow entry ∈ ops ↔
          ∃ step, step.isStatic = false ∧ r.Emits ctx ports step entry) ∧
      (∀ (ctx : HostContext) (ports : PortTable) (r : FlowRule) (ops : List BridgeOp),
        r.removeOps ctx ports = .ok ops → ∀ entry, .addFlow entry ∉ ops) ∧
      (∀ (ctx : HostContext) (ports : PortTable) (r : FlowRule) (entry : FlowEntry),
        .addFlow entry ∈ Agent.bootstrapOps ↔
          ∃ step, step.isStatic = true ∧ r.Emits ctx ports step entry) ∧
      ∀ (ctx ctx' : HostContext) (ports ports' : PortTable) (r r' : FlowRule) (step step' : Step)
        (entry entry' : FlowEntry), r.Emits ctx ports step entry → r'.Emits ctx' ports' step' entry' →
          step ≠ step' → entry.key ≠ entry'.key := by
  refine ⟨fun _ _ _ _ h _ => addFlow_mem_installOps h, fun _ _ _ _ h _ => addFlow_notMem_removeOps h,
    fun ctx ports r _ => addFlow_mem_bootstrapOps_iff ctx ports r, ?_⟩
  intro ctx ctx' ports ports' r r' step step' entry entry' h h' hne hkey
  apply hne
  rw [← h.step_key, hkey, h'.step_key]

/-- The head of the sample has an entry for the member of its group, and one that steers to the group. -/
theorem sampleHead_steps_apart :
    ∃ (ops : List BridgeOp) (member steered : FlowEntry),
      (∀ entry, .addFlow entry ∈ ops ↔ ∃ step, step.isStatic = false ∧
        sampleHead.Emits ⟨"br-int", "h1", 99⟩ sampleHeadPorts step entry) ∧
      .addFlow member ∈ ops ∧ .addFlow steered ∈ ops ∧ member.key ≠ steered.key := by
  have hprogrammable : sampleHead.Programmable sampleHeadPorts :=
    { ingress := by rintro _ ⟨⟩
      egress := by
        rintro _ ⟨⟩
        exact ⟨_, sampleHeadPorts_p1⟩
      whole := fun hrole => absurd rfl hrole
      addFcs := by
        intro fc hfc
        obtain rfl := List.mem_singleton.1 hfc
        exact ⟨rfl, rfl⟩
      delFcs := by
        rintro _ ⟨⟩ }
  obtain ⟨ops, hops⟩ : ∃ ops, sampleHead.installOps ⟨"br-int", "h1", 99⟩ sampleHeadPorts = .ok ops :=
    hprogrammable.exists_installOps
  have hmember : sampleHead.Emits ⟨"br-int", "h1", 99⟩ sampleHeadPorts .member _ :=
    .member rfl List.mem_cons_self
  have hsteered : sampleHead.Emits ⟨"br-int", "h1", 99⟩ sampleHeadPorts .groupSteering _ :=
    .pass (p := ⟨.egress, false⟩) List.mem_cons_self (.groupSteering rfl
      (inboundPort_of_attached rfl sampleHeadPorts_p1) List.mem_cons_self)
  have hall := steps_apart.1 _ _ _ _ hops
  exact ⟨ops, _, _, hall, (hall _).2 ⟨_, rfl, hmember⟩, (hall _).2 ⟨_, rfl, hsteered⟩,
    steps_apart.2.2.2 _ _ _ _ _ _ _ _ _ _ hmember hsteered (by decide)⟩

end FlowRule

end ServiceChain
