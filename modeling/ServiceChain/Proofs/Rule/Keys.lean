import ServiceChain.Proofs.Rule.Passes

/-!
# The entries of a pass

What a pass has is told entry by entry: the classification at the head (`mem_classificationEntries`),
the traffic that leaves a node (`mem_sourceEntries`), and the traffic that is delivered to it
(`mem_destinationEntries`), without a next-hop group and with one.

All of it matches IPv4 traffic, and in the cross-subnet table it stands at the priority of steering
(`FlowKey.IsPassKey`).  So it is kept apart from the members of groups and from the static entries of a
bridge.
-/

namespace ServiceChain

/-- The key matches IPv4 traffic, and is no key of a group member. -/
structure FlowKey.IsPassKey (key : FlowKey) : Prop where
  dlType : key.pattern.dlType = some EtherType.ipv4Value
  priority : key.table = .crossSubnet → key.priority = Priority.steering

theorem FlowClassifier.dlType_of_matchFields {fc : FlowClassifier} {sets : List MatchFields}
    (h : fc.matchFields = .ok sets) {fields : MatchFields} (hfields : fields ∈ sets) :
    fields.dlType = EtherType.ipv4Value := by
  unfold matchFields at h
  split at h
  · cases h
    cases hfields
  · cases h
    cases hfields
  · simp only [Except.bind_eq_ok, Except.pure_eq_ok] at h
    obtain ⟨sources, -, destinations, -, rfl⟩ := h
    simp only [List.mem_flatMap, List.mem_map] at hfields
    obtain ⟨-, -, -, -, rfl⟩ := hfields
    rfl

namespace FlowRule

variable {ctx : HostContext} {ports : PortTable} {r : FlowRule} {fcs : List FlowClassifier}
  {entries : List FlowEntry} {entry : FlowEntry} {key : FlowKey}

/-! ## The egress side -/

theorem egressEntries_eq_ok :
    r.egressEntries ctx ports fcs = .ok entries ↔
      ∃ classification source,
        (r.role = .source → r.classificationEntries ports fcs = .ok classification) ∧
          (r.role ≠ .source → classification = []) ∧
          r.sourceEntries ctx ports fcs = .ok source ∧ entries = classification ++ source := by
  unfold egressEntries
  by_cases hrole : r.role = .source
  · simp only [if_pos hrole, Except.bind_eq_ok, Except.pure_eq_ok]
    constructor
    · rintro ⟨classification, hclassify, source, hsource, rfl⟩
      exact ⟨classification, source, fun _ => hclassify, fun h => absurd hrole h, hsource, rfl⟩
    · rintro ⟨classification, source, hclassify, -, hsource, rfl⟩
      exact ⟨classification, hclassify hrole, source, hsource, rfl⟩
  · simp only [if_neg hrole, Except.bind_eq_ok, Except.pure_eq_ok, Except.ok.injEq]
    constructor
    · rintro ⟨-, rfl, source, hsource, rfl⟩
      exact ⟨[], source, fun h => absurd h hrole, fun _ => rfl, hsource, rfl⟩
    · rintro ⟨classification, source, -, hnone, hsource, rfl⟩
      exact ⟨[], rfl, source, hsource, by rw [hnone hrole]⟩

/-- The entry tags traffic that a classifier selects. -/
def Classifies (ports : PortTable) (r : FlowRule) (fc : FlowClassifier) (entry : FlowEntry) :
    Prop :=
  ∃ inPort sets, r.inboundPort ports = .ok inPort ∧ fc.matchFields = .ok sets ∧
    ∃ fields ∈ sets, entry =
      ⟨⟨.localSwitching, if inPort.isSome then Priority.ingress else Priority.fallback,
        fields.restrict { inPort := inPort }⟩, r.forwardActions⟩

theorem mem_classificationEntries (h : r.classificationEntries ports fcs = .ok entries) :
    entry ∈ entries ↔ ∃ fc ∈ fcs, r.Classifies ports fc entry := by
  simp only [classificationEntries, Except.bind_eq_ok, Except.pure_eq_ok,
    Except.mapError_eq_ok] at h
  obtain ⟨inPort, hport, sets, hsets, rfl⟩ := h
  simp only [List.mem_map, List.mem_flatten]
  constructor
  · rintro ⟨fields, ⟨set, hset, hfields⟩, rfl⟩
    obtain ⟨fc, hfc, hmatch⟩ := Except.exists_of_mem_mapM hsets hset
    exact ⟨fc, hfc, inPort, set, hport, hmatch, fields, hfields, rfl⟩
  · rintro ⟨fc, hfc, inPort', set, hport', hmatch, fields, hfields, rfl⟩
    obtain rfl := Except.ok.inj (hport.symm.trans hport')
    obtain ⟨set', hset', hmatch'⟩ := Except.exists_of_mem_of_mapM hsets hfc
    obtain rfl := Except.ok.inj (hmatch.symm.trans hmatch')
    exact ⟨fields, ⟨set, hset', hfields⟩, rfl⟩

theorem sourceEntries_of_group {group : NextHopGroup} (hgroup : r.activeGroup = some group) :
    r.sourceEntries ctx ports fcs = .ok entries ↔
      ∃ inPort, r.inboundPort ports = .ok inPort ∧
        r.groupSteeringEntries group inPort fcs = entries := by
  simp only [sourceEntries, hgroup, Except.bind_eq_ok, Except.pure_eq_ok]

/-- Before a group there is one steering entry, under the first address of a logical destination. -/
theorem eq_of_mem_groupSteeringEntries {group : NextHopGroup} {inPort : Option UInt32}
    (h : entry ∈ r.groupSteeringEntries group inPort fcs) :
    entry = ⟨⟨.localSwitching, Priority.steering,
        { inPort, dlType := some EtherType.ipv4Value, dlDst := fcs.findSome? (·.destinationMac) }⟩,
      [.modVlanVid r.segment.vid, .group group.id]⟩ := by
  simp only [groupSteeringEntries] at h
  split at h
  · cases h
  · exact List.mem_singleton.1 h

/-- There is one return entry, on the port that traffic comes back through. -/
theorem exists_of_mem_returnEntries {inPort : Option UInt32} (h : entry ∈ r.returnEntries inPort) :
    ∃ port, inPort = some port ∧ entry =
      ⟨⟨.localSwitching, Priority.delivery,
          { inPort := some port, dlType := some EtherType.ipv4Value }⟩,
        [.modVlanVid r.segment.vid, .resubmit .crossSubnet]⟩ := by
  unfold returnEntries at h
  split at h
  · cases h
  · cases h
  · exact ⟨_, rfl, List.mem_singleton.1 h⟩

/-- Without a group, traffic that comes back is tagged, and each classifier's is steered. -/
theorem mem_sourceEntries (hgroup : r.activeGroup = none)
    (h : r.sourceEntries ctx ports fcs = .ok entries) :
    entry ∈ entries ↔
      (∃ inPort, r.inboundPort ports = .ok inPort ∧ entry ∈ r.returnEntries inPort) ∨
        ∃ mac, r.nodeMac ports = .ok mac ∧
          ∃ fc ∈ fcs, r.steeringEntry? ctx ports mac fc = some entry := by
  simp only [sourceEntries, hgroup, Except.bind_eq_ok] at h
  obtain ⟨inPort, hport, h⟩ := h
  have hreturn : (∃ inPort, r.inboundPort ports = .ok inPort ∧ entry ∈ r.returnEntries inPort) ↔
      entry ∈ r.returnEntries inPort := by
    simp [hport]
  rw [hreturn]
  split at h
  · rename_i hempty
    obtain rfl := Except.pure_eq_ok.1 h
    simp [List.isEmpty_iff.1 hempty]
  · simp only [Except.bind_eq_ok, Except.pure_eq_ok] at h
    obtain ⟨mac, hmac, rfl⟩ := h
    simp [hmac]

/-! ## The ingress side -/

/-- Without a group, each classifier's traffic is delivered, and tagged traffic is handed over. -/
theorem mem_destinationEntries (hgroup : r.activeGroup = none)
    (h : r.destinationEntries ctx ports fcs = .ok entries) :
    entry ∈ entries ↔ ∃ port, r.ingressPort ports = .ok port ∧
      ((∃ fc ∈ fcs, r.deliveryEntry? port fc = some entry) ∨
        (∃ fc, fc ∈ fcs) ∧ entry = r.transportEntry ctx port) := by
  simp only [destinationEntries, hgroup, Except.bind_eq_ok] at h
  obtain ⟨port, hport, h⟩ := h
  cases fcs with
  | nil =>
    obtain rfl := Except.pure_eq_ok.1 h
    simp
  | cons fc fcs =>
    obtain rfl := Except.pure_eq_ok.1 h
    have hsome : ∃ fc', fc' ∈ fc :: fcs := ⟨fc, List.mem_cons_self⟩
    rw [List.mem_append, List.mem_filterMap, List.mem_singleton]
    simp only [hport, Except.ok.injEq, hsome, true_and, exists_eq_left']

/-- Before a group, the first classifier's sources are delivered. -/
theorem mem_destinationEntries_of_group {group : NextHopGroup} (hgroup : r.activeGroup = some group)
    (h : r.destinationEntries ctx ports fcs = .ok entries) :
    entry ∈ entries ↔ ∃ port, r.ingressPort ports = .ok port ∧
      ∃ fc, fcs.head? = some fc ∧ entry ∈ r.groupDeliveryEntries port fc := by
  simp only [destinationEntries, hgroup, Except.bind_eq_ok] at h
  obtain ⟨port, hport, h⟩ := h
  cases fcs with
  | nil =>
    obtain rfl := Except.pure_eq_ok.1 h
    simp
  | cons fc fcs =>
    obtain rfl := Except.pure_eq_ok.1 h
    simp [hport]

/-! ## Keys -/

theorem isPassKey_classification {fc : FlowClassifier} (h : r.Classifies ports fc entry) :
    entry.key.IsPassKey := by
  obtain ⟨inPort, sets, -, hsets, fields, hfields, rfl⟩ := h
  refine ⟨?_, nofun⟩
  rw [← FlowClassifier.dlType_of_matchFields hsets hfields]
  rfl

theorem isPassKey_source (h : r.sourceEntries ctx ports fcs = .ok entries)
    (hentry : entry ∈ entries) : entry.key.IsPassKey := by
  cases hgroup : r.activeGroup with
  | some group =>
    obtain ⟨inPort, -, rfl⟩ := (sourceEntries_of_group hgroup).1 h
    obtain rfl := eq_of_mem_groupSteeringEntries hentry
    exact ⟨rfl, nofun⟩
  | none =>
    rcases (mem_sourceEntries hgroup h).1 hentry with ⟨inPort, -, hreturn⟩ | ⟨mac, -, fc, -, hsteer⟩
    · obtain ⟨port, -, rfl⟩ := exists_of_mem_returnEntries hreturn
      exact ⟨rfl, nofun⟩
    · obtain ⟨nwDst, -, rfl⟩ := Option.map_eq_some_iff.1 hsteer
      exact ⟨rfl, fun _ => rfl⟩

theorem isPassKey_destination (h : r.destinationEntries ctx ports fcs = .ok entries)
    (hentry : entry ∈ entries) : entry.key.IsPassKey := by
  cases hgroup : r.activeGroup with
  | none =>
    obtain ⟨port, -, ⟨fc, -, hdeliver⟩ | ⟨-, rfl⟩⟩ := (mem_destinationEntries hgroup h).1 hentry
    · obtain ⟨nwDst, -, rfl⟩ := Option.map_eq_some_iff.1 hdeliver
      exact ⟨rfl, nofun⟩
    · exact ⟨rfl, nofun⟩
  | some group =>
    obtain ⟨port, -, fc, -, hdeliver⟩ := (mem_destinationEntries_of_group hgroup h).1 hentry
    unfold groupDeliveryEntries at hdeliver
    split at hdeliver
    · cases hdeliver
    · simp only [List.mem_cons, List.not_mem_nil, or_false] at hdeliver
      rcases hdeliver with rfl | rfl <;> exact ⟨rfl, nofun⟩

theorem isPassKey_of_passEntries {p : Pass} (h : r.passEntries ctx ports fcs p = .ok entries)
    (hentry : entry ∈ entries) : entry.key.IsPassKey := by
  obtain ⟨side, isReverse⟩ := p
  cases side with
  | ingress => exact isPassKey_destination h hentry
  | egress =>
    obtain ⟨classification, source, hclassify, hnone, hsource, rfl⟩ := egressEntries_eq_ok.1 h
    rcases List.mem_append.1 hentry with hentry | hentry
    · by_cases hrole : (r.seenBy ⟨.egress, isReverse⟩).role = .source
      · obtain ⟨fc, -, hfc⟩ := (mem_classificationEntries (hclassify hrole)).1 hentry
        exact isPassKey_classification hfc
      · rw [hnone hrole] at hentry
        cases hentry
    · exact isPassKey_source hsource hentry

theorem Names.isPassKey {passes : List Pass} (h : r.Names ctx ports fcs passes key) :
    key.IsPassKey := by
  obtain ⟨p, -, entries, hentries, entry, hentry, rfl⟩ := h
  exact isPassKey_of_passEntries hentries hentry

end FlowRule

namespace FlowKey.IsPassKey

variable {key : FlowKey}

/-- What a pass names is no key of a group member. -/
theorem ne_memberKey (h : key.IsPassKey) (mac : MacAddress) :
    NextHopGroup.memberKey mac ≠ key := by
  rintro rfl
  have hpriority : Priority.ingress = Priority.steering := h.priority rfl
  exact absurd hpriority (by decide)

end FlowKey.IsPassKey

end ServiceChain
