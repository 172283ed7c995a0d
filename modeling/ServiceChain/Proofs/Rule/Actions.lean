import ServiceChain.Proofs.Rule.Effect

/-!
# Entries that hand traffic to a group

Only the egress side of a hop hands traffic to a group, its own next-hop group, and only by entries whose
match leaves the VLAN tag open (`group_of_passEntries`); the ingress side always matches a tag
(`egress_of_untagged`).  So an entry that an installation adds with a group among its actions is one for a
group that the installation sets as well (`handsTo_of_installOps`).
-/

namespace ServiceChain

namespace FlowRule

variable {ctx : HostContext} {ports : PortTable} {r : FlowRule} {fcs : List FlowClassifier}
  {entries : List FlowEntry} {entry : FlowEntry} {key : FlowKey} {ops : List BridgeOp} {id : UInt32}

/-! ## Passes -/

theorem group_of_forwardActions (h : .group id ∈ r.forwardActions) :
    ∃ group, r.activeGroup = some group ∧ group.id = id := by
  unfold forwardActions at h
  cases hactive : r.activeGroup with
  | none => simp [hactive] at h
  | some group =>
    have hid : id = group.id := by simpa [hactive] using h
    exact ⟨group, rfl, hid.symm⟩

/-- The egress side hands traffic to no group but the next-hop group, whatever its tag. -/
theorem group_of_egressEntries (h : r.egressEntries ctx ports fcs = .ok entries)
    (hentry : entry ∈ entries) (hid : .group id ∈ entry.actions) :
    entry.key.pattern.dlVlan = none ∧ ∃ group, r.activeGroup = some group ∧ group.id = id := by
  obtain ⟨classification, source, hclassify, hnone, hsource, rfl⟩ := egressEntries_eq_ok.1 h
  rcases List.mem_append.1 hentry with hentry | hentry
  · by_cases hrole : r.role = .source
    · obtain ⟨fc, -, inPort, sets, -, -, fields, -, rfl⟩ :=
        (mem_classificationEntries (hclassify hrole)).1 hentry
      exact ⟨rfl, group_of_forwardActions hid⟩
    · rw [hnone hrole] at hentry
      cases hentry
  · cases hactive : r.activeGroup with
    | some group =>
      obtain ⟨inPort, -, rfl⟩ := (sourceEntries_of_group hactive).1 hsource
      obtain rfl := eq_of_mem_groupSteeringEntries hentry
      have hid : id = group.id := by simpa using hid
      exact ⟨rfl, group, rfl, hid.symm⟩
    | none =>
      -- without a group traffic is sent on or straight to its destination
      exfalso
      rcases (mem_sourceEntries hactive hsource).1 hentry with
        ⟨inPort, -, hreturn⟩ | ⟨mac, -, fc, -, hsteer⟩
      · obtain ⟨port, -, rfl⟩ := exists_of_mem_returnEntries hreturn
        simp at hid
      · obtain ⟨nwDst, -, rfl⟩ := Option.map_eq_some_iff.1 hsteer
        simp only [steeringActions] at hid
        split at hid <;> simp at hid

/-- The ingress side matches tagged traffic, and hands it to no group. -/
theorem tagged_of_destinationEntries (h : r.destinationEntries ctx ports fcs = .ok entries)
    (hentry : entry ∈ entries) :
    entry.key.pattern.dlVlan = some r.segment.vid ∧ ∀ id, .group id ∉ entry.actions := by
  cases hactive : r.activeGroup with
  | none =>
    obtain ⟨port, -, ⟨fc, -, hdeliver⟩ | ⟨-, rfl⟩⟩ := (mem_destinationEntries hactive h).1 hentry
    · obtain ⟨nwDst, -, rfl⟩ := Option.map_eq_some_iff.1 hdeliver
      exact ⟨rfl, by simp⟩
    · exact ⟨rfl, by simp [transportEntry]⟩
  | some group =>
    obtain ⟨port, -, fc, -, hdeliver⟩ := (mem_destinationEntries_of_group hactive h).1 hentry
    unfold groupDeliveryEntries at hdeliver
    split at hdeliver
    · cases hdeliver
    · simp only [List.mem_cons, List.not_mem_nil, or_false] at hdeliver
      rcases hdeliver with rfl | rfl
      · exact ⟨rfl, by simp⟩
      · exact ⟨rfl, by simp⟩

theorem group_of_passEntries {p : Pass} (h : r.passEntries ctx ports fcs p = .ok entries)
    (hentry : entry ∈ entries) (hid : .group id ∈ entry.actions) :
    p.side = .egress ∧ entry.key.pattern.dlVlan = none ∧
      ∃ group, r.activeGroup = some group ∧ group.id = id := by
  obtain ⟨side, isReverse⟩ := p
  cases side with
  | egress =>
    have hgroup := group_of_egressEntries h hentry hid
    rw [seenBy_activeGroup] at hgroup
    exact ⟨rfl, hgroup⟩
  | ingress => exact absurd hid ((tagged_of_destinationEntries h hentry).2 id)

/-- A rule that names the key of traffic with any tag has an egress side. -/
theorem egress_of_untagged (h : r.Names ctx ports fcs r.installPasses key)
    (hvlan : key.pattern.dlVlan = none) : r.groupSet = r.activeGroup := by
  obtain ⟨⟨side, isReverse⟩, hp, entries, hentries, entry, hentry, rfl⟩ := h
  cases side with
  | egress =>
    have hside := exists_egress_installPasses.1 ⟨_, hp, rfl⟩
    unfold groupSet
    rw [hside]
    cases r.activeGroup <;> rfl
  | ingress =>
    have htagged := (tagged_of_destinationEntries hentries hentry).1
    cases htagged.symm.trans hvlan

/-! ## Installations -/

/-- The rule installs an entry that hands traffic to a group, and sets the group. -/
structure HandsTo (ctx : HostContext) (ports : PortTable) (r : FlowRule) (key : FlowKey)
    (id : UInt32) : Prop where
  names : r.Names ctx ports r.addFcs r.installPasses key
  untagged : key.pattern.dlVlan = none
  group : ∃ group, r.groupSet = some group ∧ group.id = id

theorem handsTo_of_installOps (h : r.installOps ctx ports = .ok ops) (hop : .addFlow entry ∈ ops)
    (hid : .group id ∈ entry.actions) : r.HandsTo ctx ports entry.key id := by
  rcases (mem_installOps h).1 hop with ⟨group, -, hop⟩ | ⟨p, hp, entries, hentries, hop⟩
  · -- the entry of a member delivers, or sends through the transport port
    exfalso
    rcases mem_ensureOps.1 hop with heq | ⟨member, -, heq⟩
    · cases heq
    · cases heq
      simp only [NextHopGroup.memberActions] at hid
      split at hid <;> simp at hid
  · obtain ⟨entry', hentry, heq⟩ := mem_flows.1 hop
    obtain rfl : entry = entry' := by cases heq; rfl
    obtain ⟨-, huntagged, group, hactive, hgroup⟩ := group_of_passEntries hentries hentry hid
    have hnames : r.Names ctx ports r.addFcs r.installPasses entry.key :=
      ⟨p, hp, entries, hentries, entry, hentry, rfl⟩
    exact ⟨hnames, huntagged, group, (egress_of_untagged hnames huntagged).trans hactive, hgroup⟩

end FlowRule

end ServiceChain
