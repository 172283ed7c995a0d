import ServiceChain.Proofs.Rule.Keys

/-!
# What rules do to a bridge

A removal keeps the keys that the rules of other chains install (`mem_sharedKeys`), and otherwise takes
what its passes name and the members of a group that it releases (`removes_removeOps`).  An installation
sets the rule's group and a removal takes it down, or neither touches a group
(`groupAfter_installOps`, `groupAfter_removeOps`).
-/

namespace ServiceChain

namespace FlowRule

open BridgeOp

variable {ctx : HostContext} {ports : PortTable} {r : FlowRule} {ops : List BridgeOp}
  {op : BridgeOp} {key : FlowKey}

/-! ## Shared keys -/

theorem key?_eq_some_of_installOps (h : r.installOps ctx ports = .ok ops) (hop : op ∈ ops) :
    op.key? = some key ↔ op.adds key := by
  rcases (mem_installOps h).1 hop with ⟨group, -, hop⟩ | ⟨p, -, entries, -, hop⟩
  · rcases mem_ensureOps.1 hop with rfl | ⟨member, -, rfl⟩ <;> simp [key?]
  · obtain ⟨entry, -, rfl⟩ := mem_flows.1 hop
    simp [key?]

/-- A key is shared if the rule of another chain compiles and installs it. -/
theorem mem_sharedKeys :
    key ∈ r.sharedKeys ctx ports ↔ ∃ other ∈ r.sharedWith, ∃ ops,
      other.installOps ctx ports = .ok ops ∧ ∃ op ∈ ops, op.adds key := by
  simp only [sharedKeys, List.mem_flatMap]
  refine exists_congr fun other => and_congr Iff.rfl ?_
  cases hops : other.installOps ctx ports with
  | error e => simp
  | ok ops =>
    simp only [List.mem_filterMap, Except.ok.injEq, exists_eq_left']
    exact exists_congr fun op => and_congr_right (key?_eq_some_of_installOps hops)

/-- What a rule installs matches IPv4 traffic. -/
theorem dlType_of_adds (h : r.installOps ctx ports = .ok ops) (hop : op ∈ ops) (hadds : op.adds key) :
    key.pattern.dlType = some EtherType.ipv4Value := by
  rcases (adds_installOps h).1 ⟨op, hop, hadds⟩ with hnames | ⟨group, -, member, -, rfl⟩
  · exact hnames.isPassKey.dlType
  · rfl

theorem not_isStale (hkey : key.pattern.dlType = some EtherType.ipv4Value) :
    ¬ r.IsStale ports key := by
  rintro ⟨id, port, -, -, -, htype, -⟩
  rw [hkey] at htype
  exact absurd htype (by decide)

/-! ## Removals -/

theorem exists_uninstallOps_of_removeOps (h : r.removeOps ctx ports = .ok ops) :
    ∃ full, r.uninstallOps ctx ports = .ok full ∧
      ∀ op, op ∈ ops ↔
        op ∈ full ∧ removesAny (Std.ExtTreeSet.ofList (r.sharedKeys ctx ports)) op = false := by
  simp only [removeOps, Except.bind_eq_ok, Except.pure_eq_ok] at h
  obtain ⟨full, hfull, rfl⟩ := h
  exact ⟨full, hfull, fun op => by simp⟩

theorem exists_removeOps (h : ∃ full, r.uninstallOps ctx ports = .ok full) :
    ∃ ops, r.removeOps ctx ports = .ok ops := by
  obtain ⟨full, hfull⟩ := h
  unfold removeOps
  rw [hfull]
  exact ⟨_, rfl⟩

theorem not_adds_removeOps (hr : r.IsWhole) (h : r.removeOps ctx ports = .ok ops) :
    ∀ op ∈ ops, ¬ op.adds key := by
  obtain ⟨full, hfull, hmem⟩ := exists_uninstallOps_of_removeOps h
  exact fun op hop => not_adds_uninstallOps hr hfull op ((hmem op).1 hop).1

/-- A removal adds nothing, not even one of a service function that has one port only. -/
theorem not_adds_of_removal (h : r.removeOps ctx ports = .ok ops) : ∀ op ∈ ops, ¬ op.adds key := by
  obtain ⟨full, hfull, hmem⟩ := exists_uninstallOps_of_removeOps h
  intro op hop
  rcases (mem_uninstallOps hfull).1 ((hmem op).1 hop).1 with ⟨p, -, entries, -, hop⟩ | hop | hop
  · obtain ⟨entry, -, rfl⟩ := mem_flows.1 hop
    simp
  · obtain ⟨id, port, -, -, rfl⟩ := mem_mplsCleanup.1 hop
    simp
  · obtain ⟨group, rfl | ⟨member, -, rfl⟩⟩ := exists_of_mem_releaseOps hop <;> simp

/-- A removal takes what its passes name and the members of a group that it releases, as far as no
other chain has it, and old entries under MPLS labels. -/
theorem removes_removeOps (hr : r.IsWhole) (h : r.removeOps ctx ports = .ok ops) :
    (∃ op ∈ ops, op.removes key) ↔
      (r.Names ctx ports r.delFcs r.removalPasses key ∨
        ∃ group, r.releases = some group ∧ group.HasMemberKey key) ∧
          key ∉ r.sharedKeys ctx ports ∨ r.IsStale ports key := by
  obtain ⟨full, hfull, hmem⟩ := exists_uninstallOps_of_removeOps h
  have hkept : ∀ key actions, removesAny (Std.ExtTreeSet.ofList (r.sharedKeys ctx ports))
      (flow false key actions) = false ↔ key ∉ r.sharedKeys ctx ports := by
    simp [removesAny, isDeleteFlows, key?]
  constructor
  · rintro ⟨op, hop, hremoves⟩
    obtain ⟨hop, hkeep⟩ := (hmem op).1 hop
    rcases (mem_uninstallOps hfull).1 hop with ⟨p, hp, entries, hentries, hop⟩ | hop | hop
    · obtain ⟨entry, hentry, rfl⟩ := mem_flows.1 hop
      obtain rfl : entry.key = key := by simpa using hremoves
      exact .inl ⟨.inl ⟨p, hp, entries, hentries, entry, hentry, rfl⟩, (hkept _ _).1 hkeep⟩
    · exact .inr (removes_mplsCleanup.1 ⟨op, hop, hremoves⟩)
    · obtain ⟨group, hgroup, rfl | ⟨member, hmember, rfl⟩⟩ := (mem_releaseOps hr).1 hop
      · simp at hremoves
      · obtain rfl : NextHopGroup.memberKey member.mac = key := by simpa using hremoves
        exact .inl ⟨.inr ⟨group, hgroup, member, hmember, rfl⟩, (hkept _ _).1 hkeep⟩
  · rintro (⟨⟨p, hp, entries, hentries, entry, hentry, rfl⟩ | ⟨group, hgroup, member, hmember, rfl⟩,
      hnot⟩ | hstale)
    · have hop := (mem_uninstallOps hfull).2
        (.inl ⟨p, hp, entries, hentries, mem_flows.2 ⟨entry, hentry, rfl⟩⟩)
      exact ⟨_, (hmem _).2 ⟨hop, (hkept _ _).2 hnot⟩, by simp⟩
    · have hop := (mem_uninstallOps hfull).2
        (.inr (.inr ((mem_releaseOps hr).2 ⟨group, hgroup, .inr ⟨member, hmember, rfl⟩⟩)))
      exact ⟨_, (hmem _).2 ⟨hop, (hkept _ _).2 hnot⟩, by simp⟩
    · obtain ⟨op, hop, hremoves⟩ := removes_mplsCleanup.2 hstale
      refine ⟨op, (hmem op).2 ⟨(mem_uninstallOps hfull).2 (.inr (.inl hop)), ?_⟩, hremoves⟩
      obtain ⟨id, port, -, -, rfl⟩ := mem_mplsCleanup.1 hop
      simp [removesAny, key?]

/-! ## Groups -/

/-- An installation sets the group of the rule and no other. -/
theorem groupAfter_installOps (h : r.installOps ctx ports = .ok ops) (id : UInt32)
    (v : Option GroupSpec) :
    groupAfter ops id v =
      match r.groupSet with
      | some group => if group.id = id then some group.spec else v
      | none => v := by
  have honly : ∀ op ∈ ops, op.isGroupOp = true →
      ∃ group, r.groupSet = some group ∧ op = .ensureGroup group.spec := by
    intro op hop hgroupOp
    rcases (mem_installOps h).1 hop with ⟨group, hgroup, hop⟩ | ⟨p, -, entries, -, hop⟩
    · rcases mem_ensureOps.1 hop with rfl | ⟨member, -, rfl⟩
      · exact ⟨group, hgroup, rfl⟩
      · cases hgroupOp
    · obtain ⟨entry, -, rfl⟩ := mem_flows.1 hop
      cases hgroupOp
  cases hset : r.groupSet with
  | none =>
    refine groupAfter_of_not_group (fun op hop => ?_) id v
    cases hgroupOp : op.isGroupOp with
    | false => rfl
    | true =>
      obtain ⟨group, hgroup, -⟩ := honly op hop hgroupOp
      cases hset.symm.trans hgroup
  | some group =>
    have hmem : .ensureGroup group.spec ∈ ops :=
      (mem_installOps h).2 (.inl ⟨group, hset, mem_ensureOps.2 (.inl rfl)⟩)
    refine groupAfter_of_only hmem (fun op hop hgroupOp => ?_) id v
    obtain ⟨group', hgroup, rfl⟩ := honly op hop hgroupOp
    rw [Option.some.inj (hgroup.symm.trans hset)]

/-- A removal takes down the group that it releases and no other. -/
theorem groupAfter_removeOps (hr : r.IsWhole) (h : r.removeOps ctx ports = .ok ops)
    (id : UInt32) (v : Option GroupSpec) :
    groupAfter ops id v =
      match r.releases with
      | some group => if group.id = id then none else v
      | none => v := by
  obtain ⟨full, hfull, hmem⟩ := exists_uninstallOps_of_removeOps h
  have honly : ∀ op ∈ ops, op.isGroupOp = true →
      ∃ group, r.releases = some group ∧ op = .deleteGroup group.id := by
    intro op hop hgroupOp
    rcases (mem_uninstallOps hfull).1 ((hmem op).1 hop).1 with ⟨p, -, entries, -, hop⟩ | hop | hop
    · obtain ⟨entry, -, rfl⟩ := mem_flows.1 hop
      cases hgroupOp
    · obtain ⟨_, _, -, -, rfl⟩ := mem_mplsCleanup.1 hop
      cases hgroupOp
    · obtain ⟨group, hgroup, rfl | ⟨member, -, rfl⟩⟩ := (mem_releaseOps hr).1 hop
      · exact ⟨group, hgroup, rfl⟩
      · cases hgroupOp
  cases hreleases : r.releases with
  | none =>
    refine groupAfter_of_not_group (fun op hop => ?_) id v
    cases hgroupOp : op.isGroupOp with
    | false => rfl
    | true =>
      obtain ⟨group, hgroup, -⟩ := honly op hop hgroupOp
      cases hreleases.symm.trans hgroup
  | some group =>
    have hop : .deleteGroup group.id ∈ full := (mem_uninstallOps hfull).2
      (.inr (.inr ((mem_releaseOps hr).2 ⟨group, hreleases, .inl rfl⟩)))
    have hmem' : .deleteGroup group.id ∈ ops := (hmem _).2 ⟨hop, by simp [removesAny, isDeleteFlows]⟩
    refine groupAfter_of_only hmem' (fun op hop hgroupOp => ?_) id v
    obtain ⟨group', hgroup, rfl⟩ := honly op hop hgroupOp
    rw [Option.some.inj (hgroup.symm.trans hreleases)]

end FlowRule

end ServiceChain
