import ServiceChain.Proofs.Rule.Effect

/-!
# Removal undoes installation

A rule whose classifiers to add and to take away are the same, and that no other chain shares, names
the same keys both ways, so its removal compiles if its installation does
(`exists_removeOps_of_installOps`).  On a bridge where all that the rule installs is new, running one
after the other restores every entry and every group; if the removal does not hold the last use of
the next-hop group, the group and its members stay (`removal_undoes_installation`).
-/

namespace ServiceChain

/-- One bridge is another with a group and the entries of its members as they were installed. -/
structure Bridge.KeepsGroup (before installed after : Bridge) (ctx : HostContext)
    (segment : SegmentId) (group : NextHopGroup) : Prop where
  ports : after.ports = before.ports
  failing : after.failing = before.failing
  groups : ∀ id, after.group? id = if group.id = id then some group.spec else before.group? id
  /-- The entry of a member is that of the installation, and is one that the group asks for. -/
  members : ∀ member ∈ group.members,
    after.flow? (NextHopGroup.memberKey member.mac) =
        installed.flow? (NextHopGroup.memberKey member.mac) ∧
      ∃ twin ∈ group.members, twin.mac = member.mac ∧
        after.flow? (NextHopGroup.memberKey member.mac) =
          some (NextHopGroup.memberActions ctx segment twin)
  other : ∀ key, (∀ member ∈ group.members, NextHopGroup.memberKey member.mac ≠ key) →
    after.flow? key = before.flow? key

namespace FlowRule

open BridgeOp

variable {ctx : HostContext} {ports : PortTable} {r : FlowRule}
  {ops installs removals : List BridgeOp} {key : FlowKey}

/-! ## Removals of a rule that no other chain shares -/

theorem exists_removeOps_of_installOps (hfcs : r.addFcs = r.delFcs) (hwhole : r.IsWhole)
    (h : r.installOps ctx ports = .ok installs) :
    ∃ removals, r.removeOps ctx ports = .ok removals := by
  apply exists_removeOps
  apply exists_uninstallOps
  intro p hp
  rw [← hfcs]
  exact exists_passEntries h ((mem_removalPasses hwhole).1 hp)

theorem removes_of_unshared (hwhole : r.IsWhole) (hshared : r.sharedWith = [])
    (hfcs : r.addFcs = r.delFcs) (h : r.removeOps ctx ports = .ok removals) :
    (∃ op ∈ removals, op.removes key) ↔
      (r.Names ctx ports r.addFcs r.installPasses key ∨
        ∃ group, r.releases = some group ∧ group.HasMemberKey key) ∨
          r.IsStale ports key := by
  have hkept : key ∉ r.sharedKeys ctx ports := by
    rw [mem_sharedKeys, hshared]
    simp
  rw [removes_removeOps hwhole h, names_removalPasses hwhole, and_iff_left hkept, hfcs]

/-! ## Entries -/

/-- Where a removal takes what the installation added, and of the rest only what was not there, all
is as it was before. -/
theorem entryAfter_restored (hwhole : r.IsWhole) (hinstall : r.installOps ctx ports = .ok installs)
    (hremove : r.removeOps ctx ports = .ok removals) {v : Option (List FlowAction)}
    (hfree : (∃ op ∈ installs, op.adds key) → v = none ∧ ∃ op ∈ removals, op.removes key)
    (hother : (∃ op ∈ removals, op.removes key) → (∃ op ∈ installs, op.adds key) ∨ v = none) :
    entryAfter removals key (entryAfter installs key v) = v := by
  have hnever : ∀ op ∈ removals, ¬ op.adds key := not_adds_removeOps hwhole hremove
  by_cases hremoves : ∃ op ∈ removals, op.removes key
  · rw [entryAfter_of_removes hnever hremoves]
    rcases hother hremoves with hadds | hnone
    · exact (hfree hadds).1.symm
    · exact hnone.symm
  · have hadds := mt (fun h => (hfree h).2) hremoves
    push Not at hadds hremoves
    rw [entryAfter_of_untouched hnever (by simpa using hremoves),
      entryAfter_of_untouched hadds (not_removes_installOps hinstall)]

/-- The keys of a released group go with it. -/
theorem entryAfter_of_releases (hwhole : r.IsWhole) (hshared : r.sharedWith = [])
    (hfcs : r.addFcs = r.delFcs) (hreleases : r.releases = r.groupSet)
    (hinstall : r.installOps ctx ports = .ok installs)
    (hremove : r.removeOps ctx ports = .ok removals) {v : Option (List FlowAction)}
    (hfree : (∃ op ∈ installs, op.adds key) → v = none) (hstale : r.IsStale ports key → v = none) :
    entryAfter removals key (entryAfter installs key v) = v := by
  have hremoves : (∃ op ∈ removals, op.removes key) ↔
      (∃ op ∈ installs, op.adds key) ∨ r.IsStale ports key := by
    rw [removes_of_unshared hwhole hshared hfcs hremove, hreleases, adds_installOps hinstall]
  refine entryAfter_restored hwhole hinstall hremove (fun hadds => ?_) (fun h => ?_)
  · exact ⟨hfree hadds, hremoves.2 (.inl hadds)⟩
  · exact (hremoves.1 h).imp_right hstale

/-- A key that no member of the group has is free again after a removal that keeps the group. -/
theorem entryAfter_of_keeps (hwhole : r.IsWhole) (hshared : r.sharedWith = [])
    (hfcs : r.addFcs = r.delFcs) (hreleases : r.releases = none)
    (hinstall : r.installOps ctx ports = .ok installs)
    (hremove : r.removeOps ctx ports = .ok removals)
    (hmember : ∀ group, r.groupSet = some group → ∀ member ∈ group.members,
      NextHopGroup.memberKey member.mac ≠ key)
    {v : Option (List FlowAction)} (hfree : (∃ op ∈ installs, op.adds key) → v = none)
    (hstale : r.IsStale ports key → v = none) :
    entryAfter removals key (entryAfter installs key v) = v := by
  have hadds : (∃ op ∈ installs, op.adds key) ↔ r.Names ctx ports r.addFcs r.installPasses key := by
    rw [adds_installOps hinstall]
    refine or_iff_left ?_
    rintro ⟨group, hgroup, member, hmem, hkey⟩
    exact hmember group hgroup member hmem hkey
  have hremoves : (∃ op ∈ removals, op.removes key) ↔
      (∃ op ∈ installs, op.adds key) ∨ r.IsStale ports key := by
    rw [removes_of_unshared hwhole hshared hfcs hremove, hreleases, hadds]
    simp
  refine entryAfter_restored hwhole hinstall hremove (fun h => ?_) (fun h => ?_)
  · exact ⟨hfree h, hremoves.2 (.inl h)⟩
  · exact (hremoves.1 h).imp_right hstale

/-- A removal that keeps the group leaves the entry of each member as it was. -/
theorem entryAfter_memberKey (hwhole : r.IsWhole) (hshared : r.sharedWith = [])
    (hfcs : r.addFcs = r.delFcs) (hreleases : r.releases = none)
    (hremove : r.removeOps ctx ports = .ok removals) (mac : MacAddress)
    (v : Option (List FlowAction)) :
    entryAfter removals (NextHopGroup.memberKey mac) v = v := by
  have hkept : ¬ ∃ op ∈ removals, op.removes (NextHopGroup.memberKey mac) := by
    rw [removes_of_unshared hwhole hshared hfcs hremove, hreleases]
    rintro ((hnames | ⟨group, hgroup, -⟩) | ⟨-, -, -, -, htable, -⟩)
    · exact hnames.isPassKey.ne_memberKey mac rfl
    · cases hgroup
    · cases htable
  push Not at hkept
  exact entryAfter_of_untouched (not_adds_removeOps hwhole hremove) (by simpa using hkept) v

/-- An installation gives the key of a member the actions of a member with that address. -/
theorem exists_memberActions (hinstall : r.installOps ctx ports = .ok installs)
    {group : NextHopGroup} (hgroup : r.groupSet = some group) {member : NextHop}
    (hmember : member ∈ group.members) (v : Option (List FlowAction)) :
    ∃ twin ∈ group.members, twin.mac = member.mac ∧
      entryAfter installs (NextHopGroup.memberKey member.mac) v =
        some (NextHopGroup.memberActions ctx r.segment twin) := by
  have hadds := (adds_installOps hinstall).2 (.inr ⟨group, hgroup, member, hmember, rfl⟩)
  obtain ⟨entry, hop, hkey, hactions⟩ :=
    exists_addFlow_of_adds (not_removes_installOps hinstall) hadds v
  rcases (mem_installOps hinstall).1 hop with ⟨group', hgroup', hop⟩ | ⟨p, hp, entries, hentries, hop⟩
  · obtain rfl := Option.some.inj (hgroup.symm.trans hgroup')
    rcases mem_ensureOps.1 hop with hop | ⟨twin, htwin, hop⟩
    · cases hop
    · cases hop
      refine ⟨twin, htwin, ?_, hactions⟩
      simpa [NextHopGroup.memberKey] using hkey
  · obtain ⟨entry', hentry', hop⟩ := mem_flows.1 hop
    cases hop
    exact absurd hkey.symm ((isPassKey_of_passEntries hentries hentry').ne_memberKey _)

/-! ## Running both -/

theorem isSome_groupSet_iff (h : r.installOps ctx ports = .ok installs) :
    r.groupSet.isSome ↔ ∃ spec, .ensureGroup spec ∈ installs := by
  constructor
  · intro hset
    obtain ⟨group, hgroup⟩ := Option.isSome_iff_exists.1 hset
    exact ⟨group.spec, (mem_installOps h).2 (.inl ⟨group, hgroup, mem_ensureOps.2 (.inl rfl)⟩)⟩
  · rintro ⟨spec, hspec⟩
    rcases (mem_installOps h).1 hspec with ⟨group, hgroup, -⟩ | ⟨p, -, entries, -, hop⟩
    · rw [hgroup]
      rfl
    · obtain ⟨entry, -, hop⟩ := mem_flows.1 hop
      cases hop

/-- The rule sets no group, or its removal holds the last use of it. -/
def FreesGroup (r : FlowRule) (installs : List BridgeOp) : Prop :=
  (∀ spec, .ensureGroup spec ∉ installs) ∨ ∃ n, r.groupRefs = some n ∧ n ≤ 1

theorem releases_of_freesGroup (h : r.installOps ctx ports = .ok installs)
    (hfrees : r.FreesGroup installs) : r.releases = r.groupSet := by
  cases hset : r.groupSet with
  | none => simp [releases, hset]
  | some group =>
    rcases hfrees with hnone | ⟨n, hrefs, hn⟩
    · obtain ⟨spec, hspec⟩ := (isSome_groupSet_iff h).1 (by simp [hset])
      exact absurd hspec (hnone spec)
    · simp [releases, hset, releasesGroup, (mem_groupSet.1 hset).1, hrefs, hn]

/-- A rule that does not free its group sets it and keeps it. -/
theorem exists_groupSet_of_not_freesGroup (h : r.installOps ctx ports = .ok installs)
    (hfrees : ¬ r.FreesGroup installs) :
    ∃ group, r.nextGroup = some group ∧ r.groupSet = some group ∧ r.releases = none := by
  unfold FreesGroup at hfrees
  push Not at hfrees
  obtain ⟨hsets, hrefs⟩ := hfrees
  obtain ⟨group, hgroup⟩ := Option.isSome_iff_exists.1 ((isSome_groupSet_iff h).2 hsets)
  refine ⟨group, (Option.filter_eq_some_iff.1 (mem_groupSet.1 hgroup).1).1, hgroup, ?_⟩
  rw [releases, hgroup, Option.filter_eq_none_iff]
  intro _ _ hreleases
  rw [releasesGroup, Bool.and_eq_true, Option.any_eq_true] at hreleases
  obtain ⟨-, n, hn, hle⟩ := hreleases
  exact hrefs n hn (by simpa using hle)

/-- Installing a rule and removing it again, where all that it installs is new. -/
theorem removal_undoes_installation (hfcs : r.addFcs = r.delFcs) (hshared : r.sharedWith = [])
    (hwhole : r.IsWhole) (h : r.installOps ctx ports = .ok installs) :
    ∃ removals, r.removeOps ctx ports = .ok removals ∧
      ∀ b : Bridge, b.ports = ports → b.failing = [] →
        (∀ entry, .addFlow entry ∈ installs → b.flow? entry.key = none) →
        (∀ key : FlowKey, key.table = .chainIngress →
          key.pattern.dlType = some EtherType.mplsUnicast → b.flow? key = none) →
        (∀ group, r.nextGroup = some group → b.group? group.id = none) →
        (b.execute installs).failure = none ∧
          ((b.execute installs).bridge.execute removals).failure = none ∧
          (r.FreesGroup installs → ((b.execute installs).bridge.execute removals).bridge = b) ∧
          (¬ r.FreesGroup installs → ∃ group, r.nextGroup = some group ∧
            b.KeepsGroup (b.execute installs).bridge
              ((b.execute installs).bridge.execute removals).bridge ctx r.segment group) := by
  obtain ⟨removals, hremove⟩ := exists_removeOps_of_installOps hfcs hwhole h
  refine ⟨removals, hremove, fun b hports hfailing hfree hmpls hgroupFree => ?_⟩
  have hinstalled := Bridge.execute_ok hfailing installs
  have hreplay := Bridge.execute_replayed hinstalled
  have hremoved := Bridge.execute_ok (hreplay.failing.trans hfailing) removals
  have hreplay' := Bridge.execute_replayed hremoved
  have hboth := hreplay.append hreplay'
  have hnew : ∀ key, (∃ op ∈ installs, op.adds key) → b.flow? key = none := by
    rintro key ⟨op, hop, entry, rfl, rfl⟩
    exact hfree entry hop
  have hold : ∀ key, r.IsStale ports key → b.flow? key = none := by
    rintro key ⟨-, -, -, -, htable, htype, -⟩
    exact hmpls key htable htype
  refine ⟨hinstalled, hremoved, fun hfrees => ?_, fun hfrees => ?_⟩
  · have hreleases := releases_of_freesGroup h hfrees
    refine Bridge.ext_tables hboth.ports hboth.failing (fun key => ?_) (fun id => ?_)
    · rw [hreplay'.flow, hreplay.flow]
      exact entryAfter_of_releases hwhole hshared hfcs hreleases h hremove (hnew key) (hold key)
    · rw [hreplay'.group, hreplay.group, groupAfter_removeOps hwhole hremove,
        groupAfter_installOps h, hreleases]
      cases hset : r.groupSet with
      | none => rfl
      | some group =>
        obtain ⟨hactive, -⟩ := mem_groupSet.1 hset
        have hnone := hgroupFree group (Option.filter_eq_some_iff.1 hactive).1
        by_cases hid : group.id = id
        · subst hid
          simp [hnone]
        · simp [hid]
  · obtain ⟨group, hnext, hset, hreleases⟩ := exists_groupSet_of_not_freesGroup h hfrees
    refine ⟨group, hnext, hboth.ports, hboth.failing, fun id => ?_, fun member hmember => ?_,
      fun key hkey => ?_⟩
    · rw [hreplay'.group, hreplay.group, groupAfter_removeOps hwhole hremove,
        groupAfter_installOps h, hreleases, hset]
    · obtain ⟨twin, htwin, hmac, hactions⟩ := exists_memberActions h hset hmember
        (b.flow? (NextHopGroup.memberKey member.mac))
      have hkept := entryAfter_memberKey hwhole hshared hfcs hreleases hremove member.mac
      exact ⟨by rw [hreplay'.flow, hkept],
        twin, htwin, hmac, by rw [hreplay'.flow, hkept, hreplay.flow, hactions]⟩
    · rw [hreplay'.flow, hreplay.flow]
      refine entryAfter_of_keeps hwhole hshared hfcs hreleases h hremove ?_ (hnew key) (hold key)
      rintro group' hgroup'
      obtain rfl := Option.some.inj (hset.symm.trans hgroup')
      exact hkey

/-- A service function before a group of two instances, with traffic both ways. -/
def sampleHop : FlowRule where
  id := "n1:d1"
  role := .serviceFunction
  nsp := 7
  nsi := 254
  ingress := some "p1"
  egress := some "p2"
  host := some "h1"
  segment := ⟨100, by decide, by decide⟩
  nextGroup := some
    ⟨5, [⟨"a", ⟨#v[2, 0, 0, 0, 0, 3]⟩, 1, some "h1"⟩, ⟨"b", ⟨#v[2, 0, 0, 0, 0, 4]⟩, 2, some "h2"⟩]⟩
  groupRefs := some 1
  addFcs := [{ id := "f", logicalDestination := some "p9" }]
  delFcs := [{ id := "f", logicalDestination := some "p9" }]
  reversePath := true

/-- A bridge with nothing but the two ports of the sample. -/
def sampleBridge : Bridge where
  ports := (∅ : PortTable).insert "p1" ⟨1, ⟨#v[2, 0, 0, 0, 0, 1]⟩⟩
    |>.insert "p2" ⟨2, ⟨#v[2, 0, 0, 0, 0, 2]⟩⟩

theorem sampleHop_installs_and_goes :
    ∃ installs removals,
      sampleHop.installOps ⟨"br-int", "h1", 99⟩ sampleBridge.ports = .ok installs ∧
        sampleHop.removeOps ⟨"br-int", "h1", 99⟩ sampleBridge.ports = .ok removals ∧
        ((sampleBridge.execute installs).bridge.execute removals).bridge = sampleBridge := by
  have hok : (sampleHop.installOps ⟨"br-int", "h1", 99⟩ sampleBridge.ports).isOk = true := by
    decide +kernel
  cases h : sampleHop.installOps ⟨"br-int", "h1", 99⟩ sampleBridge.ports with
  | error e => simp [h, Except.isOk, Except.toBool] at hok
  | ok installs =>
    obtain ⟨removals, hremovals, hrun⟩ :=
      removal_undoes_installation rfl rfl (fun _ => ⟨rfl, rfl⟩) h
    obtain ⟨-, -, hrestored, -⟩ := hrun sampleBridge rfl rfl (fun _ _ => by
      simp [sampleBridge, Bridge.flow?]) (fun _ _ _ => by simp [sampleBridge, Bridge.flow?])
      (fun _ _ => by simp [sampleBridge, Bridge.group?])
    exact ⟨installs, removals, rfl, hremovals, hrestored (.inr ⟨1, rfl, by decide⟩)⟩

end FlowRule

end ServiceChain
