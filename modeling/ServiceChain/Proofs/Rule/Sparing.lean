import ServiceChain.Proofs.Bridge.Deletion
import ServiceChain.Proofs.Rule.Compiles
import ServiceChain.Proofs.Rule.Inverse

/-!
# What the removal of a shared rule takes

The installation of what a removal takes away (`counterpart`) tells what the removal takes from a bridge,
whatever stands there: the keys that the installation writes and no rule of another chain does, those of
group members only if the group is taken down (`Takes`), and the entries under the rule's MPLS label at its
ingress port (`IsStale`).  Every other entry stays as it was, and so does all that a rule of another chain
installs (`removal_takes_own`).
-/

namespace ServiceChain

/-- The key stands where the entries of group members stand. -/
def FlowKey.IsAmongMembers (key : FlowKey) : Prop :=
  key.table = .crossSubnet ∧ key.priority = Priority.ingress

namespace FlowRule

open BridgeOp

/-- The rule that installs what a removal takes away. -/
def counterpart (r : FlowRule) : FlowRule := { r with addFcs := r.delFcs }

/-- Some rule of another chain compiles and installs the key. -/
def IsSpared (ctx : HostContext) (ports : PortTable) (r : FlowRule) (key : FlowKey) : Prop :=
  ∃ other ∈ r.sharedWith, ∃ ops, other.installOps ctx ports = .ok ops ∧ ∃ op ∈ ops, op.adds key

/-- The removal of a rule takes a key that its counterpart installs and no rule of another chain does; one
that stands among those of group members only if the counterpart sets a group, and the rule holds its last
use. -/
structure Takes (ctx : HostContext) (ports : PortTable) (r : FlowRule) (installs : List BridgeOp)
    (key : FlowKey) : Prop where
  installed : ∃ op ∈ installs, op.adds key
  not_spared : ¬ r.IsSpared ctx ports key
  member : key.IsAmongMembers →
    (∃ spec, .ensureGroup spec ∈ installs) ∧ ∃ n, r.groupRefs = some n ∧ n ≤ 1

variable {ctx : HostContext} {ports : PortTable} {r : FlowRule} {installs removals : List BridgeOp}
  {key : FlowKey}

/-! ## The counterpart of a removal -/

theorem exists_removeOps_of_counterpart (hwhole : r.IsWhole)
    (h : r.counterpart.installOps ctx ports = .ok installs) :
    ∃ removals, r.removeOps ctx ports = .ok removals := by
  apply exists_removeOps
  apply exists_uninstallOps
  intro p hp
  obtain ⟨entries, hentries⟩ := exists_passEntries h ((mem_removalPasses hwhole).1 hp)
  have hhop : r.hop = r.counterpart.hop := rfl
  exact ⟨entries, (passEntries_congr hhop p).trans hentries⟩

/-- The counterpart adds what the passes of the removal name, and the members of its group. -/
theorem adds_counterpart (hwhole : r.IsWhole)
    (h : r.counterpart.installOps ctx ports = .ok installs) :
    (∃ op ∈ installs, op.adds key) ↔ r.Names ctx ports r.delFcs r.removalPasses key ∨
      ∃ group, r.groupSet = some group ∧ group.HasMemberKey key := by
  rw [adds_installOps h, names_removalPasses hwhole]
  exact or_congr (names_congr rfl) Iff.rfl

/-- The ingress port of a rule whose counterpart compiles is attached. -/
theorem attached_of_counterpart (h : r.counterpart.installOps ctx ports = .ok installs) :
    Attached ports r.ingress := by
  intro id hid
  have hpass : (⟨.ingress, false⟩ : Pass) ∈ r.counterpart.installPasses :=
    mem_installPasses.2 (Option.isSome_of_eq_some hid)
  obtain ⟨entries, hentries⟩ := exists_passEntries h hpass
  obtain ⟨port, hport, -⟩ := Except.bind_eq_ok.1 hentries
  have hport : r.ingressPort ports = .ok port := hport
  unfold ingressPort at hport
  simp only [hid] at hport
  split at hport
  · rename_i found hfound
    exact ⟨found, hfound⟩
  · cases hport

/-! ## What is taken -/

theorem isAmongMembers_of_hasMemberKey {group : NextHopGroup} (h : group.HasMemberKey key) :
    key.IsAmongMembers := by
  obtain ⟨member, -, rfl⟩ := h
  exact ⟨rfl, rfl⟩

theorem Names.not_isAmongMembers {fcs : List FlowClassifier} {passes : List Pass}
    (h : r.Names ctx ports fcs passes key) : ¬ key.IsAmongMembers := by
  rintro ⟨htable, hpriority⟩
  have hsteering := h.isPassKey.priority htable
  rw [hpriority] at hsteering
  exact absurd hsteering (by decide)

theorem takes_iff (hwhole : r.IsWhole) (h : r.counterpart.installOps ctx ports = .ok installs) :
    r.Takes ctx ports installs key ↔ (r.Names ctx ports r.delFcs r.removalPasses key ∨
      ∃ group, r.releases = some group ∧ group.HasMemberKey key) ∧
        key ∉ r.sharedKeys ctx ports := by
  have hsets : r.groupSet.isSome ↔ ∃ spec, .ensureGroup spec ∈ installs :=
    isSome_groupSet_iff (r := r.counterpart) h
  have hspared : key ∉ r.sharedKeys ctx ports ↔ ¬ r.IsSpared ctx ports key := by
    rw [mem_sharedKeys, IsSpared]
  rw [hspared]
  constructor
  · rintro ⟨hinstalled, hnot, hmember⟩
    refine ⟨?_, hnot⟩
    rcases (adds_counterpart hwhole h).1 hinstalled with hnames | ⟨group, hset, hkey⟩
    · exact .inl hnames
    · obtain ⟨-, hlast⟩ := hmember (isAmongMembers_of_hasMemberKey hkey)
      exact .inr ⟨group, releases_eq_some.2 ⟨hset, hlast⟩, hkey⟩
  · rintro ⟨hnames | ⟨group, hreleases, hkey⟩, hnot⟩
    · exact ⟨(adds_counterpart hwhole h).2 (.inl hnames), hnot,
        fun hmember => absurd hmember hnames.not_isAmongMembers⟩
    · obtain ⟨hset, hlast⟩ := releases_eq_some.1 hreleases
      exact ⟨(adds_counterpart hwhole h).2 (.inr ⟨group, hset, hkey⟩), hnot,
        fun _ => ⟨hsets.1 (by rw [hset]; rfl), hlast⟩⟩

/-- What a rule of another chain installs is neither taken nor cleared away. -/
theorem IsSpared.not_lost (h : r.IsSpared ctx ports key) :
    ¬ (r.Takes ctx ports installs key ∨ r.IsStale ports key) := by
  rintro (htakes | hstale)
  · exact htakes.not_spared h
  · obtain ⟨other, -, ops, hops, op, hop, hadds⟩ := h
    exact not_isStale (dlType_of_adds hops hop hadds) hstale

/-- The removal of a rule takes from a bridge what its counterpart installs and no rule of another chain
does, and clears the entries under its MPLS label at its ingress port.  It adds and changes nothing, and all
that a rule of another chain installs stays. -/
theorem removal_takes_own (hwhole : r.IsWhole)
    (h : r.counterpart.installOps ctx ports = .ok installs) :
    Attached ports r.ingress ∧ ∃ removals, r.removeOps ctx ports = .ok removals ∧
      ∀ b : Bridge, b.failing = [] →
        (b.execute removals).failure = none ∧
          b.Loses (b.execute removals).bridge
            (fun key => r.Takes ctx ports installs key ∨ r.IsStale ports key) ∧
          ∀ key, r.IsSpared ctx ports key →
            (b.execute removals).bridge.flow? key = b.flow? key := by
  obtain ⟨removals, hremove⟩ := exists_removeOps_of_counterpart hwhole h
  refine ⟨attached_of_counterpart h, removals, hremove, fun b hfailing => ?_⟩
  have hrun := Bridge.execute_ok hfailing removals
  have hreplay := Bridge.execute_replayed hrun
  have hnever : ∀ key, ∀ op ∈ removals, ¬ op.adds key := fun key => not_adds_removeOps hwhole hremove
  have hlost : ∀ key, (∃ op ∈ removals, op.removes key) ↔
      r.Takes ctx ports installs key ∨ r.IsStale ports key := by
    intro key
    rw [removes_removeOps hwhole hremove, takes_iff hwhole h]
  have hloses : b.Loses (b.execute removals).bridge
      (fun key => r.Takes ctx ports installs key ∨ r.IsStale ports key) := by
    intro key
    simp only [hreplay.flow, ← hlost]
    refine ⟨fun htaken => entryAfter_of_removes (hnever key) htaken _, fun hkept => ?_⟩
    push Not at hkept
    exact entryAfter_of_untouched (hnever key) (by simpa using hkept) _
  exact ⟨hrun, hloses, fun key hspared => (hloses key).2 hspared.not_lost⟩

/-- The sample hop is removed while another chain still leads from its port to a group with the first of the
two instances. -/
def sampleSharedHop : FlowRule :=
  { sampleHop with
    addFcs := []
    sharedWith :=
      [{ sampleHop with
          id := "n4:d1"
          nsp := 8
          nextGroup := sampleHop.nextGroup.map fun group => ⟨6, group.members.take 1⟩
          groupRefs := none
          delFcs := [] }] }

/-- The entry of the shared instance stays, that of the other goes. -/
theorem sampleSharedHop_keeps_shared_member :
    ∃ installs removals,
      sampleSharedHop.counterpart.installOps ⟨"br-int", "h1", 99⟩ sampleBridge.ports = .ok installs ∧
        sampleSharedHop.removeOps ⟨"br-int", "h1", 99⟩ sampleBridge.ports = .ok removals ∧
        ((sampleBridge.execute installs).bridge.execute removals).bridge.flow?
            (NextHopGroup.memberKey ⟨#v[2, 0, 0, 0, 0, 3]⟩) =
          (sampleBridge.execute installs).bridge.flow?
            (NextHopGroup.memberKey ⟨#v[2, 0, 0, 0, 0, 3]⟩) ∧
        ((sampleBridge.execute installs).bridge.execute removals).bridge.flow?
            (NextHopGroup.memberKey ⟨#v[2, 0, 0, 0, 0, 4]⟩) = none := by
  have hok : (sampleSharedHop.counterpart.installOps ⟨"br-int", "h1", 99⟩
      sampleBridge.ports).isOk = true := by decide +kernel
  cases h : sampleSharedHop.counterpart.installOps ⟨"br-int", "h1", 99⟩ sampleBridge.ports with
  | error e => simp [h, Except.isOk, Except.toBool] at hok
  | ok installs =>
    obtain ⟨-, removals, hremovals, hrun⟩ := removal_takes_own (fun _ => ⟨rfl, rfl⟩) h
    have hreplay := Bridge.execute_replayed (Bridge.execute_ok (b := sampleBridge) rfl installs)
    obtain ⟨-, hloses, hspared⟩ := hrun _ hreplay.failing
    refine ⟨installs, removals, rfl, hremovals, hspared _ ?_, (hloses _).1 (.inl ⟨?_, ?_, fun _ => ?_⟩)⟩
    · exact mem_sharedKeys.1 (by decide +kernel)
    · exact (adds_installOps h).2 (.inr ⟨_, rfl, ⟨"b", _, 2, some "h2"⟩, by decide, rfl⟩)
    · exact fun hshared => absurd (mem_sharedKeys.2 hshared) (by decide +kernel)
    · exact ⟨(isSome_groupSet_iff h).1 rfl, 1, rfl, by decide⟩

end FlowRule

end ServiceChain
