import ServiceChain.Proofs.Bridge.Replay
import ServiceChain.Rule.Compile

/-!
# What a rule installs and what it removes

A pass has the same entries for installing and removing (`passEntries`), and a removal goes over the
sides that an installation goes over (`mem_removalPasses`).  So the operations of a rule are known
from the keys that its passes name (`Names`): an installation adds these and the members of its group,
and takes nothing away (`adds_installOps`, `not_removes_installOps`); a removal adds nothing
(`not_adds_uninstallOps`).
-/

namespace ServiceChain

/-- The key is that of the entry for a member of the group. -/
def NextHopGroup.HasMemberKey (group : NextHopGroup) (key : FlowKey) : Prop :=
  ∃ member ∈ group.members, NextHopGroup.memberKey member.mac = key

namespace FlowRule

/-- Classifiers as a pass sees them. -/
def Pass.turn (p : Pass) (fcs : List FlowClassifier) : List FlowClassifier :=
  if p.isReverse then fcs.map FlowClassifier.reversed else fcs

/-- The passes of a removal. -/
def removalPasses (r : FlowRule) : List Pass := r.forwardRemovals ++ r.reverseRemovals

/-- The rule has an egress side in some direction, where its next-hop group is set. -/
def hasEgressSide (r : FlowRule) : Bool := r.egress.isSome || (r.reversePath && r.ingress.isSome)

/-- A service function has both ports. -/
def IsWhole (r : FlowRule) : Prop :=
  r.role = .serviceFunction → r.ingress.isSome ∧ r.egress.isSome

/-- The group that the installation of a rule sets. -/
def groupSet (r : FlowRule) : Option NextHopGroup := r.activeGroup.filter fun _ => r.hasEgressSide

section Passes

variable (ctx : HostContext) (ports : PortTable)

/-- The entries of one pass for classifiers. -/
def passEntries (r : FlowRule) (fcs : List FlowClassifier) (p : Pass) :
    Except CompileError (List FlowEntry) :=
  match p.side with
  | .egress => (r.seenBy p).egressEntries ctx ports (p.turn fcs)
  | .ingress => (r.seenBy p).destinationEntries ctx ports (p.turn fcs)

/-- What the entries of a pass depend on, but for classifiers: neither ids and numbers, nor counts,
nor the rules of other chains. -/
def hop (r : FlowRule) : FlowRule :=
  { r with
    id := "", nsp := 0, nsi := 0, host := none, groupRefs := none, addFcs := [], delFcs := []
    reversePath := false, sharedWith := [] }

/-- Some of the passes has an entry with the key. -/
def Names (r : FlowRule) (fcs : List FlowClassifier) (passes : List Pass) (key : FlowKey) : Prop :=
  ∃ p ∈ passes, ∃ entries, r.passEntries ctx ports fcs p = .ok entries ∧
    ∃ entry ∈ entries, entry.key = key

/-- The operations of one pass for the group. -/
def passGroupOps (r : FlowRule) (install : Bool) (p : Pass) : List BridgeOp :=
  match p.side with
  | .egress => r.groupOps ctx install
  | .ingress => []

variable {ctx ports} {r : FlowRule} {fcs : List FlowClassifier} {passes : List Pass}
  {install : Bool} {ops : List BridgeOp} {op : BridgeOp} {key : FlowKey}

@[simp]
theorem seenBy_activeGroup (p : Pass) : (r.seenBy p).activeGroup = r.activeGroup := by
  unfold seenBy
  split <;> rfl

@[simp]
theorem seenBy_segment (p : Pass) : (r.seenBy p).segment = r.segment := by
  unfold seenBy
  split <;> rfl

theorem seenBy_classifiers (p : Pass) :
    (r.seenBy p).classifiers install = p.turn (r.classifiers install) := by
  unfold seenBy Pass.turn classifiers
  cases p.isReverse <;> cases install <;> rfl

theorem seenBy_groupOps (p : Pass) : (r.seenBy p).groupOps ctx install = r.groupOps ctx install := by
  simp only [groupOps, seenBy_activeGroup, seenBy_segment]

/-- One pass does to its entries what is asked for, after setting the group. -/
theorem passOps_eq (p : Pass) :
    r.passOps ctx ports install p =
      (r.passEntries ctx ports (r.classifiers install) p).map fun entries =>
        r.passGroupOps ctx install p ++ BridgeOp.flows install entries := by
  unfold passOps passEntries passGroupOps
  simp only [seenBy_classifiers]
  cases p.side with
  | egress => simp only [egressOps, seenBy_groupOps]
  | ingress => simp only [destinationOps, List.nil_append]

theorem mem_passesOps (h : r.passesOps ctx ports install passes = .ok ops) :
    op ∈ ops ↔ (∃ p ∈ passes, op ∈ r.passGroupOps ctx install p) ∨
      ∃ p ∈ passes, ∃ entries,
        r.passEntries ctx ports (r.classifiers install) p = .ok entries ∧
          op ∈ BridgeOp.flows install entries := by
  obtain ⟨opss, hopss, rfl⟩ := Except.map_eq_ok.1 h
  have hpass : ∀ p ∈ passes, ∃ entries,
      r.passEntries ctx ports (r.classifiers install) p = .ok entries ∧
        r.passGroupOps ctx install p ++ BridgeOp.flows install entries ∈ opss := by
    intro p hp
    obtain ⟨ops, hmem, hops⟩ := Except.exists_of_mem_of_mapM hopss hp
    obtain ⟨entries, hentries, rfl⟩ := Except.map_eq_ok.1 ((passOps_eq p).symm.trans hops)
    exact ⟨entries, hentries, hmem⟩
  rw [List.mem_flatten]
  constructor
  · rintro ⟨ops, hmem, hop⟩
    obtain ⟨p, hp, hops⟩ := Except.exists_of_mem_mapM hopss hmem
    obtain ⟨entries, hentries, rfl⟩ := Except.map_eq_ok.1 ((passOps_eq p).symm.trans hops)
    rcases List.mem_append.1 hop with hop | hop
    · exact .inl ⟨p, hp, hop⟩
    · exact .inr ⟨p, hp, entries, hentries, hop⟩
  · rintro (⟨p, hp, hop⟩ | ⟨p, hp, entries, hentries, hop⟩)
    · obtain ⟨entries, -, hmem⟩ := hpass p hp
      exact ⟨_, hmem, List.mem_append_left _ hop⟩
    · obtain ⟨entries', hentries', hmem⟩ := hpass p hp
      obtain rfl := Except.ok.inj (hentries.symm.trans hentries')
      exact ⟨_, hmem, List.mem_append_right _ hop⟩

theorem exists_passesOps (h : ∀ p ∈ passes, ∃ entries,
    r.passEntries ctx ports (r.classifiers install) p = .ok entries) :
    ∃ ops, r.passesOps ctx ports install passes = .ok ops := by
  have hpass : ∀ p ∈ passes, ∃ ops, r.passOps ctx ports install p = .ok ops := by
    intro p hp
    obtain ⟨entries, hentries⟩ := h p hp
    rw [passOps_eq, hentries]
    exact ⟨_, rfl⟩
  obtain ⟨opss, hopss⟩ := Except.exists_mapM_eq_ok hpass
  exact ⟨_, Except.map_eq_ok.2 ⟨opss, hopss, rfl⟩⟩

/-- Passes that were compiled have entries. -/
theorem exists_passEntries (h : r.passesOps ctx ports install passes = .ok ops) {p : Pass}
    (hp : p ∈ passes) :
    ∃ entries, r.passEntries ctx ports (r.classifiers install) p = .ok entries := by
  obtain ⟨opss, hopss, -⟩ := Except.map_eq_ok.1 h
  obtain ⟨ops, -, hops⟩ := Except.exists_of_mem_of_mapM hopss hp
  obtain ⟨entries, hentries, -⟩ := Except.map_eq_ok.1 ((passOps_eq p).symm.trans hops)
  exact ⟨entries, hentries⟩

theorem passEntries_hop (r : FlowRule) (p : Pass) :
    r.hop.passEntries ctx ports fcs p = r.passEntries ctx ports fcs p := by
  obtain ⟨side, isReverse⟩ := p
  cases side <;> cases isReverse <;> rfl

/-- Rules that differ in nothing that counts have the same entries. -/
theorem passEntries_congr {r' : FlowRule} (h : r.hop = r'.hop) (p : Pass) :
    r.passEntries ctx ports fcs p = r'.passEntries ctx ports fcs p := by
  rw [← passEntries_hop r, h, passEntries_hop]

theorem names_congr {r' : FlowRule} (h : r.hop = r'.hop) :
    r.Names ctx ports fcs passes key ↔ r'.Names ctx ports fcs passes key := by
  simp only [Names, passEntries_congr h]

/-- What an installation depends on: neither ids and numbers, nor what is taken away. -/
structure SameProgram (r r' : FlowRule) : Prop where
  hop : r.hop = r'.hop
  addFcs : r.addFcs = r'.addFcs
  reversePath : r.reversePath = r'.reversePath

theorem SameProgram.installOps {r' : FlowRule} (h : r.SameProgram r') :
    r.installOps ctx ports = r'.installOps ctx ports := by
  have hegress : r.egress = r'.egress := (congrArg FlowRule.egress h.hop :)
  have hingress : r.ingress = r'.ingress := (congrArg FlowRule.ingress h.hop :)
  have hsegment : r.segment = r'.segment := (congrArg FlowRule.segment h.hop :)
  have hactive : r.activeGroup = r'.activeGroup := (congrArg FlowRule.activeGroup h.hop :)
  have hpasses : r.installPasses = r'.installPasses := by
    simp only [installPasses, hegress, hingress, h.reversePath]
  have hpass : ∀ p, r.passOps ctx ports true p = r'.passOps ctx ports true p := by
    intro p
    have hgroup : r.passGroupOps ctx true p = r'.passGroupOps ctx true p := by
      simp only [passGroupOps, groupOps, hactive, hsegment]
    have hadd : r.classifiers true = r'.classifiers true := h.addFcs
    rw [passOps_eq, passOps_eq, passEntries_congr h.hop, hgroup, hadd]
  unfold FlowRule.installOps passesOps
  rw [hpasses, funext hpass]

/-! ## The sides that are gone over -/

theorem mem_installPasses {p : Pass} :
    p ∈ r.installPasses ↔
      match p with
      | ⟨.egress, false⟩ => r.egress.isSome
      | ⟨.ingress, false⟩ => r.ingress.isSome
      | ⟨.egress, true⟩ => r.reversePath ∧ r.ingress.isSome
      | ⟨.ingress, true⟩ => r.reversePath ∧ r.egress.isSome := by
  obtain ⟨side, isReverse⟩ := p
  cases side <;> cases isReverse <;> cases he : r.egress.isSome <;> cases hi : r.ingress.isSome <;>
    cases hr : r.reversePath <;> simp [installPasses, he, hi, hr]

/-- A removal goes over the sides that an installation goes over. -/
theorem mem_removalPasses (hr : r.IsWhole) {p : Pass} :
    p ∈ r.removalPasses ↔ p ∈ r.installPasses := by
  have hmid : r.role = .serviceFunction → r.ingress.isSome = true ∧ r.egress.isSome = true := hr
  rw [mem_installPasses]
  obtain ⟨side, isReverse⟩ := p
  cases side <;> cases isReverse <;> cases he : r.egress.isSome <;> cases hi : r.ingress.isSome <;>
    cases hv : r.reversePath <;>
    simp_all [removalPasses, forwardRemovals, reverseRemovals, spansReverse]

/-- A way back only adds passes. -/
theorem installPasses_mono {r' : FlowRule} (h : r.hop = r'.hop)
    (hreverse : r.reversePath = true → r'.reversePath = true) {p : Pass}
    (hp : p ∈ r.installPasses) : p ∈ r'.installPasses := by
  have hingress : r.ingress = r'.ingress := (congrArg FlowRule.ingress h :)
  have hegress : r.egress = r'.egress := (congrArg FlowRule.egress h :)
  rw [mem_installPasses] at hp ⊢
  obtain ⟨side, isReverse⟩ := p
  cases side <;> cases isReverse <;> simp_all

theorem names_removalPasses (hr : r.IsWhole) :
    r.Names ctx ports fcs r.removalPasses key ↔ r.Names ctx ports fcs r.installPasses key := by
  simp only [Names, mem_removalPasses hr]

theorem exists_egress_installPasses :
    (∃ p ∈ r.installPasses, p.side = .egress) ↔ r.hasEgressSide = true := by
  simp only [hasEgressSide, Bool.or_eq_true, Bool.and_eq_true]
  constructor
  · rintro ⟨⟨side, isReverse⟩, hp, rfl⟩
    rw [mem_installPasses] at hp
    cases isReverse with
    | false => exact .inl hp
    | true => exact .inr hp
  · rintro (h | h)
    · exact ⟨⟨.egress, false⟩, mem_installPasses.2 h, rfl⟩
    · exact ⟨⟨.egress, true⟩, mem_installPasses.2 h, rfl⟩

theorem egress_or_spansReverse (hr : r.IsWhole) :
    (r.egress.isSome || r.spansReverse r.ingress) = r.hasEgressSide := by
  have hmid : r.role = .serviceFunction → r.ingress.isSome = true ∧ r.egress.isSome = true := hr
  cases he : r.egress.isSome <;> cases hi : r.ingress.isSome <;> cases hv : r.reversePath <;>
    simp_all [spansReverse, hasEgressSide]

/-! ## Installations -/

theorem mem_groupSet {group : NextHopGroup} :
    r.groupSet = some group ↔ r.activeGroup = some group ∧ r.hasEgressSide := by
  simp [groupSet, Option.filter_eq_some_iff]

theorem mem_installOps (h : r.installOps ctx ports = .ok ops) :
    op ∈ ops ↔ (∃ group, r.groupSet = some group ∧ op ∈ group.ensureOps r.segment ctx) ∨
      ∃ p ∈ r.installPasses, ∃ entries, r.passEntries ctx ports r.addFcs p = .ok entries ∧
        op ∈ BridgeOp.flows true entries := by
  rw [mem_passesOps h]
  refine or_congr ?_ Iff.rfl
  constructor
  · rintro ⟨p, hp, hop⟩
    obtain ⟨side, isReverse⟩ := p
    cases side with
    | ingress => cases hop
    | egress =>
      cases hactive : r.activeGroup with
      | none => simp [passGroupOps, groupOps, hactive] at hop
      | some group =>
        refine ⟨group, mem_groupSet.2 ⟨hactive, exists_egress_installPasses.1 ⟨_, hp, rfl⟩⟩, ?_⟩
        simpa [passGroupOps, groupOps, hactive] using hop
  · rintro ⟨group, hgroup, hop⟩
    obtain ⟨hactive, hside⟩ := mem_groupSet.1 hgroup
    obtain ⟨p, hp, hegress⟩ := exists_egress_installPasses.2 hside
    exact ⟨p, hp, by simpa [passGroupOps, hegress, groupOps, hactive] using hop⟩

theorem mem_flows {entries : List FlowEntry} :
    op ∈ BridgeOp.flows install entries ↔
      ∃ entry ∈ entries, op = .flow install entry.key entry.actions := by
  simp [BridgeOp.flows, eq_comm]

theorem mem_ensureOps {group : NextHopGroup} {segment : SegmentId} :
    op ∈ group.ensureOps segment ctx ↔ op = .ensureGroup group.spec ∨
      ∃ member ∈ group.members, op = .addFlow
        ⟨NextHopGroup.memberKey member.mac, NextHopGroup.memberActions ctx segment member⟩ := by
  simp only [NextHopGroup.ensureOps, List.mem_append, List.mem_map, List.mem_singleton,
    BridgeOp.flow_true]
  rw [or_comm]
  exact or_congr Iff.rfl (exists_congr fun _ => and_congr Iff.rfl eq_comm)

/-- An installation adds the keys that its passes name and the members of the group that it sets. -/
theorem adds_installOps (h : r.installOps ctx ports = .ok ops) :
    (∃ op ∈ ops, op.adds key) ↔ r.Names ctx ports r.addFcs r.installPasses key ∨
      ∃ group, r.groupSet = some group ∧ group.HasMemberKey key := by
  constructor
  · rintro ⟨op, hop, hadds⟩
    rcases (mem_installOps h).1 hop with ⟨group, hgroup, hop⟩ | ⟨p, hp, entries, hentries, hop⟩
    · rcases mem_ensureOps.1 hop with rfl | ⟨member, hmember, rfl⟩
      · simp at hadds
      · exact .inr ⟨group, hgroup, member, hmember, by simpa using hadds⟩
    · obtain ⟨entry, hentry, rfl⟩ := mem_flows.1 hop
      exact .inl ⟨p, hp, entries, hentries, entry, hentry, by simpa using hadds⟩
  · rintro (⟨p, hp, entries, hentries, entry, hentry, hkey⟩ | ⟨group, hgroup, member, hmember, hkey⟩)
    · refine ⟨.flow true entry.key entry.actions, ?_, by simpa using hkey⟩
      exact (mem_installOps h).2 (.inr ⟨p, hp, entries, hentries, mem_flows.2 ⟨entry, hentry, rfl⟩⟩)
    · refine ⟨.addFlow ⟨NextHopGroup.memberKey member.mac,
        NextHopGroup.memberActions ctx r.segment member⟩, ?_, by simpa using hkey⟩
      exact (mem_installOps h).2 (.inl ⟨group, hgroup, mem_ensureOps.2 (.inr ⟨_, hmember, rfl⟩)⟩)

theorem not_removes_installOps (h : r.installOps ctx ports = .ok ops) :
    ∀ op ∈ ops, op.removes key = false := by
  intro op hop
  rcases (mem_installOps h).1 hop with ⟨group, -, hop⟩ | ⟨p, -, entries, -, hop⟩
  · rcases mem_ensureOps.1 hop with rfl | ⟨member, -, rfl⟩ <;> simp
  · obtain ⟨entry, -, rfl⟩ := mem_flows.1 hop
    simp

/-! ## Removals -/

theorem uninstallOps_eq_ok :
    r.uninstallOps ctx ports = .ok ops ↔
      ∃ forward reverse, r.passesOps ctx ports false r.forwardRemovals = .ok forward ∧
        r.passesOps ctx ports false r.reverseRemovals = .ok reverse ∧
        ops = forward ++ r.mplsCleanup ports ++ reverse ++ r.releaseOps := by
  simp only [uninstallOps, Except.bind_eq_ok, Except.pure_eq_ok]
  constructor
  · rintro ⟨forward, hforward, reverse, hreverse, rfl⟩
    exact ⟨forward, reverse, hforward, hreverse, rfl⟩
  · rintro ⟨forward, reverse, hforward, hreverse, rfl⟩
    exact ⟨forward, hforward, reverse, hreverse, rfl⟩

theorem exists_uninstallOps (h : ∀ p ∈ r.removalPasses, ∃ entries,
    r.passEntries ctx ports r.delFcs p = .ok entries) :
    ∃ ops, r.uninstallOps ctx ports = .ok ops := by
  obtain ⟨forward, hforward⟩ : ∃ ops, r.passesOps ctx ports false r.forwardRemovals = .ok ops :=
    exists_passesOps fun p hp => h p (List.mem_append_left _ hp)
  obtain ⟨reverse, hreverse⟩ : ∃ ops, r.passesOps ctx ports false r.reverseRemovals = .ok ops :=
    exists_passesOps fun p hp => h p (List.mem_append_right _ hp)
  exact ⟨_, uninstallOps_eq_ok.2 ⟨forward, reverse, hforward, hreverse, rfl⟩⟩

theorem mem_removal_passesOps (h : r.passesOps ctx ports false passes = .ok ops) :
    op ∈ ops ↔ ∃ p ∈ passes, ∃ entries, r.passEntries ctx ports r.delFcs p = .ok entries ∧
      op ∈ BridgeOp.flows false entries := by
  rw [mem_passesOps h]
  refine ⟨?_, .inr⟩
  rintro (⟨⟨side, isReverse⟩, hp, hop⟩ | h)
  · cases side <;> simp [passGroupOps, groupOps] at hop
  · exact h

theorem mem_uninstallOps (h : r.uninstallOps ctx ports = .ok ops) :
    op ∈ ops ↔ (∃ p ∈ r.removalPasses, ∃ entries,
        r.passEntries ctx ports r.delFcs p = .ok entries ∧ op ∈ BridgeOp.flows false entries) ∨
      op ∈ r.mplsCleanup ports ∨ op ∈ r.releaseOps := by
  obtain ⟨forward, reverse, hforward, hreverse, rfl⟩ := uninstallOps_eq_ok.1 h
  simp only [List.mem_append, mem_removal_passesOps hforward, mem_removal_passesOps hreverse,
    removalPasses, or_and_right, exists_or]
  rw [or_assoc, or_or_or_comm]

theorem mem_mplsCleanup :
    op ∈ r.mplsCleanup ports ↔ ∃ id port, r.ingress = some id ∧ ports[id]? = some port ∧
      op = .deleteFlows (some .chainIngress) none
        { dlType := some EtherType.mplsUnicast, dlDst := some port.mac,
          mplsLabel := some r.mplsLabel } := by
  unfold mplsCleanup
  split
  · rename_i hnone
    refine ⟨fun h => (List.not_mem_nil h).elim, ?_⟩
    rintro ⟨id, port, hid, hport, -⟩
    simp [hid, hport] at hnone
  · rename_i port hport
    obtain ⟨id, hid, hport⟩ := Option.bind_eq_some_iff.1 hport
    rw [List.mem_singleton]
    constructor
    · rintro rfl
      exact ⟨id, port, hid, hport, rfl⟩
    · rintro ⟨id', port', hid', hport', rfl⟩
      obtain rfl := Option.some.inj (hid.symm.trans hid')
      obtain rfl := Option.some.inj (hport.symm.trans hport')
      rfl

/-- The removal takes the group down. -/
def releases (r : FlowRule) : Option NextHopGroup := r.groupSet.filter fun _ => r.releasesGroup

/-- The rule that takes away what a rule installs. -/
def removal (r : FlowRule) (groupRefs : Option UInt32) (shared : List FlowRule) : FlowRule :=
  { r with groupRefs, addFcs := [], delFcs := r.addFcs, sharedWith := shared }

theorem releases_eq_some {group : NextHopGroup} :
    r.releases = some group ↔ r.groupSet = some group ∧ ∃ n, r.groupRefs = some n ∧ n ≤ 1 := by
  rw [releases, Option.filter_eq_some_iff]
  refine and_congr_right fun hset => ?_
  rw [releasesGroup, (mem_groupSet.1 hset).1, Option.isSome_some, Bool.true_and, Option.any_eq_true]
  simp

theorem releaseOps_eq (hr : r.IsWhole) :
    r.releaseOps = (r.releases.map NextHopGroup.teardownOps).getD [] := by
  unfold releaseOps releases groupSet
  rw [egress_or_spansReverse hr]
  cases r.activeGroup with
  | none => rfl
  | some group => cases r.hasEgressSide <;> cases r.releasesGroup <;> rfl

theorem exists_of_mem_releaseOps (h : op ∈ r.releaseOps) :
    ∃ group : NextHopGroup, op = .deleteGroup group.id ∨
      ∃ member ∈ group.members, op = .flow false (NextHopGroup.memberKey member.mac) [] := by
  unfold releaseOps at h
  split at h
  · rename_i group _
    split at h
    · simp only [NextHopGroup.teardownOps, List.mem_cons, List.mem_map] at h
      obtain rfl | ⟨member, hmember, rfl⟩ := h
      · exact ⟨group, .inl rfl⟩
      · exact ⟨group, .inr ⟨member, hmember, rfl⟩⟩
    · cases h
  · cases h

theorem mem_releaseOps (hr : r.IsWhole) :
    op ∈ r.releaseOps ↔ ∃ group, r.releases = some group ∧ (op = .deleteGroup group.id ∨
      ∃ member ∈ group.members, op = .flow false (NextHopGroup.memberKey member.mac) []) := by
  rw [releaseOps_eq hr]
  cases r.releases with
  | none => simp
  | some group => simp [NextHopGroup.teardownOps, eq_comm]

theorem not_adds_uninstallOps (hr : r.IsWhole) (h : r.uninstallOps ctx ports = .ok ops) :
    ∀ op ∈ ops, ¬ op.adds key := by
  intro op hop
  rcases (mem_uninstallOps h).1 hop with ⟨p, -, entries, -, hop⟩ | hop | hop
  · obtain ⟨entry, -, rfl⟩ := mem_flows.1 hop
    simp
  · obtain ⟨id, port, -, -, rfl⟩ := mem_mplsCleanup.1 hop
    simp
  · obtain ⟨group, -, rfl | ⟨member, -, rfl⟩⟩ := (mem_releaseOps hr).1 hop <;> simp

/-- An entry that the removal of old entries under MPLS labels takes. -/
def IsStale (ports : PortTable) (r : FlowRule) (key : FlowKey) : Prop :=
  ∃ id port, r.ingress = some id ∧ ports[id]? = some port ∧ key.table = .chainIngress ∧
    key.pattern.dlType = some EtherType.mplsUnicast ∧ key.pattern.dlDst = some port.mac ∧
    key.pattern.mplsLabel = some r.mplsLabel

theorem removes_mplsCleanup :
    (∃ op ∈ r.mplsCleanup ports, op.removes key) ↔ r.IsStale ports key := by
  simp only [mem_mplsCleanup, IsStale]
  constructor
  · rintro ⟨op, ⟨id, port, hid, hport, rfl⟩, hremoves⟩
    refine ⟨id, port, hid, hport, ?_⟩
    simp [BridgeOp.removes, Bridge.sweeps, FlowMatch.covers, FlowMatch.fieldCovers] at hremoves
    tauto
  · rintro ⟨id, port, hid, hport, htable, htype, hdst, hlabel⟩
    refine ⟨_, ⟨id, port, hid, hport, rfl⟩, ?_⟩
    simp [BridgeOp.removes, Bridge.sweeps, FlowMatch.covers, FlowMatch.fieldCovers, htable, htype,
      hdst, hlabel]

end Passes

end FlowRule

end ServiceChain
