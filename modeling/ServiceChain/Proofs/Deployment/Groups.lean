import ServiceChain.Proofs.Deployment.Flows
import ServiceChain.Proofs.Topology.Groups

/-!
# Which groups stay on a bridge

Creations and changes of classifiers keep every group on the bridge and every entry of a group member in
use by a live chain (`GroupsUsed`), and a deletion does exactly if it frees what only its chain used
(`Frees`, `groups_used_iff`).  A head that has lost its source to a change of classifiers has no rule that
sets its group, and the group stays for good (`not_groups_used`).
-/

namespace ServiceChain

namespace Deployment

open ServiceChain.Topology

variable {env : TopologyEnv} {start s s' : Deployment} {call : ChainCall} {chainId : String}
  {rules : List FlowRule} {key : FlowKey} {t' : Topology}

/-- Every group on the bridge, and every entry for a group member, is that of a group that some live chain
leads to. -/
structure GroupsUsed (s : Deployment) : Prop where
  groups : ∀ id, (s.agent.bridge.group? id).isSome →
    ∃ chainId, s.topology.LeadsTo chainId (·.id = id)
  members : ∀ key : FlowKey, key.IsMemberKey → (s.agent.bridge.flow? key).isSome →
    ∃ chainId, s.topology.LeadsTo chainId (·.HasMemberKey key)

/-- The deletion of a chain frees what only the chain used: each group on the bridge that no other chain
leads to, and for each entry of a member that no other chain leads to, some group with that member. -/
structure Frees (env : TopologyEnv) (s : Deployment) (chainId : String) : Prop where
  groups : ∀ id, (s.agent.bridge.group? id).isSome →
    (∀ other, chainId ≠ other → ¬ s.topology.LeadsTo other (·.id = id)) →
      s.topology.SetsLast env chainId id
  members : ∀ key : FlowKey, key.IsMemberKey → (s.agent.bridge.flow? key).isSome →
    (∀ other, chainId ≠ other → ¬ s.topology.LeadsTo other (·.HasMemberKey key)) →
      ∃ d group, s.topology.Releases env chainId d group ∧ group.HasMemberKey key

/-- If the call deletes a chain, that frees what only the chain used. -/
def FreesGroups (env : TopologyEnv) (s : Deployment) (call : ChainCall) : Prop :=
  ∀ chainId, call = .delete chainId → s.Frees env chainId

theorem InstallsFor.leadsTo {d : PortDetail} (h : s.Sound env)
    (hinstalls : s.InstallsFor env chainId d key) (hmember : key.IsMemberKey) :
    s.topology.LeadsTo chainId (·.HasMemberKey key) := by
  obtain ⟨path, node, rule, hpath, hrule, hinstalls⟩ := hinstalls
  rcases (Agent.installs_iff (h.programmable hpath hrule)).1 hinstalls with
    hnames | ⟨group, hset, hkey⟩
  · obtain ⟨mac, hmac⟩ := hmember
    exact absurd hmac (hnames.isPassKey.ne_memberKey mac)
  · exact leadsTo_of_groupSet hpath hrule hset hkey

/-! ## Deliveries -/

theorem GroupsUsed.of_leadsTo (h : s.GroupsUsed)
    (hkeeps : ∀ chainId p, s.topology.LeadsTo chainId p → t'.LeadsTo chainId p) :
    ({ s with topology := t' } : Deployment).GroupsUsed where
  groups id hid := by
    obtain ⟨chainId, hleads⟩ := h.groups id hid
    exact ⟨chainId, hkeeps chainId _ hleads⟩
  members key hmember hkey := by
    obtain ⟨chainId, hleads⟩ := h.members key hmember hkey
    exact ⟨chainId, hkeeps chainId _ hleads⟩

/-- Installing the rules of a live chain. -/
theorem GroupsUsed.deliver_install (h : s.GroupsUsed) (hsound : s.Sound env)
    (hrules : s.topology.flowRules env chainId = .ok rules) :
    (s.deliver ⟨true, rules⟩).GroupsUsed := by
  obtain ⟨path, hpath, hpathRules⟩ := exists_path_of_flowRules hrules
  have hmem : ∀ rule, rule ∈ rules ↔ ∃ node d, HasRule env s.topology path node d rule :=
    fun rule => mem_pathRules hpathRules
  refine ⟨fun id hid => ?_, fun key hmember hkey => ?_⟩
  · rcases (Agent.isSome_group_updateRules hsound.failing
        (hsound.programmable_of_flowRules hrules)).1 hid with
      hid | ⟨rule, hrule, group, hset, hgroup⟩
    · exact h.groups id hid
    · obtain ⟨node, d, hrule⟩ := (hmem rule).1 hrule
      exact ⟨chainId, leadsTo_of_groupSet hpath hrule hset hgroup⟩
  · rcases (Agent.isSome_flow_updateRules hsound.failing).1 hkey with hkey | hinstalls
    · exact h.members key hmember hkey
    · obtain ⟨d, hinstalls⟩ := (exists_installsFor_iff hpath hrules).1 hinstalls
      have hleads := hinstalls.leadsTo hsound hmember
      exact ⟨chainId, hleads⟩

/-- Removing rules leaves no group and no entry that was not there. -/
theorem GroupsUsed.deliver_remove (h : s.GroupsUsed) (hsound : s.Sound env)
    (hprogrammable : ∀ rule ∈ rules, rule.Programmable s.agent.bridge.ports) :
    (s.deliver ⟨false, rules⟩).GroupsUsed := by
  refine ⟨fun id hid => ?_, fun key hmember hkey => ?_⟩
  · exact h.groups id ((Agent.isSome_group_deleteRules hsound.failing hprogrammable).1 hid).1
  · refine h.members key hmember ?_
    have hflow := Agent.flow_deleteRules hsound.failing
      (fun rule hrule => (hprogrammable rule hrule).isWhole) key
    by_cases hremoves : ∃ rule ∈ rules, s.agent.Removes rule key
    · change ((s.agent.deleteRules rules).agent.bridge.flow? key).isSome at hkey
      rw [hflow.1 hremoves] at hkey
      cases hkey
    · rw [← hflow.2 hremoves]
      exact hkey

/-! ## Deletions -/

theorem isSome_group_delete (h : s.Sound env)
    (hresult : (s.topology.deleteChain env chainId).result = .ok rules) (id : UInt32) :
    (((s.issue env (.delete chainId)).deliver ⟨false, rules⟩).agent.bridge.group? id).isSome ↔
      (s.agent.bridge.group? id).isSome ∧
        ¬ ∃ d group, s.topology.Releases env chainId d group ∧ group.id = id := by
  obtain ⟨path, hpath, hrules⟩ := exists_path_of_deleteChain hresult
  have hreleases : (∃ rule ∈ rules, ∃ group, rule.releases = some group ∧ group.id = id) ↔
      ∃ d group, s.topology.Releases env chainId d group ∧ group.id = id := by
    have hiff : ∀ group, (∃ rule ∈ rules, rule.releases = some group) ↔
        ∃ d, s.topology.Releases env chainId d group :=
      fun group => exists_releases_iff (h.wellFormed.shaped _ _ hpath) hpath hrules
    constructor
    · rintro ⟨rule, hrule, group, hgroup, hid⟩
      obtain ⟨d, hreleases⟩ := (hiff group).1 ⟨rule, hrule, hgroup⟩
      exact ⟨d, group, hreleases, hid⟩
    · rintro ⟨d, group, hreleases, hid⟩
      obtain ⟨rule, hrule, hgroup⟩ := (hiff group).2 ⟨d, hreleases⟩
      exact ⟨rule, hrule, group, hgroup, hid⟩
  rw [← hreleases]
  exact Agent.isSome_group_deleteRules h.failing (h.programmable_of_pathRemoval hpath hrules)

/-- The entry of a group member that no other chain leads to is taken with a group that is released. -/
theorem takes_iff_of_member (h : s.Sound env) (hmember : key.IsMemberKey)
    (hunused : ∀ other, chainId ≠ other → ¬ s.topology.LeadsTo other (·.HasMemberKey key)) :
    s.Takes env chainId key ↔
      ∃ d group, s.topology.Releases env chainId d group ∧ group.HasMemberKey key := by
  constructor
  · rintro ⟨d, ⟨hnot, -⟩ | ⟨group, hreleases, hkey⟩, -⟩
    · exact absurd hmember hnot
    · exact ⟨d, group, hreleases, hkey⟩
  · rintro ⟨d, group, hreleases, hkey⟩
    refine ⟨d, .inr ⟨group, hreleases, hkey⟩, ?_⟩
    rintro ⟨other, hne, hinstalls⟩
    exact hunused other hne (hinstalls.leadsTo h hmember)

/-- After a deletion the groups are in use exactly if it freed what only its chain used. -/
theorem groupsUsed_delete_iff (h : s.Sound env)
    (hresult : (s.topology.deleteChain env chainId).result = .ok rules) :
    ((s.issue env (.delete chainId)).deliver ⟨false, rules⟩).GroupsUsed ↔ s.Frees env chainId := by
  have hgroup := isSome_group_delete h hresult
  have hflow : ∀ key : FlowKey, key.IsMemberKey →
      ((((s.issue env (.delete chainId)).deliver ⟨false, rules⟩).agent.bridge.flow? key).isSome ↔
        (s.agent.bridge.flow? key).isSome ∧ ¬ s.Takes env chainId key) := by
    rintro key ⟨mac, rfl⟩
    exact isSome_flow_delete h hresult rfl
  have hleads := fun p => exists_leadsTo_deleteChain (p := p) h.wellFormed hresult
  constructor
  · intro hused
    refine ⟨fun id hid hunused => ?_, fun key hmember hkey hunused => ?_⟩
    · rw [← exists_releases_iff_setsLast h.wellFormed hunused]
      by_contra hkept
      obtain ⟨other, hne, huses⟩ := (hleads _).1 (hused.groups id ((hgroup id).2 ⟨hid, hkept⟩))
      exact hunused other hne huses
    · rw [← takes_iff_of_member h hmember hunused]
      by_contra hkept
      obtain ⟨other, hne, huses⟩ :=
        (hleads _).1 (hused.members key hmember ((hflow key hmember).2 ⟨hkey, hkept⟩))
      exact hunused other hne huses
  · intro hfrees
    refine ⟨fun id hid => (hleads _).2 ?_, fun key hmember hkey => (hleads _).2 ?_⟩
    · obtain ⟨hid, hkept⟩ := (hgroup id).1 hid
      by_contra hunused
      push Not at hunused
      exact hkept ((exists_releases_iff_setsLast h.wellFormed hunused).2
        (hfrees.groups id hid hunused))
    · obtain ⟨hkey, hkept⟩ := (hflow key hmember).1 hkey
      by_contra hunused
      push Not at hunused
      exact hkept ((takes_iff_of_member h hmember hunused).2
        (hfrees.members key hmember hkey hunused))

/-! ## Runs -/

theorem IsFresh.groupsUsed (h : start.IsFresh env) : start.GroupsUsed := by
  obtain ⟨agent, hfailing, hempty, hagent⟩ := h.prepared
  refine ⟨fun id hid => ?_, fun key hmember hkey => ?_⟩
  · rw [hagent, Agent.group_bootstrap hfailing] at hid
    cases hid
  · obtain ⟨mac, rfl⟩ := hmember
    rw [hagent] at hkey
    exact absurd rfl (FlowRule.dlType_ne_ipv4_of_static
      ((Agent.flow_bootstrap hfailing hempty).2 _ hkey))

/-- A delivery keeps the groups in use exactly if what it deletes, if anything, frees what only it used. -/
theorem GroupsUsed.afterDelivery_iff (hlaw : env.Lawful) (h : s.GroupsUsed) (hsound : s.Sound env)
    (hafter : s.AfterDelivery env call s') : s'.GroupsUsed ↔ s.FreesGroups env call := by
  rw [Deployment.afterDelivery_iff] at hafter
  cases call with
  | create chainId =>
    obtain ⟨rules, hresult, rfl⟩ := hafter
    refine iff_of_true ?_ nofun
    have hissued := h.of_leadsTo fun other p hleads =>
      hleads.after_create hlaw hsound.wellFormed chainId
    exact GroupsUsed.deliver_install hissued (hsound.issue hlaw (.create chainId))
      (flowRules_createChain hlaw hresult)
  | delete chainId =>
    obtain ⟨rules, hresult, rfl⟩ := hafter
    rw [groupsUsed_delete_iff hsound hresult]
    constructor
    · rintro hfrees _ ⟨⟩
      exact hfrees
    · exact fun hfrees => hfrees chainId rfl
  | update chainId added removed =>
    obtain ⟨update, hresult, hcases⟩ := hafter
    refine iff_of_true ?_ nofun
    rcases updateClassifiers_cases hlaw hsound.wellFormed chainId added removed with
      ⟨-, e, he⟩ | ⟨path, plan, path', hpath, hplan, hchanged, hupdate⟩
    · cases hresult.symm.trans he
    obtain ⟨hdelete, hown⟩ := hupdate update hresult
    have hissued : (s.issue env (.update chainId added removed)).GroupsUsed :=
      h.of_leadsTo fun other p hleads => hleads.after_update hlaw hsound.wellFormed chainId added removed
    have hsoundIssued := hsound.issue hlaw (.update chainId added removed)
    have hremoved : ((s.issue env (.update chainId added removed)).deliver
        ⟨false, update.delete⟩).GroupsUsed := by
      refine hissued.deliver_remove hsoundIssued ?_
      rw [hdelete]
      exact hsound.programmable_of_updatePlanned hpath hplan
    rcases hcases with rfl | rfl
    · exact hremoved
    · exact hremoved.deliver_install
        (hsoundIssued.of_sameGround (sameGround_deliver hsoundIssued.failing _)) hown

theorem Reaches.groupsUsed (hlaw : env.Lawful) (hfresh : start.IsFresh env)
    (h : Reaches env (fun s call => s.Succeeds env call ∧ s.FreesGroups env call) start s) :
    s.GroupsUsed := by
  apply h.keeps hfresh.groupsUsed
  · intro s call hcall
    exact hcall.1
  · intro s call s' hrun hcall hafter hused
    exact (hused.afterDelivery_iff hlaw (hrun.sound hlaw hfresh.toIsReady) hafter).2 hcall.2

/-- As long as every deletion frees what only its chain used, every group on the bridge and every entry of a
group member is in use by a live chain, and so there is none when no chain is live; the first deletion that
does not free it ends that. -/
theorem groups_used_iff (hlaw : env.Lawful) (hfresh : start.IsFresh env)
    (hrun : Reaches env (fun s call => s.Succeeds env call ∧ s.FreesGroups env call) start s)
    (hafter : s.AfterDelivery env call s') :
    (s'.GroupsUsed ↔ s.FreesGroups env call) ∧
      (s.FreesGroups env call → (∀ chainId, s'.topology.path? chainId = none) →
        (∀ id, s'.agent.bridge.group? id = none) ∧
          ∀ key : FlowKey, key.IsMemberKey → s'.agent.bridge.flow? key = none) := by
  have hiff := (hrun.groupsUsed hlaw hfresh).afterDelivery_iff hlaw
    (hrun.sound hlaw hfresh.toIsReady) hafter
  refine ⟨hiff, fun hfrees hempty => ?_⟩
  have hused := hiff.2 hfrees
  have hnone : ∀ p, ¬ ∃ chainId, s'.topology.LeadsTo chainId p := by
    rintro p ⟨chainId, path, hpath, -⟩
    rw [hempty] at hpath
    cases hpath
  refine ⟨fun id => ?_, fun key hmember => ?_⟩
  · rw [← Option.not_isSome_iff_eq_none]
    exact fun hid => hnone _ (hused.groups id hid)
  · rw [← Option.not_isSome_iff_eq_none]
    exact fun hkey => hnone _ (hused.members key hmember hkey)

/-! ## A case where a group stays -/

/-- A chain that was created and has lost its only classifier. -/
def sampleIdle : Deployment :=
  (sampleStart.step sampleEnv (.create "x")).step sampleEnv (.update "x" [] ["f1"])

theorem sampleCreated_updates :
    (sampleStart.step sampleEnv (.create "x")).Succeeds sampleEnv (.update "x" [] ["f1"]) :=
  succeeds_of_isOk (by decide +kernel)

theorem sampleIdle_deletes : sampleIdle.Succeeds sampleEnv (.delete "x") :=
  succeeds_of_isOk (by decide +kernel)

/-- After the deletion no chain is live, and the group is still there. -/
theorem sampleIdle_group_stays :
    ((sampleIdle.step sampleEnv (.delete "x")).agent.bridge.group? 1).isSome ∧
      ∀ p, ¬ ∃ chainId, (sampleIdle.step sampleEnv (.delete "x")).topology.LeadsTo chainId p := by
  have hempty : (sampleIdle.step sampleEnv (.delete "x")).topology.chains = ∅ := by decide +kernel
  refine ⟨by decide +kernel, ?_⟩
  rintro p ⟨chainId, path, hpath, -⟩
  simp [path?, hempty] at hpath

/-- The deletion of a chain without classifiers does not free its group. -/
theorem sampleIdle_not_frees : ¬ sampleIdle.Frees sampleEnv "x" := by
  have hrun : Reaches sampleEnv
      (fun s call => s.Succeeds sampleEnv call ∧ s.FreesGroups sampleEnv call) sampleStart
      sampleIdle :=
    (Reaches.start.step ⟨sampleStart_creates, nofun⟩).step ⟨sampleCreated_updates, nofun⟩
  rcases step_cases sampleIdle (.delete "x") with ⟨-, hafter⟩ | ⟨hfails, -⟩
  · intro hfrees
    have hcall : sampleIdle.FreesGroups sampleEnv (.delete "x") := by
      rintro _ ⟨⟩
      exact hfrees
    have hused := (groups_used_iff sampleEnv_lawful sampleStart_fresh hrun hafter).1.2 hcall
    exact sampleIdle_group_stays.2 _ (hused.groups 1 sampleIdle_group_stays.1)
  · exact absurd sampleIdle_deletes hfails

/-- Not every group on the bridge is in use after a run of successful calls. -/
theorem not_groups_used :
    ¬ ∀ (env : TopologyEnv) (start s s' : Deployment) (call : ChainCall), env.Lawful →
      start.IsFresh env → Reaches env (fun s call => s.Succeeds env call) start s →
        s.AfterDelivery env call s' → ∀ id, (s'.agent.bridge.group? id).isSome →
          ∃ chainId, s'.topology.LeadsTo chainId (·.id = id) := by
  intro hall
  have hrun : Reaches sampleEnv (fun s call => s.Succeeds sampleEnv call) sampleStart sampleIdle :=
    (Reaches.start.step sampleStart_creates).step sampleCreated_updates
  rcases step_cases sampleIdle (.delete "x") with ⟨-, hafter⟩ | ⟨hfails, -⟩
  · exact sampleIdle_group_stays.2 _ (hall sampleEnv sampleStart sampleIdle _ _ sampleEnv_lawful
      sampleStart_fresh hrun hafter 1 sampleIdle_group_stays.1)
  · exact absurd sampleIdle_deletes hfails

end Deployment

end ServiceChain
