import ServiceChain.Proofs.Deployment.Groups
import ServiceChain.Proofs.Deployment.Isolation
import ServiceChain.Proofs.Rule.Actions

/-!
# Whether entries find their groups

An entry that hands traffic to a group finds the group (`Grounded`) as long as no deletion strands one: takes
the group down, and leaves the entry for another chain that installs its key for the same port detail
(`Strands`).  That can only happen where two chains lead from a common detail to different groups; where
they agree (`Concerted`), every entry is backed by a live chain that sets its group (`Backed`), and every
entry finds its group (`references_grounded`).  Two chains that classify the traffic of one port into
different groups are a case where an entry is stranded (`not_references_grounded`).
-/

namespace ServiceChain

namespace Topology

/-- Nodes of different chains that list a common detail lead to the same group, and the nodes can be counted
in 32 bits. -/
structure Concerted (t : Topology) : Prop where
  nextGroup : ∀ a b pathA pathB, a ≠ b → t.path? a = some pathA → t.path? b = some pathB →
    ∀ nodeA ∈ pathA.nodes, ∀ nodeB ∈ pathB.nodes, ∀ id ∈ nodeA.portDetails, id ∈ nodeB.portDetails →
      nodeA.nextGroup = nodeB.nextGroup
  count : t.allNodes.length < UInt32.size

theorem concerted_iff {t : Topology} : t.Concerted ↔
    (∀ a ∈ t.chains.toList, ∀ b ∈ t.chains.toList, a.1 = b.1 ∨ ∀ nodeA ∈ a.2.nodes,
      ∀ nodeB ∈ b.2.nodes, ∀ id ∈ nodeA.portDetails, id ∈ nodeB.portDetails →
        nodeA.nextGroup = nodeB.nextGroup) ∧ t.allNodes.length < UInt32.size := by
  have hmem : ∀ a : String × ChainPath, a ∈ t.chains.toList ↔ t.path? a.1 = some a.2 :=
    fun _ => Std.ExtTreeMap.mem_toList_iff_getElem?_eq_some
  constructor
  · intro h
    refine ⟨fun a ha b hb => or_iff_not_imp_left.2 fun hne => ?_, h.count⟩
    exact h.nextGroup a.1 b.1 a.2 b.2 hne ((hmem a).1 ha) ((hmem b).1 hb)
  · rintro ⟨hgroup, hcount⟩
    refine ⟨fun a b pathA pathB hne ha hb => ?_, hcount⟩
    exact (hgroup (a, pathA) ((hmem _).2 ha) (b, pathB) ((hmem _).2 hb)).resolve_left hne

instance (t : Topology) : Decidable t.Concerted := decidable_of_iff' _ concerted_iff

end Topology

namespace Deployment

open ServiceChain.Topology

variable {env : TopologyEnv} {start s s' : Deployment} {call : ChainCall} {chainId other : String}
  {rules : List FlowRule} {key : FlowKey} {t' : Topology} {d : PortDetail} {id : UInt32}
  {actions : List FlowAction}

/-- Every entry that hands traffic to a group finds the group. -/
def Grounded (s : Deployment) : Prop :=
  ∀ key actions id, s.agent.bridge.flow? key = some actions → .group id ∈ actions →
    (s.agent.bridge.group? id).isSome

/-- The deletion of a chain takes a group down, and leaves an entry that hands traffic to it. -/
def Strands (env : TopologyEnv) (s : Deployment) (chainId : String) : Prop :=
  ∃ key actions d group, s.agent.bridge.flow? key = some actions ∧ .group group.id ∈ actions ∧
    s.topology.Releases env chainId d group ∧ ¬ s.Takes env chainId key

/-- The call deletes a chain, and that strands an entry. -/
def StrandsEntry (env : TopologyEnv) (s : Deployment) (call : ChainCall) : Prop :=
  ∃ chainId, call = .delete chainId ∧ s.Strands env chainId

/-! ## Deliveries -/

theorem Grounded.deliver_install (h : s.Grounded) (hsound : s.Sound env)
    (hrules : s.topology.flowRules env chainId = .ok rules) :
    (s.deliver ⟨true, rules⟩).Grounded := by
  intro key actions id hflow hid
  have hprogrammable := hsound.programmable_of_flowRules hrules
  refine (Agent.isSome_group_updateRules hsound.failing hprogrammable).2 ?_
  by_cases hinstalls : ∃ rule ∈ rules, s.agent.Installs rule key
  · -- the entry is one of the batch, which sets the group as well
    obtain ⟨rule, hrule, ops, hops, entry, hop, rfl, hentry⟩ :=
      Agent.exists_entry_of_installs hsound.failing hinstalls
    obtain rfl := Option.some.inj (hentry.symm.trans hflow)
    obtain ⟨-, -, group, hset, hgroup⟩ := FlowRule.handsTo_of_installOps hops hop hid
    exact .inr ⟨rule, hrule, group, hset, hgroup⟩
  · have hkept := Agent.flow_updateRules_of_not_installs hsound.failing hinstalls
    exact .inl (h key actions id (hkept.symm.trans hflow) hid)

/-- What a batch of removals leaves was there before. -/
theorem flow_of_deliver_remove (hfailing : s.agent.bridge.failing = [])
    (hwhole : ∀ rule ∈ rules, rule.IsWhole)
    (hflow : (s.deliver ⟨false, rules⟩).agent.bridge.flow? key = some actions) :
    s.agent.bridge.flow? key = some actions ∧ ¬ ∃ rule ∈ rules, s.agent.Removes rule key := by
  have hbatch := Agent.flow_deleteRules hfailing hwhole key
  by_cases hremoves : ∃ rule ∈ rules, s.agent.Removes rule key
  · have hnone := hbatch.1 hremoves
    cases hnone.symm.trans hflow
  · exact ⟨(hbatch.2 hremoves).symm.trans hflow, hremoves⟩

/-- Removing rules that take no group down. -/
theorem Grounded.deliver_remove (h : s.Grounded) (hsound : s.Sound env)
    (hprogrammable : ∀ rule ∈ rules, rule.Programmable s.agent.bridge.ports)
    (hreleases : ∀ rule ∈ rules, rule.releases = none) : (s.deliver ⟨false, rules⟩).Grounded := by
  intro key actions id hflow hid
  have hwhole : ∀ rule ∈ rules, rule.IsWhole := fun rule hrule => (hprogrammable rule hrule).isWhole
  obtain ⟨hbefore, -⟩ := flow_of_deliver_remove hsound.failing hwhole hflow
  refine (Agent.isSome_group_deleteRules hsound.failing hprogrammable).2
    ⟨h key actions id hbefore hid, ?_⟩
  rintro ⟨rule, hrule, group, hgroup, -⟩
  cases (hreleases rule hrule).symm.trans hgroup

/-- An entry that hands traffic to a group is not a static one. -/
theorem Clean.dlType_of_group (h : s.Clean env) (hflow : s.agent.bridge.flow? key = some actions)
    (hid : .group id ∈ actions) : key.pattern.dlType = some EtherType.ipv4Value := by
  rcases h.owned key (Option.isSome_of_eq_some hflow) with ⟨entry, hentry, rfl⟩ | ⟨mac, rfl⟩ | hlive
  · obtain rfl := Option.some.inj ((h.static entry hentry).symm.trans hflow)
    rcases Agent.addFlow_mem_bootstrapOps.1 hentry with rfl | rfl <;> simp at hid
  · rfl
  · obtain ⟨_, hkey⟩ := hlive
    exact hkey.dlType

/-- After a deletion every entry finds its group exactly if the deletion strands none. -/
theorem Grounded.delete_iff (h : s.Grounded) (hclean : s.Clean env)
    (hresult : (s.topology.deleteChain env chainId).result = .ok rules) :
    ((s.issue env (.delete chainId)).deliver ⟨false, rules⟩).Grounded ↔ ¬ s.Strands env chainId := by
  have hgroup := isSome_group_delete hclean.toSound hresult
  have hflow : ∀ {key actions id}, s.agent.bridge.flow? key = some actions → .group id ∈ actions →
      (s.Takes env chainId key → ((s.issue env (.delete chainId)).deliver
          ⟨false, rules⟩).agent.bridge.flow? key = none) ∧
        (¬ s.Takes env chainId key → ((s.issue env (.delete chainId)).deliver
          ⟨false, rules⟩).agent.bridge.flow? key = s.agent.bridge.flow? key) :=
    fun hbefore hid => flow_delete hclean.toSound hresult (hclean.dlType_of_group hbefore hid)
  constructor
  · rintro hgrounded ⟨key, actions, d, group, hbefore, hid, hreleases, htakes⟩
    have hkept := ((hflow hbefore hid).2 htakes).trans hbefore
    exact ((hgroup group.id).1 (hgrounded key actions group.id hkept hid)).2
      ⟨d, group, hreleases, rfl⟩
  · intro hstrands key actions id hafter hid
    obtain ⟨path, hpath, hrules⟩ := exists_path_of_deleteChain hresult
    have hprogrammable := hclean.toSound.programmable_of_pathRemoval hpath hrules
    obtain ⟨hbefore, -⟩ := flow_of_deliver_remove (s := s.issue env (.delete chainId))
      hclean.failing (fun rule hrule => (hprogrammable rule hrule).isWhole) hafter
    have hbefore : s.agent.bridge.flow? key = some actions := hbefore
    refine (hgroup id).2 ⟨h key actions id hbefore hid, ?_⟩
    rintro ⟨d, group, hreleases, rfl⟩
    refine hstrands ⟨key, actions, d, group, hbefore, hid, hreleases, fun htakes => ?_⟩
    cases hafter.symm.trans ((hflow hbefore hid).1 htakes)

/-- After a delivery every entry finds its group exactly if the call, in case it is a deletion, strands
none. -/
theorem Grounded.afterDelivery_iff (hlaw : env.Lawful) (h : s.Grounded) (hclean : s.Clean env)
    (hafter : s.AfterDelivery env call s') : s'.Grounded ↔ ¬ s.StrandsEntry env call := by
  have hsound := hclean.toSound
  have hissued := hsound.issue hlaw call
  rw [Deployment.afterDelivery_iff] at hafter
  cases call with
  | create chainId =>
    obtain ⟨rules, hresult, rfl⟩ := hafter
    refine iff_of_true ?_ nofun
    exact Grounded.deliver_install (s := s.issue env (.create chainId)) h hissued
      (flowRules_createChain hlaw hresult)
  | delete chainId =>
    obtain ⟨rules, hresult, rfl⟩ := hafter
    rw [h.delete_iff hclean hresult, not_iff_not]
    constructor
    · exact fun hstrands => ⟨chainId, rfl, hstrands⟩
    · rintro ⟨_, ⟨⟩, hstrands⟩
      exact hstrands
  | update chainId added removed =>
    obtain ⟨update, hresult, hcases⟩ := hafter
    refine iff_of_true ?_ nofun
    rcases updateClassifiers_cases hlaw hsound.wellFormed chainId added removed with
      ⟨-, e, he⟩ | ⟨path, plan, path', hpath, hplan, hchanged, hupdate⟩
    · cases hresult.symm.trans he
    obtain ⟨hdelete, hown⟩ := hupdate update hresult
    have hremoved : ((s.issue env (.update chainId added removed)).deliver
        ⟨false, update.delete⟩).Grounded := by
      rw [hdelete]
      exact Grounded.deliver_remove (s := s.issue env (.update chainId added removed)) h hissued
        (hsound.programmable_of_updatePlanned hpath hplan)
        fun rule hrule => not_releases_of_updatePlanned hplan hrule
    rcases hcases with rfl | rfl
    · exact hremoved
    · exact hremoved.deliver_install
        (hissued.of_sameGround (sameGround_deliver hissued.failing _)) hown

/-- The static entries hand traffic to no group. -/
theorem IsFresh.not_group (h : start.IsFresh env) (hflow : start.agent.bridge.flow? key = some actions) :
    .group id ∉ actions := by
  intro hid
  obtain ⟨agent, hfailing, hempty, hagent⟩ := h.prepared
  have hstatic := (Agent.flow_bootstrap hfailing hempty).2 key
  rw [← hagent] at hstatic
  exact absurd (h.clean.dlType_of_group hflow hid)
    (FlowRule.dlType_ne_ipv4_of_static (hstatic (Option.isSome_of_eq_some hflow)))

theorem Reaches.grounded (hlaw : env.Lawful) (hfresh : start.IsFresh env)
    (h : Reaches env (fun s call => s.Succeeds env call ∧ ¬ s.StrandsEntry env call) start s) :
    s.Clean env ∧ s.Grounded := by
  have hstart : start.Grounded := fun _ _ _ hflow hid => absurd hid (hfresh.not_group hflow)
  apply h.keeps (P := fun s => s.Clean env ∧ s.Grounded) ⟨hfresh.clean, hstart⟩
  · intro s call hcall
    exact hcall.1
  · rintro s call s' - hcall hafter ⟨hclean, hgrounded⟩
    exact ⟨hclean.afterDelivery hlaw hafter,
      (hgrounded.afterDelivery_iff hlaw hclean hafter).2 hcall.2⟩

/-! ## Chains in concert -/

/-- A rule of a live chain for a port detail installs an entry that hands traffic to a group, and sets the
group. -/
def HandsFor (env : TopologyEnv) (s : Deployment) (chainId : String) (d : PortDetail) (key : FlowKey)
    (id : UInt32) : Prop :=
  ∃ path node rule, s.topology.path? chainId = some path ∧
    HasRule env s.topology path node d rule ∧
      rule.HandsTo s.agent.ctx s.agent.bridge.ports key id

/-- Every entry that hands traffic to a group is one of some live chain. -/
def Backed (env : TopologyEnv) (s : Deployment) : Prop :=
  ∀ key actions id, s.agent.bridge.flow? key = some actions → .group id ∈ actions →
    ∃ chainId d, s.HandsFor env chainId d key id

theorem HandsFor.installsFor (h : s.HandsFor env chainId d key id) (hsound : s.Sound env) :
    s.InstallsFor env chainId d key := by
  obtain ⟨path, node, rule, hpath, hrule, hhands⟩ := h
  exact ⟨path, node, rule, hpath, hrule,
    (Agent.installs_iff (hsound.programmable hpath hrule)).2 (.inl hhands.names)⟩

theorem HandsFor.not_isMemberKey (h : s.HandsFor env chainId d key id) : ¬ key.IsMemberKey := by
  obtain ⟨path, node, rule, -, -, hhands⟩ := h
  rintro ⟨mac, hmac⟩
  exact hhands.names.isPassKey.ne_memberKey mac hmac

theorem HandsFor.of_retains (h : s.HandsFor env chainId d key id)
    (hretains : ∀ path, s.topology.path? chainId = some path →
      t'.path? chainId = some path ∧ Retains s.topology t' path) :
    ({ s with topology := t' } : Deployment).HandsFor env chainId d key id := by
  obtain ⟨path, node, rule, hpath, hrule, hhands⟩ := h
  obtain ⟨hpath', hretains⟩ := hretains path hpath
  exact ⟨path, node, rule, hpath', hrule.of_retains hretains, hhands⟩

theorem HandsFor.of_alters (h : s.HandsFor env other d key id)
    (halters : Alters env s.topology chainId t') (hne : chainId ≠ other) :
    ({ s with topology := t' } : Deployment).HandsFor env other d key id :=
  h.of_retains fun path hpath =>
    ⟨(halters.path? other hne).trans hpath, halters.retains other path hne hpath⟩

theorem SameGround.handsFor_iff (h : s.SameGround s') :
    s'.HandsFor env chainId d key id ↔ s.HandsFor env chainId d key id := by
  simp only [HandsFor, h.topology, h.ctx, h.ports]

/-- What chains in concert install for a common detail, they hand to one group. -/
theorem HandsFor.exists_other (h : s.HandsFor env chainId d key id) (hsound : s.Sound env)
    (hconcerted : s.topology.Concerted) (hshared : s.IsShared env chainId d key) :
    ∃ other, chainId ≠ other ∧ s.HandsFor env other d key id := by
  obtain ⟨other, hne, path', node', rule', hpath', hrule', hinstalls⟩ := hshared
  have hmember := h.not_isMemberKey
  obtain ⟨path, node, rule, hpath, hrule, -, huntagged, group, hset, hid⟩ := h
  have hnames := ((Agent.installs_iff (hsound.programmable hpath' hrule')).1 hinstalls).resolve_right
    fun ⟨_, _, member, _, hmac⟩ => hmember ⟨member.mac, hmac⟩
  have hsame : node.nextGroup = node'.nextGroup := by
    obtain ⟨id, hid, hd⟩ := mem_nodeDetails.1 hrule.detail_mem
    obtain ⟨id', hid', hd'⟩ := mem_nodeDetails.1 hrule'.detail_mem
    obtain rfl : id = id' :=
      (hsound.wellFormed.genuine id d hd).1.symm.trans (hsound.wellFormed.genuine id' d hd').1
    exact hconcerted.nextGroup chainId other path path' hne hpath hpath' node hrule.node_mem node'
      hrule'.node_mem id hid hid'
  have hactive : rule'.activeGroup = rule.activeGroup := by
    obtain ⟨_, _, -, -, rfl⟩ := detailRule_eq_some.1 hrule.rule_eq
    obtain ⟨_, _, -, -, rfl⟩ := detailRule_eq_some.1 hrule'.rule_eq
    exact congrArg (Option.filter NextHopGroup.isProgrammable) hsame.symm
  refine ⟨other, hne, path', node', rule', hpath', hrule', hnames, huntagged, group, ?_, hid⟩
  rw [FlowRule.egress_of_untagged hnames huntagged, hactive]
  exact (FlowRule.mem_groupSet.1 hset).1

/-- Installing the rules of a live chain, where only what they install need not be backed before. -/
theorem backed_deliver_install (hsound : s.Sound env)
    (hrules : s.topology.flowRules env chainId = .ok rules)
    (h : ∀ key actions id, s.agent.bridge.flow? key = some actions → .group id ∈ actions →
      (¬ ∃ rule ∈ rules, s.agent.Installs rule key) → ∃ other d, s.HandsFor env other d key id) :
    (s.deliver ⟨true, rules⟩).Backed env := by
  have hsame := sameGround_deliver hsound.failing ⟨true, rules⟩
  intro key actions id hflow hid
  simp only [hsame.handsFor_iff]
  by_cases hinstalls : ∃ rule ∈ rules, s.agent.Installs rule key
  · obtain ⟨rule, hrule, ops, hops, entry, hop, rfl, hentry⟩ :=
      Agent.exists_entry_of_installs hsound.failing hinstalls
    obtain rfl := Option.some.inj (hentry.symm.trans hflow)
    obtain ⟨path, hpath, hpathRules⟩ := exists_path_of_flowRules hrules
    obtain ⟨node, d, hrule⟩ := (mem_pathRules hpathRules).1 hrule
    exact ⟨chainId, d, path, node, rule, hpath, hrule, FlowRule.handsTo_of_installOps hops hop hid⟩
  · have hkept := Agent.flow_updateRules_of_not_installs hsound.failing hinstalls
    exact h key actions id (hkept.symm.trans hflow) hid hinstalls

/-- What a deletion leaves is backed by a chain that stays. -/
theorem Backed.exists_other (h : s.Backed env) (hsound : s.Sound env)
    (hconcerted : s.topology.Concerted) (hflow : s.agent.bridge.flow? key = some actions)
    (hid : .group id ∈ actions) (htakes : ¬ s.Takes env chainId key) :
    ∃ other d, chainId ≠ other ∧ s.HandsFor env other d key id := by
  obtain ⟨other, d, hhands⟩ := h key actions id hflow hid
  by_cases hne : chainId = other
  · subst hne
    have hshared : s.IsShared env chainId d key := by
      by_contra hunshared
      exact htakes ⟨d, .inl ⟨hhands.not_isMemberKey, hhands.installsFor hsound⟩, hunshared⟩
    obtain ⟨other, hne, hhands⟩ := hhands.exists_other hsound hconcerted hshared
    exact ⟨other, d, hne, hhands⟩
  · exact ⟨other, d, hne, hhands⟩

theorem Backed.after_update (hlaw : env.Lawful) (h : s.Backed env) (hsound : s.Sound env)
    (hconcerted : s.topology.Concerted) {added removed : List String} {update : ClassifierUpdate}
    (hresult : (s.topology.updateClassifiers env chainId added removed).result = .ok update) :
    (((s.issue env (.update chainId added removed)).deliver ⟨false, update.delete⟩).deliver
      ⟨true, update.apply⟩).Backed env := by
  rcases updateClassifiers_cases hlaw hsound.wellFormed chainId added removed with
    ⟨-, e, he⟩ | ⟨path, plan, path', hpath, hplan, hchanged, hupdate⟩
  · cases hresult.symm.trans he
  obtain ⟨hdelete, hown⟩ := hupdate update hresult
  have hissued := hsound.issue hlaw (.update chainId added removed)
  have hsame := sameGround_deliver hissued.failing ⟨false, update.delete⟩
  refine backed_deliver_install (hissued.of_sameGround hsame) hown fun key actions id hflow hid hnot => ?_
  have hwhole : ∀ rule ∈ update.delete, rule.IsWhole := by
    rw [hdelete]
    exact fun rule hrule => (hsound.programmable_of_updatePlanned hpath hplan rule hrule).isWhole
  obtain ⟨hbefore, hremoves⟩ := flow_of_deliver_remove hissued.failing hwhole hflow
  obtain ⟨other, d, hhands⟩ := h key actions id hbefore hid
  simp only [hsame.handsFor_iff]
  by_cases hne : chainId = other
  · subst hne
    rcases removes_or_kept_of_update hsound hpath hplan hchanged (hhands.installsFor hsound)
      hhands.not_isMemberKey with hremoved | hshared | hkept
    · exact absurd (hdelete ▸ hremoved) hremoves
    · obtain ⟨other, hne, hhands⟩ := hhands.exists_other hsound hconcerted hshared
      exact ⟨other, d, hhands.of_alters hchanged.alters hne⟩
    · -- what the chain installs still, it installs again
      refine absurd ?_ hnot
      simp only [hsame.installs_iff]
      exact (exists_installsFor_iff (s := s.issue env (.update chainId added removed))
        hchanged.path? hown).2 ⟨d, hkept⟩
  · exact ⟨other, d, hhands.of_alters hchanged.alters hne⟩

theorem Backed.step (hlaw : env.Lawful) (h : s.Backed env) (hclean : s.Clean env)
    (hconcerted : s.topology.Concerted) (hcall : s.Succeeds env call) :
    (s.step env call).Backed env := by
  have hsound := hclean.toSound
  have hissued := hsound.issue hlaw call
  cases call with
  | create chainId =>
    obtain ⟨rules, hresult, heq⟩ := exists_step_create hcall
    rw [heq]
    refine backed_deliver_install hissued (flowRules_createChain hlaw hresult)
      fun key actions id hflow hid _ => ?_
    obtain ⟨other, d, hhands⟩ := h key actions id hflow hid
    exact ⟨other, d, hhands.of_retains fun _ => hsound.wellFormed.createChain_keeps hlaw⟩
  | update chainId added removed =>
    obtain ⟨update, hresult, heq⟩ := exists_step_update hcall
    rw [heq]
    exact h.after_update hlaw hsound hconcerted hresult
  | delete chainId =>
    obtain ⟨rules, hresult, heq⟩ := exists_step_delete hcall
    rw [heq]
    intro key actions id hflow hid
    obtain ⟨path, hpath, hrules⟩ := exists_path_of_deleteChain hresult
    obtain ⟨hbefore, -⟩ := flow_of_deliver_remove hissued.failing (fun rule hrule =>
      (hsound.programmable_of_pathRemoval hpath hrules rule hrule).isWhole) hflow
    have hbefore : s.agent.bridge.flow? key = some actions := hbefore
    have hdelete := flow_delete hsound hresult (hclean.dlType_of_group hbefore hid)
    have htakes : ¬ s.Takes env chainId key := fun htakes => by
      cases hflow.symm.trans (hdelete.1 htakes)
    obtain ⟨other, d, hne, hhands⟩ := h.exists_other hsound hconcerted hbefore hid htakes
    simp only [(sameGround_deliver hissued.failing ⟨false, rules⟩).handsFor_iff]
    exact ⟨other, d, hhands.of_alters (hsound.wellFormed.alters_deleteChain chainId) hne⟩

/-- Chains in concert strand no entry: a group to which an entry is left has another use. -/
theorem Backed.not_strands (h : s.Backed env) (hsound : s.Sound env)
    (hconcerted : s.topology.Concerted) : ¬ s.Strands env chainId := by
  rintro ⟨key, actions, d, group, hflow, hid, ⟨path, before, node, after, rule, n, hpath, heq, hrule,
    hset, hrefs, hle⟩, htakes⟩
  obtain ⟨other, d', hne, path', node', rule', hpath', hrule', -, -, group', hset', hgroup⟩ :=
    h.exists_other hsound hconcerted hflow hid htakes
  have hused : s.topology.UsedElsewhere chainId group.id :=
    ⟨other, path', hne, hpath', node', hrule'.node_mem, hgroup ▸ groupId_of_groupSet hrule' hset'⟩
  have hlt := one_lt_groupRefs hpath heq (groupId_of_groupSet hrule hset) hused hconcerted.count hrefs
  exact absurd hle (UInt32.not_le.2 hlt)

theorem Reaches.backed (hlaw : env.Lawful) (hfresh : start.IsFresh env)
    (h : Reaches env (fun s call => s.Succeeds env call ∧ s.topology.Concerted) start s) :
    s.Clean env ∧ s.Backed env ∧ s.Grounded := by
  induction h with
  | start =>
    exact ⟨hfresh.clean, fun _ _ _ hflow hid => absurd hid (hfresh.not_group hflow),
      fun _ _ _ hflow hid => absurd hid (hfresh.not_group hflow)⟩
  | @step s call _ hcall ih =>
    obtain ⟨hclean, hbacked, hgrounded⟩ := ih
    rcases step_cases s call with ⟨-, hafter⟩ | ⟨hfails, -⟩
    · refine ⟨hclean.afterDelivery hlaw hafter, hbacked.step hlaw hclean hcall.2 hcall.1, ?_⟩
      refine (hgrounded.afterDelivery_iff hlaw hclean hafter).2 ?_
      rintro ⟨chainId, rfl, hstrands⟩
      exact hbacked.not_strands hclean.toSound hcall.2 hstrands
    · exact absurd hcall.1 hfails

/-- As long as no deletion strands an entry, every entry that hands traffic to a group finds the group after
every delivery, and the first deletion that strands one ends that; no deletion does as long as the live
chains are in concert. -/
theorem references_grounded (hlaw : env.Lawful) (hfresh : start.IsFresh env) :
    (∀ s call s', Reaches env (fun s call => s.Succeeds env call ∧ ¬ s.StrandsEntry env call) start s →
      s.AfterDelivery env call s' → (s'.Grounded ↔ ¬ s.StrandsEntry env call)) ∧
    ∀ s call s', Reaches env (fun s call => s.Succeeds env call ∧ s.topology.Concerted) start s →
      s.topology.Concerted → s.AfterDelivery env call s' → s'.Grounded := by
  refine ⟨fun s call s' hrun hafter => ?_, fun s call s' hrun hconcerted hafter => ?_⟩
  · obtain ⟨hclean, hgrounded⟩ := hrun.grounded hlaw hfresh
    exact hgrounded.afterDelivery_iff hlaw hclean hafter
  · obtain ⟨hclean, hbacked, hgrounded⟩ := hrun.backed hlaw hfresh
    refine (hgrounded.afterDelivery_iff hlaw hclean hafter).2 ?_
    rintro ⟨chainId, rfl, hstrands⟩
    exact hbacked.not_strands hclean.toSound hconcerted hstrands

/-! ## A case where an entry is stranded -/

/-- Two chains are live, and the second classifies the traffic of both sources. -/
def sampleRival : Deployment := sampleBoth.step sampleEnv (.update "y" ["f1"] [])

/-- The traffic of the source that both chains classify. -/
def sampleSourceKey : FlowKey :=
  ⟨.localSwitching, Priority.steering, { inPort := some 1, dlType := some EtherType.ipv4Value }⟩

theorem sampleBoth_updates : sampleBoth.Succeeds sampleEnv (.update "y" ["f1"] []) :=
  succeeds_of_isOk (by decide +kernel)

theorem sampleRival_deletes : sampleRival.Succeeds sampleEnv (.delete "y") :=
  succeeds_of_isOk (by decide +kernel)

/-- The entry stays for the other chain, but leads to the group of the chain that is gone. -/
theorem sampleRival_dangles :
    (sampleRival.step sampleEnv (.delete "y")).agent.bridge.flow? sampleSourceKey =
        some [.modVlanVid 100, .group 2] ∧
      (sampleRival.step sampleEnv (.delete "y")).agent.bridge.group? 2 = none := by
  decide +kernel

theorem not_grounded_sampleRival : ¬ (sampleRival.step sampleEnv (.delete "y")).Grounded := by
  intro hgrounded
  have hsome := hgrounded sampleSourceKey _ 2 sampleRival_dangles.1 (by simp)
  rw [sampleRival_dangles.2] at hsome
  cases hsome

/-- Of two chains in concert one can be deleted; when they classify the same traffic into different groups,
the deletion of the one that did so last strands its entry. -/
theorem sampleRival_strands : (sampleBoth.step sampleEnv (.delete "x")).Grounded ∧
    sampleRival.StrandsEntry sampleEnv (.delete "y") := by
  have hconcerted : sampleStart.topology.Concerted ∧
      (sampleStart.step sampleEnv (.create "x")).topology.Concerted ∧
        sampleBoth.topology.Concerted := by
    decide +kernel
  constructor
  · have hrun : Reaches sampleEnv (fun s call => s.Succeeds sampleEnv call ∧ s.topology.Concerted)
        sampleStart sampleBoth :=
      (Reaches.start.step ⟨sampleStart_creates, hconcerted.1⟩).step
        ⟨sampleStart_creates_both, hconcerted.2.1⟩
    rcases step_cases sampleBoth (.delete "x") with ⟨-, hafter⟩ | ⟨hfails, -⟩
    · exact (references_grounded sampleEnv_lawful sampleStart_fresh).2 _ _ _ hrun hconcerted.2.2 hafter
    · exact absurd sampleBoth_deletes hfails
  · have hrun : Reaches sampleEnv
        (fun s call => s.Succeeds sampleEnv call ∧ ¬ s.StrandsEntry sampleEnv call) sampleStart
        sampleRival :=
      ((Reaches.start.step ⟨sampleStart_creates, nofun⟩).step
        ⟨sampleStart_creates_both, nofun⟩).step ⟨sampleBoth_updates, nofun⟩
    rcases step_cases sampleRival (.delete "y") with ⟨-, hafter⟩ | ⟨hfails, -⟩
    · by_contra hnot
      exact not_grounded_sampleRival
        (((references_grounded sampleEnv_lawful sampleStart_fresh).1 _ _ _ hrun hafter).2 hnot)
    · exact absurd sampleRival_deletes hfails

/-- Not every entry finds its group after a run of successful calls. -/
theorem not_references_grounded :
    ¬ ∀ (env : TopologyEnv) (start s s' : Deployment) (call : ChainCall), env.Lawful →
      start.IsFresh env → Reaches env (fun s call => s.Succeeds env call) start s →
        s.AfterDelivery env call s' → s'.Grounded := by
  intro hall
  have hrun : Reaches sampleEnv (fun s call => s.Succeeds sampleEnv call) sampleStart sampleRival :=
    ((Reaches.start.step sampleStart_creates).step sampleStart_creates_both).step sampleBoth_updates
  rcases step_cases sampleRival (.delete "y") with ⟨-, hafter⟩ | ⟨hfails, -⟩
  · exact not_grounded_sampleRival (hall sampleEnv sampleStart sampleRival _ _ sampleEnv_lawful
      sampleStart_fresh hrun hafter)
  · exact absurd sampleRival_deletes hfails

end Deployment

end ServiceChain
