import ServiceChain.Proofs.Deployment.Run
import ServiceChain.Proofs.Rule.Split

/-!
# What a removal takes from a bridge

A chain installs a key for a port detail if its rule for the detail does (`Deployment.InstallsFor`).  The
deletion of a chain removes just what it takes (`Deployment.Takes`, `exists_removes_iff`): what the chain
installs for some detail and the members of the groups that it releases, unless another live chain installs
it for the same detail.  A change of classifiers removes what the chain installed for a detail, unless
another live chain installs it for the same detail or the chain still does (`removes_or_kept_of_update`).
-/

namespace ServiceChain

/-- The key of the entry for a group member. -/
def FlowKey.IsMemberKey (key : FlowKey) : Prop := ∃ mac, NextHopGroup.memberKey mac = key

namespace Deployment

open ServiceChain.Topology

variable {env : TopologyEnv} {s : Deployment} {chainId : String} {path : ChainPath}
  {node : PathNode} {d : PortDetail} {host : String} {segment : SegmentId}
  {fcs addFcs delFcs : List FlowClassifier} {groupRefs groupRefs' : Option UInt32}
  {rule : FlowRule} {rules : List FlowRule} {key : FlowKey} {t' : Topology}

/-- A rule of a live chain for a port detail installs the key. -/
def InstallsFor (env : TopologyEnv) (s : Deployment) (chainId : String) (d : PortDetail)
    (key : FlowKey) : Prop :=
  ∃ path node rule, s.topology.path? chainId = some path ∧
    HasRule env s.topology path node d rule ∧ s.agent.Installs rule key

theorem InstallsFor.dlType (h : s.InstallsFor env chainId d key) :
    key.pattern.dlType = some EtherType.ipv4Value := by
  obtain ⟨_, _, _, _, _, hinstalls⟩ := h
  exact hinstalls.dlType

/-- Another live chain installs the key for the same port detail. -/
def IsShared (env : TopologyEnv) (s : Deployment) (chainId : String) (d : PortDetail)
    (key : FlowKey) : Prop :=
  ∃ other, chainId ≠ other ∧ s.InstallsFor env other d key

theorem exists_mem_sharing_iff (h : s.Sound env)
    (hd : d ∈ s.topology.nodeDetails node) {shared : List FlowRule}
    (hshared : s.topology.sharingRules env chainId d = .ok shared) :
    (∃ rule ∈ shared, s.agent.Installs rule key) ↔ s.IsShared env chainId d key := by
  obtain ⟨id, -, hknown⟩ := mem_nodeDetails.1 hd
  have hgenuine : ∀ (id : String) (d : PortDetail), s.topology.details[id]? = some d → d.id = id :=
    fun id d hd => (h.wellFormed.genuine id d hd).1
  have hown : s.topology.details[d.id]? = some d := by
    rw [hgenuine id d hknown]
    exact hknown
  simp only [mem_sharingRules hown hgenuine hshared, SharesDetail, IsShared, InstallsFor]
  constructor
  · rintro ⟨rule, ⟨other, path, hne, hpath, node, hrule⟩, hinstalls⟩
    exact ⟨other, hne, path, node, rule, hpath, hrule, hinstalls⟩
  · rintro ⟨other, hne, path, node, rule, hpath, hrule, hinstalls⟩
    exact ⟨rule, ⟨other, path, hne, hpath, node, hrule⟩, hinstalls⟩

theorem exists_installsFor_iff (hpath : s.topology.path? chainId = some path)
    (h : s.topology.flowRules env chainId = .ok rules) :
    (∃ rule ∈ rules, s.agent.Installs rule key) ↔ ∃ d, s.InstallsFor env chainId d key := by
  rw [flowRules_eq_pathRules hpath] at h
  simp only [mem_pathRules h]
  constructor
  · rintro ⟨rule, ⟨node, d, hrule⟩, hinstalls⟩
    exact ⟨d, path, node, rule, hpath, hrule, hinstalls⟩
  · rintro ⟨d, path', node, rule, hpath', hrule, hinstalls⟩
    obtain rfl := Option.some.inj (hpath.symm.trans hpath')
    exact ⟨rule, ⟨node, d, hrule⟩, hinstalls⟩

theorem bounded_of_valid (h : ∀ fc ∈ fcs, fc.validate env.policy = .ok ()) :
    ∀ fc ∈ fcs, fc.Bounded :=
  fun fc hfc => FlowClassifier.bounded_of_validate (h fc hfc)

/-- Every rule of a live chain compiles. -/
theorem Sound.programmable (h : s.Sound env) (hpath : s.topology.path? chainId = some path)
    (hrule : HasRule env s.topology path node d rule) :
    rule.Programmable s.agent.bridge.ports := by
  obtain ⟨host, segment, -, -, rfl⟩ := detailRule_eq_some.1 hrule.rule_eq
  have hvalid := (h.wellFormed.shaped _ _ hpath).valid
  have hunshared : ({ ruleOf env node d host segment path.classifiers [] none with
      sharedWith := [] } : FlowRule).Programmable s.agent.bridge.ports :=
    programmable_ruleOf h.attached h.wellFormed hpath hrule.node_mem hrule.detail_mem
      (bounded_of_valid hvalid) (by simp)
  exact hunshared

theorem Sound.programmable_of_flowRules (h : s.Sound env)
    (hrules : s.topology.flowRules env chainId = .ok rules) :
    ∀ rule ∈ rules, rule.Programmable s.agent.bridge.ports := by
  intro rule hrule
  obtain ⟨path, hpath, hrules⟩ := exists_path_of_flowRules hrules
  obtain ⟨node, d, hrule⟩ := (mem_pathRules hrules).1 hrule
  exact h.programmable hpath hrule

/-- Rules of a detail at a node, whatever they add and take away, have the same passes and name the same
keys with the same classifiers. -/
theorem names_ruleOf_congr {ctx : HostContext} {ports : PortTable} {shared : List FlowRule}
    {addFcs' delFcs' : List FlowClassifier} :
    ({ ruleOf env node d host segment addFcs' delFcs' groupRefs' with
        sharedWith := shared } : FlowRule).Names ctx ports fcs
      ({ ruleOf env node d host segment addFcs' delFcs' groupRefs' with
        sharedWith := shared } : FlowRule).installPasses key ↔
      (ruleOf env node d host segment addFcs delFcs groupRefs).Names ctx ports fcs
        (ruleOf env node d host segment addFcs delFcs groupRefs).installPasses key :=
  FlowRule.names_congr rfl

theorem Sound.programmable_of_removalRules (h : s.Sound env)
    (hpath : s.topology.path? chainId = some path) (hnode : node ∈ path.nodes)
    (hfcs : ∀ fc ∈ fcs, fc.Bounded)
    (hrules : s.topology.removalRules env chainId node fcs groupRefs = .ok rules) :
    ∀ rule ∈ rules, rule.Programmable s.agent.bridge.ports := by
  intro rule hrule
  obtain ⟨d, hd, host, segment, shared, -, -, -, rfl⟩ := (mem_removalRules hrules).1 hrule
  exact programmable_ruleOf h.attached h.wellFormed hpath hnode hd (by simp) hfcs

/-- What withdrawn classifiers name for a detail is removed, or another chain installs it for the same
detail. -/
theorem removes_or_shared (h : s.Sound env) (hpath : s.topology.path? chainId = some path)
    (hnode : node ∈ path.nodes) (hd : d ∈ s.topology.nodeDetails node) (hhost : d.host = some host)
    (hsegment : s.topology.chainSegment d = .ok segment) (hfcs : ∀ fc ∈ fcs, fc.Bounded)
    (hrules : s.topology.removalRules env chainId node fcs groupRefs = .ok rules)
    (hnames : (ruleOf env node d host segment addFcs delFcs groupRefs').Names s.agent.ctx
      s.agent.bridge.ports (classifiersFor env node.role d fcs)
      (ruleOf env node d host segment addFcs delFcs groupRefs').installPasses key) :
    (∃ rule ∈ rules, s.agent.Removes rule key) ∨ s.IsShared env chainId d key := by
  obtain ⟨shared, hshared, hmem⟩ := exists_of_removalRules hrules hd hhost hsegment
  rw [← exists_mem_sharing_iff h hd hshared]
  by_cases hkept : ∃ rule ∈ shared, s.agent.Installs rule key
  · exact .inr hkept
  · refine .inl ⟨_, hmem, (Agent.removes_iff ?_).2 (.inl ⟨.inl ?_, hkept⟩)⟩
    · exact programmable_ruleOf h.attached h.wellFormed hpath hnode hd (by simp) hfcs
    · exact names_ruleOf_congr.2 hnames

theorem isLiveKey_iff (hruled : Ruled env s.topology) :
    s.IsLiveKey env key ↔ ∃ chainId d, s.InstallsFor env chainId d key := by
  constructor
  · rintro ⟨chainId, rules, rule, hrules, hrule, hinstalls⟩
    obtain ⟨path, hpath, -⟩ := exists_path_of_flowRules hrules
    exact ⟨chainId, (exists_installsFor_iff hpath hrules).1 ⟨rule, hrule, hinstalls⟩⟩
  · rintro ⟨chainId, d, hinstalls⟩
    obtain ⟨path, -, -, hpath, -, -⟩ := id hinstalls
    obtain ⟨rules, hrules⟩ := hruled chainId path hpath
    obtain ⟨rule, hrule, hinstalls⟩ := (exists_installsFor_iff hpath hrules).2 ⟨d, hinstalls⟩
    exact ⟨chainId, rules, rule, hrules, hrule, hinstalls⟩

/-- What a chain installs for a detail, it installs wherever its details and their tags are the
same. -/
theorem InstallsFor.of_retains {d : PortDetail} (h : s.InstallsFor env chainId d key)
    (hretains : ∀ path, s.topology.path? chainId = some path →
      t'.path? chainId = some path ∧ Retains s.topology t' path) :
    ({ s with topology := t' } : Deployment).InstallsFor env chainId d key := by
  obtain ⟨path, node, rule, hpath, hrule, hinstalls⟩ := h
  obtain ⟨hpath', hretains⟩ := hretains path hpath
  exact ⟨path, node, rule, hpath', hrule.of_retains hretains, hinstalls⟩

theorem InstallsFor.of_alters {other : String} {d : PortDetail}
    (h : s.InstallsFor env other d key) (halters : Alters env s.topology chainId t')
    (hne : chainId ≠ other) : ({ s with topology := t' } : Deployment).InstallsFor env other d key :=
  h.of_retains fun path hpath =>
    ⟨(halters.path? other hne).trans hpath, halters.retains other path hne hpath⟩

/-! ## Deletion -/

/-- The deletion of a chain takes the key at some detail: the chain installs the key for it, or it is that
of a member of a group that is taken down there, and no other chain installs it for the same detail. -/
def Takes (env : TopologyEnv) (s : Deployment) (chainId : String) (key : FlowKey) : Prop :=
  ∃ d, ((¬ key.IsMemberKey ∧ s.InstallsFor env chainId d key) ∨
      ∃ group, s.topology.Releases env chainId d group ∧ group.HasMemberKey key) ∧
    ¬ s.IsShared env chainId d key

theorem Sound.programmable_of_pathRemoval (h : s.Sound env)
    (hpath : s.topology.path? chainId = some path)
    (hrules : s.topology.pathRemoval env chainId path = .ok rules) :
    ∀ rule ∈ rules, rule.Programmable s.agent.bridge.ports := by
  intro rule hrule
  obtain ⟨before, node, after, d, installed, hat⟩ :=
    (mem_pathRemoval (h.wellFormed.shaped _ _ hpath) hpath hrules).1 hrule
  obtain ⟨shared, -, rfl⟩ := hat.rule_eq
  exact (h.programmable hpath hat.hasRule).removal _ shared

/-- A rule of a deletion removes what the rule of the chain installs, or the members of the group that it
releases, as far as no other chain installs it for the same detail. -/
theorem Sound.removes_at_iff (h : s.Sound env) (hpath : s.topology.path? chainId = some path)
    {before after : List PathNode} {installed : FlowRule}
    (hat : RemovesAt env s.topology chainId path before node after d installed rule)
    (hkey : key.pattern.dlType = some EtherType.ipv4Value) :
    s.agent.Removes rule key ↔
      ((¬ key.IsMemberKey ∧ s.agent.Installs installed key) ∨
        ∃ group, rule.releases = some group ∧ group.HasMemberKey key) ∧
        ¬ s.IsShared env chainId d key := by
  have hprogrammable := h.programmable hpath hat.hasRule
  obtain ⟨shared, hshared, rfl⟩ := hat.rule_eq
  rw [Agent.removes_iff (hprogrammable.removal _ shared), Agent.installs_iff hprogrammable,
    or_iff_left (FlowRule.not_isStale hkey),
    ← exists_mem_sharing_iff h hat.hasRule.detail_mem hshared]
  have hhop : (installed.removal (s.topology.groupRefs before node) shared).hop = installed.hop := rfl
  refine and_congr_left fun _ => or_congr ?_ Iff.rfl
  constructor
  · intro hnames
    exact ⟨fun ⟨mac, hmac⟩ => hnames.isPassKey.ne_memberKey mac hmac,
      .inl ((FlowRule.names_congr hhop).1 hnames)⟩
  · rintro ⟨hmember, hnames | ⟨_, _, member, _, hmac⟩⟩
    · exact (FlowRule.names_congr hhop).2 hnames
    · exact absurd ⟨member.mac, hmac⟩ hmember

theorem exists_removes_iff (h : s.Sound env) (hpath : s.topology.path? chainId = some path)
    (hrules : s.topology.pathRemoval env chainId path = .ok rules)
    (hkey : key.pattern.dlType = some EtherType.ipv4Value) :
    (∃ rule ∈ rules, s.agent.Removes rule key) ↔ s.Takes env chainId key := by
  have hshaped := h.wellFormed.shaped _ _ hpath
  constructor
  · rintro ⟨rule, hrule, hremoves⟩
    obtain ⟨before, node, after, d, installed, hat⟩ := (mem_pathRemoval hshaped hpath hrules).1 hrule
    obtain ⟨htakes, hunshared⟩ := (h.removes_at_iff hpath hat hkey).1 hremoves
    refine ⟨d, htakes.imp ?_ ?_, hunshared⟩
    · rintro ⟨hmember, hinstalls⟩
      exact ⟨hmember, path, node, installed, hpath, hat.hasRule, hinstalls⟩
    · rintro ⟨group, hreleases, hmember⟩
      obtain ⟨hset, n, hrefs, hle⟩ := hat.releases_iff.1 hreleases
      exact ⟨group, ⟨path, before, node, after, installed, n, hpath, hat.nodes_eq, hat.hasRule, hset,
        hrefs, hle⟩, hmember⟩
  · rintro ⟨d, ⟨hmember, path', node, installed, hpath', hinstalled, hinstalls⟩ |
      ⟨group, ⟨path', before, node, after, installed, n, hpath', heq, hinstalled, hset, hrefs, hle⟩,
        hmember⟩, hunshared⟩
    · obtain rfl := Option.some.inj (hpath.symm.trans hpath')
      obtain ⟨before, after, heq⟩ := List.append_of_mem hinstalled.node_mem
      obtain ⟨rule, hrule, hat⟩ := exists_removesAt hshaped hpath hrules heq hinstalled
      exact ⟨rule, hrule,
        (h.removes_at_iff hpath hat hkey).2 ⟨.inl ⟨hmember, hinstalls⟩, hunshared⟩⟩
    · obtain rfl := Option.some.inj (hpath.symm.trans hpath')
      obtain ⟨rule, hrule, hat⟩ := exists_removesAt hshaped hpath hrules heq hinstalled
      have hreleases := hat.releases_iff.2 ⟨hset, n, hrefs, hle⟩
      exact ⟨rule, hrule,
        (h.removes_at_iff hpath hat hkey).2 ⟨.inr ⟨group, hreleases, hmember⟩, hunshared⟩⟩

/-- A deletion takes the entry of a key, or leaves it as it is. -/
theorem flow_delete (h : s.Sound env)
    (hresult : (s.topology.deleteChain env chainId).result = .ok rules)
    (hkey : key.pattern.dlType = some EtherType.ipv4Value) :
    (s.Takes env chainId key → ((s.issue env (.delete chainId)).deliver
        ⟨false, rules⟩).agent.bridge.flow? key = none) ∧
      (¬ s.Takes env chainId key → ((s.issue env (.delete chainId)).deliver
        ⟨false, rules⟩).agent.bridge.flow? key = s.agent.bridge.flow? key) := by
  obtain ⟨path, hpath, hrules⟩ := exists_path_of_deleteChain hresult
  have hflow := Agent.flow_deleteRules h.failing (fun rule hrule =>
    (h.programmable_of_pathRemoval hpath hrules rule hrule).isWhole) key
  rw [exists_removes_iff h hpath hrules hkey] at hflow
  exact hflow

theorem isSome_flow_delete (h : s.Sound env)
    (hresult : (s.topology.deleteChain env chainId).result = .ok rules)
    (hkey : key.pattern.dlType = some EtherType.ipv4Value) :
    (((s.issue env (.delete chainId)).deliver ⟨false, rules⟩).agent.bridge.flow? key).isSome ↔
      (s.agent.bridge.flow? key).isSome ∧ ¬ s.Takes env chainId key := by
  obtain ⟨htaken, hkept⟩ := flow_delete h hresult hkey
  by_cases htakes : s.Takes env chainId key
  · simp [htaken htakes, htakes]
  · simp [hkept htakes, htakes]

/-! ## Change of classifiers -/

theorem classifiersFor_splits {role : NodeRole} {old dropped now : List FlowClassifier}
    (h : Splits old dropped now) :
    Splits (classifiersFor env role d old) (classifiersFor env role d dropped)
      (classifiersFor env role d now) := by
  cases role with
  | source => exact (h.filter _).map _
  | serviceFunction => exact h.map _
  | destination => exact Splits.all [] []

/-- Where no remaining classifier is carried, all that were carried are dropped. -/
theorem classifiersFor_dropped {role : NodeRole} {p : FlowClassifier → Bool}
    (hrole : role = .source)
    (h : ∀ fc ∈ fcs, touches d.ingress d.egress fc = true → p fc = true) :
    classifiersFor env role d (fcs.filter p) = classifiersFor env role d fcs := by
  subst hrole
  simp only [classifiersFor, List.filter_filter]
  congr 1
  refine List.filter_congr fun fc hfc => ?_
  cases htouches : touches d.ingress d.egress fc with
  | false => rfl
  | true => simp [h fc hfc htouches]

/-- A rule names what classifiers before a change name, with the dropped ones or with those after it. -/
theorem names_of_splits {old dropped now : List FlowClassifier} (hsplit : Splits old dropped now)
    (h : rule.Programmable s.agent.bridge.ports) (hdropped : ∀ fc ∈ dropped, fc.Bounded)
    (hnow : ∀ fc ∈ now, fc.Bounded)
    (hnames : rule.Names s.agent.ctx s.agent.bridge.ports old rule.installPasses key) :
    rule.Names s.agent.ctx s.agent.bridge.ports dropped rule.installPasses key ∨
      rule.Names s.agent.ctx s.agent.bridge.ports now rule.installPasses key :=
  hnames.of_splits hsplit (fun _ hp => h.exists_passEntries hdropped hp)
    fun _ hp => h.exists_passEntries hnow hp

theorem Sound.programmable_of_updatePlanned (h : s.Sound env)
    (hpath : s.topology.path? chainId = some path) {removed : List String} {plan : UpdatePlan}
    (hplan : UpdatePlanned env s.topology chainId path removed plan) :
    ∀ rule ∈ plan.delete, rule.Programmable s.agent.bridge.ports := by
  have hshaped := h.wellFormed.shaped _ _ hpath
  have hwithdrawn : ∀ fc ∈ s.topology.withdrawn path plan, fc.Bounded := by
    rcases withdrawn_cases hshaped plan with hall | ⟨hsome, -⟩
    · rw [hall]
      exact bounded_of_valid hshaped.valid
    · rw [hsome, hplan.dropped]
      exact fun fc hfc => bounded_of_valid hshaped.valid fc (List.mem_filter.1 hfc).1
  obtain ⟨ruless, hruless, hdelete⟩ := hplan.delete
  intro rule hrule
  rw [hdelete, List.mem_flatten] at hrule
  obtain ⟨rules, hrules, hrule⟩ := hrule
  obtain ⟨node, hnode, hremovals⟩ := Except.exists_of_mem_mapM hruless hrules
  exact h.programmable_of_removalRules hpath hnode hwithdrawn hremovals rule hrule

/-- A change of classifiers takes no group down. -/
theorem not_releases_of_updatePlanned {removed : List String} {plan : UpdatePlan}
    (hplan : UpdatePlanned env s.topology chainId path removed plan)
    (hrule : rule ∈ plan.delete) : rule.releases = none := by
  obtain ⟨ruless, hruless, hdelete⟩ := hplan.delete
  rw [hdelete, List.mem_flatten] at hrule
  obtain ⟨removals, hremovals, hrule⟩ := hrule
  obtain ⟨node, -, hnode⟩ := Except.exists_of_mem_mapM hruless hremovals
  obtain ⟨d, -, host, segment, shared, -, -, -, rfl⟩ := (mem_removalRules hnode).1 hrule
  rw [Option.eq_none_iff_forall_not_mem]
  intro group hgroup
  obtain ⟨-, n, hn, -⟩ := FlowRule.releases_eq_some.1 hgroup
  cases hn

section Withdrawn

variable {removed : List String} {plan : UpdatePlan} {path' : ChainPath}

variable (key) in
/-- What the withdrawn classifiers name for a detail is removed, or another chain installs it. -/
theorem removes_or_shared_of_withdrawn (h : s.Sound env)
    (hpath : s.topology.path? chainId = some path)
    (hplan : UpdatePlanned env s.topology chainId path removed plan) (hnode : node ∈ path.nodes)
    (hd : d ∈ s.topology.nodeDetails node) (hhost : d.host = some host)
    (hsegment : s.topology.chainSegment d = .ok segment)
    (hbounded : ∀ fc ∈ s.topology.withdrawn path plan, fc.Bounded)
    (hnames : (ruleOf env node d host segment path.classifiers [] none).Names s.agent.ctx
      s.agent.bridge.ports (classifiersFor env node.role d (s.topology.withdrawn path plan))
      (ruleOf env node d host segment path.classifiers [] none).installPasses key) :
    (∃ rule ∈ plan.delete, s.agent.Removes rule key) ∨ s.IsShared env chainId d key := by
  obtain ⟨ruless, hruless, hdelete⟩ := hplan.delete
  obtain ⟨removals, hmem, hremovals⟩ := Except.exists_of_mem_of_mapM hruless hnode
  refine (removes_or_shared h hpath hnode hd hhost hsegment hbounded hremovals hnames).imp_left ?_
  rintro ⟨removal, hremoval, hremoves⟩
  exact ⟨removal, hdelete ▸ List.mem_flatten.2 ⟨removals, hmem, hremoval⟩, hremoves⟩

/-- A detail that no remaining classifier touches is at the head, whose rule for it carries dropped
classifiers only. -/
theorem classifiersFor_of_untouched (hplan : UpdatePlanned env s.topology chainId path removed plan)
    (hrole : node.role = .source)
    (huntouched : ∀ fc ∈ plan.remaining, touches d.ingress d.egress fc = false) :
    classifiersFor env node.role d plan.dropped = classifiersFor env node.role d path.classifiers := by
  rw [hplan.dropped]
  refine classifiersFor_dropped hrole fun fc hfc htouches => ?_
  by_contra hkept
  have hremains : fc ∈ plan.remaining := by
    rw [hplan.remaining]
    exact List.mem_append_left _ (List.mem_filter.2 ⟨hfc, by simpa using hkept⟩)
  rw [huntouched fc hremains] at htouches
  cases htouches

/-- After a change, the rule for a detail that stays has the passes that it had, and more if there is a way
back now; so it installs what the remaining classifiers name. -/
theorem installsFor_of_names (h : s.Sound env) (hpath : s.topology.path? chainId = some path)
    (hchanged : Reclassified env s.topology chainId path plan path' t') (hnode : node ∈ path.nodes)
    (hhost : d.host = some host) (hsegment : s.topology.chainSegment d = .ok segment)
    (hreverse : spansBothEnds path.classifiers = true → spansBothEnds plan.remaining = true)
    {node' : PathNode} (hnode' : node' ∈ path'.nodes)
    (heq : node' = { node with
      portDetails := node'.portDetails, reversePath := spansBothEnds plan.remaining })
    (hd' : d ∈ t'.nodeDetails node')
    (htag : ∀ (vni : UInt32) (tag : SegmentId), d.vni? = some vni →
      s.topology.tags[vni]? = some tag → t'.tags[vni]? = some tag)
    (hnames : (ruleOf env node d host segment path.classifiers [] none).Names s.agent.ctx
      s.agent.bridge.ports (classifiersFor env node.role d plan.remaining)
      (ruleOf env node d host segment path.classifiers [] none).installPasses key) :
    ({ s with topology := t' } : Deployment).InstallsFor env chainId d key := by
  have hrule : HasRule env t' path' node' d
      (ruleOf env node' d host segment path'.classifiers [] none) :=
    ⟨hnode', hd', detailRule_eq_some.2
      ⟨host, segment, hhost, chainSegment_mono hsegment htag, rfl⟩⟩
  have hsound : ({ s with topology := t' } : Deployment).Sound env :=
    ⟨hchanged.alters.wellFormed, h.failing, h.attached⟩
  refine ⟨path', node', _, hchanged.path?, hrule, ?_⟩
  refine (Agent.installs_iff (hsound.programmable hchanged.path? hrule)).2 (.inl ?_)
  have hhop : (ruleOf env node d host segment path.classifiers [] none).hop =
      (ruleOf env node' d host segment path'.classifiers [] none).hop := by
    rw [heq]
    rfl
  obtain ⟨p, hp, entries, hentries, entry, hentry, hkey⟩ := (FlowRule.names_congr hhop).1 hnames
  refine ⟨p, FlowRule.installPasses_mono hhop (fun hback => ?_) hp, entries, ?_, entry, hentry, hkey⟩
  · have hshaped := h.wellFormed.shaped _ _ hpath
    rw [heq]
    exact hreverse ((hshaped.reversePath node hnode).symm.trans hback)
  · rw [← hentries, ← hchanged.classifiers]
    rw [heq]
    rfl

/-- A change of classifiers removes what the chain installed for a detail, the members of groups apart,
unless another chain installs it for the same detail or the chain still does. -/
theorem removes_or_kept_of_update (h : s.Sound env) (hpath : s.topology.path? chainId = some path)
    (hplan : UpdatePlanned env s.topology chainId path removed plan)
    (hchanged : Reclassified env s.topology chainId path plan path' t')
    (hinstalls : s.InstallsFor env chainId d key)
    (hmember : ¬ key.IsMemberKey) :
    (∃ rule ∈ plan.delete, s.agent.Removes rule key) ∨ s.IsShared env chainId d key ∨
      ({ s with topology := t' } : Deployment).InstallsFor env chainId d key := by
  obtain ⟨path₀, node, rule, hpath₀, hrule, hinstalls⟩ := hinstalls
  obtain rfl := Option.some.inj (hpath.symm.trans hpath₀)
  have hprogrammable := h.programmable hpath hrule
  have hnames := ((Agent.installs_iff hprogrammable).1 hinstalls).resolve_right
    fun ⟨_, _, member, _, hkey⟩ => hmember ⟨member.mac, hkey⟩
  obtain ⟨host, segment, hhost, hsegment, rfl⟩ := detailRule_eq_some.1 hrule.rule_eq
  have hshaped := h.wellFormed.shaped _ _ hpath
  have hold := bounded_of_valid hshaped.valid
  have hnow := bounded_of_valid (hplan.valid hshaped)
  have hdropped : ∀ fc ∈ plan.dropped, fc.Bounded := by
    rw [hplan.dropped]
    exact fun fc hfc => hold fc (List.mem_filter.1 hfc).1
  have hwithdraw := removes_or_shared_of_withdrawn key h hpath hplan hrule.node_mem hrule.detail_mem hhost
    hsegment
  rcases withdrawn_cases hshaped plan with hall | ⟨hsome, hreverse⟩
  · rw [hall] at hwithdraw
    exact (hwithdraw hold hnames).imp_right .inl
  rw [hsome] at hwithdraw
  rcases hchanged.detail_cases hshaped hrule.node_mem hrule.detail_mem with
    ⟨hrole, huntouched⟩ | ⟨node', hnode', heq, hd', htag⟩
  · rw [classifiersFor_of_untouched hplan hrole huntouched] at hwithdraw
    exact (hwithdraw hdropped hnames).imp_right .inl
  · have hsplit : Splits path.classifiers plan.dropped plan.remaining := by
      rw [hplan.dropped, hplan.remaining]
      exact Splits.of_filter _ _ _
    rcases names_of_splits (classifiersFor_splits hsplit) hprogrammable
      (bounded_classifiersFor hdropped) (bounded_classifiersFor hnow) hnames with hnames | hnames
    · exact (hwithdraw hdropped hnames).imp_right .inl
    · exact .inr (.inr (installsFor_of_names h hpath hchanged hrule.node_mem hhost hsegment hreverse
        hnode' heq hd' htag hnames))

end Withdrawn

end Deployment

end ServiceChain
