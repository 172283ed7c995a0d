import ServiceChain.Proofs.Deployment.Flows
import ServiceChain.Proofs.Deployment.Parts
import ServiceChain.Proofs.Topology.Recreating

/-!
# A change of classifiers and a new installation

While a chain is the only live one, the bridge is as the chain's rules alone make it from a prepared one
(`AsInstalled`): this holds once the chain is created, and each change of classifiers keeps it, as what the
removal leaves over is installed again (`AsInstalled.after_update`).  So after any changes the bridge is the
one that a new installation of the chain with its present classifiers gives (`bridge_eq_reinstalled`).
-/

namespace ServiceChain

/-- The first group of a chain has one pair. -/
def Store.HasSinglePair (store : Store) (chainId : String) : Prop :=
  ∀ chain groupId group, store.chain? chainId = some chain → chain.groups.head? = some groupId →
    store.group? groupId = some group → group.pairs.length = 1

namespace Topology

variable {env : TopologyEnv} {t t' : Topology} {chainId : String} {path path' : ChainPath}
  {plan : UpdatePlan} {node : PathNode} {d : PortDetail} {rule : FlowRule} {group : NextHopGroup}

/-- The head of a chain whose first group has one pair leads to no group. -/
theorem headGroup_eq_none {plan : ChainPlan} (hsingle : env.store.HasSinglePair chainId)
    (h : t.plan env chainId = .ok plan) : plan.hops.head?.bind Hop.nextGroup = none := by
  obtain ⟨-, chain, hchain, -, -, hhops, -⟩ := plan_eq_ok_iff.1 h
  rw [Except.mapM_eq_ok] at hhops
  cases hgroups : chain.groups with
  | nil =>
    rw [hgroups, List.forall₂_nil_left_iff] at hhops
    rw [hhops]
    rfl
  | cons groupId groups =>
    rw [hgroups, List.forall₂_cons_left_iff] at hhops
    obtain ⟨hop, hops, hresolve, -, heq⟩ := hhops
    obtain ⟨group, hgroup, -, hpairs⟩ := resolveHop_eq_ok hresolve
    have hlength := (Except.mapM_eq_ok.1 hpairs).length_eq
    rw [hsingle chain groupId group hchain (by rw [hgroups]; rfl) hgroup] at hlength
    simp [heq, Hop.nextGroup, ← hlength]

/-- Where the head leads to no group, a change of classifiers keeps every group that a rule sets. -/
theorem Reclassified.exists_rule_of_groupSet (h : Reclassified env t chainId path plan path' t')
    (hshaped : path.Shaped env t) (hhead : path.head.nextGroup = none)
    (hrule : HasRule env t path node d rule) (hset : rule.groupSet = some group) :
    ∃ node' rule', HasRule env t' path' node' d rule' ∧ rule'.groupSet = some group := by
  obtain ⟨hactive, -⟩ := FlowRule.mem_groupSet.1 hset
  obtain ⟨host, segment, hhost, hsegment, rfl⟩ := detailRule_eq_some.1 hrule.rule_eq
  have hgroup : node.nextGroup.filter NextHopGroup.isProgrammable = some group := hactive
  have hrole : node.role ≠ .source := by
    intro hrole
    rcases ChainPath.mem_nodes.1 hrule.node_mem with rfl | hhop | rfl
    · rw [hhead] at hgroup
      cases hgroup
    · cases hrole.symm.trans (hshaped.hop_role node hhop)
    · cases hrole.symm.trans hshaped.tail_role
  obtain ⟨-, hegress⟩ := (hshaped.isPairOf hrule.node_mem hrule.detail_mem hrole).ingress_isSome
  rcases h.detail_cases hshaped hrule.node_mem hrule.detail_mem with
    ⟨hsource, -⟩ | ⟨node', hnode', heq, hd', htag⟩
  · exact absurd hsource hrole
  · refine ⟨node', ruleOf env node' d host segment path'.classifiers [] none, ⟨hnode', hd',
      detailRule_eq_some.2 ⟨host, segment, hhost, chainSegment_mono hsegment htag, rfl⟩⟩,
      FlowRule.mem_groupSet.2 ⟨?_, ?_⟩⟩
    · rw [heq]
      exact hgroup
    · simp [FlowRule.hasEgressSide, ruleOf, hegress]

end Topology

namespace Deployment

open ServiceChain.Topology

variable {env : TopologyEnv} {start s s' : Deployment} {chainId : String} {hops : List Hop}
  {path : ChainPath} {rules : List FlowRule} {key : FlowKey} {id : UInt32}

/-- A chain is the only live one, over given hops and with recorded classifiers, and the bridge is as its
rules make it from that of the start. -/
structure AsInstalled (env : TopologyEnv) (start s : Deployment) (chainId : String) (hops : List Hop)
    (path : ChainPath) : Prop extends Sound env s where
  path? : s.topology.path? chainId = some path
  only : ∀ other path', s.topology.path? other = some path' → chainId = other
  follows : path.Follows hops
  stored : ∀ fc ∈ path.classifiers, ∃ id, env.store.classifier? id = some fc
  ctx : s.agent.ctx = start.agent.ctx
  ruled : ∃ rules, s.topology.flowRules env chainId = .ok rules ∧
    start.agent.bridge.Replayed (start.agent.batchOps true rules) s.agent.bridge

/-! ## Creation -/

theorem asInstalled_create (hlaw : env.Lawful) (hready : start.IsReady env)
    (h : start.Succeeds env (.create chainId)) :
    ∃ plan path, ({} : Topology).plan env chainId = .ok plan ∧ path.classifiers = plan.classifiers ∧
      AsInstalled env start (start.step env (.create chainId)) chainId plan.hops path := by
  obtain ⟨rules, hresult, hstep⟩ := exists_step_create h
  have hwf := hready.sound.wellFormed
  have halters := hwf.alters_createChain hlaw chainId
  obtain ⟨plan, path, hplan, hpath, hclassifiers, hfollows, hstored⟩ :=
    exists_plan_of_createChain hlaw hwf hresult
  obtain ⟨hctx, hrun⟩ := Agent.applyAll_replayed hready.failing true rules
  rw [hready.topology] at hplan
  refine ⟨plan, path, hplan, hclassifiers,
    { toSound := hready.sound.step hlaw (.create chainId)
      path? := ?_
      only := fun other path' hother => ?_
      follows := hfollows
      stored := hstored
      ctx := ?_
      ruled := ⟨rules, ?_, ?_⟩ }⟩
  · rw [step_topology]
    exact hpath
  · by_contra hne
    rw [step_topology] at hother
    have hother := (halters.path? other hne).symm.trans hother
    rw [hready.topology] at hother
    simp [Topology.path?] at hother
  · rw [hstep]
    exact hctx
  · rw [step_topology]
    exact flowRules_createChain hlaw hresult
  · rw [hstep]
    exact hrun

/-! ## Changes of classifiers -/

theorem AsInstalled.not_isShared (h : AsInstalled env start s chainId hops path) {d : PortDetail} :
    ¬ s.IsShared env chainId d key := by
  rintro ⟨other, hne, path', _, _, hpath', -⟩
  exact hne (h.only other path' hpath')

section Update

variable {removed : List String} {plan : UpdatePlan} {path' : ChainPath} {t' : Topology}
  {rules' : List FlowRule}

/-- What the only live chain installs, a change of classifiers removes or the chain installs after it. -/
theorem AsInstalled.removes_or_installs (h : AsInstalled env start s chainId hops path)
    (hhead : path.head.nextGroup = none)
    (hplan : UpdatePlanned env s.topology chainId path removed plan)
    (hchanged : Reclassified env s.topology chainId path plan path' t')
    (hrules : s.topology.flowRules env chainId = .ok rules)
    (hrules' : t'.flowRules env chainId = .ok rules')
    (hinstalls : ∃ rule ∈ rules, s.agent.Installs rule key) :
    (∃ rule ∈ plan.delete, s.agent.Removes rule key) ∨
      ∃ rule ∈ rules', s.agent.Installs rule key := by
  obtain ⟨d, hinstalls⟩ := (exists_installsFor_iff h.path? hrules).1 hinstalls
  have hnow : ∀ d, ({ s with topology := t' } : Deployment).InstallsFor env chainId d key →
      ∃ rule ∈ rules', s.agent.Installs rule key := fun d hinstalls =>
    (exists_installsFor_iff (s := { s with topology := t' }) hchanged.path? hrules').2 ⟨d, hinstalls⟩
  by_cases hmember : key.IsMemberKey
  · -- the members of a group are installed by every rule that sets it
    have hshaped := h.wellFormed.shaped _ _ h.path?
    have hsound : ({ s with topology := t' } : Deployment).Sound env :=
      ⟨hchanged.alters.wellFormed, h.failing, h.attached⟩
    obtain ⟨path₀, node, rule, hpath₀, hrule, hinstalls⟩ := hinstalls
    obtain rfl := Option.some.inj (h.path?.symm.trans hpath₀)
    obtain ⟨mac, hmac⟩ := hmember
    obtain ⟨group, hset, hkey⟩ :=
      ((Agent.installs_iff (h.toSound.programmable h.path? hrule)).1 hinstalls).resolve_left
        fun hnames => hnames.isPassKey.ne_memberKey mac hmac
    obtain ⟨node', rule', hrule', hset'⟩ :=
      hchanged.exists_rule_of_groupSet hshaped hhead hrule hset
    exact .inr (hnow d ⟨path', node', rule', hchanged.path?, hrule',
      (Agent.installs_iff (hsound.programmable hchanged.path? hrule')).2 (.inr ⟨group, hset', hkey⟩)⟩)
  · rcases removes_or_kept_of_update h.toSound h.path? hplan hchanged hinstalls hmember with
      hremoves | hshared | hkept
    · exact .inl hremoves
    · exact absurd hshared h.not_isShared
    · exact .inr (hnow d hkept)

/-- Once the withdrawn rules are removed, an entry that is not installed again is as at the start. -/
theorem AsInstalled.flow_withdrawn (hstart : start.IsFresh env)
    (h : AsInstalled env start s chainId hops path) (hhead : path.head.nextGroup = none)
    (hplan : UpdatePlanned env s.topology chainId path removed plan)
    (hchanged : Reclassified env s.topology chainId path plan path' t')
    (hrules' : t'.flowRules env chainId = .ok rules')
    (hinstalls : ¬ ∃ rule ∈ rules', s.agent.Installs rule key) :
    (s.agent.deleteRules plan.delete).agent.bridge.flow? key = start.agent.bridge.flow? key := by
  have hprogrammable := h.toSound.programmable_of_updatePlanned h.path? hplan
  have hflow := Agent.flow_deleteRules h.failing
    (fun rule hrule => (hprogrammable rule hrule).isWhole) key
  by_cases hremoves : ∃ rule ∈ plan.delete, s.agent.Removes rule key
  · rw [hflow.1 hremoves]
    -- what is removed is not static, and nothing else was there at the start
    obtain ⟨rule, hrule, hremoves⟩ := hremoves
    by_contra hne
    have hsome := Option.isSome_iff_ne_none.2 (Ne.symm hne)
    obtain ⟨agent, hfailing, hempty, hagent⟩ := hstart.prepared
    rw [hagent] at hsome
    exact Agent.not_removes_static ((Agent.flow_bootstrap hfailing hempty).2 key hsome)
      (hprogrammable rule hrule).isWhole hremoves
  · rw [hflow.2 hremoves]
    obtain ⟨rules, hrules, hrun⟩ := h.ruled
    rw [hrun.flow]
    refine BridgeOp.entryAfter_of_untouched (fun op hop hadds => ?_) Agent.not_removes_batchOps _
    rw [← Agent.batchOps_congr h.ctx hrun.ports] at hop
    obtain ⟨rule, hrule, ops, hops, hop⟩ := Agent.mem_batchOps.1 hop
    exact (h.removes_or_installs hhead hplan hchanged hrules hrules'
      ⟨rule, hrule, ops, hops, op, hop, hadds⟩).elim hremoves hinstalls

/-- Once the withdrawn rules are removed, a group that is not set again is as at the start. -/
theorem AsInstalled.group_withdrawn (h : AsInstalled env start s chainId hops path)
    (hhead : path.head.nextGroup = none)
    (hplan : UpdatePlanned env s.topology chainId path removed plan)
    (hchanged : Reclassified env s.topology chainId path plan path' t')
    (hrules' : t'.flowRules env chainId = .ok rules')
    (hsets : ¬ ∃ rule ∈ rules', ∃ group, rule.groupSet = some group ∧ group.id = id) :
    (s.agent.deleteRules plan.delete).agent.bridge.group? id = start.agent.bridge.group? id := by
  have hprogrammable := h.toSound.programmable_of_updatePlanned h.path? hplan
  obtain ⟨-, hremoval⟩ := Agent.applyAll_replayed h.failing false plan.delete
  obtain ⟨rules, hrules, hrun⟩ := h.ruled
  rw [Agent.deleteRules, hremoval.group, Agent.groupAfter_of_not_released
    (fun rule hrule => (hprogrammable rule hrule).isWhole)
    fun rule hrule => not_releases_of_updatePlanned hplan hrule, hrun.group]
  refine Agent.groupAfter_of_not_set (fun rule hrule group hset hid => hsets ?_) _
  rw [flowRules_eq_pathRules h.path?] at hrules
  obtain ⟨node, d, hrule⟩ := (mem_pathRules hrules).1 hrule
  obtain ⟨node', rule', hrule', hset'⟩ :=
    hchanged.exists_rule_of_groupSet (h.wellFormed.shaped _ _ h.path?) hhead hrule hset
  rw [flowRules_eq_pathRules hchanged.path?] at hrules'
  exact ⟨rule', (mem_pathRules hrules').2 ⟨node', d, hrule'⟩, group, hset', hid⟩

end Update

/-- A change of classifiers leaves the bridge as the chain's present rules make it from that of the start. -/
theorem AsInstalled.after_update (hlaw : env.Lawful) (hstart : start.IsFresh env)
    (h : AsInstalled env start s chainId hops path) (hhead : path.head.nextGroup = none)
    {added removed : List String} (hsucceeds : s.Succeeds env (.update chainId added removed)) :
    ∃ path', AsInstalled env start (s.step env (.update chainId added removed)) chainId hops path' := by
  obtain ⟨update, hresult, hstep⟩ := exists_step_update hsucceeds
  rcases updateClassifiers_cases hlaw h.wellFormed chainId added removed with
    ⟨-, e, he⟩ | ⟨path₀, plan, path', hpath, hplan, hchanged, hupdate⟩
  · cases hresult.symm.trans he
  obtain rfl := Option.some.inj (h.path?.symm.trans hpath)
  obtain ⟨hdelete, hown⟩ := hupdate update hresult
  obtain ⟨rules, -, hrun⟩ := h.ruled
  obtain ⟨hctx₁, hrun₁⟩ := Agent.applyAll_replayed h.failing false plan.delete
  obtain ⟨hctx₂, hrun₂⟩ := Agent.applyAll_replayed (hrun₁.failing.trans h.failing) true update.apply
  have hctx := hctx₁.trans h.ctx
  have hports := hrun₁.ports.trans hrun.ports
  rw [Agent.batchOps_congr hctx hports] at hrun₂
  have hagent : (s.step env (.update chainId added removed)).agent =
      ((s.agent.deleteRules plan.delete).agent.updateRules update.apply).agent := by
    rw [hstep, ← hdelete]
    rfl
  refine ⟨path',
    { toSound := h.toSound.step hlaw _
      path? := by rw [step_topology]; exact hchanged.path?
      only := fun other path₁ hother => ?_
      follows := hchanged.follows h.follows
      stored := by rw [hchanged.classifiers]; exact hplan.stored h.stored
      ctx := by rw [hagent]; exact hctx₂.trans hctx
      ruled := ⟨update.apply, by rw [step_topology]; exact hown, ?_⟩ }⟩
  · by_contra hne
    rw [step_topology] at hother
    exact hne (h.only other path₁ ((hchanged.alters.path? other hne).symm.trans hother))
  · rw [hagent]
    refine hrun₂.of_agree hports (hrun₁.failing.trans hrun.failing) (fun key hkey => ?_)
      fun id hid => ?_
    · refine h.flow_withdrawn hstart hhead hplan hchanged hown ?_
      rintro ⟨rule, hrule, ops, hops, op, hop, hadds⟩
      rw [← Agent.batchOps_congr h.ctx hrun.ports] at hkey
      exact hkey ⟨op, Agent.mem_batchOps.2 ⟨rule, hrule, ops, hops, hop⟩, hadds⟩
    · refine h.group_withdrawn hhead hplan hchanged hown ?_
      rintro ⟨rule, hrule, group, hset, hgroup⟩
      have hissued := h.toSound.issue hlaw (.update chainId added removed)
      obtain ⟨ops, hops⟩ : ∃ ops, rule.installOps s.agent.ctx s.agent.bridge.ports = .ok ops :=
        (hissued.programmable_of_flowRules hown rule hrule).exists_installOps
      have hensure : .ensureGroup group.spec ∈ ops :=
        (FlowRule.mem_installOps hops).2 (.inl ⟨group, hset, FlowRule.mem_ensureOps.2 (.inl rfl)⟩)
      rw [← Agent.batchOps_congr h.ctx hrun.ports] at hid
      exact hid ⟨group.spec, Agent.mem_batchOps.2 ⟨rule, hrule, ops, hops, hensure⟩, hgroup⟩

/-- The bridge is as the rules make it after any changes of classifiers. -/
theorem Reaches.asInstalled (hlaw : env.Lawful) (hstart : start.IsFresh env) {created : Deployment}
    (hcreated : ∃ path, AsInstalled env start created chainId hops path)
    (hgroup : hops.head?.bind Hop.nextGroup = none)
    (hrun : Reaches env (fun s call => (∃ added removed, call = .update chainId added removed) ∧
      s.Succeeds env call) created s) : ∃ path, AsInstalled env start s chainId hops path := by
  induction hrun with
  | start => exact hcreated
  | step _ hcall ih =>
    obtain ⟨path, h⟩ := ih
    obtain ⟨⟨added, removed, rfl⟩, hsucceeds⟩ := hcall
    exact h.after_update hlaw hstart (h.follows.head.trans hgroup) hsucceeds

/-! ## A new installation -/

theorem IsFresh.reclassified (h : start.IsFresh env) (classifiers : List String) (newId : Nat → String) :
    start.IsFresh (env.reclassified chainId classifiers newId) where
  topology := h.topology
  failing := h.failing
  attached := h.attached
  prepared := h.prepared

/-- Prepared bridges with the same ports are the same. -/
theorem IsFresh.bridge_eq {env' : TopologyEnv} {start' : Deployment} (h : start.IsFresh env)
    (h' : start'.IsFresh env') (hports : start'.agent.bridge.ports = start.agent.bridge.ports) :
    start'.agent.bridge = start.agent.bridge := by
  have htables : ∀ {env : TopologyEnv} {s : Deployment}, s.IsFresh env →
      (∀ key, s.agent.bridge.flow? key = BridgeOp.entryAfter Agent.bootstrapOps key none) ∧
        ∀ id, s.agent.bridge.group? id = none := by
    intro env s hs
    obtain ⟨agent, hfailing, hempty, hagent⟩ := hs.prepared
    rw [hagent]
    refine ⟨fun key => ?_, Agent.group_bootstrap hfailing⟩
    rw [(Agent.bootstrap_replayed hfailing).2.flow, hempty]
  refine Bridge.ext_tables hports (h'.failing.trans h.failing.symm) (fun key => ?_) fun id => ?_
  · rw [(htables h).1, (htables h').1]
  · rw [(htables h).2, (htables h').2]

/-- After a chain whose first group has one pair is created and its classifiers are changed any number of
times, the bridge is that of a new installation of the chain with its present classifiers, as long as no port
is an end of these on both sides. -/
theorem bridge_eq_reinstalled (hlaw : env.Lawful)
    (hclassifier : ∀ id fc, env.store.classifier? id = some fc → fc.id = id)
    (hvxlan : env.store.HasNoVxlan) (hsingle : env.store.HasSinglePair chainId)
    (hfresh : start.IsFresh env) (hdistinct : start.agent.bridge.ports.IsDistinct)
    (hcreate : start.Succeeds env (.create chainId))
    (hrun : Reaches env (fun s call => (∃ added removed, call = .update chainId added removed) ∧
      s.Succeeds env call) (start.step env (.create chainId)) s) :
    ∃ path, s.topology.path? chainId = some path ∧ (EndsApart path.classifiers →
      ∀ (newId : Nat → String) (env' : TopologyEnv) (start' : Deployment),
        env' = env.reclassified chainId (path.classifiers.map FlowClassifier.id) newId →
        env'.Lawful → start'.IsFresh env' → start'.agent.ctx = start.agent.ctx →
        start'.agent.bridge.ports = start.agent.bridge.ports →
          start'.Succeeds env' (.create chainId) ∧
            (start'.step env' (.create chainId)).agent.bridge = s.agent.bridge) := by
  obtain ⟨plan, path₀, hplan, -, hcreated⟩ := asInstalled_create hlaw hfresh.toIsReady hcreate
  have hgroup := headGroup_eq_none hsingle hplan
  obtain ⟨path, h⟩ := hrun.asInstalled hlaw hfresh ⟨path₀, hcreated⟩ hgroup
  refine ⟨path, h.path?, fun hapart newId env' start' henv hlaw' hfresh' hctx hports => ?_⟩
  have hshaped := h.wellFormed.shaped _ _ h.path?
  have hstored : ∀ fc ∈ path.classifiers, env.store.classifier? fc.id = some fc := by
    intro fc hfc
    obtain ⟨id, hid⟩ := h.stored fc hfc
    rw [hclassifier id fc hid]
    exact hid
  obtain ⟨rules, hrules, hrun⟩ := h.ruled
  obtain ⟨rules', hresult⟩ := exists_rules_reclassified hlaw (henv ▸ hlaw') hvxlan hplan h.wellFormed
    h.path? h.follows hstored hrules
  obtain ⟨plan', hplan', hhops, hclassifiers⟩ :=
    exists_plan_reclassified hplan h.wellFormed.genuine hshaped hstored newId
  have hsame := env.samePorts_reclassified chainId (path.classifiers.map FlowClassifier.id) newId
  rw [← henv] at hresult hplan' hsame
  have hsucceeds : start'.Succeeds env' (.create chainId) := by
    refine ⟨[⟨true, rules'⟩], ?_⟩
    simp only [Topology.answer, hfresh'.topology, hresult, Except.map]
  obtain ⟨plan'', path', hplan'', hclassifiers', h'⟩ :=
    asInstalled_create hlaw' hfresh'.toIsReady hsucceeds
  obtain rfl := Except.ok.inj (hplan'.symm.trans hplan'')
  rw [hhops] at h'
  have htwins : Twins env env' s.topology (start'.step env' (.create chainId)).topology path path'
      plan.hops :=
    { ports := hsame
      genuine := h.wellFormed.genuine
      genuine' := h'.wellFormed.genuine
      shaped := hshaped
      shaped' := h'.wellFormed.shaped _ _ h'.path?
      classifiers := hclassifiers'.trans hclassifiers
      follows := h.follows
      follows' := h'.follows }
  obtain ⟨rules'', hrules'', hrun'⟩ := h'.ruled
  rw [flowRules_eq_pathRules h.path?] at hrules
  rw [flowRules_eq_pathRules h'.path?] at hrules''
  rw [Agent.batchOps_congr hctx hports, hfresh.bridge_eq hfresh' hports] at hrun'
  exact ⟨hsucceeds, hrun'.unique (htwins.replayed hlaw hvxlan h.wellFormed hfresh.attached hdistinct
    (h.follows.head.trans hgroup) hapart hrules hrules'' hrun)⟩

/-! ## A sample -/

/-- A classifier of traffic in both directions, and two of one direction. -/
def returningClassifiers : List FlowClassifier :=
  { id := "f3", logicalSource := some "s1", logicalDestination := some "s2" } :: sampleClassifiers

/-- The instances of the sample, the first of two hops having one. -/
def returningEnv : TopologyEnv :=
  { sampleEnv with
    store :=
      { sampleStore with
        chain? := fun id =>
          [{ id := "z", nsp := 3, groups := ["g3", "g1"], classifiers := ["f3"] }].find? (·.id == id)
        group? := fun id => (⟨"g3", 3, ["c"]⟩ :: sampleGroups).find? (·.id == id)
        classifier? := fun id => returningClassifiers.find? (·.id == id) } }

/-- The chain has lost its way back. -/
def sampleReturned : Deployment :=
  (sampleStart.step returningEnv (.create "z")).step returningEnv (.update "z" ["f2"] ["f3"])

theorem returningEnv_lawful : returningEnv.Lawful :=
  ⟨fun _ _ => PortChain.id_eq_of_find?, sampleEnv_lawful.pair_id, sampleEnv_lawful.newId_injective,
    sampleEnv_lawful.newId_ne_pair⟩

theorem mem_returningClassifiers {id : String} {fc : FlowClassifier}
    (h : returningEnv.store.classifier? id = some fc) : fc ∈ returningClassifiers ∧ fc.id = id := by
  have hfind : returningClassifiers.find? (·.id == id) = some fc := h
  exact ⟨List.mem_of_find?_eq_some hfind, by simpa using List.find?_some hfind⟩

theorem returningEnv_attached : returningEnv.store.IsAttached samplePorts := by
  have hclassifiers : ∀ fc ∈ returningClassifiers,
      (fc.logicalSource.all fun port => (samplePorts[port]?).isSome) ∧
        fc.logicalDestination.all fun port => (samplePorts[port]?).isSome := by
    decide +kernel
  intro port hport
  rcases hport with hpair | ⟨id, fc, h, hport⟩ | hbinding
  · exact samplePorts_attached port (.inl hpair)
  · obtain ⟨hsource, hdestination⟩ := hclassifiers fc (mem_returningClassifiers h).1
    rw [← Option.isSome_iff_exists]
    rcases hport with hport | hport
    · simpa [hport] using hsource
    · simpa [hport] using hdestination
  · exact samplePorts_attached port (.inr (.inr hbinding))

theorem returningEnv_noVxlan : returningEnv.store.HasNoVxlan := by
  have hbindings : ∀ b ∈ sampleBindings, b.networkType ≠ .vxlan := by decide
  intro port binding h
  have hfind : sampleBindings.find? (·.portId == port) = some binding := h
  exact hbindings binding (List.mem_of_find?_eq_some hfind)

theorem sampleStart_fresh_returning : sampleStart.IsFresh returningEnv where
  topology := rfl
  failing := sampleStart_fresh.failing
  attached := returningEnv_attached
  prepared := sampleStart_fresh.prepared

/-- The bridge of a chain that was created with a way back and lost it is that of a chain that never had
one. -/
theorem sampleReturned_eq_reinstalled : sampleReturned.agent.bridge =
    (sampleStart.step (returningEnv.reclassified "z" ["f2"] returningEnv.newId)
      (.create "z")).agent.bridge := by
  have hcreate : sampleStart.Succeeds returningEnv (.create "z") :=
    succeeds_of_isOk (by decide +kernel)
  have hupdate : (sampleStart.step returningEnv (.create "z")).Succeeds returningEnv
      (.update "z" ["f2"] ["f3"]) := succeeds_of_isOk (by decide +kernel)
  have hsingle : returningEnv.store.HasSinglePair "z" := by
    intro chain groupId group hchain hhead hgroup
    simp only [returningEnv, List.find?_cons, beq_self_eq_true, Option.some.injEq] at hchain
    rw [← hchain, List.head?_cons, Option.some.injEq] at hhead
    rw [← hhead] at hgroup
    simp only [returningEnv, List.find?_cons, beq_self_eq_true, Option.some.injEq] at hgroup
    rw [← hgroup]
    rfl
  have hclassifiers : (sampleReturned.topology.path? "z").map ChainPath.classifiers =
      some [{ id := "f2", logicalSource := some "s2" }] := by decide +kernel
  obtain ⟨path, hpath, hequal⟩ := bridge_eq_reinstalled returningEnv_lawful
    (fun id fc h => (mem_returningClassifiers h).2) returningEnv_noVxlan hsingle
    sampleStart_fresh_returning (by decide +kernel) hcreate
    (Reaches.start.step ⟨⟨["f2"], ["f3"], rfl⟩, hupdate⟩)
  have hpath : sampleReturned.topology.path? "z" = some path := hpath
  rw [hpath, Option.map_some, Option.some.injEq] at hclassifiers
  rw [hclassifiers] at hequal
  have hapart : EndsApart [{ id := "f2", logicalSource := some "s2" }] := by simp [EndsApart]
  exact (hequal hapart returningEnv.newId _ sampleStart rfl (returningEnv_lawful.reclassified "z" ["f2"])
    (sampleStart_fresh_returning.reclassified ["f2"] _) rfl rfl).2.symm

end Deployment

end ServiceChain
