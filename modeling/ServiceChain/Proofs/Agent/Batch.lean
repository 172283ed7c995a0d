import ServiceChain.Proofs.Agent.Bootstrap
import ServiceChain.Proofs.Rule.Compiles

/-!
# What a batch does to a bridge

On a bridge without injected failures a batch of rules amounts to one replay of the operations of the
rules that compile (`applyAll_replayed`).  So a batch of installations leaves an entry for each key
that was there or is added (`isSome_flow_updateRules`), and a batch of removals leaves what no rule of
it takes (`flow_deleteRules`).  Groups are set and released likewise (`isSome_group_updateRules`,
`isSome_group_deleteRules`).  Every rule is reported as it compiles (`reports_applyAll_eq`).
-/

namespace ServiceChain

namespace Agent

open BridgeOp

variable {agent : Agent} {rule : FlowRule} {rules : List FlowRule} {install : Bool}
  {op : BridgeOp} {key : FlowKey}

/-- The operations of a batch: those of the rules that compile, in turn. -/
def batchOps (agent : Agent) (install : Bool) (rules : List FlowRule) : List BridgeOp :=
  rules.flatMap fun rule =>
    match agent.ruleOps rule install with
    | .ok ops => ops
    | .error _ => []

theorem mem_batchOps :
    op ∈ agent.batchOps install rules ↔
      ∃ rule ∈ rules, ∃ ops, agent.ruleOps rule install = .ok ops ∧ op ∈ ops := by
  simp only [batchOps, List.mem_flatMap]
  refine exists_congr fun rule => and_congr Iff.rfl ?_
  cases agent.ruleOps rule install <;> simp

theorem batchOps_congr {agent' : Agent} (hctx : agent'.ctx = agent.ctx)
    (hports : agent'.bridge.ports = agent.bridge.ports) :
    agent'.batchOps install rules = agent.batchOps install rules := by
  simp only [batchOps, ruleOps, hctx, hports]

/-- One rule is one replay, of nothing if it does not compile. -/
theorem apply_replayed (hfailing : agent.bridge.failing = []) (install : Bool) (rule : FlowRule) :
    (agent.apply rule install).agent.ctx = agent.ctx ∧
      agent.bridge.Replayed (agent.batchOps install [rule])
        (agent.apply rule install).agent.bridge := by
  unfold apply batchOps
  cases hops : agent.ruleOps rule install with
  | error e => exact ⟨rfl, by simpa [hops] using Bridge.Replayed.nil agent.bridge⟩
  | ok ops =>
    have hfailure := Bridge.execute_ok hfailing ops
    have hreplay := Bridge.execute_replayed hfailure
    simp only [Execution.result, hfailure]
    exact ⟨trivial, by simpa [hops] using hreplay⟩

theorem applyAll_replayed (hfailing : agent.bridge.failing = []) (install : Bool)
    (rules : List FlowRule) :
    (agent.applyAll install rules).agent.ctx = agent.ctx ∧
      agent.bridge.Replayed (agent.batchOps install rules)
        (agent.applyAll install rules).agent.bridge := by
  induction rules generalizing agent with
  | nil => exact ⟨rfl, Bridge.Replayed.nil agent.bridge⟩
  | cons rule rules ih =>
    obtain ⟨hctx, hreplay⟩ := apply_replayed hfailing install rule
    obtain ⟨hctx', hreplay'⟩ := ih (hreplay.failing.trans hfailing)
    rw [batchOps_congr hctx hreplay.ports] at hreplay'
    have hops : agent.batchOps install (rule :: rules) =
        agent.batchOps install [rule] ++ agent.batchOps install rules := by
      simp [batchOps]
    rw [hops]
    exact ⟨hctx'.trans hctx, hreplay.append hreplay'⟩

/-! ## Reports -/

/-- The status that a rule has from being compiled. -/
def compileStatus (agent : Agent) (rule : FlowRule) (install : Bool) : RuleStatus :=
  match agent.ruleOps rule install with
  | .ok _ => .active
  | .error _ => .error

theorem compileStatus_congr {agent' : Agent} (hctx : agent'.ctx = agent.ctx)
    (hports : agent'.bridge.ports = agent.bridge.ports) (rule : FlowRule) (install : Bool) :
    agent'.compileStatus rule install = agent.compileStatus rule install := by
  simp only [compileStatus, ruleOps, hctx, hports]

theorem compileStatus_of_programmable (h : rule.Programmable agent.bridge.ports) (install : Bool) :
    agent.compileStatus rule install = .active := by
  obtain ⟨ops, hops⟩ : ∃ ops, agent.ruleOps rule install = .ok ops := by
    cases install
    · exact h.exists_removeOps
    · exact h.exists_installOps
  simp only [compileStatus, hops]

/-- Where nothing fails on the bridge, a rule is in force afterwards just if it compiles. -/
theorem status_apply (hfailing : agent.bridge.failing = []) (rule : FlowRule) (install : Bool) :
    (agent.apply rule install).status = agent.compileStatus rule install := by
  cases hops : agent.ruleOps rule install with
  | error e => simp only [apply, compileStatus, hops]
  | ok ops =>
    have hfailure := Bridge.execute_ok hfailing ops
    simp only [apply, compileStatus, hops, Execution.result, hfailure]

/-- A batch is reported as its rules compile, whatever the bridge held before. -/
theorem reports_applyAll_eq (hfailing : agent.bridge.failing = []) (install : Bool)
    (rules : List FlowRule) :
    (agent.applyAll install rules).reports =
      rules.map fun rule => ⟨rule.id, agent.compileStatus rule install⟩ := by
  induction rules generalizing agent with
  | nil => rfl
  | cons rule rules ih =>
    obtain ⟨hctx, hreplay⟩ := apply_replayed hfailing install rule
    have hrest := ih (hreplay.failing.trans hfailing)
    simp only [applyAll, status_apply hfailing, hrest, compileStatus_congr hctx hreplay.ports,
      List.map_cons]

/-- A batch of rules that compile is in force afterwards. -/
theorem reports_applyAll (hfailing : agent.bridge.failing = []) (install : Bool)
    (h : ∀ rule ∈ rules, rule.Programmable agent.bridge.ports) :
    (agent.applyAll install rules).reports = rules.map fun rule => ⟨rule.id, .active⟩ := by
  rw [reports_applyAll_eq hfailing]
  refine List.map_congr_left fun rule hrule => ?_
  rw [compileStatus_of_programmable (h rule hrule)]

/-! ## Installations -/

/-- The rule compiles on the agent's bridge to operations that add the key. -/
def Installs (agent : Agent) (rule : FlowRule) (key : FlowKey) : Prop :=
  ∃ ops, rule.installOps agent.ctx agent.bridge.ports = .ok ops ∧ ∃ op ∈ ops, op.adds key

theorem Installs.dlType (h : agent.Installs rule key) :
    key.pattern.dlType = some EtherType.ipv4Value := by
  obtain ⟨ops, hops, op, hop, hadds⟩ := h
  exact FlowRule.dlType_of_adds hops hop hadds

/-- The rule compiles on the agent's bridge to operations that take the key away. -/
def Removes (agent : Agent) (rule : FlowRule) (key : FlowKey) : Prop :=
  ∃ ops, rule.removeOps agent.ctx agent.bridge.ports = .ok ops ∧ ∃ op ∈ ops, op.removes key

/-- A batch of installations removes nothing. -/
theorem not_removes_batchOps : ∀ op ∈ agent.batchOps true rules, op.removes key = false := by
  intro op hop
  obtain ⟨rule, -, ops, hops, hop⟩ := mem_batchOps.1 hop
  exact FlowRule.not_removes_installOps hops op hop

theorem isSome_flow_updateRules (hfailing : agent.bridge.failing = []) :
    ((agent.updateRules rules).agent.bridge.flow? key).isSome ↔
      (agent.bridge.flow? key).isSome ∨ ∃ rule ∈ rules, agent.Installs rule key := by
  obtain ⟨-, hreplay⟩ := applyAll_replayed hfailing true rules
  have hadds : (∃ op ∈ agent.batchOps true rules, op.adds key) ↔
      ∃ rule ∈ rules, agent.Installs rule key := by
    simp only [mem_batchOps, Installs, ruleOps, if_true]
    constructor
    · rintro ⟨op, ⟨rule, hrule, ops, hops, hop⟩, hadds⟩
      exact ⟨rule, hrule, ops, hops, op, hop, hadds⟩
    · rintro ⟨rule, hrule, ops, hops, op, hop, hadds⟩
      exact ⟨op, ⟨rule, hrule, ops, hops, hop⟩, hadds⟩
  rw [updateRules, hreplay.flow, ← hadds]
  exact ⟨isSome_or_adds_of_isSome_entryAfter, isSome_entryAfter_of_not_removes not_removes_batchOps⟩

/-- A batch of installations leaves what no rule of it installs. -/
theorem flow_updateRules_of_not_installs (hfailing : agent.bridge.failing = [])
    (h : ¬ ∃ rule ∈ rules, agent.Installs rule key) :
    (agent.updateRules rules).agent.bridge.flow? key = agent.bridge.flow? key := by
  obtain ⟨-, hreplay⟩ := applyAll_replayed hfailing true rules
  rw [updateRules, hreplay.flow]
  refine entryAfter_of_untouched (fun op hop hadds => ?_) not_removes_batchOps _
  obtain ⟨rule, hrule, ops, hops, hop⟩ := mem_batchOps.1 hop
  exact h ⟨rule, hrule, ops, hops, op, hop, hadds⟩

/-- A key that a batch installs has the actions of an entry that some rule of it adds. -/
theorem exists_entry_of_installs (hfailing : agent.bridge.failing = [])
    (h : ∃ rule ∈ rules, agent.Installs rule key) :
    ∃ rule ∈ rules, ∃ ops, rule.installOps agent.ctx agent.bridge.ports = .ok ops ∧
      ∃ entry, .addFlow entry ∈ ops ∧ entry.key = key ∧
        (agent.updateRules rules).agent.bridge.flow? key = some entry.actions := by
  obtain ⟨-, hreplay⟩ := applyAll_replayed hfailing true rules
  obtain ⟨rule, hrule, ops, hops, op, hop, hadds⟩ := h
  obtain ⟨entry, hmem, hkey, hactions⟩ := exists_addFlow_of_adds not_removes_batchOps
    ⟨op, mem_batchOps.2 ⟨rule, hrule, ops, hops, hop⟩, hadds⟩ (agent.bridge.flow? key)
  obtain ⟨rule, hrule, ops, hops, hop⟩ := mem_batchOps.1 hmem
  refine ⟨rule, hrule, ops, hops, entry, hop, hkey, ?_⟩
  rw [updateRules, hreplay.flow]
  exact hactions

/-- A rule that compiles installs what its passes name and the members of its group. -/
theorem installs_iff (h : rule.Programmable agent.bridge.ports) :
    agent.Installs rule key ↔
      rule.Names agent.ctx agent.bridge.ports rule.addFcs rule.installPasses key ∨
        ∃ group, rule.groupSet = some group ∧ group.HasMemberKey key := by
  obtain ⟨ops, hops⟩ : ∃ ops, rule.installOps agent.ctx agent.bridge.ports = .ok ops :=
    h.exists_installOps
  rw [← FlowRule.adds_installOps hops]
  constructor
  · rintro ⟨ops', hops', hadds⟩
    obtain rfl := Except.ok.inj (hops.symm.trans hops')
    exact hadds
  · exact fun hadds => ⟨ops, hops, hadds⟩

theorem not_installs_static (hkey : IsStaticKey key) : ¬ agent.Installs rule key := by
  rintro ⟨ops, hops, op, hop, hadds⟩
  exact FlowRule.not_adds_static hkey hops op hop hadds

/-! ## Removals -/

/-- A rule that compiles removes what its passes name and the members of a group that it releases, as
far as no other chain installs it for the same detail. -/
theorem removes_iff (h : rule.Programmable agent.bridge.ports) :
    agent.Removes rule key ↔
      (rule.Names agent.ctx agent.bridge.ports rule.delFcs rule.installPasses key ∨
        ∃ group, rule.releases = some group ∧ group.HasMemberKey key) ∧
        (¬ ∃ other ∈ rule.sharedWith, agent.Installs other key) ∨
      rule.IsStale agent.bridge.ports key := by
  obtain ⟨ops, hops⟩ : ∃ ops, rule.removeOps agent.ctx agent.bridge.ports = .ok ops :=
    h.exists_removeOps
  have hremoves : agent.Removes rule key ↔ ∃ op ∈ ops, op.removes key := by
    constructor
    · rintro ⟨ops', hops', hremoves⟩
      obtain rfl := Except.ok.inj (hops.symm.trans hops')
      exact hremoves
    · exact fun hremoves => ⟨ops, hops, hremoves⟩
  rw [hremoves, FlowRule.removes_removeOps h.isWhole hops,
    FlowRule.names_removalPasses h.isWhole, FlowRule.mem_sharedKeys]
  rfl

theorem not_removes_static (hkey : IsStaticKey key) (hwhole : rule.IsWhole) :
    ¬ agent.Removes rule key := by
  rintro ⟨ops, hops, op, hop, hremoves⟩
  rw [FlowRule.not_removes_static hkey hwhole hops op hop] at hremoves
  cases hremoves

theorem flow_deleteRules (hfailing : agent.bridge.failing = [])
    (hwhole : ∀ rule ∈ rules, rule.IsWhole) (key : FlowKey) :
    ((∃ rule ∈ rules, agent.Removes rule key) →
        (agent.deleteRules rules).agent.bridge.flow? key = none) ∧
      ((¬ ∃ rule ∈ rules, agent.Removes rule key) →
        (agent.deleteRules rules).agent.bridge.flow? key = agent.bridge.flow? key) := by
  obtain ⟨-, hreplay⟩ := applyAll_replayed hfailing false rules
  have hadds : ∀ op ∈ agent.batchOps false rules, ¬ op.adds key := by
    intro op hop
    obtain ⟨rule, hrule, ops, hops, hop⟩ := mem_batchOps.1 hop
    exact FlowRule.not_adds_removeOps (hwhole rule hrule) hops op hop
  have hremoves : (∃ op ∈ agent.batchOps false rules, op.removes key) ↔
      ∃ rule ∈ rules, agent.Removes rule key := by
    simp only [mem_batchOps, Removes, ruleOps]
    constructor
    · rintro ⟨op, ⟨rule, hrule, ops, hops, hop⟩, hremoves⟩
      exact ⟨rule, hrule, ops, hops, op, hop, hremoves⟩
    · rintro ⟨rule, hrule, ops, hops, op, hop, hremoves⟩
      exact ⟨op, ⟨rule, hrule, ops, hops, hop⟩, hremoves⟩
  rw [deleteRules, hreplay.flow, ← hremoves]
  refine ⟨fun h => entryAfter_of_removes hadds h _, fun h => ?_⟩
  push Not at h
  exact entryAfter_of_untouched hadds (by simpa using h) _

/-! ## Groups -/

theorem groupAfter_batchOps_cons {id : UInt32} {v : Option GroupSpec} {ops : List BridgeOp}
    (h : agent.ruleOps rule install = .ok ops) :
    groupAfter (agent.batchOps install (rule :: rules)) id v =
      groupAfter (agent.batchOps install rules) id (groupAfter ops id v) := by
  rw [← groupAfter_append]
  simp [batchOps, h]

/-- A batch of installations leaves the groups that were there and those that its rules set. -/
theorem isSome_group_updateRules (hfailing : agent.bridge.failing = []) {id : UInt32}
    (h : ∀ rule ∈ rules, rule.Programmable agent.bridge.ports) :
    ((agent.updateRules rules).agent.bridge.group? id).isSome ↔
      (agent.bridge.group? id).isSome ∨
        ∃ rule ∈ rules, ∃ group, rule.groupSet = some group ∧ group.id = id := by
  rw [updateRules, (applyAll_replayed hfailing true rules).2.group]
  generalize agent.bridge.group? id = v
  induction rules generalizing v with
  | nil => simp [batchOps, groupAfter]
  | cons rule rules ih =>
    obtain ⟨hrule, hrules⟩ := List.forall_mem_cons.1 h
    obtain ⟨ops, hops⟩ : ∃ ops, agent.ruleOps rule true = .ok ops := hrule.exists_installOps
    have hone : (groupAfter ops id v).isSome ↔
        v.isSome ∨ ∃ group, rule.groupSet = some group ∧ group.id = id := by
      rw [FlowRule.groupAfter_installOps hops]
      cases hset : rule.groupSet with
      | none => simp
      | some group => by_cases hid : group.id = id <;> simp [hid]
    rw [groupAfter_batchOps_cons hops, ih hrules, hone, List.exists_mem_cons_iff, or_assoc]

/-- A batch of removals leaves the groups that no rule of it releases. -/
theorem isSome_group_deleteRules (hfailing : agent.bridge.failing = []) {id : UInt32}
    (h : ∀ rule ∈ rules, rule.Programmable agent.bridge.ports) :
    ((agent.deleteRules rules).agent.bridge.group? id).isSome ↔
      (agent.bridge.group? id).isSome ∧
        ¬ ∃ rule ∈ rules, ∃ group, rule.releases = some group ∧ group.id = id := by
  rw [deleteRules, (applyAll_replayed hfailing false rules).2.group]
  generalize agent.bridge.group? id = v
  induction rules generalizing v with
  | nil => simp [batchOps, groupAfter]
  | cons rule rules ih =>
    obtain ⟨hrule, hrules⟩ := List.forall_mem_cons.1 h
    obtain ⟨ops, hops⟩ : ∃ ops, agent.ruleOps rule false = .ok ops := hrule.exists_removeOps
    have hone : (groupAfter ops id v).isSome ↔
        v.isSome ∧ ¬ ∃ group, rule.releases = some group ∧ group.id = id := by
      rw [FlowRule.groupAfter_removeOps hrule.isWhole hops]
      cases hreleases : rule.releases with
      | none => simp
      | some group => by_cases hid : group.id = id <;> simp [hid]
    rw [groupAfter_batchOps_cons hops, ih hrules, hone, List.exists_mem_cons_iff, not_or, and_assoc]

/-- A batch whose rules each leave the group of an id as it was. -/
theorem groupAfter_batchOps_of_untouched {id : UInt32}
    (h : ∀ rule ∈ rules, ∀ ops, agent.ruleOps rule install = .ok ops → ∀ v, groupAfter ops id v = v)
    (v : Option GroupSpec) : groupAfter (agent.batchOps install rules) id v = v := by
  rw [batchOps, List.flatMap_def]
  refine groupAfter_flatten_of_untouched (fun part hpart => ?_) v
  obtain ⟨rule, hrule, rfl⟩ := List.mem_map.1 hpart
  cases hops : agent.ruleOps rule install with
  | ok ops => exact h rule hrule ops hops
  | error e => exact fun _ => rfl

theorem groupAfter_of_not_set {id : UInt32}
    (h : ∀ rule ∈ rules, ∀ group, rule.groupSet = some group → group.id ≠ id)
    (v : Option GroupSpec) : groupAfter (agent.batchOps true rules) id v = v := by
  refine groupAfter_batchOps_of_untouched (fun rule hrule ops hops v => ?_) v
  have hops : rule.installOps agent.ctx agent.bridge.ports = .ok ops := hops
  rw [FlowRule.groupAfter_installOps hops]
  cases hset : rule.groupSet with
  | none => rfl
  | some group => exact if_neg (h rule hrule group hset)

theorem groupAfter_of_not_released {id : UInt32} (hwhole : ∀ rule ∈ rules, rule.IsWhole)
    (h : ∀ rule ∈ rules, rule.releases = none) (v : Option GroupSpec) :
    groupAfter (agent.batchOps false rules) id v = v := by
  refine groupAfter_batchOps_of_untouched (fun rule hrule ops hops v => ?_) v
  have hops : rule.removeOps agent.ctx agent.bridge.ports = .ok ops := hops
  rw [FlowRule.groupAfter_removeOps (hwhole rule hrule) hops, h rule hrule]

end Agent

end ServiceChain
