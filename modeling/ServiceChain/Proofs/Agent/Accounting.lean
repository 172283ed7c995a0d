import ServiceChain.Agent.Basic
import ServiceChain.Proofs.Bridge.Runs

/-!
# The books of a batch

Rules are taken one after the other, whatever happens to the ones before.  A `Turn` is a rule with
the bridge that it found and the one that it left; `Turn.Fares` says that the rule is in force just
if it compiled and all its operations succeeded, and that an operation that fails ends the turn but
takes nothing back.

What an agent tells of a batch agrees with the turns (`Agent.Balances`): the reports, the counters
and the audit trail.  A batch of one rule balances (`Agent.exists_balances_apply`), and so do two that
follow each other (`Agent.Balances.append`); every batch is made of these (`Agent.books_balance`).
-/

namespace ServiceChain

/-- A rule in its turn. -/
structure Turn where
  rule : FlowRule
  /-- The bridge that the rule found. -/
  found : Bridge
  /-- The bridge that it left. -/
  left : Bridge
  status : RuleStatus
  /-- What its operations did, up to the first that failed. -/
  effects : List Effect

/-! ## Audit trail -/

/-- The audit record of an event. -/
def Event.record? : Event → Option AuditRecord
  | .log _ => none
  | .audit record => some record

/-- The record is about the programming or the removal of a rule. -/
def AuditRecord.isOfRule (record : AuditRecord) : Bool :=
  record.category = .flowProgramming || record.category = .flowRemoval

/-- The audit records of rules among some events, in order. -/
def ruleTrail (events : List Event) : List AuditRecord :=
  (events.filterMap Event.record?).filter AuditRecord.isOfRule

@[simp]
theorem ruleTrail_append (events more : List Event) :
    ruleTrail (events ++ more) = ruleTrail events ++ ruleTrail more := by
  simp [ruleTrail]

theorem ruleTrail_log (notices : List LogEvent) : ruleTrail (notices.map Event.log) = [] := by
  simp [ruleTrail, Event.record?]

/-- Records about groups are not about rules. -/
theorem ruleTrail_execute (b : Bridge) (ops : List BridgeOp) :
    ruleTrail ((b.execute ops).records.map Event.audit) = [] := by
  have hrecords : ∀ record ∈ (b.execute ops).records, record.isOfRule = false := by
    intro record hrecord
    simp [AuditRecord.isOfRule, Bridge.category_records_execute hrecord]
  simpa [ruleTrail, Event.record?, List.filterMap_map, Function.comp_def] using hrecords

namespace Turn

variable {agent : Agent} {install : Bool} {turn : Turn}

/-- The record of a turn: what was done, the rule, its path node, and whether it is in force. -/
structure RecordedBy (install : Bool) (turn : Turn) (record : AuditRecord) : Prop where
  category : record.category = if install then .flowProgramming else .flowRemoval
  objectId : record.objectId = some turn.rule.id
  correlationId : record.correlationId = some turn.rule.nodeId
  success_iff : record.outcome = .success ↔ turn.status = .active

/-! ## One rule -/

/-- How a rule fares with an agent. -/
structure Fares (agent : Agent) (install : Bool) (turn : Turn) : Prop where
  /-- The rule is in force just if it compiled and every operation succeeded. -/
  active_iff : turn.status = .active ↔
    ∃ ops last effects, agent.ruleOps turn.rule install = .ok ops ∧ turn.found.Runs ops last effects
  /-- A rule that does not compile does nothing. -/
  uncompiled : ∀ e, agent.ruleOps turn.rule install = .error e →
    turn.left = turn.found ∧ turn.effects = []
  /-- The operations are performed up to the first that fails. -/
  performed : ∀ ops, agent.ruleOps turn.rule install = .ok ops →
    ∃ done rest, ops = done ++ rest ∧ turn.found.Runs done turn.left turn.effects ∧
      ∀ op ∈ rest.head?, ∃ e, turn.left.perform op = .error e

/-- No rule changes the ports. -/
theorem Fares.ports (h : turn.Fares agent install) : turn.left.ports = turn.found.ports := by
  cases hops : agent.ruleOps turn.rule install with
  | error e => rw [(h.uncompiled e hops).1]
  | ok ops =>
    obtain ⟨done, rest, -, hruns, -⟩ := h.performed ops hops
    exact hruns.replayed.ports

/-! ## Turns in order -/

/-- Each turn finds the bridge that the one before it left. -/
def Linked (first : Bridge) : List Turn → Bridge → Prop
  | [], last => last = first
  | turn :: turns, last => turn.found = first ∧ Linked turn.left turns last

theorem Linked.append {first middle last : Bridge} {turns more : List Turn}
    (h : Linked first turns middle) (hmore : Linked middle more last) :
    Linked first (turns ++ more) last := by
  induction turns generalizing first with
  | nil =>
    obtain rfl : middle = first := h
    exact hmore
  | cons turn turns ih => exact ⟨h.1, ih h.2⟩

end Turn

namespace AgentStats

/-- The counters after some turns: each turn counts by its status, and the operations of those rules
that are in force by what they did. -/
def counting (stats : AgentStats) (install : Bool) (turns : List Turn) : AgentStats :=
  let active := turns.filter (·.status = .active)
  let effects := active.flatMap (·.effects)
  { rulesApplied := stats.rulesApplied + if install then active.length else 0
    rulesDeleted := stats.rulesDeleted + if install then 0 else active.length
    rulesFailed := stats.rulesFailed + turns.countP (·.status = .error)
    flowsAdded := stats.flowsAdded + effects.count .flowAdded
    flowDeletes := stats.flowDeletes + effects.count .flowsDeleted
    groupsCreated := stats.groupsCreated + effects.count .groupCreated
    groupsModified := stats.groupsModified + effects.count .groupModified
    groupsDeleted := stats.groupsDeleted + effects.count .groupDeleted }

variable (stats : AgentStats) (install : Bool)

@[simp]
theorem counting_nil : stats.counting install [] = stats := by
  simp [counting]

theorem counting_append (turns more : List Turn) :
    stats.counting install (turns ++ more) =
      (stats.counting install turns).counting install more := by
  cases install <;> simp [counting, Nat.add_assoc]

theorem counting_failed {turn : Turn} (h : turn.status = .error) :
    stats.counting install [turn] = stats.countFailure := by
  simp [counting, countFailure, h]

theorem counting_active {turn : Turn} (h : turn.status = .active) :
    stats.counting install [turn] =
      (stats.record (Tally.ofEffects turn.effects)).countRule install := by
  cases install <;> simp [counting, record, countRule, Tally.ofEffects, h]

end AgentStats

namespace Agent

variable {agent : Agent} {install : Bool} {turns more : List Turn} {batch next : Batch}

/-- What an agent tells of a batch agrees with the turns that its rules have. -/
structure Balances (agent : Agent) (install : Bool) (turns : List Turn) (batch : Batch) :
    Prop where
  /-- The batch does not change what rules are compiled with. -/
  ctx : batch.agent.ctx = agent.ctx
  ports : batch.agent.bridge.ports = agent.bridge.ports
  /-- The rules act on the bridge one after the other. -/
  linked : Turn.Linked agent.bridge turns batch.agent.bridge
  fares : ∀ turn ∈ turns, turn.Fares agent install
  /-- There is one report for each rule, in order. -/
  reports : batch.reports = turns.map fun turn => ⟨turn.rule.id, turn.status⟩
  stats : batch.agent.stats = agent.stats.counting install turns
  /-- There is one record for each rule, in order. -/
  trail : List.Forall₂ (Turn.RecordedBy install) turns (ruleTrail batch.events)

/-- Batches that follow each other balance together. -/
theorem Balances.append (h : agent.Balances install turns batch)
    (hnext : batch.agent.Balances install more next) :
    agent.Balances install (turns ++ more)
      ⟨next.agent, batch.reports ++ next.reports, batch.events ++ next.events⟩ where
  ctx := hnext.ctx.trans h.ctx
  ports := hnext.ports.trans h.ports
  linked := h.linked.append hnext.linked
  fares := by
    -- the second batch is compiled with what the first was compiled with
    have hops : ∀ rule, batch.agent.ruleOps rule install = agent.ruleOps rule install := by
      intro rule
      simp only [ruleOps, h.ctx, h.ports]
    intro turn hturn
    rcases List.mem_append.1 hturn with hturn | hturn
    · exact h.fares turn hturn
    · obtain ⟨hactive, huncompiled, hperformed⟩ := hnext.fares turn hturn
      rw [hops] at huncompiled hperformed
      simp only [hops] at hactive
      exact ⟨hactive, huncompiled, hperformed⟩
  reports := by
    show batch.reports ++ next.reports = _
    rw [h.reports, hnext.reports, List.map_append]
  stats := by
    show next.agent.stats = _
    rw [hnext.stats, h.stats, AgentStats.counting_append]
  trail := by
    show List.Forall₂ _ _ (ruleTrail (batch.events ++ next.events))
    rw [ruleTrail_append]
    exact List.rel_append h.trail hnext.trail

/-! ## One rule -/

section Apply

variable {rule : FlowRule} {ops : List BridgeOp}

theorem ruleTrail_failureEvents (rule : FlowRule) (install : Bool) (e : RuleError) :
    ruleTrail (failureEvents rule install e) =
      [(ruleRecord rule install).withError e.message] := by
  cases install <;> rfl

theorem ruleTrail_successEvents (rule : FlowRule) (install : Bool) (tally : Tally) :
    ruleTrail (successEvents rule install tally) =
      [{ ruleRecord rule install with
          outcome := .success, details := some (ruleDetails rule tally) }] := by
  cases install <;> rfl

/-- Nothing on the way to the status of a rule is a record of a rule. -/
theorem ruleTrail_recorded (agent : Agent) (install : Bool) (rule : FlowRule)
    (ops : List BridgeOp) :
    ruleTrail ((agent.ruleNotices rule install).map Event.log ++
      (agent.bridge.execute ops).records.map Event.audit) = [] := by
  rw [ruleTrail_append, ruleTrail_log, ruleTrail_execute, List.append_nil]

theorem trail_of_failure {turn : Turn} (hstatus : turn.status = .error) {events : List Event}
    (hevents : ruleTrail events = []) (e : RuleError) :
    List.Forall₂ (Turn.RecordedBy install) [turn]
      (ruleTrail (events ++ failureEvents turn.rule install e)) := by
  rw [ruleTrail_append, hevents, ruleTrail_failureEvents, List.nil_append]
  exact .cons ⟨rfl, rfl, rfl, by simp [AuditRecord.withError, hstatus]⟩ .nil

theorem trail_of_success {turn : Turn} (hstatus : turn.status = .active) {events : List Event}
    (hevents : ruleTrail events = []) (tally : Tally) :
    List.Forall₂ (Turn.RecordedBy install) [turn]
      (ruleTrail (events ++ successEvents turn.rule install tally)) := by
  rw [ruleTrail_append, hevents, ruleTrail_successEvents, List.nil_append]
  exact .cons ⟨rfl, rfl, rfl, by simp [hstatus]⟩ .nil

/-- A rule that does not compile. -/
theorem balances_of_uncompiled {e : CompileError} (hops : agent.ruleOps rule install = .error e) :
    agent.Balances install [⟨rule, agent.bridge, agent.bridge, .error, []⟩]
      (agent.applyAll install [rule]) := by
  simp only [applyAll, apply, hops, List.append_nil]
  refine ⟨rfl, rfl, ⟨rfl, rfl⟩, ?_, rfl, (AgentStats.counting_failed _ _ rfl).symm,
    trail_of_failure rfl (ruleTrail_log _) _⟩
  intro turn hturn
  obtain rfl := List.mem_singleton.1 hturn
  refine ⟨?_, fun _ _ => ⟨rfl, rfl⟩, fun ops hok => ?_⟩
  · simp [hops]
  · rw [hops] at hok
    cases hok

/-- What a rule that compiles does to the bridge. -/
theorem fares_of_compiled (hops : agent.ruleOps rule install = .ok ops) {status : RuleStatus}
    (hstatus : status = .active ↔ (agent.bridge.execute ops).failure = none) :
    Turn.Fares agent install
      ⟨rule, agent.bridge, (agent.bridge.execute ops).bridge, status,
        (agent.bridge.execute ops).effects⟩ where
  active_iff := by
    rw [hstatus, Bridge.failure_execute_eq_none_iff]
    constructor
    · rintro ⟨last, effects, hruns⟩
      exact ⟨ops, last, effects, hops, hruns⟩
    · rintro ⟨ops', last, effects, hops', hruns⟩
      obtain rfl := Except.ok.inj (hops.symm.trans hops')
      exact ⟨last, effects, hruns⟩
  uncompiled e he := by
    rw [hops] at he
    cases he
  performed ops' hops' := by
    obtain rfl := Except.ok.inj (hops.symm.trans hops')
    exact Bridge.exists_runs_execute agent.bridge ops

/-- A rule one of whose operations fails. -/
theorem balances_of_stopped (hops : agent.ruleOps rule install = .ok ops) {e : BridgeError}
    (hfailure : (agent.bridge.execute ops).failure = some e) :
    agent.Balances install
      [⟨rule, agent.bridge, (agent.bridge.execute ops).bridge, .error,
        (agent.bridge.execute ops).effects⟩] (agent.applyAll install [rule]) := by
  have hstatus : RuleStatus.error = .active ↔ (agent.bridge.execute ops).failure = none := by
    simp [hfailure]
  have hfares := fares_of_compiled hops hstatus
  simp only [applyAll, apply, hops, Execution.result, hfailure, List.append_nil]
  exact ⟨rfl, hfares.ports, ⟨rfl, rfl⟩, List.forall_mem_singleton.2 hfares, rfl,
    (AgentStats.counting_failed _ _ rfl).symm,
    trail_of_failure rfl (ruleTrail_recorded agent install rule ops) _⟩

/-- A rule all of whose operations succeed. -/
theorem balances_of_finished (hops : agent.ruleOps rule install = .ok ops)
    (hfailure : (agent.bridge.execute ops).failure = none) :
    agent.Balances install
      [⟨rule, agent.bridge, (agent.bridge.execute ops).bridge, .active,
        (agent.bridge.execute ops).effects⟩] (agent.applyAll install [rule]) := by
  have hstatus : RuleStatus.active = .active ↔ (agent.bridge.execute ops).failure = none := by
    simp [hfailure]
  have hfares := fares_of_compiled hops hstatus
  simp only [applyAll, apply, hops, Execution.result, hfailure, List.append_nil]
  refine ⟨rfl, hfares.ports, ⟨rfl, rfl⟩, List.forall_mem_singleton.2 hfares, rfl, ?_,
    trail_of_success rfl (ruleTrail_recorded agent install rule ops) _⟩
  rw [AgentStats.counting_active _ _ rfl]

/-- A batch of one rule. -/
theorem exists_balances_apply (agent : Agent) (install : Bool) (rule : FlowRule) :
    ∃ turn : Turn, turn.rule = rule ∧
      agent.Balances install [turn] (agent.applyAll install [rule]) := by
  cases hops : agent.ruleOps rule install with
  | error e => exact ⟨⟨rule, _, _, _, _⟩, rfl, balances_of_uncompiled hops⟩
  | ok ops =>
    cases hfailure : (agent.bridge.execute ops).failure with
    | none => exact ⟨⟨rule, _, _, _, _⟩, rfl, balances_of_finished hops hfailure⟩
    | some e => exact ⟨⟨rule, _, _, _, _⟩, rfl, balances_of_stopped hops hfailure⟩

end Apply

/-! ## All rules -/

theorem exists_balances_applyAll (agent : Agent) (install : Bool) (rules : List FlowRule) :
    ∃ turns, turns.map (·.rule) = rules ∧
      agent.Balances install turns (agent.applyAll install rules) := by
  induction rules generalizing agent with
  | nil =>
    exact ⟨[], rfl, rfl, rfl, rfl, by simp, rfl, (AgentStats.counting_nil _ _).symm, .nil⟩
  | cons rule rules ih =>
    obtain ⟨turn, rfl, hturn⟩ := exists_balances_apply agent install rule
    obtain ⟨turns, rfl, hturns⟩ := ih (agent.apply turn.rule install).agent
    refine ⟨turn :: turns, rfl, ?_⟩
    have hboth := hturn.append hturns
    simp only [applyAll, List.append_nil] at hboth
    exact hboth

/-- On any bridge, whatever fails there and whatever the rules are, each rule of a batch has its turn on
what the ones before it left, and all that is told of the batch agrees with the turns. -/
theorem books_balance (agent : Agent) (rules : List FlowRule) :
    (∃ turns, turns.map (·.rule) = rules ∧ agent.Balances true turns (agent.updateRules rules)) ∧
      ∃ turns, turns.map (·.rule) = rules ∧ agent.Balances false turns (agent.deleteRules rules) :=
  ⟨exists_balances_applyAll agent true rules, exists_balances_applyAll agent false rules⟩

end Agent

end ServiceChain
