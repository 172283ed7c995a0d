import ServiceChain.Proofs.Agent.Bootstrap
import ServiceChain.Proofs.Bridge.Runs
import ServiceChain.Proofs.Rule.Inverse

/-!
# Bootstraps after other work

A bootstrap takes away all groups and clears the cross-subnet and the chain ingress table, but not the
local switching table, where traffic is classified and tagged (`entryAfter_bootstrapOps`).  Whatever an
agent did before, the entries there stay, and those that are not static are ones that the installation of
some rule added (`Works.provenance`).  So a bootstrap leaves just the static entries if the local switching
table held no other (`bootstrap_keeps_local_switching`).
-/

namespace ServiceChain

open BridgeOp

namespace Agent

variable {start agent : Agent} {key : FlowKey} {actions : List FlowAction} {ops : List BridgeOp}
  {install : Bool} {rule : FlowRule}

/-! ## One bootstrap -/

/-- Clearing a table takes every entry in it. -/
theorem sweeps_any (table : Table) (key : FlowKey) :
    Bridge.sweeps (some table) none FlowMatch.any key = (key.table == table) := by
  simp [Bridge.sweeps, FlowMatch.covers, FlowMatch.any, FlowMatch.fieldCovers]

/-- What a bootstrap makes of an entry that is not static. -/
theorem entryAfter_bootstrapOps (h : ¬ IsStaticKey key) (v : Option (List FlowAction)) :
    entryAfter bootstrapOps key v = if key.table = .localSwitching then v else none := by
  rw [isStaticKey_iff, not_or] at h
  obtain ⟨hlocal, hdrop⟩ := h
  simp only [bootstrapOps, entryAfter_cons, entryAfter_nil, onEntry, removes, sweeps_any,
    if_neg (Ne.symm hlocal), if_neg (Ne.symm hdrop)]
  cases key.table <;> rfl

/-- The static entries are there after a bootstrap, whatever was there. -/
theorem entryAfter_bootstrapOps_static {entry : FlowEntry} (h : .addFlow entry ∈ bootstrapOps)
    (v : Option (List FlowAction)) : entryAfter bootstrapOps entry.key v = some entry.actions := by
  rw [entryAfter_congr_of_adds ⟨_, h, adds_addFlow.2 rfl⟩ v none]
  rcases addFlow_mem_bootstrapOps.1 h with rfl | rfl <;> rfl

theorem result_bootstrap (h : agent.bridge.failing = []) : agent.bootstrap.result = .ok () := by
  have hfailure := Bridge.execute_ok h bootstrapOps
  unfold bootstrap
  simp only [Execution.result, hfailure]

/-! ## What agents do -/

/-- Bootstraps and batches of rules, whether they succeed or fail, and changes of the ports and of what
fails, lead from one agent to another. -/
inductive Works (start : Agent) : Agent → Prop
  | start : Works start start
  | bootstrap {agent : Agent} (h : Works start agent) : Works start agent.bootstrap.agent
  | batch {agent : Agent} (h : Works start agent) (install : Bool) (rules : List FlowRule) :
      Works start (agent.applyAll install rules).agent
  | change {agent : Agent} (h : Works start agent) (ports : PortTable) (failing : List Primitive) :
      Works start { agent with bridge := { agent.bridge with ports, failing } }

/-- At some point of its work, the agent installs a rule that adds the entry. -/
def Adds (start : Agent) (entry : FlowEntry) : Prop :=
  ∃ (agent : Agent) (rule : FlowRule) (ops : List BridgeOp), Works start agent ∧
    rule.installOps agent.ctx agent.bridge.ports = .ok ops ∧ .addFlow entry ∈ ops

/-- The bridge of the agent holds nothing but static entries and what rules added. -/
def Accounted (start agent : Agent) : Prop :=
  ∀ key actions, agent.bridge.flow? key = some actions →
    IsStaticKey key ∨ start.Adds ⟨key, actions⟩

theorem Works.apply (h : Works start agent) (rule : FlowRule) (install : Bool) :
    Works start (agent.apply rule install).agent := h.batch install [rule]

/-! ## Where entries come from -/

/-- A run of operations, finished or stopped, leaves entries that were there or that it added. -/
theorem flow_execute (h : (agent.bridge.execute ops).bridge.flow? key = some actions) :
    agent.bridge.flow? key = some actions ∨ .addFlow ⟨key, actions⟩ ∈ ops := by
  obtain ⟨done, rest, hops, hruns, -⟩ := Bridge.exists_runs_execute agent.bridge ops
  rw [hruns.replayed.flow] at h
  rcases eq_or_mem_of_entryAfter h with hold | hadded
  · exact .inl hold
  · rw [hops]
    exact .inr (List.mem_append_left _ hadded)

theorem bridge_bootstrap (agent : Agent) :
    agent.bootstrap.agent.bridge = (agent.bridge.execute bootstrapOps).bridge := by
  simp only [bootstrap]
  split <;> rfl

theorem bridge_apply (hops : agent.ruleOps rule install = .ok ops) :
    (agent.apply rule install).agent.bridge = (agent.bridge.execute ops).bridge := by
  simp only [apply, hops]
  split <;> rfl

theorem bridge_apply_error {e : CompileError} (hops : agent.ruleOps rule install = .error e) :
    (agent.apply rule install).agent.bridge = agent.bridge := by
  simp only [apply, hops]

theorem accounted_bootstrap (h : Accounted start agent) :
    Accounted start agent.bootstrap.agent := by
  intro key actions hflow
  rw [bridge_bootstrap] at hflow
  rcases flow_execute hflow with hold | hadded
  · exact h key actions hold
  · exact .inl ⟨_, hadded, rfl⟩

theorem accounted_apply (hworks : Works start agent) (h : Accounted start agent) (rule : FlowRule)
    (install : Bool) : Accounted start (agent.apply rule install).agent := by
  intro key actions hflow
  cases hops : agent.ruleOps rule install with
  | error e =>
    rw [bridge_apply_error hops] at hflow
    exact h key actions hflow
  | ok ops =>
    rw [bridge_apply hops] at hflow
    rcases flow_execute hflow with hold | hadded
    · exact h key actions hold
    · cases install with
      | true => exact .inr ⟨agent, rule, ops, hworks, hops, hadded⟩
      | false => exact absurd (adds_addFlow.2 rfl) (FlowRule.not_adds_of_removal hops _ hadded)

theorem accounted_batch (hworks : Works start agent) (h : Accounted start agent) (install : Bool)
    (rules : List FlowRule) : Accounted start (agent.applyAll install rules).agent := by
  induction rules generalizing agent with
  | nil => exact h
  | cons rule rules ih =>
    exact ih (hworks.apply rule install) (accounted_apply hworks h rule install)

/-- What an agent finds on its bridge, if it found none at its start, is static or added by a rule. -/
theorem Works.accounted (hempty : ∀ key, start.bridge.flow? key = none) (h : Works start agent) :
    Accounted start agent := by
  induction h with
  | start =>
    intro key actions hflow
    rw [hempty] at hflow
    cases hflow
  | bootstrap _ ih => exact accounted_bootstrap ih
  | batch hworks install rules ih => exact accounted_batch hworks ih install rules
  | change _ ports failing ih => exact ih

/-! ## After a bootstrap -/

/-- After any work, a bootstrap on a bridge without injected failures leaves the static entries, no group,
and the entries of the local switching table, all of which rules added.  So the static entries are all
that is left just if that table held no other. -/
theorem bootstrap_keeps_local_switching (hempty : ∀ key, start.bridge.flow? key = none)
    (h : Works start agent) (hfailing : agent.bridge.failing = []) :
    agent.bootstrap.result = .ok () ∧
      (∀ id, agent.bootstrap.agent.bridge.group? id = none) ∧
      (∀ entry, .addFlow entry ∈ bootstrapOps →
        agent.bootstrap.agent.bridge.flow? entry.key = some entry.actions) ∧
      (∀ key, ¬ IsStaticKey key → agent.bootstrap.agent.bridge.flow? key =
        if key.table = .localSwitching then agent.bridge.flow? key else none) ∧
      (∀ key actions, ¬ IsStaticKey key →
        agent.bootstrap.agent.bridge.flow? key = some actions → start.Adds ⟨key, actions⟩) ∧
      ((∀ key, (agent.bootstrap.agent.bridge.flow? key).isSome ↔ IsStaticKey key) ↔
        ∀ key, key.table = .localSwitching → (agent.bridge.flow? key).isSome → IsStaticKey key) := by
  have hflow := (bootstrap_replayed hfailing).2.flow
  have hstatic : ∀ entry, .addFlow entry ∈ bootstrapOps →
      agent.bootstrap.agent.bridge.flow? entry.key = some entry.actions := by
    intro entry hentry
    rw [hflow, entryAfter_bootstrapOps_static hentry]
  have hother : ∀ key, ¬ IsStaticKey key → agent.bootstrap.agent.bridge.flow? key =
      if key.table = .localSwitching then agent.bridge.flow? key else none := by
    intro key hkey
    rw [hflow, entryAfter_bootstrapOps hkey]
  refine ⟨result_bootstrap hfailing, group_bootstrap hfailing, hstatic, hother, ?_, ?_⟩
  · intro key actions hkey hactions
    exact (accounted_bootstrap (h.accounted hempty) key actions hactions).resolve_left hkey
  · constructor
    · intro hexact key htable hsome
      by_contra hkey
      have hkept := hother key hkey
      rw [if_pos htable] at hkept
      rw [← hkept, hexact] at hsome
      exact hkey hsome
    · intro hlocal key
      constructor
      · intro hsome
        by_contra hkey
        rw [hother key hkey] at hsome
        split at hsome
        · rename_i htable
          exact hkey (hlocal key htable hsome)
        · cases hsome
      · rintro ⟨entry, hentry, rfl⟩
        rw [hstatic entry hentry]
        rfl

/-- An agent on a bridge with two ports. -/
def sampleFresh : Agent := { ctx := ⟨"br-int", "h1", 99⟩, bridge := FlowRule.sampleBridge }

/-- The agent after a bootstrap and the installation of a service function before a group. -/
def sampleProgrammed : Agent :=
  (sampleFresh.bootstrap.agent.updateRules [FlowRule.sampleHop]).agent

/-- What comes back from the service function is tagged and handed to the group. -/
def sampleTagKey : FlowKey :=
  ⟨.localSwitching, Priority.steering, { inPort := some 2, dlType := some EtherType.ipv4Value }⟩

theorem sampleFresh_empty (key : FlowKey) : sampleFresh.bridge.flow? key = none := by
  simp [sampleFresh, FlowRule.sampleBridge, Bridge.flow?]

theorem sampleProgrammed_works : Works sampleFresh sampleProgrammed :=
  Works.start.bootstrap.batch true [FlowRule.sampleHop]

theorem not_isStaticKey_sampleTagKey : ¬ IsStaticKey sampleTagKey := by
  rw [isStaticKey_iff]
  decide

/-- The entry is still there after a second bootstrap, and hands traffic to a group that is not. -/
theorem sampleProgrammed_dangles :
    sampleProgrammed.bootstrap.agent.bridge.flow? sampleTagKey = some [.modVlanVid 100, .group 5] ∧
      sampleProgrammed.bootstrap.agent.bridge.group? 5 = none := by
  decide +kernel

theorem sampleProgrammed_restarts :
    sampleProgrammed.bootstrap.result = .ok () ∧
      sampleProgrammed.bootstrap.agent.bridge.flow? sampleTagKey =
        sampleProgrammed.bridge.flow? sampleTagKey ∧
      sampleFresh.Adds ⟨sampleTagKey, [.modVlanVid 100, .group 5]⟩ := by
  have hfailing : sampleProgrammed.bridge.failing = [] := by decide +kernel
  obtain ⟨hresult, -, -, hkept, hadds, -⟩ :=
    bootstrap_keeps_local_switching sampleFresh_empty sampleProgrammed_works hfailing
  exact ⟨hresult, hkept sampleTagKey not_isStaticKey_sampleTagKey,
    hadds sampleTagKey _ not_isStaticKey_sampleTagKey sampleProgrammed_dangles.1⟩

/-- The bootstrap of an agent that began with no entry and no group, on a bridge where nothing fails, leaves
more than the static entries, and an entry without its group. -/
theorem sampleProgrammed_not_cleared :
    ((∀ key, sampleFresh.bridge.flow? key = none) ∧ ∀ id, sampleFresh.bridge.group? id = none) ∧
      Works sampleFresh sampleProgrammed ∧ sampleProgrammed.bridge.failing = [] ∧
      (¬ ∀ key, (sampleProgrammed.bootstrap.agent.bridge.flow? key).isSome ↔ IsStaticKey key) ∧
      ¬ ∀ key actions id, sampleProgrammed.bootstrap.agent.bridge.flow? key = some actions →
        .group id ∈ actions → (sampleProgrammed.bootstrap.agent.bridge.group? id).isSome := by
  have hgroups : ∀ id, sampleFresh.bridge.group? id = none := by
    intro id
    simp [sampleFresh, FlowRule.sampleBridge, Bridge.group?]
  obtain ⟨hentry, hgroup⟩ := sampleProgrammed_dangles
  refine ⟨⟨sampleFresh_empty, hgroups⟩, sampleProgrammed_works, by decide +kernel, ?_, ?_⟩
  · intro hstatic
    exact not_isStaticKey_sampleTagKey ((hstatic sampleTagKey).1 (by rw [hentry]; rfl))
  · intro hexists
    have hsome := hexists sampleTagKey _ 5 hentry (by simp)
    rw [hgroup] at hsome
    cases hsome

end Agent

end ServiceChain
