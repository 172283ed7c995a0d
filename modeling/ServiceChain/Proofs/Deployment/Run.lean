import ServiceChain.Proofs.Agent.Batch
import ServiceChain.Proofs.Topology.Calls

/-!
# A topology with one agent

A call to the topology answers batches of rules, which the agent gets at once and in their order
(`Deployment.step`).  A run is any sequence of calls that a condition admits (`Deployment.Reaches`).  At
every point of it the topology is well formed, and the agent's bridge still has the ports of the store and
injects no failures (`Deployment.Sound`, `Reaches.sound`).
-/

namespace ServiceChain

/-- A topology, and the agent that gets all its rules. -/
structure Deployment where
  topology : Topology
  agent : Agent

namespace Deployment

/-- The agent gets a batch. -/
def deliver (s : Deployment) (batch : RuleBatch) : Deployment :=
  { s with agent := (s.agent.applyAll batch.install batch.rules).agent }

/-- The agent gets batches in turn. -/
def deliverAll (s : Deployment) (batches : List RuleBatch) : Deployment := batches.foldl deliver s

variable (env : TopologyEnv)

/-- The batches that a call answers; a call that fails answers none. -/
def batches (s : Deployment) (call : ChainCall) : List RuleBatch :=
  match (s.topology.answer env call).2 with
  | .ok batches => batches
  | .error _ => []

/-- The topology has carried out a call, and nothing is delivered yet. -/
def issue (s : Deployment) (call : ChainCall) : Deployment :=
  { s with topology := (s.topology.answer env call).1 }

/-- A call and the delivery of what it answered. -/
def step (s : Deployment) (call : ChainCall) : Deployment :=
  (s.issue env call).deliverAll (s.batches env call)

/-- The call is successful. -/
def Succeeds (s : Deployment) (call : ChainCall) : Prop :=
  ∃ batches, (s.topology.answer env call).2 = .ok batches

/-- What the call answered is delivered up to some batch. -/
def AfterDelivery (s : Deployment) (call : ChainCall) (s' : Deployment) : Prop :=
  ∃ delivered more, delivered ≠ [] ∧ s.batches env call = delivered ++ more ∧
    s' = (s.issue env call).deliverAll delivered

/-- Some calls that a condition admits lead from one deployment to another. -/
inductive Reaches (admits : Deployment → ChainCall → Prop) (start : Deployment) : Deployment → Prop
  | start : Reaches admits start start
  | step {s : Deployment} {call : ChainCall} : Reaches admits start s → admits s call →
      Reaches admits start (s.step env call)

/-- No chain is live, and the agent's bridge has every port that the store names. -/
structure IsReady (s : Deployment) : Prop where
  topology : s.topology = {}
  failing : s.agent.bridge.failing = []
  attached : env.store.IsAttached s.agent.bridge.ports

/-- The agent has prepared a bridge without entries. -/
structure IsFresh (s : Deployment) : Prop extends IsReady env s where
  prepared : ∃ agent : Agent, agent.bridge.failing = [] ∧
    (∀ key, agent.bridge.flow? key = none) ∧ s.agent = agent.bootstrap.agent

/-- A rule of the chain installs the key. -/
def IsKeyOf (s : Deployment) (chainId : String) (key : FlowKey) : Prop :=
  ∃ rules rule, s.topology.flowRules env chainId = .ok rules ∧ rule ∈ rules ∧
    s.agent.Installs rule key

/-- The keys that the rules of the chain install. -/
def keysOf (s : Deployment) (chainId : String) : List FlowKey :=
  match s.topology.flowRules env chainId with
  | .ok rules => (s.agent.batchOps true rules).filterMap BridgeOp.key?
  | .error _ => []

theorem mem_keysOf {s : Deployment} {chainId : String} {key : FlowKey} :
    key ∈ s.keysOf env chainId ↔ s.IsKeyOf env chainId key := by
  unfold keysOf IsKeyOf
  cases s.topology.flowRules env chainId with
  | error e => simp
  | ok rules =>
    simp only [List.mem_filterMap, Agent.mem_batchOps, Except.ok.injEq, exists_and_left,
      exists_eq_left', Agent.Installs, Agent.ruleOps, if_true]
    constructor
    · rintro ⟨op, ⟨rule, hrule, ops, hops, hop⟩, hkey⟩
      exact ⟨rule, hrule, ops, hops, op, hop, (FlowRule.key?_eq_some_of_installOps hops hop).1 hkey⟩
    · rintro ⟨rule, hrule, ops, hops, op, hop, hadds⟩
      exact ⟨op, ⟨rule, hrule, ops, hops, hop⟩, (FlowRule.key?_eq_some_of_installOps hops hop).2 hadds⟩

/-- A rule of a live chain installs the key. -/
def IsLiveKey (s : Deployment) (key : FlowKey) : Prop := ∃ chainId, s.IsKeyOf env chainId key

/-! ## What every run keeps -/

/-- The topology is well formed, and the agent works on a bridge with the ports of the store. -/
structure Sound (s : Deployment) : Prop where
  wellFormed : Topology.WellFormed env s.topology
  failing : s.agent.bridge.failing = []
  attached : env.store.IsAttached s.agent.bridge.ports

variable {env} {admits : Deployment → ChainCall → Prop} {start s s' : Deployment}
  {call : ChainCall} {batch : RuleBatch} {delivered : List RuleBatch}

theorem IsReady.sound (h : s.IsReady env) : s.Sound env where
  wellFormed := by
    rw [h.topology]
    exact Topology.wellFormed_empty env
  failing := h.failing
  attached := h.attached

@[simp]
theorem deliver_topology : (s.deliver batch).topology = s.topology := rfl

@[simp]
theorem deliverAll_nil : s.deliverAll [] = s := rfl

@[simp]
theorem deliverAll_cons : s.deliverAll (batch :: delivered) =
    (s.deliver batch).deliverAll delivered := rfl

theorem deliverAll_topology : (s.deliverAll delivered).topology = s.topology := by
  induction delivered generalizing s with
  | nil => rfl
  | cons batch delivered ih => exact ih

theorem step_topology : (s.step env call).topology = (s.issue env call).topology :=
  deliverAll_topology

/-- What no delivery changes: the topology, the agent's host, and the ports of its bridge. -/
structure SameGround (s s' : Deployment) : Prop where
  topology : s'.topology = s.topology
  ctx : s'.agent.ctx = s.agent.ctx
  ports : s'.agent.bridge.ports = s.agent.bridge.ports
  failing : s'.agent.bridge.failing = s.agent.bridge.failing

theorem SameGround.refl (s : Deployment) : s.SameGround s := ⟨rfl, rfl, rfl, rfl⟩

theorem SameGround.trans {s'' : Deployment} (h : s.SameGround s') (h' : s'.SameGround s'') :
    s.SameGround s'' :=
  ⟨h'.topology.trans h.topology, h'.ctx.trans h.ctx, h'.ports.trans h.ports,
    h'.failing.trans h.failing⟩

theorem sameGround_deliver (h : s.agent.bridge.failing = []) (batch : RuleBatch) :
    s.SameGround (s.deliver batch) := by
  obtain ⟨hctx, hreplay⟩ := Agent.applyAll_replayed h batch.install batch.rules
  exact ⟨rfl, hctx, hreplay.ports, hreplay.failing⟩

theorem sameGround_deliverAll (h : s.agent.bridge.failing = []) (delivered : List RuleBatch) :
    s.SameGround (s.deliverAll delivered) := by
  induction delivered generalizing s with
  | nil => exact SameGround.refl s
  | cons batch delivered ih =>
    have hfirst := sameGround_deliver h batch
    exact hfirst.trans (ih (hfirst.failing.trans h))

theorem SameGround.installs_iff (h : s.SameGround s') {rule : FlowRule} {key : FlowKey} :
    s'.agent.Installs rule key ↔ s.agent.Installs rule key := by
  simp only [Agent.Installs, h.ctx, h.ports]

theorem SameGround.isKeyOf_iff (h : s.SameGround s') {chainId : String} {key : FlowKey} :
    s'.IsKeyOf env chainId key ↔ s.IsKeyOf env chainId key := by
  simp only [IsKeyOf, h.installs_iff, h.topology]

theorem SameGround.isLiveKey_iff (h : s.SameGround s') {key : FlowKey} :
    s'.IsLiveKey env key ↔ s.IsLiveKey env key := by
  simp only [IsLiveKey, h.isKeyOf_iff]

theorem Sound.of_sameGround (h : s.Sound env) (hsame : s.SameGround s') : s'.Sound env where
  wellFormed := hsame.topology ▸ h.wellFormed
  failing := hsame.failing.trans h.failing
  attached := hsame.ports ▸ h.attached

/-- A call, successful or not, alters no chain but its own. -/
theorem Sound.alters (hlaw : env.Lawful) (h : s.Sound env) (call : ChainCall) :
    Topology.Alters env s.topology call.chainId (s.issue env call).topology :=
  h.wellFormed.alters_answer hlaw call

theorem Sound.issue (hlaw : env.Lawful) (h : s.Sound env) (call : ChainCall) :
    (s.issue env call).Sound env where
  wellFormed := (h.alters hlaw call).wellFormed
  failing := h.failing
  attached := h.attached

theorem Sound.step (hlaw : env.Lawful) (h : s.Sound env) (call : ChainCall) :
    (s.step env call).Sound env :=
  (h.issue hlaw call).of_sameGround (sameGround_deliverAll (s := s.issue env call) h.failing _)

theorem Reaches.sound (hlaw : env.Lawful) (hready : start.IsReady env)
    (h : Reaches env admits start s) : s.Sound env := by
  induction h with
  | start => exact hready.sound
  | step _ _ ih => exact ih.step hlaw _

/-! ## Deliveries -/

/-- The deployments right after a delivery: one for a call that creates or deletes a chain, and two for a
change of classifiers. -/
theorem afterDelivery_iff : s.AfterDelivery env call s' ↔
    match call with
    | .create chainId => ∃ rules, (s.topology.createChain env chainId).result = .ok rules ∧
        s' = (s.issue env (.create chainId)).deliver ⟨true, rules⟩
    | .delete chainId => ∃ rules, (s.topology.deleteChain env chainId).result = .ok rules ∧
        s' = (s.issue env (.delete chainId)).deliver ⟨false, rules⟩
    | .update chainId added removed => ∃ update,
        (s.topology.updateClassifiers env chainId added removed).result = .ok update ∧
          (s' = (s.issue env (.update chainId added removed)).deliver ⟨false, update.delete⟩ ∨
            s' = ((s.issue env (.update chainId added removed)).deliver
              ⟨false, update.delete⟩).deliver ⟨true, update.apply⟩) := by
  have hone : ∀ {batch : RuleBatch} {t : Deployment},
      (∃ delivered more, delivered ≠ [] ∧ [batch] = delivered ++ more ∧
        s' = t.deliverAll delivered) ↔ s' = t.deliver batch := by
    intro batch t
    constructor
    · rintro ⟨delivered, more, hne, heq, rfl⟩
      rcases List.append_eq_singleton_iff.1 heq.symm with ⟨rfl, -⟩ | ⟨rfl, -⟩
      · exact absurd rfl hne
      · rfl
    · rintro rfl
      exact ⟨[batch], [], by simp, rfl, rfl⟩
  unfold AfterDelivery batches
  cases call with
  | create chainId =>
    cases hresult : (s.topology.createChain env chainId).result with
    | error e => simp [Topology.answer, hresult, Except.map]
    | ok rules => simpa only [Topology.answer, hresult, Except.map, Except.ok.injEq,
        exists_eq_left'] using hone
  | delete chainId =>
    cases hresult : (s.topology.deleteChain env chainId).result with
    | error e => simp [Topology.answer, hresult, Except.map]
    | ok rules => simpa only [Topology.answer, hresult, Except.map, Except.ok.injEq,
        exists_eq_left'] using hone
  | update chainId added removed =>
    cases hresult : (s.topology.updateClassifiers env chainId added removed).result with
    | error e => simp [Topology.answer, hresult, Except.map]
    | ok update =>
      simp only [Topology.answer, hresult, Except.map, Except.ok.injEq, exists_eq_left']
      constructor
      · rintro ⟨delivered, more, hne, heq, rfl⟩
        match delivered, hne with
        | [_], _ =>
          obtain ⟨rfl, -⟩ := List.cons.inj heq
          exact .inl rfl
        | _ :: _ :: rest, _ =>
          obtain ⟨rfl, hrest⟩ := List.cons.inj heq
          obtain ⟨rfl, hnil⟩ := List.cons.inj hrest
          obtain ⟨rfl, -⟩ := List.append_eq_nil_iff.1 hnil.symm
          exact .inr rfl
      · rintro (rfl | rfl)
        · exact ⟨[⟨false, update.delete⟩], [⟨true, update.apply⟩], by simp, rfl, rfl⟩
        · exact ⟨_, [], by simp, (List.append_nil _).symm, rfl⟩

/-- A successful call ends with a delivery, and one that fails has none. -/
theorem step_cases (s : Deployment) (call : ChainCall) :
    s.Succeeds env call ∧ s.AfterDelivery env call (s.step env call) ∨
      ¬ s.Succeeds env call ∧ s.step env call = s.issue env call := by
  by_cases hsucceeds : s.Succeeds env call
  · refine .inl ⟨hsucceeds, s.batches env call, [], ?_, (List.append_nil _).symm, rfl⟩
    obtain ⟨batches, hok⟩ := hsucceeds
    unfold Deployment.batches
    rw [hok]
    rintro rfl
    cases call <;> obtain ⟨_, -, hnil⟩ := Except.map_eq_ok.1 hok <;> cases hnil
  · refine .inr ⟨hsucceeds, ?_⟩
    have hnone : s.batches env call = [] := by
      unfold batches
      split
      · rename_i batches hok
        exact absurd ⟨batches, hok⟩ hsucceeds
      · rfl
    rw [step, hnone, deliverAll_nil]

/-- What deliveries keep holds all along a run of successful calls. -/
theorem Reaches.keeps {P : Deployment → Prop} (h : Reaches env admits start s) (hstart : P start)
    (hsucceeds : ∀ s call, admits s call → s.Succeeds env call)
    (hkeeps : ∀ s call s', Reaches env admits start s → admits s call →
      s.AfterDelivery env call s' → P s → P s') : P s := by
  induction h with
  | start => exact hstart
  | @step s call hrun hcall ih =>
    rcases step_cases s call with ⟨-, hafter⟩ | ⟨hfails, -⟩
    · exact hkeeps s call _ hrun hcall hafter ih
    · exact absurd (hsucceeds s call hcall) hfails

/-- A successful creation is followed by one delivery. -/
theorem exists_step_create {chainId : String} (h : s.Succeeds env (.create chainId)) :
    ∃ rules, (s.topology.createChain env chainId).result = .ok rules ∧
      s.step env (.create chainId) = (s.issue env (.create chainId)).deliver ⟨true, rules⟩ := by
  rcases step_cases s (.create chainId) with ⟨-, hafter⟩ | ⟨hfails, -⟩
  · exact afterDelivery_iff.1 hafter
  · exact absurd h hfails

/-- A successful change of classifiers is followed by two deliveries. -/
theorem exists_step_update {chainId : String} {added removed : List String}
    (h : s.Succeeds env (.update chainId added removed)) :
    ∃ update, (s.topology.updateClassifiers env chainId added removed).result = .ok update ∧
      s.step env (.update chainId added removed) =
        ((s.issue env (.update chainId added removed)).deliver ⟨false, update.delete⟩).deliver
          ⟨true, update.apply⟩ := by
  obtain ⟨_, hok⟩ := h
  obtain ⟨update, hresult, -⟩ := Except.map_eq_ok.1 hok
  refine ⟨update, hresult, ?_⟩
  unfold step batches
  simp only [Topology.answer, hresult, Except.map, deliverAll_cons, deliverAll_nil]

/-- A successful deletion is followed by one delivery. -/
theorem exists_step_delete {chainId : String} (h : s.Succeeds env (.delete chainId)) :
    ∃ rules, (s.topology.deleteChain env chainId).result = .ok rules ∧
      s.step env (.delete chainId) = (s.issue env (.delete chainId)).deliver ⟨false, rules⟩ := by
  rcases step_cases s (.delete chainId) with ⟨-, hafter⟩ | ⟨hfails, -⟩
  · exact afterDelivery_iff.1 hafter
  · exact absurd h hfails

end Deployment

end ServiceChain
