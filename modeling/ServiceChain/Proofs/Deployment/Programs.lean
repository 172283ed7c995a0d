import ServiceChain.Proofs.Deployment.Flows

/-!
# What a call answers is in force

Every rule of a batch that a call answers compiles, to be installed or to be removed, on any bridge that has
the ports of the store (`Sound.programmable_of_answer`).  On such a bridge nothing else can go wrong, so an
agent reports each of them active, whichever of them it gets and whatever its bridge held before
(`answered_rules_active`).
-/

namespace ServiceChain

namespace Deployment

open ServiceChain.Topology

variable {env : TopologyEnv} {s : Deployment} {t : Topology} {agent : Agent} {call : ChainCall}
  {batches : List RuleBatch} {batch : RuleBatch}

/-- Both batches of a change of classifiers compile: what is withdrawn are details and classifiers of the
chain as it was, what is applied are the rules of the chain as it is now. -/
theorem Sound.programmable_of_update (hlaw : env.Lawful) (h : s.Sound env) {chainId : String}
    {added removed : List String} {update : ClassifierUpdate}
    (hresult : (s.topology.updateClassifiers env chainId added removed).result = .ok update) :
    (∀ rule ∈ update.delete, rule.Programmable s.agent.bridge.ports) ∧
      ∀ rule ∈ update.apply, rule.Programmable s.agent.bridge.ports := by
  rcases updateClassifiers_cases hlaw h.wellFormed chainId added removed with
    ⟨-, e, he⟩ | ⟨path, plan, path', hpath, hplan, -, hupdate⟩
  · cases hresult.symm.trans he
  obtain ⟨hdelete, happly⟩ := hupdate update hresult
  refine ⟨?_, ?_⟩
  · rw [hdelete]
    exact h.programmable_of_updatePlanned hpath hplan
  · have hissued := h.issue hlaw (.update chainId added removed)
    exact hissued.programmable_of_flowRules happly

/-- The rules of every batch that a call answers compile. -/
theorem Sound.programmable_of_answer (hlaw : env.Lawful) (h : s.Sound env)
    (hanswer : (s.topology.answer env call).2 = .ok batches) (hbatch : batch ∈ batches) :
    ∀ rule ∈ batch.rules, rule.Programmable s.agent.bridge.ports := by
  cases call with
  | create chainId =>
    obtain ⟨rules, hresult, rfl⟩ := Except.map_eq_ok.1 hanswer
    obtain rfl := List.mem_singleton.1 hbatch
    have hissued := h.issue hlaw (.create chainId)
    exact hissued.programmable_of_flowRules (flowRules_createChain hlaw hresult)
  | update chainId added removed =>
    obtain ⟨update, hresult, rfl⟩ := Except.map_eq_ok.1 hanswer
    obtain ⟨hdelete, happly⟩ := h.programmable_of_update hlaw hresult
    simp only [List.mem_cons, List.not_mem_nil, or_false] at hbatch
    rcases hbatch with rfl | rfl
    · exact hdelete
    · exact happly
  | delete chainId =>
    obtain ⟨rules, hresult, rfl⟩ := Except.map_eq_ok.1 hanswer
    obtain rfl := List.mem_singleton.1 hbatch
    obtain ⟨path, hpath, hrules⟩ := exists_path_of_deleteChain hresult
    exact h.programmable_of_pathRemoval hpath hrules

/-- Whatever calls and reports came before, an agent that gets rules of a batch that a call answers reports
every one of them active: those of an installation, of a change of classifiers and of a deletion.  Its
bridge has the ports of the store and injects no failures; which entries and groups it holds does not
matter. -/
theorem answered_rules_active (hlaw : env.Lawful) (hreach : Topology.Reachable env t)
    (hanswer : (t.answer env call).2 = .ok batches) (hbatch : batch ∈ batches)
    (hattached : env.store.IsAttached agent.bridge.ports) (hfailing : agent.bridge.failing = [])
    {rules : List FlowRule} (hrules : ∀ rule ∈ rules, rule ∈ batch.rules) :
    (agent.applyAll batch.install rules).reports = rules.map fun rule => ⟨rule.id, .active⟩ := by
  have hsound : ({ topology := t, agent := agent } : Deployment).Sound env :=
    ⟨hreach.wellFormed hlaw, hfailing, hattached⟩
  have hprogrammable := hsound.programmable_of_answer hlaw hanswer hbatch
  exact Agent.reports_applyAll hfailing batch.install fun rule hrule =>
    hprogrammable rule (hrules rule hrule)

/-- An agent that has only prepared its bridge gets the removals of a chain of which it never installed a
rule.  The first takes down a group that is not on the bridge. -/
theorem sampleStart_removes_unknown : ∃ rules,
    (sampleChanged.topology.answer sampleEnv (.delete "y")).2 = .ok [⟨false, rules⟩] ∧
      rules.map (·.releases.isSome) = [true, false, false] ∧
      (sampleStart.agent.deleteRules rules).reports = rules.map fun rule => ⟨rule.id, .active⟩ := by
  have hreach : Topology.Reachable sampleEnv sampleChanged.topology := by
    simp only [sampleChanged, step_topology]
    exact ((Topology.Reachable.empty.answer _).answer _).answer _
  have hreleases : (sampleChanged.topology.deleteChain sampleEnv "y").result.toOption.map
      (List.map (·.releases.isSome)) = some [true, false, false] := by
    decide +kernel
  cases hresult : (sampleChanged.topology.deleteChain sampleEnv "y").result with
  | error e => simp [hresult, Except.toOption] at hreleases
  | ok rules =>
    have hanswer : (sampleChanged.topology.answer sampleEnv (.delete "y")).2 =
        .ok [⟨false, rules⟩] := by
      simp only [answer, hresult, Except.map]
    rw [hresult] at hreleases
    exact ⟨rules, hanswer, Option.some.inj hreleases,
      answered_rules_active sampleEnv_lawful hreach hanswer (List.mem_singleton_self _)
        sampleStart_fresh.attached sampleStart_fresh.failing fun _ hrule => hrule⟩

end Deployment

end ServiceChain
