import ServiceChain.Proofs.Agent.Batch
import ServiceChain.Proofs.Agent.Restart

/-!
# Doing the same again

An operation leaves the entry of a key and the group of an id as they are, or makes of them the same
whatever they were (`SetsOrKeeps`).  That carries over to any run of operations, however often it writes
one key and whatever it removes at once, so a run leaves a bridge on which it has nothing left to do
(`Bridge.Replayed.again`).  What a rule compiles to depends on the host and the ports, which no run
changes, so on a bridge without injected failures a second batch of the same rules is the same run
(`applyAll_again`).
-/

namespace ServiceChain

namespace BridgeOp

/-! ## Setting or keeping -/

/-- A function that keeps whatever it is given, or gives one result. -/
def SetsOrKeeps {α : Type} (f : α → α) : Prop := (∀ v, f v = v) ∨ ∃ result, ∀ v, f v = result

section SetsOrKeeps

variable {α β : Type} {f g : α → α}

theorem SetsOrKeeps.idem (h : SetsOrKeeps f) (v : α) : f (f v) = f v := by
  rcases h with hkeeps | ⟨result, hsets⟩
  · rw [hkeeps]
  · rw [hsets, hsets]

/-- The later function tells the result, if it sets one. -/
theorem SetsOrKeeps.comp (hg : SetsOrKeeps g) (hf : SetsOrKeeps f) :
    SetsOrKeeps fun v => g (f v) := by
  rcases hg with hkeeps | ⟨result, hsets⟩
  · rcases hf with hfirst | ⟨result, hfirst⟩
    · exact .inl fun v => (hkeeps (f v)).trans (hfirst v)
    · exact .inr ⟨result, fun v => (hkeeps (f v)).trans (hfirst v)⟩
  · exact .inr ⟨result, fun v => hsets (f v)⟩

theorem setsOrKeeps_foldl {act : α → β → α} (h : ∀ b, SetsOrKeeps (act · b)) (bs : List β) :
    SetsOrKeeps fun v => bs.foldl act v := by
  induction bs with
  | nil => exact .inl fun _ => rfl
  | cons b bs ih => exact ih.comp (h b)

end SetsOrKeeps

/-! ## Runs -/

theorem setsOrKeeps_onEntry (key : FlowKey) (op : BridgeOp) :
    SetsOrKeeps fun v => op.onEntry key v := by
  by_cases hadds : op.adds key
  · obtain ⟨entry, rfl, hkey⟩ := hadds
    exact .inr ⟨some entry.actions, fun _ => if_pos hkey⟩
  · simp only [onEntry_of_not_adds hadds]
    cases op.removes key with
    | true => exact .inr ⟨none, fun _ => rfl⟩
    | false => exact .inl fun _ => rfl

theorem setsOrKeeps_onGroup (id : UInt32) (op : BridgeOp) :
    SetsOrKeeps fun v => op.onGroup id v := by
  cases op with
  | addFlow entry => exact .inl fun _ => rfl
  | deleteFlows table priority pattern => exact .inl fun _ => rfl
  | ensureGroup spec =>
    by_cases hid : spec.id = id
    · exact .inr ⟨some spec, fun _ => if_pos hid⟩
    · exact .inl fun _ => if_neg hid
  | deleteGroup gone =>
    by_cases hid : gone = id
    · exact .inr ⟨none, fun _ => if_pos hid⟩
    · exact .inl fun _ => if_neg hid
  | deleteAllGroups => exact .inr ⟨none, fun _ => rfl⟩

theorem entryAfter_entryAfter (ops : List BridgeOp) (key : FlowKey)
    (v : Option (List FlowAction)) :
    entryAfter ops key (entryAfter ops key v) = entryAfter ops key v :=
  (setsOrKeeps_foldl (setsOrKeeps_onEntry key) ops).idem v

theorem groupAfter_groupAfter (ops : List BridgeOp) (id : UInt32) (v : Option GroupSpec) :
    groupAfter ops id (groupAfter ops id v) = groupAfter ops id v :=
  (setsOrKeeps_foldl (setsOrKeeps_onGroup id) ops).idem v

end BridgeOp

/-- A second run of the same operations leaves the bridge as the first did. -/
theorem Bridge.Replayed.again {b next last : Bridge} {ops : List BridgeOp}
    (h : b.Replayed ops next) (h' : next.Replayed ops last) : last = next := by
  refine ext_tables h'.ports h'.failing (fun key => ?_) fun id => ?_
  · rw [h'.flow, h.flow, BridgeOp.entryAfter_entryAfter]
  · rw [h'.group, h.group, BridgeOp.groupAfter_groupAfter]

/-! ## Agents -/

namespace Agent

variable {agent : Agent}

/-- A batch done again right away is reported as before, and leaves the bridge as it is. -/
theorem applyAll_again (hfailing : agent.bridge.failing = []) (install : Bool)
    (rules : List FlowRule) :
    let first := agent.applyAll install rules
    let second := first.agent.applyAll install rules
    second.reports = first.reports ∧ second.agent.bridge = first.agent.bridge := by
  obtain ⟨hctx, hreplay⟩ := applyAll_replayed hfailing install rules
  have hfailing' := hreplay.failing.trans hfailing
  constructor
  · rw [reports_applyAll_eq hfailing', reports_applyAll_eq hfailing]
    simp only [compileStatus_congr hctx hreplay.ports]
  · have hreplay' := (applyAll_replayed hfailing' install rules).2
    rw [batchOps_congr hctx hreplay.ports] at hreplay'
    exact hreplay.again hreplay'

/-- A rule that is installed or removed once more right away has the status that it had, and leaves the
bridge as it is. -/
theorem apply_repeated (hfailing : agent.bridge.failing = []) (rule : FlowRule) (install : Bool) :
    let first := agent.apply rule install
    let second := first.agent.apply rule install
    second.status = first.status ∧ second.agent.bridge = first.agent.bridge := by
  obtain ⟨hreports, hbridge⟩ := applyAll_again hfailing install [rule]
  refine ⟨?_, hbridge⟩
  injection hreports with hreport
  injection hreport

/-- The sample has its group ensured on the way there and on the way back, and all the same a second
installation changes nothing. -/
theorem sampleFresh_repeats :
    (∃ ops, sampleFresh.ruleOps FlowRule.sampleHop true = .ok ops ∧
        (ops.filter (·.isGroupOp)).length = 2) ∧
      sampleFresh.bridge.failing = [] ∧
      (let first := sampleFresh.apply FlowRule.sampleHop true
       let second := first.agent.apply FlowRule.sampleHop true
       second.status = first.status ∧ second.agent.bridge = first.agent.bridge) := by
  obtain ⟨ops, hops⟩ : ∃ ops, sampleFresh.ruleOps FlowRule.sampleHop true = .ok ops :=
    Except.exists_of_isOk (by decide +kernel)
  have hensured : (sampleFresh.ruleOps FlowRule.sampleHop true).toOption.map
      (fun ops => (ops.filter (·.isGroupOp)).length) = some 2 := by decide +kernel
  rw [hops] at hensured
  exact ⟨⟨ops, hops, Option.some.inj hensured⟩, rfl, apply_repeated rfl FlowRule.sampleHop true⟩

end Agent

end ServiceChain
