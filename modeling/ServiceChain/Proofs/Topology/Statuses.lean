import ServiceChain.Proofs.Topology.Interference
import ServiceChain.Proofs.Topology.Reports
import ServiceChain.Proofs.Topology.Twins

/-!
# Statuses of nodes

The nodes of a new chain are being built (`building_createChain`), and no call but the deletion of the
chain gives one of them another status (`Hears.heard`).  So however reports come in, a node is active
just if the last call that mentions it clears it.  That says of its rules what the call says of them, and
of the others what was said before: a node can be active while a rule of it is not
(`status_iff_last_call`).
-/

namespace ServiceChain

namespace Topology

variable {env : TopologyEnv} {t t' : Topology} {chainId : String} {path : ChainPath}
  {plan : ChainPlan} {calls : List (List RuleReport)} {call : ChainCall}

/-! ## New chains -/

theorem building_layHops {position : Nat} {hops : List Hop} :
    ∀ node ∈ (layHops env plan t position hops).nodes, node.status = .building := by
  induction hops generalizing t position with
  | nil => simp [layHops]
  | cons hop hops ih =>
    intro node hnode
    simp only [layHops, List.mem_cons] at hnode
    rcases hnode with rfl | hnode
    · obtain ⟨portDetails, hbound⟩ := exists_node_associateAll t
        (newNode env plan .serviceFunction position (hops.head?.bind Hop.nextGroup))
        hop.details
      rw [hbound]
      rfl
    · exact ih node hnode

/-- A chain that is created is live, and its nodes are being built. -/
theorem building_createChain (hlaw : env.Lawful) {rules : List FlowRule}
    (h : (t.createChain env chainId).result = .ok rules) :
    ∃ path, (t.createChain env chainId).topology.path? chainId = some path ∧
      ∀ node ∈ path.nodes, node.status = .building := by
  obtain ⟨plan, hplan, hrules⟩ := createChain_eq_ok_iff.1 h
  obtain ⟨stats, heq⟩ := createChain_of_plan hplan hrules
  obtain ⟨t₀, portDetails, reversePath, hpath⟩ := exists_laid_path env t plan
  rw [(plan_eq_ok hlaw hplan).chainId_eq] at hpath
  rw [heq]
  refine ⟨_, hpath, fun node hnode => ?_⟩
  rw [nodes_directed, List.mem_map] at hnode
  obtain ⟨node, hnode, rfl⟩ := hnode
  rcases ChainPath.mem_nodes.1 hnode with rfl | hnode | rfl
  · rfl
  · exact building_layHops node hnode
  · rfl

/-- A chain that is live is not created again. -/
theorem path?_createChain_live (hlaw : env.Lawful) (hpath : t.path? chainId = some path) :
    (t.createChain env chainId).topology.path? chainId = some path := by
  obtain ⟨stats, heq⟩ := createChain_topology env t chainId
  rw [heq]
  rcases build_cases hlaw t chainId with ⟨hsame, -⟩ | ⟨plan, hplan, -⟩
  · rw [hsame]
    exact hpath
  · rw [hplan.absent] at hpath
    cases hpath

/-! ## What the nodes of a chain hear -/

/-- Calls, none of which deletes the chain, and reports on rules, which are listed, lead from one topology
to another. -/
inductive Hears (env : TopologyEnv) (chainId : String) (t : Topology) :
    List (List RuleReport) → Topology → Prop
  | refl : Hears env chainId t [] t
  | answer {calls : List (List RuleReport)} {t' : Topology} (h : Hears env chainId t calls t')
      {call : ChainCall} (hcall : call ≠ .delete chainId) :
      Hears env chainId t calls (t'.answer env call).1
  | report {calls : List (List RuleReport)} {t' : Topology} (h : Hears env chainId t calls t')
      (reports : List RuleReport) :
      Hears env chainId t (calls ++ [reports]) (t'.recordStatuses reports).1

/-- Each node of the path has the status that the calls gave it. -/
def HasHeard (path : ChainPath) (calls : List (List RuleReport)) : Prop :=
  ∀ node ∈ path.nodes, node.status = statusAfter calls node.id

theorem Hears.reachable (hreach : Reachable env t) (h : Hears env chainId t calls t') :
    Reachable env t' := by
  induction h with
  | refl => exact hreach
  | answer _ _ ih => exact ih.answer _
  | report _ reports ih => exact ih.report reports

/-- A change of classifiers keeps the statuses of the nodes. -/
theorem Reclassified.hasHeard {update : UpdatePlan} {path' : ChainPath}
    (h : Reclassified env t chainId path update path' t') (hheard : HasHeard path calls) :
    HasHeard path' calls := by
  intro node hnode
  rcases ChainPath.mem_nodes.1 hnode with rfl | hnode | rfl
  · rw [h.head]
    exact hheard path.head path.head_mem_nodes
  · rw [h.hops] at hnode
    obtain ⟨old, hold, rfl⟩ := List.mem_map.1 hnode
    exact hheard old (ChainPath.hop_mem_nodes hold)
  · rw [h.tail]
    exact hheard path.tail (ChainPath.mem_nodes.2 (.inr (.inr rfl)))

/-- No call but its deletion gives a node of a live chain another status. -/
theorem hasHeard_answer (hlaw : env.Lawful) (hwf : WellFormed env t)
    (hcall : call ≠ .delete chainId) (hpath : t.path? chainId = some path)
    (hheard : HasHeard path calls) :
    ∃ path', (t.answer env call).1.path? chainId = some path' ∧ HasHeard path' calls := by
  by_cases hown : call.chainId = chainId
  · cases call with
    | create other =>
      obtain rfl : other = chainId := hown
      exact ⟨path, path?_createChain_live hlaw hpath, hheard⟩
    | update other added removed =>
      obtain rfl : other = chainId := hown
      show ∃ path', (t.updateClassifiers env other added removed).topology.path? other = some path' ∧ _
      rcases updateClassifiers_cases hlaw hwf other added removed with
        ⟨hsame, -⟩ | ⟨old, plan, path', hold, -, hchanged, -⟩
      · rw [hsame]
        exact ⟨path, hpath, hheard⟩
      · obtain rfl := Option.some.inj (hpath.symm.trans hold)
        exact ⟨path', hchanged.path?, hchanged.hasHeard hheard⟩
    | delete other =>
      obtain rfl : other = chainId := hown
      exact absurd rfl hcall
  · have hother := (hwf.alters_answer hlaw call).path? chainId hown
    exact ⟨path, hother.trans hpath, hheard⟩

theorem Hears.hasHeard (hlaw : env.Lawful) (hreach : Reachable env t)
    (hpath : t.path? chainId = some path) (hbuilding : ∀ node ∈ path.nodes, node.status = .building)
    (h : Hears env chainId t calls t') :
    ∃ path', t'.path? chainId = some path' ∧ HasHeard path' calls := by
  induction h with
  | refl => exact ⟨path, hpath, hbuilding⟩
  | answer hrun hcall ih =>
    obtain ⟨path', hpath', hheard⟩ := ih
    exact hasHeard_answer hlaw ((hrun.reachable hreach).wellFormed hlaw) hcall hpath' hheard
  | report _ reports ih =>
    obtain ⟨path', hpath', hheard⟩ := ih
    refine ⟨_, by rw [path?_recordStatuses, hpath', Option.map_some], fun node hnode => ?_⟩
    rw [nodes_mapNodes, List.mem_map] at hnode
    obtain ⟨old, hold, rfl⟩ := hnode
    rw [statusAfter_concat, ← hheard old hold]

/-! ## Active nodes and active rules -/

/-- A list of reports can be handed over in two calls just if the second call clears no node of an error
in the first.  However reports on a new chain come in, a node is active just if the last call that
mentions it clears it; then the latest report on a rule of it is active just if that call reports the
rule, or the latest report before was active. -/
theorem status_iff_last_call (hlaw : env.Lawful) (hreach : Reachable env t) :
    (∀ xs ys : List RuleReport,
        (t.recordStatuses (xs ++ ys)).1 = ((t.recordStatuses xs).1.recordStatuses ys).1 ↔
          ∀ chainId path, t.path? chainId = some path → ∀ node ∈ path.nodes,
            ¬ (Faults xs node.id ∧ Clears ys node.id)) ∧
      ∀ chainId created, (t.createChain env chainId).result = .ok created →
        ∀ calls t', Hears env chainId (t.createChain env chainId).topology calls t' →
          ∃ path, t'.path? chainId = some path ∧ ∀ node ∈ path.nodes,
            (node.status = .active ↔
              ∃ before last, LastOn calls node.id before last ∧ Clears last node.id) ∧
            (node.status = .active → ∀ rules, t'.flowRules env chainId = .ok rules →
              ∀ rule ∈ rules, rule.nodeId = node.id →
                (latest? calls rule.id = some .active ↔ ∀ before last,
                  LastOn calls node.id before last → (∀ report ∈ last, report.id ≠ rule.id) →
                    latest? before rule.id = some .active)) := by
  refine ⟨recordStatuses_append_iff t, fun chainId created hcreated calls t' hrun => ?_⟩
  obtain ⟨path, hpath, hbuilding⟩ := building_createChain hlaw hcreated
  have hreach' : Reachable env (t.createChain env chainId).topology := hreach.answer (.create chainId)
  obtain ⟨path', hpath', hheard⟩ := hrun.hasHeard hlaw hreach' hpath hbuilding
  refine ⟨path', hpath', fun node hnode => ?_⟩
  have hactive : node.status = .active ↔
      ∃ before last, LastOn calls node.id before last ∧ Clears last node.id := by
    rw [hheard node hnode, statusAfter_eq_active_iff]
  refine ⟨hactive, fun hstatus rules _ rule _ hrule => ?_⟩
  obtain ⟨before, last, hlast, hclears⟩ := hactive.1 hstatus
  rw [latest?_eq_active_iff hlast hclears hrule]
  constructor
  · intro h before' last' hlast'
    obtain ⟨rfl, rfl⟩ := hlast.unique hlast'
    exact h
  · exact fun h => h before last hlast

/-- A chain whose head has three rules. -/
def crossingAlone : Topology := (({} : Topology).createChain crossingEnv "z").topology

/-- One agent reported an error of the first rule of the head, then another one the rules after it. -/
def splitReports : List (List RuleReport) :=
  [[⟨"nnn:", .error⟩], [⟨"nnn:n", .active⟩, ⟨"nnn:nn", .active⟩]]

def crossingSplit : Topology :=
  splitReports.foldl (fun t reports => (t.recordStatuses reports).1) crossingAlone

/-- The head is active, and the first rule of it has a report of its own. -/
theorem crossingSplit_rule : ∃ path rules, crossingSplit.path? "z" = some path ∧
    crossingSplit.flowRules crossingEnv "z" = .ok rules ∧ path.head.status = .active ∧
    ∃ rule ∈ rules, rule.nodeId = path.head.id ∧ rule.id = "nnn:" := by
  have hhead : (crossingSplit.path? "z").map (fun path => (path.head.id, path.head.status)) =
      some ("nnn", .active) := by decide +kernel
  have hrule : (crossingSplit.flowRules crossingEnv "z").toOption.any
      (·.any fun rule => rule.nodeId = "nnn" ∧ rule.id = "nnn:") := by decide +kernel
  obtain ⟨path, hpath, hhead⟩ := Option.map_eq_some_iff.1 hhead
  obtain ⟨hid, hstatus⟩ := Prod.mk.inj hhead
  cases hrules : crossingSplit.flowRules crossingEnv "z" with
  | error e =>
    rw [hrules] at hrule
    cases hrule
  | ok rules =>
    rw [hrules] at hrule
    obtain ⟨rule, hmem, hrule⟩ := List.any_eq_true.1 hrule
    obtain ⟨hnode, hrule⟩ := of_decide_eq_true hrule
    exact ⟨path, rules, hpath, rfl, hstatus, rule, hmem, hnode.trans hid.symm, hrule⟩

/-- What the reports on the first rule come to. -/
theorem crossingSplit_status : ∃ path rules, crossingSplit.path? "z" = some path ∧
    crossingSplit.flowRules crossingEnv "z" = .ok rules ∧ path.head.status = .active ∧
    ∃ rule ∈ rules, rule.nodeId = path.head.id ∧
      (latest? splitReports rule.id = some .active ↔ ∀ before last,
        LastOn splitReports path.head.id before last → (∀ report ∈ last, report.id ≠ rule.id) →
          latest? before rule.id = some .active) := by
  obtain ⟨path, rules, hpath, hrules, hstatus, rule, hmem, hnode, -⟩ := crossingSplit_rule
  have hcreated : (({} : Topology).createChain crossingEnv "z").result.toOption.isSome := by
    decide +kernel
  have hrun : Hears crossingEnv "z" crossingAlone splitReports crossingSplit :=
    (Hears.refl.report _).report _
  cases hresult : (({} : Topology).createChain crossingEnv "z").result with
  | error e =>
    rw [hresult] at hcreated
    cases hcreated
  | ok created =>
    obtain ⟨path', hpath', hnodes⟩ := (status_iff_last_call crossingEnv_lawful Reachable.empty).2
      "z" created hresult splitReports crossingSplit hrun
    obtain rfl := Option.some.inj (hpath.symm.trans hpath')
    have hhead := (hnodes path.head path.head_mem_nodes).2 hstatus rules hrules rule hmem hnode
    exact ⟨path, rules, hpath, hrules, hstatus, rule, hmem, hnode, hhead⟩

/-- The head is active although the latest report on a rule of it is of an error, and one call with the
same reports leaves another topology. -/
theorem crossingSplit_forgets :
    (∃ path rules, crossingSplit.path? "z" = some path ∧
      crossingSplit.flowRules crossingEnv "z" = .ok rules ∧ path.head.status = .active ∧
      ∃ rule ∈ rules, rule.nodeId = path.head.id ∧ latest? splitReports rule.id = some .error) ∧
      (crossingAlone.recordStatuses splitReports.flatten).1 ≠ crossingSplit := by
  constructor
  · obtain ⟨path, rules, hpath, hrules, hstatus, rule, hmem, hnode, hrule⟩ := crossingSplit_rule
    refine ⟨path, rules, hpath, hrules, hstatus, rule, hmem, hnode, ?_⟩
    rw [hrule]
    decide +kernel
  · intro h
    have hhead : ((crossingAlone.recordStatuses splitReports.flatten).1.path? "z").map
        (·.head.status) ≠ (crossingSplit.path? "z").map (·.head.status) := by decide +kernel
    exact hhead (by rw [h])

end Topology

end ServiceChain
