import ServiceChain.Proofs.Topology.Undoing

/-!
# Chains do not interfere

The rules of a chain are built from the details of its nodes and the tags of their networks, which it may
have in common with other chains.  A call about one chain alters no other (`WellFormed.alters_answer`),
and reports on rules change nothing that a rule is built from (`flowRules_recordStatuses`).  So however a
topology goes on, a chain that no call is about has the rules that it had (`flowRules_of_evolves`).
-/

namespace ServiceChain

namespace Topology

variable {env : TopologyEnv} {admits : Topology → ChainCall → Prop} {t t' : Topology}
  {chainId other : String} {rules : List FlowRule}

/-! ## Runs -/

/-- Calls that a condition admits, and reports on rules, lead from one topology to another. -/
inductive Evolves (env : TopologyEnv) (admits : Topology → ChainCall → Prop) (t : Topology) :
    Topology → Prop
  | refl : Evolves env admits t t
  | answer {t' : Topology} (h : Evolves env admits t t') {call : ChainCall}
      (hadmits : admits t' call) : Evolves env admits t (t'.answer env call).1
  | report {t' : Topology} (h : Evolves env admits t t') (reports : List RuleReport) :
      Evolves env admits t (t'.recordStatuses reports).1

theorem Reachable.evolves (hreach : Reachable env t) (h : Evolves env admits t t') :
    Reachable env t' := by
  induction h with
  | refl => exact hreach
  | answer _ _ ih => exact ih.answer _
  | report _ reports ih => exact ih.report reports

/-! ## Steps -/

/-- The status of a node does not matter to its rules. -/
theorem pathRules_mapNodes_reportTo (outcomes : Std.ExtTreeMap String Bool) (path : ChainPath) :
    t.pathRules env (path.mapNodes (reportTo outcomes)) = t.pathRules env path := by
  unfold pathRules
  rw [nodes_mapNodes, List.mapM_map]
  rfl

/-- Reports leave every chain with its rules. -/
theorem flowRules_recordStatuses (t : Topology) (reports : List RuleReport) (chainId : String) :
    (t.recordStatuses reports).1.flowRules env chainId = t.flowRules env chainId := by
  obtain ⟨outcomes, hpath⟩ := exists_reported t reports
  unfold flowRules
  rw [hpath]
  cases t.path? chainId with
  | none => rfl
  | some path => exact pathRules_mapNodes_reportTo outcomes path

/-- A call leaves every chain but its own with its rules. -/
theorem flowRules_answer (hlaw : env.Lawful) (hreach : Reachable env t) {call : ChainCall}
    (hne : call.chainId ≠ other) (hrules : t.flowRules env other = .ok rules) :
    (t.answer env call).1.flowRules env other = .ok rules :=
  ((hreach.wellFormed hlaw).alters_answer hlaw call).flowRules hne hrules

/-- A chain has the same rules, in the same order, as long as no call is about it. -/
theorem flowRules_of_evolves (hlaw : env.Lawful) (hreach : Reachable env t)
    (h : Evolves env (fun _ call => call.chainId ≠ other) t t')
    (hrules : t.flowRules env other = .ok rules) : t'.flowRules env other = .ok rules := by
  induction h with
  | refl => exact hrules
  | answer hrun hne ih => exact flowRules_answer hlaw (hreach.evolves hrun) hne ih
  | report _ reports ih => rw [flowRules_recordStatuses, ih]

/-! ## A sample -/

/-- Besides the chains of `tunnelChains`, one through the same service function from the port of the first
and from a port on a network with a VLAN id. -/
def crossingChains : List PortChain :=
  { id := "z", nsp := 3, groups := ["g1"], classifiers := ["f", "k"] } :: tunnelChains

def crossingClassifiers : List FlowClassifier :=
  { id := "k", logicalSource := some "v", logicalDestination := some "s" } :: tunnelClassifiers

def crossingEnv : TopologyEnv :=
  { tunnelEnv with
    store :=
      { tunnelEnv.store with
        chain? := fun id => crossingChains.find? (·.id == id)
        classifier? := fun id => crossingClassifiers.find? (·.id == id)
        binding? := fun port =>
          (tunnelBinding "v" .vlan (some 7) 5 :: tunnelBindings).find? (·.portId == port) } }

theorem crossingEnv_lawful : crossingEnv.Lawful :=
  ⟨fun _ _ => PortChain.id_eq_of_find?, tunnelEnv_lawful.pair_id, tunnelEnv_lawful.newId_injective,
    tunnelEnv_lawful.newId_ne_pair⟩

/-- One chain is live. -/
def crossingStart : Topology := (answer crossingEnv {} (.create "x")).1

theorem crossingStart_reachable : Reachable crossingEnv crossingStart := Reachable.empty.answer _

/-- Beside it a second one was refused, and a third one created and changed. -/
def crossingMiddle : Topology :=
  (((crossingStart.answer crossingEnv (.create "y")).1.answer crossingEnv (.create "z")).1.answer
    crossingEnv (.update "z" [] ["f"])).1

/-- An agent reported on a rule of the first chain, and the third one was deleted. -/
def crossingEnd : Topology :=
  ((crossingMiddle.recordStatuses [⟨"nn:p", .active⟩]).1.answer crossingEnv (.delete "z")).1

theorem crossingEnd_keeps_rules : ∃ rules, rules.length = 2 ∧
    crossingStart.flowRules crossingEnv "x" = .ok rules ∧
      crossingEnd.flowRules crossingEnv "x" = .ok rules := by
  have hlength : (crossingStart.flowRules crossingEnv "x").toOption.map List.length = some 2 := by
    decide +kernel
  have hrun : Evolves crossingEnv (fun _ call => call.chainId ≠ "x") crossingStart crossingEnd :=
    ((((Evolves.refl.answer (by decide)).answer (by decide)).answer (by decide)).report _).answer
      (by decide)
  cases hrules : crossingStart.flowRules crossingEnv "x" with
  | error e => simp [hrules, Except.toOption] at hlength
  | ok rules =>
    refine ⟨rules, by simpa [hrules, Except.toOption] using hlength, rfl, ?_⟩
    exact flowRules_of_evolves crossingEnv_lawful crossingStart_reachable hrun hrules

end Topology

end ServiceChain
