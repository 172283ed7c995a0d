import ServiceChain.Proofs.Topology.Twins

/-!
# Creating a chain with other classifiers

Where the record of a chain lists the classifiers that a live chain has now, the chain can be planned anew
over the same hops (`exists_plan_reclassified`), and its rules can be built again
(`exists_rules_reclassified`).
-/

namespace ServiceChain

/-- The records with other classifiers for a chain. -/
def Store.reclassified (store : Store) (chainId : String) (classifiers : List String) : Store :=
  { store with
    chain? := fun id =>
      if id = chainId then (store.chain? id).map ({ · with classifiers }) else store.chain? id }

/-- Other classifiers are recorded for a chain, and other ids are given. -/
def TopologyEnv.reclassified (env : TopologyEnv) (chainId : String) (classifiers : List String)
    (newId : Nat → String) : TopologyEnv :=
  { env with store := env.store.reclassified chainId classifiers, newId }

theorem TopologyEnv.samePorts_reclassified (env : TopologyEnv) (chainId : String)
    (classifiers : List String) (newId : Nat → String) :
    env.SamePorts (env.reclassified chainId classifiers newId) := ⟨rfl, rfl⟩

theorem TopologyEnv.Lawful.reclassified {env : TopologyEnv} (h : env.Lawful) (chainId : String)
    (classifiers : List String) : (env.reclassified chainId classifiers env.newId).Lawful :=
  { h with
    chain_id := fun id chain hchain => by
      simp only [TopologyEnv.reclassified, Store.reclassified] at hchain
      split at hchain
      · obtain ⟨old, hold, rfl⟩ := Option.map_eq_some_iff.1 hchain
        exact h.chain_id id old hold
      · exact h.chain_id id chain hchain }

namespace Topology

variable {env env' : TopologyEnv} {t t' : Topology} {chainId : String} {path path' : ChainPath}
  {plan plan' : ChainPlan} {rules : List FlowRule} {newId : Nat → String}

theorem exists_endDetails {next : Nat} {ends : List ChainEnd}
    (h : ∀ e ∈ ends, ∃ binding, env.store.binding? e.port = some binding) :
    ∃ found, t.endDetails env next ends = .ok found := by
  induction ends generalizing next with
  | nil => exact ⟨_, rfl⟩
  | cons e ends ih =>
    obtain ⟨⟨binding, hbinding⟩, hends⟩ := List.forall_mem_cons.1 h
    rw [endDetails]
    cases t.endDetail? e with
    | some d =>
      obtain ⟨found, hfound⟩ : ∃ found, t.endDetails env next ends = .ok found := ih hends
      exact ⟨_, Except.bind_eq_ok.2 ⟨found, hfound, rfl⟩⟩
    | none =>
      obtain ⟨found, hfound⟩ : ∃ found, t.endDetails env (next + 1) ends = .ok found := ih hends
      exact ⟨_, Except.bind_eq_ok.2
        ⟨binding, bindingOf_eq_ok.2 hbinding, Except.bind_eq_ok.2 ⟨found, hfound, rfl⟩⟩⟩

/-! ## A plan with other classifiers -/

theorem loadClassifiers_of_stored {fcs : List FlowClassifier}
    (h : ∀ fc ∈ fcs, env.store.classifier? fc.id = some fc ∧ fc.validate env.policy = .ok ()) :
    loadClassifiers env (fcs.map FlowClassifier.id) = .ok fcs := by
  rw [loadClassifiers, Except.mapM_eq_ok, List.forall₂_map_left_iff, List.forall₂_same]
  exact fun fc hfc => loadClassifier_eq_ok.2 (h fc hfc)

/-- A chain that was planned once can be planned with the classifiers of a live path, over the same hops. -/
theorem exists_plan_reclassified {t₀ : Topology} (hplan : t₀.plan env chainId = .ok plan)
    (hgenuine : Genuine env t.issued t) (hshaped : path.Shaped env t)
    (hstored : ∀ fc ∈ path.classifiers, env.store.classifier? fc.id = some fc)
    (newId : Nat → String) :
    ∃ plan', ({} : Topology).plan
        (env.reclassified chainId (path.classifiers.map FlowClassifier.id) newId) chainId = .ok plan' ∧
      plan'.hops = plan.hops ∧ plan'.classifiers = path.classifiers := by
  obtain ⟨-, chain, hchain, hlength, -, hhops, hsubnets, -⟩ := plan_eq_ok_iff.1 hplan
  generalize henv : env.reclassified chainId (path.classifiers.map FlowClassifier.id) newId = env'
  have hbound : ∀ e ∈ ChainEnd.ofClassifiers path.classifiers,
      ∃ binding, env'.store.binding? e.port = some binding := by
    intro e he
    obtain ⟨id, -, d, hd, hof⟩ := hshaped.head_end e he
    obtain ⟨binding, hbinding, -⟩ := hgenuine.exists_binding hd hof
    rw [← henv]
    exact ⟨binding, hbinding⟩
  obtain ⟨⟨ends, nextId⟩, hends⟩ : ∃ found, ({} : Topology).endDetails env' 0
      (ChainEnd.ofClassifiers path.classifiers) = .ok found := exists_endDetails hbound
  refine ⟨⟨chain.id, chain.nsp, path.classifiers, plan.hops, ends, nextId⟩, plan_eq_ok_iff.2
    ⟨by simp [path?], { chain with classifiers := path.classifiers.map FlowClassifier.id }, ?_, hlength,
      loadClassifiers_of_stored fun fc hfc => ?_, ?_, hsubnets, hends, rfl, rfl⟩, rfl, rfl⟩
  · rw [← henv]
    simp [TopologyEnv.reclassified, Store.reclassified, hchain]
  · rw [← henv]
    exact ⟨hstored fc hfc, hshaped.valid fc hfc⟩
  · rw [← henv]
    exact hhops

/-! ## Creating the chain -/

theorem exists_path_lay (hlaw : env.Lawful) (hwf : WellFormed env t)
    (hplan : Planned env t chainId plan) :
    ∃ path, (t.lay env plan).1.path? chainId = some path ∧
      path.classifiers = plan.classifiers ∧ path.Follows plan.hops := by
  obtain ⟨path, hlaid⟩ := lay_laidOut hlaw hwf hplan
  obtain rfl := hplan.chainId_eq
  obtain ⟨path', hpath', hfollows⟩ := lay_follows env t plan
  have hpath : (t.lay env plan).1.path? plan.chainId = some path := by
    rw [hlaid.path?, if_pos rfl]
  obtain rfl := Option.some.inj (hpath.symm.trans hpath')
  exact ⟨path, hpath, hlaid.classifiers, hfollows⟩

/-- A chain that is created has the classifiers of its plan, which are recorded, and follows its hops. -/
theorem exists_plan_of_createChain (hlaw : env.Lawful) (hwf : WellFormed env t)
    (h : (t.createChain env chainId).result = .ok rules) :
    ∃ plan path, t.plan env chainId = .ok plan ∧
      (t.createChain env chainId).topology.path? chainId = some path ∧
        path.classifiers = plan.classifiers ∧ path.Follows plan.hops ∧
          ∀ fc ∈ path.classifiers, ∃ id, env.store.classifier? id = some fc := by
  obtain ⟨plan, hplan, hrules⟩ := createChain_eq_ok_iff.1 h
  obtain ⟨stats, htopology⟩ := createChain_of_plan hplan hrules
  obtain ⟨path, hpath, hclassifiers, hfollows⟩ := exists_path_lay hlaw hwf (plan_eq_ok hlaw hplan)
  obtain ⟨-, chain, -, -, hloaded, -⟩ := plan_eq_ok_iff.1 hplan
  refine ⟨plan, path, hplan, by rw [htopology]; exact hpath, hclassifiers, hfollows, fun fc hfc => ?_⟩
  rw [hclassifiers] at hfc
  obtain ⟨id, -, hload⟩ := Except.exists_of_mem_mapM hloaded hfc
  exact ⟨id, (loadClassifier_eq_ok.1 hload).1⟩

/-- Where a live path has rules, so has the chain with the classifiers of the path. -/
theorem exists_rules_reclassified {t₀ : Topology} (hlaw : env.Lawful)
    (hlaw' : (env.reclassified chainId (path.classifiers.map FlowClassifier.id) newId).Lawful)
    (hvxlan : env.store.HasNoVxlan) (hplan : t₀.plan env chainId = .ok plan) (hwf : WellFormed env t)
    (hpath : t.path? chainId = some path) (hfollows : path.Follows plan.hops)
    (hstored : ∀ fc ∈ path.classifiers, env.store.classifier? fc.id = some fc)
    (hrules : t.flowRules env chainId = .ok rules) :
    ∃ rules', (({} : Topology).createChain
      (env.reclassified chainId (path.classifiers.map FlowClassifier.id) newId) chainId).result =
        .ok rules' := by
  have hshaped := hwf.shaped _ _ hpath
  obtain ⟨plan', hplan', hhops, hclassifiers⟩ :=
    exists_plan_reclassified hplan hwf.genuine hshaped hstored newId
  have hports := env.samePorts_reclassified chainId (path.classifiers.map FlowClassifier.id) newId
  generalize env.reclassified chainId (path.classifiers.map FlowClassifier.id) newId = env'
    at hlaw' hplan' hports ⊢
  have hempty := wellFormed_empty env'
  have hplanned := plan_eq_ok hlaw' hplan'
  have hwf' := (hempty.alters_lay hlaw' hplanned).wellFormed
  obtain ⟨path', hpath', hclassifiers', hfollows'⟩ := exists_path_lay hlaw' hempty hplanned
  rw [hhops] at hfollows'
  have htwins : Twins env env' t (({} : Topology).lay env' plan').1 path path' plan.hops :=
    { ports := hports
      genuine := hwf.genuine
      genuine' := hwf'.genuine
      shaped := hshaped
      shaped' := hwf'.shaped _ _ hpath'
      classifiers := hclassifiers'.trans hclassifiers
      follows := hfollows
      follows' := hfollows' }
  rw [flowRules_eq_pathRules hpath] at hrules
  obtain ⟨rules', hrules'⟩ := exists_pathRules_iff.2
    (htwins.usable hlaw hvxlan (exists_pathRules_iff.1 ⟨rules, hrules⟩))
  refine ⟨rules', createChain_eq_ok_iff.2 ⟨plan', hplan', ?_⟩⟩
  rw [hplanned.chainId_eq]
  exact (flowRules_eq_pathRules hpath').trans hrules'

end Topology

end ServiceChain
