import ServiceChain.Proofs.Deployment.Flows

/-!
# What a deletion takes from other chains

The deletion of a chain takes an entry that another chain installs exactly if it takes its key for a port
detail for which no other chain installs it (`deletion_spares_others`); two groups with a common member are
a case where that happens (`not_deletion_keeps_others`).  So an entry that no deletion of a run takes is
there as long as a live chain installs it (`Serves`).
-/

namespace ServiceChain

namespace Deployment

open ServiceChain.Topology

variable {env : TopologyEnv} {start s s' : Deployment} {call : ChainCall} {chainId other : String}
  {rules : List FlowRule} {key : FlowKey} {t' : Topology}

/-- The call creates or deletes a chain, and is successful. -/
def Builds (env : TopologyEnv) (s : Deployment) (call : ChainCall) : Prop :=
  s.Succeeds env call ∧ ∀ chainId added removed, call ≠ .update chainId added removed

/-- The call deletes a chain, and that takes the key. -/
def TakenBy (env : TopologyEnv) (s : Deployment) (call : ChainCall) (key : FlowKey) : Prop :=
  ∃ chainId, call = .delete chainId ∧ s.Takes env chainId key

/-- The entry of a key is on the bridge if the rules of a live chain install it. -/
structure Serves (env : TopologyEnv) (s : Deployment) (key : FlowKey) : Prop
    extends Sound env s where
  ruled : Ruled env s.topology
  present : s.IsLiveKey env key → (s.agent.bridge.flow? key).isSome

/-- Another chain has the same keys after a chain was altered. -/
theorem isKeyOf_of_alters (hruled : Ruled env s.topology) (halters : Alters env s.topology chainId t')
    (hne : chainId ≠ other) :
    ({ s with topology := t' } : Deployment).IsKeyOf env other key ↔ s.IsKeyOf env other key := by
  constructor
  · rintro ⟨rules, rule, hrules, hrule, hinstalls⟩
    obtain ⟨path, hpath, -⟩ := exists_path_of_flowRules hrules
    obtain ⟨rules', hrules'⟩ := hruled other path ((halters.path? other hne).symm.trans hpath)
    obtain rfl := Except.ok.inj (hrules.symm.trans (halters.flowRules hne hrules'))
    exact ⟨rules, rule, hrules', hrule, hinstalls⟩
  · rintro ⟨rules, rule, hrules, hrule, hinstalls⟩
    exact ⟨rules, rule, halters.flowRules hne hrules, hrule, hinstalls⟩

theorem IsKeyOf.dlType (h : s.IsKeyOf env chainId key) :
    key.pattern.dlType = some EtherType.ipv4Value := by
  obtain ⟨_, _, _, _, hinstalls⟩ := h
  exact hinstalls.dlType

/-! ## Deletions -/

/-- A chain that is live after a deletion was so before, with the same keys. -/
theorem IsKeyOf.before_delete (h : s.Sound env) (hruled : Ruled env s.topology)
    (hresult : (s.topology.deleteChain env chainId).result = .ok rules)
    (hkey : (s.issue env (.delete chainId)).IsKeyOf env other key) :
    chainId ≠ other ∧ s.IsKeyOf env other key := by
  have hne : chainId ≠ other := by
    rintro rfl
    obtain ⟨_, _, hrules, -, -⟩ := hkey
    obtain ⟨path, hpath, -⟩ := exists_path_of_flowRules hrules
    cases (path?_deleteChain hresult).symm.trans hpath
  exact ⟨hne, (isKeyOf_of_alters hruled (h.wellFormed.alters_deleteChain chainId) hne).1 hkey⟩

/-! ## Runs -/

theorem Serves.after_create (hlaw : env.Lawful) (h : s.Serves env key)
    (hresult : (s.topology.createChain env chainId).result = .ok rules) :
    ((s.issue env (.create chainId)).deliver ⟨true, rules⟩).Serves env key := by
  have hsame := sameGround_deliver (s := s.issue env (.create chainId)) h.failing ⟨true, rules⟩
  refine
    { toSound := (h.toSound.issue hlaw (.create chainId)).of_sameGround hsame
      ruled := ruled_createChain hlaw h.wellFormed h.ruled chainId
      present := fun hlive => ?_ }
  rw [hsame.isLiveKey_iff] at hlive
  obtain ⟨other, hkey⟩ := hlive
  refine (Agent.isSome_flow_updateRules h.failing).2 ?_
  by_cases hne : chainId = other
  · -- the keys of the chain itself are installed now
    subst hne
    obtain ⟨rules', rule, hrules, hrule, hinstalls⟩ := hkey
    obtain rfl := Except.ok.inj ((flowRules_createChain hlaw hresult).symm.trans hrules)
    exact .inr ⟨rule, hrule, hinstalls⟩
  · have halters := h.wellFormed.alters_createChain hlaw chainId
    exact .inl (h.present ⟨other, (isKeyOf_of_alters h.ruled halters hne).1 hkey⟩)

theorem Serves.after_delete (h : s.Serves env key)
    (hresult : (s.topology.deleteChain env chainId).result = .ok rules)
    (htakes : ¬ s.Takes env chainId key) :
    ((s.issue env (.delete chainId)).deliver ⟨false, rules⟩).Serves env key := by
  have hsame := sameGround_deliver (s := s.issue env (.delete chainId)) h.failing ⟨false, rules⟩
  refine
    { toSound := (⟨(h.wellFormed.alters_deleteChain chainId).wellFormed, h.failing, h.attached⟩ :
        (s.issue env (.delete chainId)).Sound env).of_sameGround hsame
      ruled := ruled_deleteChain h.wellFormed h.ruled hresult
      present := fun hlive => ?_ }
  rw [hsame.isLiveKey_iff] at hlive
  obtain ⟨other, hkey⟩ := hlive
  obtain ⟨-, hbefore⟩ := hkey.before_delete h.toSound h.ruled hresult
  exact (isSome_flow_delete h.toSound hresult hbefore.dlType).2 ⟨h.present ⟨other, hbefore⟩, htakes⟩

theorem Serves.afterDelivery (hlaw : env.Lawful) (h : s.Serves env key) (hcall : s.Builds env call)
    (htaken : ¬ s.TakenBy env call key) (hafter : s.AfterDelivery env call s') : s'.Serves env key := by
  rw [afterDelivery_iff] at hafter
  cases call with
  | create chainId =>
    obtain ⟨rules, hresult, rfl⟩ := hafter
    exact h.after_create hlaw hresult
  | delete chainId =>
    obtain ⟨rules, hresult, rfl⟩ := hafter
    exact h.after_delete hresult fun htakes => htaken ⟨chainId, rfl, htakes⟩
  | update chainId added removed => exact absurd rfl (hcall.2 chainId added removed)

/-- What no deletion of a run takes is there as long as a live chain installs it. -/
theorem Reaches.serves (hlaw : env.Lawful) (hready : start.IsReady env)
    (h : Reaches env (fun s call => s.Builds env call ∧ ¬ s.TakenBy env call key) start s) :
    s.Serves env key := by
  apply h.keeps
  · refine ⟨hready.sound, fun chainId path hpath => ?_, fun ⟨chainId, _, _, hrules, _⟩ => ?_⟩
    · simp [hready.topology, path?] at hpath
    · simp [hready.topology, flowRules, path?] at hrules
  · intro s call hcall
    exact hcall.1.1
  · intro s call s' _ hcall hafter hserves
    exact hserves.afterDelivery hlaw hcall.1 hcall.2 hafter

theorem Reaches.ruled (hlaw : env.Lawful) (hready : start.IsReady env)
    (h : Reaches env (fun s call => s.Builds env call) start s) : Ruled env s.topology := by
  induction h with
  | start =>
    intro chainId path hpath
    simp [hready.topology, path?] at hpath
  | @step s call hrun hcall ih =>
    rw [step_topology]
    have hsound := hrun.sound hlaw hready
    cases call with
    | create chainId => exact ruled_createChain hlaw hsound.wellFormed ih chainId
    | delete chainId =>
      obtain ⟨rules, hresult, -⟩ := exists_step_delete hcall.1
      exact ruled_deleteChain hsound.wellFormed ih hresult
    | update chainId added removed => exact absurd rfl (hcall.2 chainId added removed)

/-- After the deletion of a chain, the entry of a key that another live chain installs is there exactly if
it was there before and the deletion does not take it; and it is there if no deletion of the run, this one
included, takes it. -/
theorem deletion_spares_others (hlaw : env.Lawful) (hready : start.IsReady env)
    (hrun : Reaches env (fun s call => s.Builds env call) start s)
    (hdelete : s.Succeeds env (.delete chainId)) :
    (∀ other key, (s.step env (.delete chainId)).IsKeyOf env other key →
      (((s.step env (.delete chainId)).agent.bridge.flow? key).isSome ↔
        (s.agent.bridge.flow? key).isSome ∧ ¬ s.Takes env chainId key)) ∧
    ∀ other key, (s.step env (.delete chainId)).IsKeyOf env other key →
      Reaches env (fun s call => s.Builds env call ∧ ¬ s.TakenBy env call key) start s →
        ¬ s.Takes env chainId key →
          ((s.step env (.delete chainId)).agent.bridge.flow? key).isSome := by
  have hsound := hrun.sound hlaw hready
  obtain ⟨rules, hresult, heq⟩ := exists_step_delete hdelete
  have hsame := sameGround_deliver (s := s.issue env (.delete chainId)) hsound.failing ⟨false, rules⟩
  have hstep : ∀ other key, (s.step env (.delete chainId)).IsKeyOf env other key →
      s.IsKeyOf env other key ∧
        (((s.step env (.delete chainId)).agent.bridge.flow? key).isSome ↔
          (s.agent.bridge.flow? key).isSome ∧ ¬ s.Takes env chainId key) := by
    intro other key hkey
    rw [heq, hsame.isKeyOf_iff] at hkey
    obtain ⟨-, hbefore⟩ := hkey.before_delete hsound (hrun.ruled hlaw hready) hresult
    rw [heq]
    exact ⟨hbefore, isSome_flow_delete hsound hresult hbefore.dlType⟩
  refine ⟨fun other key hkey => (hstep other key hkey).2, fun other key hkey hspared htakes => ?_⟩
  obtain ⟨hbefore, hiff⟩ := hstep other key hkey
  exact hiff.2 ⟨(hspared.serves hlaw hready).present ⟨other, hbefore⟩, htakes⟩

/-! ## A case where an entry goes -/

/-- The two chains of the sample are live; they share no classifier, but an instance. -/
def sampleBoth : Deployment :=
  (sampleStart.step sampleEnv (.create "x")).step sampleEnv (.create "y")

theorem reaches_sampleBoth :
    Reaches sampleEnv (fun s call => s.Builds sampleEnv call) sampleStart sampleBoth :=
  (Reaches.start.step ⟨sampleStart_creates, nofun⟩).step ⟨sampleStart_creates_both, nofun⟩

theorem sampleBoth_deletes : sampleBoth.Succeeds sampleEnv (.delete "x") :=
  succeeds_of_isOk (by decide +kernel)

/-- The instance that serves in both chains, as a member of a group. -/
def sampleMemberKey : FlowKey := NextHopGroup.memberKey (sampleBinding "a-in" 3).mac

/-- What both chains install for the instance is not taken, but its entry as a group member is. -/
theorem sampleBoth_spares_others :
    ¬ sampleBoth.Takes sampleEnv "x" sampleReturnKey ∧
      sampleBoth.Takes sampleEnv "x" sampleMemberKey := by
  have hspares := (deletion_spares_others sampleEnv_lawful sampleStart_fresh.toIsReady
    reaches_sampleBoth sampleBoth_deletes).1
  have hneeded : ∀ key ∈ [sampleReturnKey, sampleMemberKey],
      key ∈ (sampleBoth.step sampleEnv (.delete "x")).keysOf sampleEnv "y" ∧
        (sampleBoth.agent.bridge.flow? key).isSome := by
    decide +kernel
  have hkept : ((sampleBoth.step sampleEnv (.delete "x")).agent.bridge.flow? sampleReturnKey).isSome := by
    decide +kernel
  have hgone :
      ¬ ((sampleBoth.step sampleEnv (.delete "x")).agent.bridge.flow? sampleMemberKey).isSome := by
    decide +kernel
  constructor
  · have hkey := (hneeded sampleReturnKey (by simp)).1
    exact ((hspares "y" _ ((mem_keysOf _).1 hkey)).1 hkept).2
  · obtain ⟨hkey, hbefore⟩ := hneeded sampleMemberKey (by simp)
    by_contra htakes
    exact hgone ((hspares "y" _ ((mem_keysOf _).1 hkey)).2 ⟨hbefore, htakes⟩)

/-- Not every entry that another live chain installs stays: when a group goes, so do the entries of its
members, of which one is a member of another chain's group as well. -/
theorem not_deletion_keeps_others :
    ¬ ∀ (env : TopologyEnv) (start s : Deployment) (chainId other : String) (key : FlowKey),
      env.Lawful → start.IsReady env →
        Reaches env (fun s call => s.Builds env call) start s →
          s.Succeeds env (.delete chainId) →
            (s.step env (.delete chainId)).IsKeyOf env other key →
              ((s.step env (.delete chainId)).agent.bridge.flow? key).isSome := by
  intro hall
  have hneeded :
      sampleMemberKey ∈ (sampleBoth.step sampleEnv (.delete "x")).keysOf sampleEnv "y" := by
    decide +kernel
  have hgone :
      ¬ ((sampleBoth.step sampleEnv (.delete "x")).agent.bridge.flow? sampleMemberKey).isSome := by
    decide +kernel
  exact hgone (hall sampleEnv sampleStart sampleBoth "x" "y" sampleMemberKey sampleEnv_lawful
    sampleStart_fresh.toIsReady reaches_sampleBoth sampleBoth_deletes ((mem_keysOf _).1 hneeded))

end Deployment

end ServiceChain
