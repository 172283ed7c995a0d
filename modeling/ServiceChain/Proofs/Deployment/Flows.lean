import ServiceChain.Proofs.Deployment.Removal

/-!
# No flow entry leaks

On a bridge that was prepared without entries, every entry is a static one, that of a group member, or one
that a rule of a live chain installs (`Clean`).  Each delivery keeps this: installations are rules of live
chains (`Clean.deliver_install`), and a removal takes what no live chain installs any more
(`Clean.deliver_remove`).  So it holds all along a run in which no change of classifiers fails
(`no_flow_leaks`).
-/

namespace ServiceChain

namespace Deployment

open ServiceChain.Topology

variable {env : TopologyEnv} {start s s' : Deployment} {call : ChainCall} {chainId : String}
  {rules : List FlowRule} {key : FlowKey} {t' : Topology}

/-- Nothing is on the bridge but static entries, members of groups, and what the rules of live chains
install. -/
structure Clean (env : TopologyEnv) (s : Deployment) : Prop extends Sound env s where
  ruled : Ruled env s.topology
  static : ∀ entry, .addFlow entry ∈ Agent.bootstrapOps →
    s.agent.bridge.flow? entry.key = some entry.actions
  owned : ∀ key, (s.agent.bridge.flow? key).isSome →
    Agent.IsStaticKey key ∨ key.IsMemberKey ∨ s.IsLiveKey env key

/-! ## Deliveries -/

theorem IsFresh.clean (h : start.IsFresh env) : start.Clean env where
  toSound := h.toIsReady.sound
  ruled chainId path hpath := by
    rw [h.topology] at hpath
    simp [path?] at hpath
  static := by
    obtain ⟨agent, hfailing, hempty, hagent⟩ := h.prepared
    rw [hagent]
    exact (Agent.flow_bootstrap hfailing hempty).1
  owned := by
    obtain ⟨agent, hfailing, hempty, hagent⟩ := h.prepared
    rw [hagent]
    exact fun key hkey => .inl ((Agent.flow_bootstrap hfailing hempty).2 key hkey)

/-- Installing the rules of a live chain. -/
theorem Clean.deliver_install (h : s.Clean env)
    (hrules : s.topology.flowRules env chainId = .ok rules) :
    (s.deliver ⟨true, rules⟩).Clean env := by
  have hsame := sameGround_deliver h.failing ⟨true, rules⟩
  refine
    { toSound := h.toSound.of_sameGround hsame
      ruled := h.ruled
      static := fun entry hentry => ?_
      owned := fun key hkey => ?_ }
  · rw [← h.static entry hentry]
    refine Agent.flow_updateRules_of_not_installs h.failing ?_
    rintro ⟨rule, -, hinstalls⟩
    exact Agent.not_installs_static ⟨entry, hentry, rfl⟩ hinstalls
  · rw [hsame.isLiveKey_iff]
    rcases (Agent.isSome_flow_updateRules h.failing).1 hkey with hkey | ⟨rule, hrule, hinstalls⟩
    · exact h.owned key hkey
    · exact .inr (.inr ⟨chainId, rules, rule, hrules, hrule, hinstalls⟩)

/-- Removing rules, where what live chains installed is removed or still installed by one. -/
theorem Clean.deliver_remove (h : s.Clean env) (hwf : WellFormed env t') (hruled : Ruled env t')
    (hrules : ∀ rule ∈ rules, rule.Programmable s.agent.bridge.ports)
    (hkept : ∀ key chainId d, ¬ key.IsMemberKey →
      s.InstallsFor env chainId d key → (∃ rule ∈ rules, s.agent.Removes rule key) ∨
        ∃ chainId d, ({ s with topology := t' } : Deployment).InstallsFor env chainId d key) :
    (({ s with topology := t' } : Deployment).deliver ⟨false, rules⟩).Clean env := by
  have hsound : ({ s with topology := t' } : Deployment).Sound env := ⟨hwf, h.failing, h.attached⟩
  have hsame := sameGround_deliver (s := { s with topology := t' }) h.failing ⟨false, rules⟩
  have hwhole : ∀ rule ∈ rules, rule.IsWhole := fun rule hrule => (hrules rule hrule).isWhole
  have hflow := Agent.flow_deleteRules h.failing hwhole
  refine
    { toSound := hsound.of_sameGround hsame
      ruled := hruled
      static := fun entry hentry => ?_
      owned := fun key hkey => ?_ }
  · rw [← h.static entry hentry]
    refine (hflow entry.key).2 ?_
    rintro ⟨rule, hrule, hremoves⟩
    exact Agent.not_removes_static ⟨entry, hentry, rfl⟩ (hwhole rule hrule) hremoves
  · rw [hsame.isLiveKey_iff, isLiveKey_iff (s := { s with topology := t' }) hruled]
    by_cases hremoved : ∃ rule ∈ rules, s.agent.Removes rule key
    · have hnone : (s.agent.deleteRules rules).agent.bridge.flow? key = none := (hflow key).1 hremoved
      change ((s.agent.deleteRules rules).agent.bridge.flow? key).isSome at hkey
      rw [hnone] at hkey
      cases hkey
    · change ((s.agent.deleteRules rules).agent.bridge.flow? key).isSome at hkey
      rw [(hflow key).2 hremoved] at hkey
      rcases h.owned key hkey with hstatic | hmember | hlive
      · exact .inl hstatic
      · exact .inr (.inl hmember)
      · by_cases hmember : key.IsMemberKey
        · exact .inr (.inl hmember)
        · obtain ⟨chainId, d, hinstalls⟩ := (isLiveKey_iff h.ruled).1 hlive
          exact .inr (.inr ((hkept key chainId d hmember hinstalls).resolve_left hremoved))

/-! ## Calls -/

/-- The call changes classifiers, and fails. -/
def FailsUpdate (env : TopologyEnv) (s : Deployment) (call : ChainCall) : Prop :=
  (∃ chainId added removed, call = .update chainId added removed) ∧ ¬ s.Succeeds env call

/-- A call to create a chain, successful or not, leaves every live chain with its rules. -/
theorem Clean.issue_create (hlaw : env.Lawful) (h : s.Clean env) (chainId : String) :
    (s.issue env (.create chainId)).Clean env := by
  have hruled := ruled_createChain hlaw h.wellFormed h.ruled chainId
  refine
    { toSound := h.toSound.issue hlaw (.create chainId)
      ruled := hruled
      static := h.static
      owned := fun key hkey => ?_ }
  refine (h.owned key hkey).imp_right (Or.imp_right fun hlive => ?_)
  obtain ⟨other, d, hinstalls⟩ := (isLiveKey_iff h.ruled).1 hlive
  exact (isLiveKey_iff hruled).2
    ⟨other, d, hinstalls.of_retains fun _ => h.wellFormed.createChain_keeps hlaw⟩

theorem Clean.after_delete (h : s.Clean env)
    (hresult : (s.topology.deleteChain env chainId).result = .ok rules) :
    ((s.issue env (.delete chainId)).deliver ⟨false, rules⟩).Clean env := by
  have halters := h.wellFormed.alters_deleteChain chainId
  obtain ⟨path, hpath, hrules⟩ := exists_path_of_deleteChain hresult
  have hruled := ruled_deleteChain h.wellFormed h.ruled hresult
  refine h.deliver_remove halters.wellFormed hruled (h.toSound.programmable_of_pathRemoval hpath hrules)
    fun key other d hmember hinstalls => ?_
  by_cases hne : chainId = other
  · subst hne
    by_cases hshared : s.IsShared env chainId d key
    · obtain ⟨other, hne, hshared⟩ := hshared
      exact .inr ⟨other, d, hshared.of_alters halters hne⟩
    · exact .inl ((exists_removes_iff h.toSound hpath hrules hinstalls.dlType).2
        ⟨d, .inl ⟨hmember, hinstalls⟩, hshared⟩)
  · exact .inr ⟨other, d, hinstalls.of_alters halters hne⟩

/-- After each of the two batches of a change of classifiers. -/
theorem Clean.after_update (hlaw : env.Lawful) (h : s.Clean env) {added removed : List String}
    {update : ClassifierUpdate}
    (hresult : (s.topology.updateClassifiers env chainId added removed).result = .ok update) :
    ((s.issue env (.update chainId added removed)).deliver ⟨false, update.delete⟩).Clean env ∧
      (((s.issue env (.update chainId added removed)).deliver ⟨false, update.delete⟩).deliver
        ⟨true, update.apply⟩).Clean env := by
  rcases updateClassifiers_cases hlaw h.wellFormed chainId added removed with
    ⟨-, e, he⟩ | ⟨path, plan, path', hpath, hplan, hchanged, hupdate⟩
  · cases hresult.symm.trans he
  obtain ⟨hdelete, hown⟩ := hupdate update hresult
  have halters := hchanged.alters
  have hruled := halters.ruled h.ruled fun _ _ => ⟨_, hown⟩
  have hremoved : ((s.issue env (.update chainId added removed)).deliver
      ⟨false, update.delete⟩).Clean env := by
    rw [hdelete]
    refine h.deliver_remove halters.wellFormed hruled
      (h.toSound.programmable_of_updatePlanned hpath hplan) fun key other d hmember hinstalls => ?_
    by_cases hne : chainId = other
    · subst hne
      rcases removes_or_kept_of_update h.toSound hpath hplan hchanged hinstalls hmember with
        hremoves | ⟨other, hne, hshared⟩ | hkept
      · exact .inl hremoves
      · exact .inr ⟨other, d, hshared.of_alters halters hne⟩
      · exact .inr ⟨chainId, d, hkept⟩
    · exact .inr ⟨other, d, hinstalls.of_alters halters hne⟩
  exact ⟨hremoved, hremoved.deliver_install hown⟩

/-- Every delivery keeps the bridge clean. -/
theorem Clean.afterDelivery (hlaw : env.Lawful) (h : s.Clean env)
    (hafter : s.AfterDelivery env call s') : s'.Clean env := by
  rw [afterDelivery_iff] at hafter
  cases call with
  | create chainId =>
    obtain ⟨rules, hresult, rfl⟩ := hafter
    exact (h.issue_create hlaw chainId).deliver_install (flowRules_createChain hlaw hresult)
  | delete chainId =>
    obtain ⟨rules, hresult, rfl⟩ := hafter
    exact h.after_delete hresult
  | update chainId added removed =>
    obtain ⟨update, hresult, rfl | rfl⟩ := hafter
    · exact (h.after_update hlaw hresult).1
    · exact (h.after_update hlaw hresult).2

/-- A call keeps the bridge clean, unless it changes classifiers and fails. -/
theorem Clean.step (hlaw : env.Lawful) (h : s.Clean env) (hcall : ¬ s.FailsUpdate env call) :
    (s.step env call).Clean env := by
  rcases step_cases s call with ⟨-, hafter⟩ | ⟨hfails, heq⟩
  · exact h.afterDelivery hlaw hafter
  · rw [heq]
    cases call with
    | create chainId => exact h.issue_create hlaw chainId
    | update chainId added removed =>
      exact absurd ⟨⟨chainId, added, removed, rfl⟩, hfails⟩ hcall
    | delete chainId =>
      -- a deletion that fails changes nothing
      rcases deleteChain_cases env s.topology chainId with ⟨hsame, -⟩ | ⟨-, rules, -, -, -, hok, -⟩
      · have heq : s.issue env (.delete chainId) = s := by
          unfold issue
          simp only [Topology.answer, hsame]
        rw [heq]
        exact h
      · exact absurd ⟨[⟨false, rules⟩], by simp only [Topology.answer, hok, Except.map]⟩ hfails

theorem Reaches.clean (hlaw : env.Lawful) (hfresh : start.IsFresh env)
    (h : Reaches env (fun s call => ¬ s.FailsUpdate env call) start s) : s.Clean env := by
  induction h with
  | start => exact hfresh.clean
  | step _ hcall ih => exact ih.step hlaw hcall

/-- After every delivery of a run in which no change of classifiers fails, an entry of the bridge is a
static one, that of a group member, or one that a rule of a live chain installs; and the static entries
are there. -/
theorem no_flow_leaks (hlaw : env.Lawful) (hfresh : start.IsFresh env)
    (hrun : Reaches env (fun s call => ¬ s.FailsUpdate env call) start s)
    (hafter : s.AfterDelivery env call s') :
    (∀ key, (s'.agent.bridge.flow? key).isSome →
        Agent.IsStaticKey key ∨ key.IsMemberKey ∨ s'.IsLiveKey env key) ∧
      (∀ entry, .addFlow entry ∈ Agent.bootstrapOps →
        s'.agent.bridge.flow? entry.key = some entry.actions) ∧
      ((∀ chainId, s'.topology.path? chainId = none) →
        ∀ key, (s'.agent.bridge.flow? key).isSome →
          Agent.IsStaticKey key ∨ key.IsMemberKey) := by
  have hclean := (hrun.clean hlaw hfresh).afterDelivery hlaw hafter
  refine ⟨hclean.owned, hclean.static, fun hempty key hkey => ?_⟩
  refine (hclean.owned key hkey).imp_right fun howned => howned.resolve_right ?_
  rintro ⟨chainId, rules, rule, hrules, -⟩
  obtain ⟨path, hpath, -⟩ := exists_path_of_flowRules hrules
  rw [hempty] at hpath
  cases hpath

/-! ## A sample -/

/-- Two service functions of two instances each; one instance serves in both. -/
def samplePairs : List PortPair :=
  [⟨"a", "a-in", "a-out", 1⟩, ⟨"b", "b-in", "b-out", 1⟩, ⟨"c", "c-in", "c-out", 1⟩]

def sampleClassifiers : List FlowClassifier :=
  [{ id := "f1", logicalSource := some "s1" }, { id := "f2", logicalSource := some "s2" }]

def sampleBinding (port : String) (n : UInt8) : PortBinding where
  portId := port
  host := some "h"
  networkType := .vlan
  segment := some 100
  mac := ⟨#v[2, 0, 0, 0, 0, n]⟩

def sampleBindings : List PortBinding :=
  [sampleBinding "s1" 1, sampleBinding "s2" 2, sampleBinding "a-in" 3, sampleBinding "a-out" 4,
    sampleBinding "b-in" 5, sampleBinding "b-out" 6, sampleBinding "c-in" 7,
    sampleBinding "c-out" 8]

def sampleGroups : List PortPairGroup := [⟨"g1", 1, ["a", "b"]⟩, ⟨"g2", 2, ["a", "c"]⟩]

/-- Two chains, each through one of the service functions. -/
def sampleChains : List PortChain :=
  [{ id := "x", nsp := 1, groups := ["g1"], classifiers := ["f1"] },
    { id := "y", nsp := 2, groups := ["g2"], classifiers := ["f2"] }]

def sampleStore : Store where
  chain? id := sampleChains.find? (·.id == id)
  group? id := sampleGroups.find? (·.id == id)
  pair? id := samplePairs.find? (·.id == id)
  classifier? id := sampleClassifiers.find? (·.id == id)
  binding? port := sampleBindings.find? (·.portId == port)

def sampleEnv : TopologyEnv where
  store := sampleStore
  policy := .atLeastOne
  newId n := String.ofList (List.replicate (n + 1) 'n')

def samplePorts : PortTable :=
  sampleBindings.foldl (fun ports b => ports.insert b.portId ⟨b.mac.octets[5].toUInt32, b.mac⟩) ∅

def sampleStart : Deployment where
  topology := {}
  agent := ({ ctx := ⟨"br-int", "h", 99⟩, bridge := { ports := samplePorts } } :
    Agent).bootstrap.agent

theorem mem_samplePairs {id : String} {pair : PortPair} (h : sampleStore.pair? id = some pair) :
    pair ∈ samplePairs ∧ pair.id = id := by
  have hfind : samplePairs.find? (·.id == id) = some pair := h
  exact ⟨List.mem_of_find?_eq_some hfind, by simpa using List.find?_some hfind⟩

theorem sampleEnv_lawful : sampleEnv.Lawful where
  chain_id _ _ h := PortChain.id_eq_of_find? h
  pair_id id pair h := (mem_samplePairs h).2
  newId_injective m n h := by
    have hlist := congrArg (fun s : String => s.toList.length) h
    simpa [sampleEnv] using hlist
  newId_ne_pair n id pair h hid := by
    obtain ⟨hmem, hpair⟩ := mem_samplePairs h
    have hfirst : ∀ pair ∈ samplePairs, pair.id.toList.head? ≠ some 'n' := by decide
    apply hfirst pair hmem
    rw [hpair, ← hid]
    simp [sampleEnv, List.replicate_succ]

theorem samplePorts_attached : sampleStore.IsAttached samplePorts := by
  have hpairs : ∀ pair ∈ samplePairs,
      (samplePorts[pair.ingress]?).isSome ∧ (samplePorts[pair.egress]?).isSome := by
    decide +kernel
  have hclassifiers : ∀ fc ∈ sampleClassifiers,
      (fc.logicalSource.all fun port => (samplePorts[port]?).isSome) ∧
        fc.logicalDestination.all fun port => (samplePorts[port]?).isSome := by
    decide +kernel
  have hbindings : ∀ b ∈ sampleBindings, (samplePorts[b.portId]?).isSome := by decide +kernel
  intro port hport
  rw [← Option.isSome_iff_exists]
  rcases hport with ⟨id, pair, h, rfl | rfl⟩ | ⟨id, fc, h, hport⟩ | ⟨binding, h⟩
  · exact (hpairs pair (mem_samplePairs h).1).1
  · exact (hpairs pair (mem_samplePairs h).1).2
  · have hfind : sampleClassifiers.find? (·.id == id) = some fc := h
    obtain ⟨hsource, hdestination⟩ := hclassifiers fc (List.mem_of_find?_eq_some hfind)
    rcases hport with hport | hport
    · simpa [hport] using hsource
    · simpa [hport] using hdestination
  · have hfind : sampleBindings.find? (·.portId == port) = some binding := h
    have hkey : binding.portId = port := by simpa using List.find?_some hfind
    rw [← hkey]
    exact hbindings binding (List.mem_of_find?_eq_some hfind)

theorem sampleStart_fresh : sampleStart.IsFresh sampleEnv where
  topology := rfl
  failing := by decide +kernel
  attached := samplePorts_attached
  prepared := ⟨_, rfl, fun key => by simp [Bridge.flow?], rfl⟩

theorem succeeds_of_isOk (h : (s.topology.answer env call).2.isOk = true) : s.Succeeds env call :=
  Except.exists_of_isOk h

theorem sampleStart_creates : sampleStart.Succeeds sampleEnv (.create "x") :=
  succeeds_of_isOk (by decide +kernel)

theorem sampleStart_creates_both :
    (sampleStart.step sampleEnv (.create "x")).Succeeds sampleEnv (.create "y") :=
  succeeds_of_isOk (by decide +kernel)

/-- Two chains are live, and one has changed its classifier. -/
def sampleChanged : Deployment :=
  ((sampleStart.step sampleEnv (.create "x")).step sampleEnv (.create "y")).step sampleEnv
    (.update "x" ["f2"] ["f1"])

/-- Traffic that comes back from the instance that serves in both chains. -/
def sampleReturnKey : FlowKey :=
  ⟨.localSwitching, Priority.delivery, { inPort := some 4, dlType := some EtherType.ipv4Value }⟩

/-- An entry that is still there when one of the chains is deleted is one of the other chain's. -/
theorem sampleChanged_leaks_no_flow :
    ((sampleChanged.step sampleEnv (.delete "y")).agent.bridge.flow? sampleReturnKey).isSome ∧
      (sampleChanged.step sampleEnv (.delete "y")).IsLiveKey sampleEnv sampleReturnKey := by
  have hcreate : ∀ (s : Deployment) chainId, ¬ s.FailsUpdate sampleEnv (.create chainId) := by
    rintro s chainId ⟨⟨_, _, _, h⟩, -⟩
    cases h
  have hupdate : ((sampleStart.step sampleEnv (.create "x")).step sampleEnv (.create "y")).Succeeds
      sampleEnv (.update "x" ["f2"] ["f1"]) := succeeds_of_isOk (by decide +kernel)
  have hrun : Reaches sampleEnv (fun s call => ¬ s.FailsUpdate sampleEnv call) sampleStart
      sampleChanged :=
    ((Reaches.start.step (hcreate _ _)).step (hcreate _ _)).step fun h => h.2 hupdate
  have hdelete : sampleChanged.Succeeds sampleEnv (.delete "y") :=
    succeeds_of_isOk (by decide +kernel)
  have hthere :
      ((sampleChanged.step sampleEnv (.delete "y")).agent.bridge.flow? sampleReturnKey).isSome := by
    decide +kernel
  rcases step_cases sampleChanged (.delete "y") with ⟨-, hafter⟩ | ⟨hfails, -⟩
  · refine ⟨hthere, ?_⟩
    rcases (no_flow_leaks sampleEnv_lawful sampleStart_fresh hrun hafter).1 _ hthere with
      hstatic | ⟨mac, hmac⟩ | hlive
    · exact absurd rfl (FlowRule.dlType_ne_ipv4_of_static hstatic)
    · cases congrArg FlowKey.table hmac
    · exact hlive
  · exact absurd hdelete hfails

end Deployment

end ServiceChain
