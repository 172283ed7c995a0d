import ServiceChain.Proofs.Bridge.Runs

/-!
# Where a replay stops

A replay that stops has performed all operations before the first that fails, and leaves the bridge as they
do (`Bridge.StopsAt`).  One that does not stop counts each kind of operation, and among the ensured groups
those that were not there when their turn came as created (`Bridge.Counts`).
-/

namespace ServiceChain

/-- How many operations have a name. -/
def BridgeOp.countNamed (name : String) (ops : List BridgeOp) : ℕ := ops.countP (·.name = name)

namespace Effect

/-- The name of the operations that have an effect. -/
def opName : Effect → String
  | flowAdded => "add_flow"
  | flowsDeleted => "delete_flows"
  | groupCreated | groupModified => "ensure_group"
  | groupDeleted => "delete_group"
  | groupsCleared => "delete_all_groups"

theorem count_created_add_count_modified (effects : List Effect) :
    effects.count .groupCreated + effects.count .groupModified =
      effects.countP (·.opName = "ensure_group") := by
  induction effects with
  | nil => rfl
  | cons effect effects ih =>
    rw [List.count_cons, List.count_cons, List.countP_cons, ← ih]
    cases effect <;> simp [opName] <;> omega

end Effect

namespace Bridge

variable {b next last : Bridge} {op : BridgeOp} {ops : List BridgeOp} {effects : List Effect}

/-! ## Counts -/

theorem opName_effectOf (b : Bridge) (op : BridgeOp) : (b.effectOf op).opName = op.name := by
  cases op with
  | ensureGroup group =>
    rw [effectOf]
    split <;> rfl
  | _ => rfl

/-- The operation at a position ensures a group that is not there when its turn comes. -/
def createsAt (b : Bridge) (ops : List BridgeOp) (i : ℕ) : Bool :=
  match ops[i]? with
  | some (.ensureGroup group) => ((b.execute (ops.take i)).bridge.group? group.id).isNone
  | _ => false

theorem createsAt_zero : b.createsAt (op :: ops) 0 = (b.effectOf op == .groupCreated) := by
  cases op with
  | ensureGroup group =>
    show (b.group? group.id).isNone = _
    rw [effectOf]
    cases b.group? group.id <;> rfl
  | _ => rfl

theorem createsAt_succ (h : b.perform op = .ok (next, b.effectOf op)) (i : ℕ) :
    b.createsAt (op :: ops) (i + 1) = next.createsAt ops i := by
  simp only [createsAt, List.getElem?_cons_succ, List.take_succ_cons, execute, h]

theorem Runs.count_created (h : b.Runs ops last effects) :
    effects.count .groupCreated = (List.range ops.length).countP (b.createsAt ops) := by
  induction h with
  | nil b => rfl
  | @cons b next last op ops effects hop _ ih =>
    have hsucc : b.createsAt (op :: ops) ∘ Nat.succ = next.createsAt ops :=
      funext fun i => createsAt_succ hop i
    rw [List.length_cons, List.range_succ_eq_map, List.countP_cons, List.countP_map, hsucc, ← ih,
      createsAt_zero, List.count_cons]

/-- What operations do tells which operations they are. -/
theorem Runs.map_opName (h : b.Runs ops last effects) :
    effects.map Effect.opName = ops.map BridgeOp.name := by
  induction h with
  | nil b => rfl
  | cons _ _ ih => rw [List.map_cons, List.map_cons, opName_effectOf, ih]

theorem Runs.countNamed_eq (h : b.Runs ops last effects) (name : String) :
    BridgeOp.countNamed name ops = effects.countP (·.opName = name) := by
  have hnames := congrArg (List.countP (· = name)) h.map_opName
  rw [List.countP_map, List.countP_map] at hnames
  exact hnames.symm

/-- An effect of all operations of one name, and of no other, is counted as they are. -/
theorem Runs.count_eq (h : b.Runs ops last effects) {effect : Effect} {name : String}
    (hname : ∀ other : Effect, other = effect ↔ other.opName = name) :
    effects.count effect = BridgeOp.countNamed name ops := by
  rw [h.countNamed_eq]
  exact List.countP_congr fun other _ => by rw [beq_iff_eq, decide_eq_true_iff, hname]

/-- What a run that was not stopped counts. -/
structure Counts (b : Bridge) (ops : List BridgeOp) (tally : Tally) : Prop where
  flowsAdded : tally.flowsAdded = BridgeOp.countNamed "add_flow" ops
  flowDeletes : tally.flowDeletes = BridgeOp.countNamed "delete_flows" ops
  groupsDeleted : tally.groupsDeleted = BridgeOp.countNamed "delete_group" ops
  ensured : tally.groupsCreated + tally.groupsModified = BridgeOp.countNamed "ensure_group" ops
  created : tally.groupsCreated = (List.range ops.length).countP (b.createsAt ops)

theorem Runs.counts (h : b.Runs ops last effects) : b.Counts ops (Tally.ofEffects effects) where
  flowsAdded := h.count_eq fun other => by cases other <;> decide
  flowDeletes := h.count_eq fun other => by cases other <;> decide
  groupsDeleted := h.count_eq fun other => by cases other <;> decide
  ensured := by
    rw [h.countNamed_eq]
    exact Effect.count_created_add_count_modified effects
  created := h.count_created

/-! ## Where a replay stops -/

/-- A replay stops at an operation: the ones before it were performed, it fails for a call that is set to
fail, and the bridge is as the ones before it leave it. -/
structure StopsAt (b : Bridge) (ops done : List BridgeOp) (op : BridgeOp) (rest : List BridgeOp)
    (e : BridgeError) : Prop where
  split : ops = done ++ op :: rest
  performed : ∃ tally, (b.execute done).result = .ok tally
  bridge : (b.execute ops).bridge = (b.execute done).bridge
  failed : (b.execute done).bridge.perform op = .error e
  blocked : ∃ p, (b.execute done).bridge.blocker? op = some p ∧ e = ⟨p, .injected⟩

theorem exists_stopsAt {e : BridgeError} (h : (b.execute ops).result = .error e) :
    ∃ done op rest, b.StopsAt ops done op rest e := by
  unfold Execution.result at h
  rcases execute_cases b ops with ⟨-, hfinished⟩ | ⟨done, op, rest, e', hops, hruns, hop, hfailure⟩
  · rw [hfinished] at h
    cases h
  · rw [hfailure] at h
    obtain rfl := Except.error.inj h
    obtain ⟨records, hdone⟩ := hruns.execute
    have hbridge : (b.execute ops).bridge = (b.execute done).bridge := by rw [hdone]
    have hperformed : ∃ tally, (b.execute done).result = .ok tally :=
      ⟨_, by rw [hdone, Execution.result]⟩
    rw [hbridge] at hop
    exact ⟨done, op, rest, hops, hperformed, hbridge, hop, perform_eq_error_iff.1 hop⟩

/-- A replay stops at the first operation that cannot be performed, which changes nothing.  One that does not
stop counts what it did, and on a bridge without injected failures none stops. -/
theorem execute_stops_cleanly (b : Bridge) (ops : List BridgeOp) :
    (∀ e, (b.execute ops).result = .error e → ∃ done op rest, b.StopsAt ops done op rest e) ∧
      (∀ tally, (b.execute ops).result = .ok tally → b.Counts ops tally) ∧
      (b.failing = [] → ∃ tally, (b.execute ops).result = .ok tally) := by
  refine ⟨fun e he => exists_stopsAt he, fun tally htally => ?_, fun hb => ?_⟩
  · unfold Execution.result at htally
    rcases execute_cases b ops with ⟨hruns, hfinished⟩ | ⟨_, _, _, e, -, -, -, hfailure⟩
    · rw [hfinished] at htally
      obtain rfl := Except.ok.inj htally
      exact hruns.counts
    · rw [hfailure] at htally
      cases htally
  · exact ⟨_, by rw [Execution.result, execute_ok hb]⟩

/-- A group is ensured, which needs it to be added, ensured again, which needs it to be replaced, and
deleted. -/
def sampleRevised : List BridgeOp :=
  [.ensureGroup ⟨4, .select, []⟩, .ensureGroup ⟨4, .select, []⟩, .deleteGroup 4]

/-- Where groups cannot be replaced, the group is left there; elsewhere all three operations count. -/
theorem sampleRevised_stops :
    (∃ done op rest, (({} : Bridge).failOn .modifyGroup).StopsAt sampleRevised done op rest
        ⟨.modifyGroup, .injected⟩) ∧
      ({} : Bridge).Counts sampleRevised
        { groupsCreated := 1, groupsModified := 1, groupsDeleted := 1 } := by
  obtain ⟨hstops, -, -⟩ := execute_stops_cleanly (({} : Bridge).failOn .modifyGroup) sampleRevised
  obtain ⟨-, hcounts, hfinishes⟩ := execute_stops_cleanly {} sampleRevised
  obtain ⟨tally, htally⟩ := hfinishes rfl
  have hshown : (({} : Bridge).execute sampleRevised).result =
      .ok { groupsCreated := 1, groupsModified := 1, groupsDeleted := 1 } := by decide +kernel
  obtain rfl := Except.ok.inj (htally.symm.trans hshown)
  exact ⟨hstops _ (by decide +kernel), hcounts _ htally⟩

end Bridge

end ServiceChain
