import Mathlib.Tactic.Common
import ServiceChain.Proofs.Bridge.Failing

/-!
# What a replay leaves on a bridge

Every operation acts on the entry of each key and on the group of each id by itself
(`BridgeOp.onEntry`, `BridgeOp.onGroup`), so the tables after a run that was not stopped are known
key by key: fold the actions of the operations over what was there (`Bridge.Replayed`,
`Bridge.execute_replayed`).  A bridge without injected failures stops no run (`Bridge.execute_ok`).

From the fold: a key that no operation adds is gone once one operation removes it
(`entryAfter_of_not_adds`), and a key is present after a run only if it was before or was added.
-/

namespace ServiceChain

namespace BridgeOp

/-! ## One operation, one key -/

/-- The operation installs an entry with the key. -/
def adds (op : BridgeOp) (key : FlowKey) : Prop := ∃ entry, op = addFlow entry ∧ entry.key = key

/-- The operation removes the entry of the key. -/
def removes (op : BridgeOp) (key : FlowKey) : Bool :=
  match op with
  | deleteFlows (some table) (some priority) pattern => ⟨table, priority, pattern⟩ == key
  | deleteFlows table priority pattern => Bridge.sweeps table priority pattern key
  | _ => false

/-- What an operation makes of the entry of a key. -/
def onEntry (key : FlowKey) (actions : Option (List FlowAction)) (op : BridgeOp) :
    Option (List FlowAction) :=
  match op with
  | addFlow entry => if entry.key = key then some entry.actions else actions
  | op => if op.removes key then none else actions

/-- What an operation makes of the group of an id. -/
def onGroup (id : UInt32) (group : Option GroupSpec) (op : BridgeOp) : Option GroupSpec :=
  match op with
  | ensureGroup spec => if spec.id = id then some spec else group
  | deleteGroup gone => if gone = id then none else group
  | deleteAllGroups => none
  | addFlow _ | deleteFlows _ _ _ => group

/-- The entry of a key after a run. -/
def entryAfter (ops : List BridgeOp) (key : FlowKey) (actions : Option (List FlowAction)) :
    Option (List FlowAction) :=
  ops.foldl (onEntry key) actions

/-- The group of an id after a run. -/
def groupAfter (ops : List BridgeOp) (id : UInt32) (group : Option GroupSpec) : Option GroupSpec :=
  ops.foldl (onGroup id) group

@[simp]
theorem adds_addFlow {entry : FlowEntry} {key : FlowKey} :
    (addFlow entry).adds key ↔ entry.key = key := by
  simp [adds]

@[simp]
theorem not_adds_deleteFlows {t : Option Table} {p : Option UInt16} {m : FlowMatch}
    {key : FlowKey} : ¬ (deleteFlows t p m).adds key := by
  simp [adds]

@[simp]
theorem not_adds_ensureGroup {spec : GroupSpec} {key : FlowKey} :
    ¬ (ensureGroup spec).adds key := by
  simp [adds]

@[simp]
theorem not_adds_deleteGroup {id : UInt32} {key : FlowKey} : ¬ (deleteGroup id).adds key := by
  simp [adds]

@[simp]
theorem flow_true (key : FlowKey) (actions : List FlowAction) :
    flow true key actions = addFlow ⟨key, actions⟩ := rfl

@[simp]
theorem flow_false (key : FlowKey) (actions : List FlowAction) :
    flow false key actions = deleteFlows (some key.table) (some key.priority) key.pattern := rfl

@[simp]
theorem removes_deleteFlows_some {t : Table} {p : UInt16} {m : FlowMatch} {key : FlowKey} :
    (deleteFlows (some t) (some p) m).removes key ↔ ⟨t, p, m⟩ = key := by
  simp [removes]

@[simp]
theorem removes_addFlow {entry : FlowEntry} {key : FlowKey} :
    (addFlow entry).removes key = false := rfl

@[simp]
theorem removes_ensureGroup {spec : GroupSpec} {key : FlowKey} :
    (ensureGroup spec).removes key = false := rfl

@[simp]
theorem removes_deleteGroup {id : UInt32} {key : FlowKey} :
    (deleteGroup id).removes key = false := rfl

theorem onEntry_of_not_adds {op : BridgeOp} {key : FlowKey} (h : ¬ op.adds key)
    (v : Option (List FlowAction)) : op.onEntry key v = if op.removes key then none else v := by
  cases op with
  | addFlow entry =>
    rw [adds_addFlow] at h
    simp [onEntry, h]
  | _ => rfl

theorem isSome_onEntry_of_adds {op : BridgeOp} {key : FlowKey} (h : op.adds key)
    (v : Option (List FlowAction)) : (op.onEntry key v).isSome := by
  obtain ⟨entry, rfl, hkey⟩ := h
  simp [onEntry, hkey]

/-! ## A run, one key -/

@[simp]
theorem entryAfter_nil (key : FlowKey) (v : Option (List FlowAction)) :
    entryAfter [] key v = v := rfl

@[simp]
theorem entryAfter_cons (op : BridgeOp) (ops : List BridgeOp) (key : FlowKey)
    (v : Option (List FlowAction)) :
    entryAfter (op :: ops) key v = entryAfter ops key (op.onEntry key v) := rfl

theorem entryAfter_append (ops more : List BridgeOp) (key : FlowKey)
    (v : Option (List FlowAction)) :
    entryAfter (ops ++ more) key v = entryAfter more key (entryAfter ops key v) :=
  List.foldl_append

@[simp]
theorem groupAfter_nil (id : UInt32) (v : Option GroupSpec) : groupAfter [] id v = v := rfl

@[simp]
theorem groupAfter_cons (op : BridgeOp) (ops : List BridgeOp) (id : UInt32)
    (v : Option GroupSpec) :
    groupAfter (op :: ops) id v = groupAfter ops id (op.onGroup id v) := rfl

theorem groupAfter_append (ops more : List BridgeOp) (id : UInt32) (v : Option GroupSpec) :
    groupAfter (ops ++ more) id v = groupAfter more id (groupAfter ops id v) :=
  List.foldl_append

/-- A run that adds no entry with the key keeps what was there unless some operation removes it. -/
theorem entryAfter_of_not_adds {ops : List BridgeOp} {key : FlowKey}
    (h : ∀ op ∈ ops, ¬ op.adds key) (v : Option (List FlowAction)) :
    entryAfter ops key v = if ops.any (·.removes key) then none else v := by
  induction ops generalizing v with
  | nil => simp
  | cons op ops ih =>
    simp only [List.mem_cons, forall_eq_or_imp] at h
    rw [entryAfter_cons, ih h.2, onEntry_of_not_adds h.1]
    by_cases hop : op.removes key <;> simp [hop]

/-- A run that does not touch the key leaves its entry as it was. -/
theorem entryAfter_of_untouched {ops : List BridgeOp} {key : FlowKey}
    (hadds : ∀ op ∈ ops, ¬ op.adds key) (hremoves : ∀ op ∈ ops, op.removes key = false)
    (v : Option (List FlowAction)) : entryAfter ops key v = v := by
  rw [entryAfter_of_not_adds hadds, if_neg]
  simpa using hremoves

/-- A run that adds no entry with the key and removes it once leaves none. -/
theorem entryAfter_of_removes {ops : List BridgeOp} {key : FlowKey}
    (hadds : ∀ op ∈ ops, ¬ op.adds key) (hremoves : ∃ op ∈ ops, op.removes key)
    (v : Option (List FlowAction)) : entryAfter ops key v = none := by
  rw [entryAfter_of_not_adds hadds, if_pos]
  simpa using hremoves

/-- An entry that is there after a run was there before or was added by it. -/
theorem isSome_or_adds_of_isSome_entryAfter {ops : List BridgeOp} {key : FlowKey}
    {v : Option (List FlowAction)} (h : (entryAfter ops key v).isSome) :
    v.isSome ∨ ∃ op ∈ ops, op.adds key := by
  by_cases hadds : ∃ op ∈ ops, op.adds key
  · exact .inr hadds
  · push Not at hadds
    rw [entryAfter_of_not_adds hadds] at h
    split at h
    · simp at h
    · exact .inl h

/-- The actions of a key after a run are those before it or of an entry that it added. -/
theorem eq_or_mem_of_entryAfter {ops : List BridgeOp} {key : FlowKey}
    {v : Option (List FlowAction)} {actions : List FlowAction}
    (h : entryAfter ops key v = some actions) :
    v = some actions ∨ addFlow ⟨key, actions⟩ ∈ ops := by
  induction ops generalizing v with
  | nil => exact .inl h
  | cons op ops ih =>
    rw [entryAfter_cons] at h
    rcases ih h with hone | hlater
    · by_cases hadds : op.adds key
      · obtain ⟨entry, rfl, rfl⟩ := hadds
        have hactions : entry.actions = actions := by simpa [onEntry] using hone
        rw [← hactions]
        exact .inr List.mem_cons_self
      · rw [onEntry_of_not_adds hadds] at hone
        split at hone
        · cases hone
        · exact .inl hone
    · exact .inr (List.mem_cons_of_mem _ hlater)

/-- Without removals, an entry that is there stays and an entry that is added is there. -/
theorem isSome_entryAfter_of_not_removes {ops : List BridgeOp} {key : FlowKey}
    {v : Option (List FlowAction)} (hremoves : ∀ op ∈ ops, op.removes key = false)
    (h : v.isSome ∨ ∃ op ∈ ops, op.adds key) : (entryAfter ops key v).isSome := by
  induction ops generalizing v with
  | nil => simpa using h
  | cons op ops ih =>
    simp only [List.mem_cons, forall_eq_or_imp] at hremoves
    rw [entryAfter_cons]
    apply ih hremoves.2
    rcases h with hv | ⟨op', hmem, hop'⟩
    · by_cases hadds : op.adds key
      · exact .inl (isSome_onEntry_of_adds hadds v)
      · rw [onEntry_of_not_adds hadds, hremoves.1]
        exact .inl hv
    · rcases List.mem_cons.1 hmem with rfl | hmem
      · exact .inl (isSome_onEntry_of_adds hop' v)
      · exact .inr ⟨op', hmem, hop'⟩

theorem onGroup_of_not_group {op : BridgeOp} (h : op.isGroupOp = false) (id : UInt32)
    (v : Option GroupSpec) : op.onGroup id v = v := by
  cases op with
  | addFlow entry => rfl
  | deleteFlows t p m => rfl
  | ensureGroup spec => cases h
  | deleteGroup gone => cases h
  | deleteAllGroups => cases h

theorem onGroup_onGroup (op : BridgeOp) (id : UInt32) (v : Option GroupSpec) :
    op.onGroup id (op.onGroup id v) = op.onGroup id v := by
  cases op with
  | ensureGroup spec => by_cases h : spec.id = id <;> simp [onGroup, h]
  | deleteGroup gone => by_cases h : gone = id <;> simp [onGroup, h]
  | _ => rfl

/-- A run that leaves the group of an id alone at each step leaves it as it was. -/
theorem groupAfter_of_untouched {ops : List BridgeOp} {id : UInt32}
    (h : ∀ op ∈ ops, ∀ v, op.onGroup id v = v) (v : Option GroupSpec) : groupAfter ops id v = v := by
  induction ops generalizing v with
  | nil => rfl
  | cons op ops ih =>
    rw [List.forall_mem_cons] at h
    rw [groupAfter_cons, h.1, ih h.2]

theorem groupAfter_of_not_group {ops : List BridgeOp} (h : ∀ op ∈ ops, op.isGroupOp = false)
    (id : UInt32) (v : Option GroupSpec) : groupAfter ops id v = v :=
  groupAfter_of_untouched (fun op hop => onGroup_of_not_group (h op hop) id) v

/-- A key that is added and not removed has the actions of one of the entries added. -/
theorem exists_addFlow_of_adds {ops : List BridgeOp} {key : FlowKey}
    (hremoves : ∀ op ∈ ops, op.removes key = false) (hadds : ∃ op ∈ ops, op.adds key)
    (v : Option (List FlowAction)) :
    ∃ entry, addFlow entry ∈ ops ∧ entry.key = key ∧
      entryAfter ops key v = some entry.actions := by
  induction ops generalizing v with
  | nil => simp at hadds
  | cons op ops ih =>
    simp only [List.mem_cons, forall_eq_or_imp] at hremoves
    rw [entryAfter_cons]
    by_cases hlater : ∃ op ∈ ops, op.adds key
    · obtain ⟨entry, hmem, hkey, hactions⟩ := ih hremoves.2 hlater (op.onEntry key v)
      exact ⟨entry, List.mem_cons_of_mem _ hmem, hkey, hactions⟩
    · push Not at hlater
      obtain ⟨op', hmem, entry, rfl, hkey⟩ := hadds
      obtain rfl : addFlow entry = op := by
        rcases List.mem_cons.1 hmem with h | hmem
        · exact h
        · exact absurd (adds_addFlow.2 hkey) (hlater _ hmem)
      refine ⟨entry, List.mem_cons_self, hkey, ?_⟩
      rw [entryAfter_of_untouched hlater hremoves.2]
      simp [onEntry, hkey]

/-- A run in which one operation, again and again, is all that is done to groups. -/
theorem groupAfter_of_only {ops : List BridgeOp} {only : BridgeOp} (hmem : only ∈ ops)
    (honly : ∀ op ∈ ops, op.isGroupOp = true → op = only) (id : UInt32) (v : Option GroupSpec) :
    groupAfter ops id v = only.onGroup id v := by
  induction ops generalizing v with
  | nil => cases hmem
  | cons op ops ih =>
    simp only [List.mem_cons, forall_eq_or_imp] at honly
    rw [groupAfter_cons]
    by_cases hlater : only ∈ ops
    · rw [ih hlater honly.2]
      cases hop : op.isGroupOp with
      | false => rw [onGroup_of_not_group hop]
      | true => rw [honly.1 hop, onGroup_onGroup]
    · obtain rfl : only = op := by
        rcases List.mem_cons.1 hmem with h | h
        · exact h
        · exact absurd h hlater
      refine groupAfter_of_not_group (fun op hop => ?_) id _
      cases hgroup : op.isGroupOp with
      | false => rfl
      | true => exact absurd (honly.2 op hop hgroup ▸ hop) hlater

/-! ## Runs in parts -/

/-- What a run adds does not depend on what was there. -/
theorem entryAfter_congr_of_adds {ops : List BridgeOp} {key : FlowKey}
    (h : ∃ op ∈ ops, op.adds key) (v v' : Option (List FlowAction)) :
    entryAfter ops key v = entryAfter ops key v' := by
  induction ops generalizing v v' with
  | nil => simp at h
  | cons op ops ih =>
    rw [entryAfter_cons, entryAfter_cons]
    by_cases hlater : ∃ op ∈ ops, op.adds key
    · exact ih hlater _ _
    · obtain ⟨op', hmem, entry, rfl, hkey⟩ := h
      obtain rfl : addFlow entry = op := by
        rcases List.mem_cons.1 hmem with h | hmem
        · exact h
        · exact absurd ⟨_, hmem, adds_addFlow.2 hkey⟩ hlater
      simp [onEntry, hkey]

theorem groupAfter_congr_of_ensures {ops : List BridgeOp} {spec : GroupSpec}
    (h : ensureGroup spec ∈ ops) (v v' : Option GroupSpec) :
    groupAfter ops spec.id v = groupAfter ops spec.id v' := by
  induction ops generalizing v v' with
  | nil => cases h
  | cons op ops ih =>
    rw [groupAfter_cons, groupAfter_cons]
    rcases List.mem_cons.1 h with rfl | hmem
    · simp [onGroup]
    · exact ih hmem _ _

section Parts

variable {parts others : List (List BridgeOp)} {part : List BridgeOp} {key : FlowKey}

/-- Where one part of a run adds a key, that part says what is there after the run. -/
theorem entryAfter_flatten_of_unique (hpart : part ∈ parts)
    (hremoves : ∀ other ∈ parts, ∀ op ∈ other, op.removes key = false)
    (hadds : ∃ op ∈ part, op.adds key)
    (hunique : ∀ other ∈ parts, (∃ op ∈ other, op.adds key) → other = part)
    (v : Option (List FlowAction)) :
    entryAfter parts.flatten key v = entryAfter part key none := by
  induction parts generalizing v with
  | nil => cases hpart
  | cons first parts ih =>
    rw [List.forall_mem_cons] at hremoves hunique
    rw [List.flatten_cons, entryAfter_append]
    by_cases hlater : part ∈ parts
    · exact ih hlater hremoves.2 hunique.2 _
    · obtain rfl : part = first := (List.mem_cons.1 hpart).resolve_right hlater
      -- the parts after it do not touch the key
      have huntouched : ∀ op ∈ parts.flatten, ¬ op.adds key ∧ op.removes key = false := by
        intro op hop
        obtain ⟨other, hother, hop⟩ := List.mem_flatten.1 hop
        refine ⟨fun hadd => hlater ?_, hremoves.2 other hother op hop⟩
        rw [← hunique.2 other hother ⟨op, hop, hadd⟩]
        exact hother
      rw [entryAfter_of_untouched (fun op hop => (huntouched op hop).1)
        fun op hop => (huntouched op hop).2]
      exact entryAfter_congr_of_adds hadds _ _

/-- Parts that each leave the group of an id as it was. -/
theorem groupAfter_flatten_of_untouched {id : UInt32}
    (h : ∀ part ∈ parts, ∀ v, groupAfter part id v = v) (v : Option GroupSpec) :
    groupAfter parts.flatten id v = v := by
  induction parts generalizing v with
  | nil => rfl
  | cons part parts ih =>
    rw [List.forall_mem_cons] at h
    rw [List.flatten_cons, groupAfter_append, h.1, ih h.2]

/-- Parts of which no two add the same key can be run in any order. -/
theorem entryAfter_flatten_congr (hmem : ∀ part, part ∈ parts ↔ part ∈ others)
    (hremoves : ∀ part ∈ parts, ∀ op ∈ part, op.removes key = false)
    (hunique : ∀ part ∈ parts, ∀ other ∈ parts, (∃ op ∈ part, op.adds key) →
      (∃ op ∈ other, op.adds key) → part = other)
    (v : Option (List FlowAction)) :
    entryAfter parts.flatten key v = entryAfter others.flatten key v := by
  by_cases hadds : ∃ part ∈ parts, ∃ op ∈ part, op.adds key
  · obtain ⟨part, hpart, hadds⟩ := hadds
    rw [entryAfter_flatten_of_unique hpart hremoves hadds
        fun other hother hadd => hunique other hother part hpart hadd hadds,
      entryAfter_flatten_of_unique ((hmem part).1 hpart)
        (fun other hother => hremoves other ((hmem other).2 hother)) hadds
        fun other hother hadd => hunique other ((hmem other).2 hother) part hpart hadd hadds]
  · have huntouched : ∀ some : List (List BridgeOp), (∀ part ∈ some, part ∈ parts) →
        entryAfter some.flatten key v = v := by
      intro some hsome
      apply entryAfter_of_untouched
      · intro op hop hadd
        obtain ⟨part, hpart, hop⟩ := List.mem_flatten.1 hop
        exact hadds ⟨part, hsome part hpart, op, hop, hadd⟩
      · intro op hop
        obtain ⟨part, hpart, hop⟩ := List.mem_flatten.1 hop
        exact hremoves part (hsome part hpart) op hop
    rw [huntouched parts fun _ h => h, huntouched others fun part hpart => (hmem part).2 hpart]

end Parts

end BridgeOp

/-! ## Runs on a bridge -/

namespace Bridge

open BridgeOp

variable {b next : Bridge} {ops more : List BridgeOp}

/-- Equal ports and failures, and tables as the fold over the operations has them. -/
structure Replayed (b : Bridge) (ops : List BridgeOp) (next : Bridge) : Prop where
  ports : next.ports = b.ports
  failing : next.failing = b.failing
  flow : ∀ key, next.flow? key = entryAfter ops key (b.flow? key)
  group : ∀ id, next.group? id = groupAfter ops id (b.group? id)

theorem Replayed.nil (b : Bridge) : Replayed b [] b := ⟨rfl, rfl, fun _ => rfl, fun _ => rfl⟩

theorem Replayed.append {last : Bridge} (h : Replayed b ops next) (h' : Replayed next more last) :
    Replayed b (ops ++ more) last where
  ports := h'.ports.trans h.ports
  failing := h'.failing.trans h.failing
  flow key := by rw [h'.flow, h.flow, entryAfter_append]
  group id := by rw [h'.group, h.group, groupAfter_append]

/-- A run leaves the same on two bridges that agree on all that it does not write. -/
theorem Replayed.of_agree {c : Bridge} (h : c.Replayed ops next) (hports : c.ports = b.ports)
    (hfailing : c.failing = b.failing)
    (hflow : ∀ key, (¬ ∃ op ∈ ops, op.adds key) → c.flow? key = b.flow? key)
    (hgroup : ∀ id, (¬ ∃ spec, .ensureGroup spec ∈ ops ∧ spec.id = id) →
      c.group? id = b.group? id) : b.Replayed ops next where
  ports := h.ports.trans hports
  failing := h.failing.trans hfailing
  flow key := by
    rw [h.flow]
    by_cases hadds : ∃ op ∈ ops, op.adds key
    · exact entryAfter_congr_of_adds hadds _ _
    · rw [hflow key hadds]
  group id := by
    rw [h.group]
    by_cases hensures : ∃ spec, .ensureGroup spec ∈ ops ∧ spec.id = id
    · obtain ⟨spec, hmem, rfl⟩ := hensures
      exact groupAfter_congr_of_ensures hmem _ _
    · rw [hgroup id hensures]

theorem ext_tables {b c : Bridge} (hports : b.ports = c.ports) (hfailing : b.failing = c.failing)
    (hflow : ∀ key, b.flow? key = c.flow? key) (hgroup : ∀ id, b.group? id = c.group? id) :
    b = c := by
  obtain ⟨ports, flows, groups, failing⟩ := b
  obtain ⟨ports', flows', groups', failing'⟩ := c
  have hflows : flows = flows' := Std.ExtTreeMap.ext_getElem? (fun {key} => hflow key)
  have hgroups : groups = groups' := Std.ExtTreeMap.ext_getElem? (fun {id} => hgroup id)
  simp_all

/-- A run leaves one bridge. -/
theorem Replayed.unique {c : Bridge} (h : b.Replayed ops next) (h' : b.Replayed ops c) : next = c := by
  refine ext_tables (h.ports.trans h'.ports.symm) (h.failing.trans h'.failing.symm) (fun key => ?_)
    fun id => ?_
  · rw [h.flow, h'.flow]
  · rw [h.group, h'.group]

theorem removes_eq_sweeps {t : Option Table} {p : Option UInt16} {m : FlowMatch} {key : FlowKey}
    (h : ∀ t' p', t = some t' → p = some p' → False) :
    (BridgeOp.deleteFlows t p m).removes key = sweeps t p m key := by
  cases t with
  | none => rfl
  | some t =>
    cases p with
    | none => rfl
    | some p => exact (h t p rfl rfl).elim

/-- A removal, strict or not, takes the entries of the keys that it removes. -/
theorem deleteFlows_replayed {t : Option Table} {p : Option UInt16} {m : FlowMatch}
    (h : b.deleteFlows t p m = .ok next) : Replayed b [.deleteFlows t p m] next := by
  simp only [deleteFlows, Except.bind_eq_ok] at h
  obtain ⟨-, -, h⟩ := h
  split at h
  · obtain rfl := Except.pure_eq_ok.1 h
    refine ⟨rfl, rfl, fun key => ?_, fun id => rfl⟩
    simp [flow?, onEntry, Std.ExtTreeMap.getElem?_erase]
  · rename_i hnot
    obtain rfl := Except.pure_eq_ok.1 h
    refine ⟨rfl, rfl, fun key => ?_, fun id => rfl⟩
    simp only [flow?, entryAfter_cons, entryAfter_nil, onEntry, removes_eq_sweeps hnot,
      Std.ExtTreeMap.getElem?_filter']
    cases b.flows[key]? <;> by_cases hs : sweeps t p m key <;> simp [hs]

theorem addGroup_eq_ok {spec : GroupSpec} (h : b.addGroup spec = .ok next) :
    next = { b with groups := b.groups.insert spec.id spec } := by
  simp only [addGroup, Except.bind_eq_ok] at h
  obtain ⟨-, -, h⟩ := h
  split at h
  · cases h
  · exact (Except.pure_eq_ok.1 h).symm

theorem modifyGroup_eq_ok {spec : GroupSpec} (h : b.modifyGroup spec = .ok next) :
    next = { b with groups := b.groups.insert spec.id spec } := by
  simp only [modifyGroup, Except.bind_eq_ok] at h
  obtain ⟨-, -, h⟩ := h
  split at h
  · exact (Except.pure_eq_ok.1 h).symm
  · cases h

/-- Ensuring a group that succeeds sets it, whether it was there or not. -/
theorem ensureGroup_eq_ok {spec : GroupSpec} {effect : Effect}
    (h : b.ensureGroup spec = .ok (next, effect)) :
    next = { b with groups := b.groups.insert spec.id spec } := by
  obtain ⟨plan, -, h⟩ := Except.bind_eq_ok.1 h
  unfold ensureWith at h
  split at h
  · obtain ⟨next', hadd, heq⟩ := Except.map_eq_ok.1 h
    cases heq
    exact addGroup_eq_ok hadd
  · obtain ⟨next', hmodify, heq⟩ := Except.map_eq_ok.1 h
    cases heq
    exact modifyGroup_eq_ok hmodify

theorem perform_replayed {op : BridgeOp} {effect : Effect}
    (h : b.perform op = .ok (next, effect)) : Replayed b [op] next := by
  cases op with
  | addFlow entry =>
    obtain ⟨next', hadd, heq⟩ := Except.map_eq_ok.1 h
    cases heq
    simp only [addFlow, Except.bind_eq_ok, Except.pure_eq_ok] at hadd
    obtain ⟨-, -, rfl⟩ := hadd
    refine ⟨rfl, rfl, fun key => ?_, fun id => rfl⟩
    simp [flow?, onEntry, Std.ExtTreeMap.getElem?_insert]
  | deleteFlows t p m =>
    obtain ⟨next', hdelete, heq⟩ := Except.map_eq_ok.1 h
    cases heq
    exact deleteFlows_replayed hdelete
  | ensureGroup spec =>
    obtain rfl := ensureGroup_eq_ok h
    refine ⟨rfl, rfl, fun key => rfl, fun id => ?_⟩
    simp [group?, onGroup, Std.ExtTreeMap.getElem?_insert]
  | deleteGroup gone =>
    obtain ⟨next', hdelete, heq⟩ := Except.map_eq_ok.1 h
    cases heq
    simp only [deleteGroup, Except.bind_eq_ok, Except.pure_eq_ok] at hdelete
    obtain ⟨-, -, rfl⟩ := hdelete
    refine ⟨rfl, rfl, fun key => rfl, fun id => ?_⟩
    simp [group?, onGroup, Std.ExtTreeMap.getElem?_erase]
  | deleteAllGroups =>
    obtain ⟨next', hdelete, heq⟩ := Except.map_eq_ok.1 h
    cases heq
    simp only [deleteAllGroups, Except.bind_eq_ok, Except.pure_eq_ok] at hdelete
    obtain ⟨-, -, rfl⟩ := hdelete
    exact ⟨rfl, rfl, fun key => rfl, fun id => by simp [group?, onGroup]⟩

/-- A run that was not stopped leaves the tables that the fold over its operations says. -/
theorem execute_replayed (h : (b.execute ops).failure = none) :
    Replayed b ops (b.execute ops).bridge := by
  induction ops generalizing b with
  | nil => exact Replayed.nil b
  | cons op ops ih =>
    rw [execute] at h ⊢
    cases hop : b.perform op with
    | error e => simp [hop] at h
    | ok done =>
      simp only [hop] at h ⊢
      exact (perform_replayed hop).append (ih h)

/-! ## Bridges without injected failures -/

/-- Nothing stops a run on a bridge without injected failures. -/
theorem execute_ok (hb : b.failing = []) (ops : List BridgeOp) :
    (b.execute ops).failure = none := by
  induction ops generalizing b with
  | nil => rfl
  | cons op ops ih =>
    obtain ⟨⟨next, effect⟩, hop⟩ := perform_ok hb op
    rw [execute]
    simp only [hop]
    exact ih ((perform_replayed hop).failing.trans hb)

end Bridge

end ServiceChain
