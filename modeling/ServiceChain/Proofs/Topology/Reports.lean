import Mathlib.Data.List.Induction
import ServiceChain.Proofs.Topology.Calls

/-!
# Reports on nodes

One call gives a node that it mentions a status, by its own reports alone: error if one of them is of an
error (`Faults`), active if none is (`Clears`).  Nothing is remembered from call to call, so a list of
reports can be split in two just if no node has an error in the first part and is cleared by the second
(`recordStatuses_append_iff`), and after several calls a node has the status that the last one that
mentions it gives (`statusAfter_eq_active_iff`).
-/

namespace ServiceChain

namespace Topology

variable {t : Topology} {reports xs ys : List RuleReport} {calls before : List (List RuleReport)}
  {last : List RuleReport} {nodeId ruleId : String} {node : PathNode}

/-! ## One call -/

/-- A report is on the node. -/
def Mentions (reports : List RuleReport) (nodeId : String) : Prop :=
  ∃ report ∈ reports, report.nodeId = nodeId

/-- A report on the node is of an error. -/
def Faults (reports : List RuleReport) (nodeId : String) : Prop :=
  ∃ report ∈ reports, report.nodeId = nodeId ∧ report.status = .error

/-- There are reports on the node, and none of them is of an error. -/
def Clears (reports : List RuleReport) (nodeId : String) : Prop :=
  Mentions reports nodeId ∧ ¬ Faults reports nodeId

/-- The status that a call gives a node. -/
def heard? (reports : List RuleReport) (nodeId : String) : Option NodeStatus :=
  outcomeStatus? (outcomesOf reports) nodeId

theorem Faults.mentions (h : Faults reports nodeId) : Mentions reports nodeId := by
  obtain ⟨report, hreport, hnode, -⟩ := h
  exact ⟨report, hreport, hnode⟩

theorem mentions_append : Mentions (xs ++ ys) nodeId ↔ Mentions xs nodeId ∨ Mentions ys nodeId := by
  simp only [Mentions, List.mem_append, or_and_right, exists_or]

theorem faults_append : Faults (xs ++ ys) nodeId ↔ Faults xs nodeId ∨ Faults ys nodeId := by
  simp only [Faults, List.mem_append, or_and_right, exists_or]

theorem outcomesOf_concat (reports : List RuleReport) (report : RuleReport) :
    outcomesOf (reports ++ [report]) = takeReport (outcomesOf reports) report := by
  rw [outcomesOf, List.foldl_concat]
  rfl

theorem getElem?_takeReport {outcomes : Std.ExtTreeMap String Bool} {report : RuleReport} :
    (takeReport outcomes report)[nodeId]? =
      if report.nodeId = nodeId then
        some (outcomes[nodeId]?.getD true && report.status == .active)
      else outcomes[nodeId]? := by
  rw [takeReport, Std.ExtTreeMap.getElem?_alter]
  by_cases hnode : report.nodeId = nodeId
  · subst hnode
    cases outcomes[report.nodeId]? <;> simp
  · simp [hnode]

/-- The outcome of a node, taken in report by report, is what all reports on it come to. -/
theorem getElem?_outcomesOf (reports : List RuleReport) (nodeId : String) :
    (outcomesOf reports)[nodeId]? =
      if (reports.filter (·.nodeId == nodeId)).isEmpty then none
      else some ((reports.filter (·.nodeId == nodeId)).all (·.status == .active)) := by
  induction reports using List.reverseRecOn with
  | nil => exact Std.ExtTreeMap.getElem?_empty
  | append_singleton reports report ih =>
    rw [outcomesOf_concat, getElem?_takeReport, ih, List.filter_append]
    by_cases hnode : report.nodeId = nodeId
    · by_cases hnone : reports.filter (·.nodeId == nodeId) = []
      · simp [hnode, hnone]
      · simp [hnode, hnone, List.isEmpty_iff]
    · simp [hnode]

theorem heard?_eq (reports : List RuleReport) (nodeId : String) :
    heard? reports nodeId =
      if (reports.filter (·.nodeId == nodeId)).isEmpty then none
      else if (reports.filter (·.nodeId == nodeId)).all (·.status == .active) then some .active
      else some .error := by
  rw [heard?, outcomeStatus?, getElem?_outcomesOf]
  split
  · rfl
  · rw [Option.map_some, apply_ite some]

theorem isEmpty_filter_iff :
    (reports.filter (·.nodeId == nodeId)).isEmpty = true ↔ ¬ Mentions reports nodeId := by
  simp [Mentions]

theorem all_filter_iff :
    (reports.filter (·.nodeId == nodeId)).all (·.status == .active) = true ↔
      ¬ Faults reports nodeId := by
  have hstatus : ∀ status : RuleStatus, status = .active ↔ ¬ status = .error := by
    intro status
    cases status <;> decide
  simp [Faults, hstatus, imp_iff_not_or]

theorem heard?_of_not_mentions (h : ¬ Mentions reports nodeId) : heard? reports nodeId = none := by
  rw [heard?_eq, if_pos (isEmpty_filter_iff.2 h)]

theorem heard?_of_faults (h : Faults reports nodeId) : heard? reports nodeId = some .error := by
  rw [heard?_eq, if_neg, if_neg]
  · rw [all_filter_iff, not_not]
    exact h
  · rw [isEmpty_filter_iff, not_not]
    exact h.mentions

theorem heard?_of_clears (h : Clears reports nodeId) : heard? reports nodeId = some .active := by
  rw [heard?_eq, if_neg, if_pos (all_filter_iff.2 h.2)]
  rw [isEmpty_filter_iff, not_not]
  exact h.1

/-- A call does not mention a node, or clears it, or has an error of it. -/
theorem heard?_cases (reports : List RuleReport) (nodeId : String) :
    (heard? reports nodeId = none ∧ ¬ Mentions reports nodeId) ∨
      (heard? reports nodeId = some .active ∧ Clears reports nodeId) ∨
      (heard? reports nodeId = some .error ∧ Faults reports nodeId) := by
  by_cases hfaults : Faults reports nodeId
  · exact .inr (.inr ⟨heard?_of_faults hfaults, hfaults⟩)
  · by_cases hmentions : Mentions reports nodeId
    · exact .inr (.inl ⟨heard?_of_clears ⟨hmentions, hfaults⟩, hmentions, hfaults⟩)
    · exact .inl ⟨heard?_of_not_mentions hmentions, hmentions⟩

@[simp]
theorem id_reportTo {outcomes : Std.ExtTreeMap String Bool} :
    (reportTo outcomes node).id = node.id := rfl

theorem path?_recordStatuses (t : Topology) (reports : List RuleReport) (chainId : String) :
    (t.recordStatuses reports).1.path? chainId = (t.path? chainId).map
      (·.mapNodes fun node => { node with status := (heard? reports node.id).getD node.status }) :=
  Std.ExtTreeMap.getElem?_map

/-! ## A list of reports in two parts -/

theorem heard?_append_of_not_mentions (h : ¬ Mentions ys nodeId) :
    heard? (xs ++ ys) nodeId = heard? xs nodeId := by
  rcases heard?_cases xs nodeId with ⟨hheard, hxs⟩ | ⟨hheard, hxs⟩ | ⟨hheard, hxs⟩
  · rw [hheard, heard?_of_not_mentions]
    rw [mentions_append]
    exact not_or.2 ⟨hxs, h⟩
  · rw [hheard, heard?_of_clears]
    refine ⟨mentions_append.2 (.inl hxs.1), ?_⟩
    rw [faults_append]
    exact not_or.2 ⟨hxs.2, fun hys => h hys.mentions⟩
  · rw [hheard, heard?_of_faults (faults_append.2 (.inl hxs))]

/-- Two calls give a node what one with both lists gives it, unless the second clears it of an error. -/
theorem heard?_append_iff (status : NodeStatus) :
    (heard? (xs ++ ys) nodeId).getD status =
        (heard? ys nodeId).getD ((heard? xs nodeId).getD status) ↔
      ¬ (Faults xs nodeId ∧ Clears ys nodeId) := by
  rcases heard?_cases ys nodeId with ⟨hheard, hys⟩ | ⟨hheard, hys⟩ | ⟨hheard, hys⟩
  · rw [heard?_append_of_not_mentions hys, hheard]
    exact iff_of_true rfl fun h => hys h.2.1
  · rw [hheard]
    by_cases hxs : Faults xs nodeId
    · rw [heard?_of_faults (faults_append.2 (.inl hxs))]
      exact iff_of_false (by simp) fun h => h ⟨hxs, hys⟩
    · have hclears : Clears (xs ++ ys) nodeId := by
        refine ⟨mentions_append.2 (.inr hys.1), ?_⟩
        rw [faults_append]
        exact not_or.2 ⟨hxs, hys.2⟩
      rw [heard?_of_clears hclears]
      exact iff_of_true rfl fun h => hxs h.1
  · rw [hheard, heard?_of_faults (faults_append.2 (.inr hys))]
    exact iff_of_true rfl fun h => h.2.2 hys

theorem mapNodes_mapNodes {f g : PathNode → PathNode} {path : ChainPath} :
    (path.mapNodes f).mapNodes g = path.mapNodes (g ∘ f) := by
  simp [ChainPath.mapNodes]

theorem mapNodes_inj {f g : PathNode → PathNode} {path : ChainPath} :
    path.mapNodes f = path.mapNodes g ↔ ∀ node ∈ path.nodes, f node = g node := by
  simp only [ChainPath.mapNodes, ChainPath.mk.injEq, true_and, List.map_inj_left,
    ChainPath.mem_nodes, or_imp, forall_and, forall_eq]

/-- A list of reports can be handed over in two calls just if no node of a live chain has an error in the
first and is cleared by the second. -/
theorem recordStatuses_append_iff (t : Topology) (xs ys : List RuleReport) :
    (t.recordStatuses (xs ++ ys)).1 = ((t.recordStatuses xs).1.recordStatuses ys).1 ↔
      ∀ chainId path, t.path? chainId = some path → ∀ node ∈ path.nodes,
        ¬ (Faults xs node.id ∧ Clears ys node.id) := by
  -- a topology keeps all but its chains
  have hpaths : (t.recordStatuses (xs ++ ys)).1 = ((t.recordStatuses xs).1.recordStatuses ys).1 ↔
      ∀ chainId, (t.recordStatuses (xs ++ ys)).1.path? chainId =
        ((t.recordStatuses xs).1.recordStatuses ys).1.path? chainId := by
    refine ⟨fun h chainId => by rw [h], fun h => ?_⟩
    have hchains : (t.recordStatuses (xs ++ ys)).1.chains =
        ((t.recordStatuses xs).1.recordStatuses ys).1.chains :=
      Std.ExtTreeMap.ext_getElem? fun {chainId} => h chainId
    show { t with chains := (t.recordStatuses (xs ++ ys)).1.chains } =
      { t with chains := ((t.recordStatuses xs).1.recordStatuses ys).1.chains }
    rw [hchains]
  rw [hpaths]
  refine forall_congr' fun chainId => ?_
  simp only [path?_recordStatuses, Option.map_map]
  cases t.path? chainId with
  | none => simp
  | some path =>
    simp only [Option.map_some, Option.some.injEq, Function.comp_apply, mapNodes_mapNodes,
      mapNodes_inj, forall_eq']
    refine forall₂_congr fun node _ => ?_
    rw [← heard?_append_iff node.status]
    simp

/-! ## Calls in turn -/

/-- The status of a node that was being built, after some calls. -/
def statusAfter (calls : List (List RuleReport)) (nodeId : String) : NodeStatus :=
  calls.foldl (fun status reports => (heard? reports nodeId).getD status) .building

theorem statusAfter_concat (calls : List (List RuleReport)) (reports : List RuleReport)
    (nodeId : String) : statusAfter (calls ++ [reports]) nodeId =
      (heard? reports nodeId).getD (statusAfter calls nodeId) := by
  simp [statusAfter]

/-- The last call that mentions a node, and the calls before it. -/
def LastOn (calls : List (List RuleReport)) (nodeId : String) (before : List (List RuleReport))
    (last : List RuleReport) : Prop :=
  ∃ after, calls = before ++ last :: after ∧ Mentions last nodeId ∧
    ∀ reports ∈ after, ¬ Mentions reports nodeId

theorem lastOn_concat_iff : LastOn (calls ++ [reports]) nodeId before last ↔
    (Mentions reports nodeId ∧ before = calls ∧ last = reports) ∨
      (¬ Mentions reports nodeId ∧ LastOn calls nodeId before last) := by
  constructor
  · rintro ⟨after, hcalls, hlast, hafter⟩
    rcases List.eq_nil_or_concat after with rfl | ⟨after, reports', rfl⟩
    · obtain ⟨rfl, hreports⟩ := List.append_inj' hcalls rfl
      obtain rfl : reports = last := List.singleton_inj.1 hreports
      exact .inl ⟨hlast, rfl, rfl⟩
    · rw [List.concat_eq_append] at hcalls hafter
      have hcalls : calls ++ [reports] = (before ++ last :: after) ++ [reports'] := by simpa using hcalls
      obtain ⟨rfl, hreports⟩ := List.append_inj' hcalls rfl
      obtain rfl : reports = reports' := List.singleton_inj.1 hreports
      refine .inr ⟨hafter reports (by simp), after, rfl, hlast, ?_⟩
      intro other hother
      exact hafter other (List.mem_append_left _ hother)
  · rintro (⟨hreports, rfl, rfl⟩ | ⟨hreports, after, rfl, hlast, hafter⟩)
    · exact ⟨[], rfl, hreports, by simp⟩
    · refine ⟨after ++ [reports], by simp, hlast, ?_⟩
      intro other hother
      rcases List.mem_append.1 hother with hother | hother
      · exact hafter other hother
      · rw [List.mem_singleton.1 hother]
        exact hreports

theorem LastOn.unique {before' : List (List RuleReport)} {last' : List RuleReport}
    (h : LastOn calls nodeId before last) (h' : LastOn calls nodeId before' last') :
    before = before' ∧ last = last' := by
  induction calls using List.reverseRecOn with
  | nil =>
    obtain ⟨after, hcalls, -⟩ := h
    simp at hcalls
  | append_singleton calls reports ih =>
    rw [lastOn_concat_iff] at h h'
    by_cases hreports : Mentions reports nodeId
    · obtain ⟨-, rfl, rfl⟩ := h.resolve_right fun h => h.1 hreports
      obtain ⟨-, rfl, rfl⟩ := h'.resolve_right fun h' => h'.1 hreports
      exact ⟨rfl, rfl⟩
    · exact ih (h.resolve_left fun h => hreports h.1).2 (h'.resolve_left fun h' => hreports h'.1).2

/-- A node is active just if the last call that mentions it clears it. -/
theorem statusAfter_eq_active_iff : statusAfter calls nodeId = .active ↔
    ∃ before last, LastOn calls nodeId before last ∧ Clears last nodeId := by
  induction calls using List.reverseRecOn with
  | nil =>
    refine iff_of_false (by simp [statusAfter]) ?_
    rintro ⟨before, last, ⟨after, hcalls, -⟩, -⟩
    simp at hcalls
  | append_singleton calls reports ih =>
    rw [statusAfter_concat]
    simp only [lastOn_concat_iff]
    rcases heard?_cases reports nodeId with ⟨hheard, hreports⟩ | ⟨hheard, hreports⟩ | ⟨hheard, hreports⟩
    · rw [hheard, Option.getD_none, ih]
      simp only [hreports, false_and, not_false_eq_true, true_and, false_or]
    · rw [hheard]
      exact iff_of_true rfl ⟨calls, reports, .inl ⟨hreports.1, rfl, rfl⟩, hreports⟩
    · rw [hheard]
      refine iff_of_false (by simp) ?_
      rintro ⟨before, last, ⟨-, -, rfl⟩ | ⟨hnot, -⟩, hclears⟩
      · exact hclears.2 hreports
      · exact hnot hreports.mentions

/-! ## The latest report on a rule -/

/-- The latest status that was reported of a rule. -/
def latest? (calls : List (List RuleReport)) (ruleId : String) : Option RuleStatus :=
  ((calls.flatten.filter (·.id = ruleId)).getLast?).map RuleReport.status

theorem latest?_append (calls more : List (List RuleReport)) (ruleId : String) :
    latest? (calls ++ more) ruleId = (latest? more ruleId).or (latest? calls ruleId) := by
  simp [latest?, List.getLast?_append, Option.map_or]

theorem latest?_eq_none (h : ∀ reports ∈ calls, ∀ report ∈ reports, report.id ≠ ruleId) :
    latest? calls ruleId = none := by
  have hfilter : calls.flatten.filter (·.id = ruleId) = [] := by
    simp only [List.filter_eq_nil_iff, List.mem_flatten, decide_eq_true_eq]
    rintro report ⟨reports, hreports, hreport⟩
    exact h reports hreports report hreport
  simp [latest?, hfilter]

/-- What a call that clears a node tells of a rule of it. -/
theorem latest?_of_clears (hclears : Clears reports nodeId) (hrule : beforeColon ruleId = nodeId)
    (hreported : ¬ ∀ report ∈ reports, report.id ≠ ruleId) : latest? [reports] ruleId = some .active := by
  push Not at hreported
  obtain ⟨report, hreport, hid⟩ := hreported
  unfold latest?
  rw [List.flatten_singleton]
  cases hlatest : (reports.filter (·.id = ruleId)).getLast? with
  | none =>
    rw [List.getLast?_eq_none_iff, List.filter_eq_nil_iff] at hlatest
    exact absurd (by simpa using hid) (hlatest report hreport)
  | some latest =>
    obtain ⟨hmem, hlatest⟩ := List.mem_filter.1 (List.mem_of_getLast? hlatest)
    have hnode : latest.nodeId = nodeId := by
      rw [RuleReport.nodeId, of_decide_eq_true hlatest, hrule]
    cases hstatus : latest.status with
    | active => simp [hstatus]
    | error => exact absurd ⟨latest, hmem, hnode, hstatus⟩ hclears.2

/-- Of a rule of a node that the last call on it clears, the latest report is active just if that call
reports the rule, or the latest report before was. -/
theorem latest?_eq_active_iff (hlast : LastOn calls nodeId before last) (hclears : Clears last nodeId)
    (hrule : beforeColon ruleId = nodeId) : latest? calls ruleId = some .active ↔
      (∀ report ∈ last, report.id ≠ ruleId) → latest? before ruleId = some .active := by
  obtain ⟨after, rfl, -, hafter⟩ := hlast
  have hlater : latest? after ruleId = none := by
    refine latest?_eq_none fun reports hreports report hreport hid => hafter reports hreports ?_
    exact ⟨report, hreport, by rw [RuleReport.nodeId, hid, hrule]⟩
  rw [List.append_cons, latest?_append, hlater, Option.none_or, latest?_append]
  by_cases hreported : ∀ report ∈ last, report.id ≠ ruleId
  · rw [latest?_eq_none (by simpa using hreported), Option.none_or]
    exact ⟨fun h _ => h, fun h => h hreported⟩
  · rw [latest?_of_clears hclears hrule hreported]
    exact iff_of_true rfl fun h => absurd h hreported

end Topology

end ServiceChain
