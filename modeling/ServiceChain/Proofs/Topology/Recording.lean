import ServiceChain.Proofs.Topology.Interference
import ServiceChain.Proofs.Topology.Reports

/-!
# One list of reports

A report is on the node whose id stands before the first colon of its own (`RuleReport.IsOn`).  One list of
reports gives each node that it mentions the status that all reports on it come to, and does nothing else
(`Topology.recordStatuses_folds`): every other node, the rules of every chain and all else stay as they
were.  So only the reports that occur matter, not how often or in which order
(`Topology.recordStatuses_congr`).
-/

namespace ServiceChain

/-! ## The node of a report -/

/-- The text before the first colon is the one that has no colon, and is followed by one or by nothing. -/
theorem beforeColon_eq_iff {s part : String} : beforeColon s = part ↔
    ':' ∉ part.toList ∧ (s = part ∨ ∃ rest, s = part ++ ":" ++ rest) := by
  unfold beforeColon
  constructor
  · rintro rfl
    cases hcut : Text.cut? ':' s.toList with
    | none => exact ⟨Text.cut?_eq_none_iff.1 hcut, .inl rfl⟩
    | some parts =>
      obtain ⟨l, r⟩ := parts
      obtain ⟨hs, hl⟩ := Text.eq_append_of_cut? hcut
      refine ⟨by simpa using hl, .inr ⟨String.ofList r, String.toList_injective ?_⟩⟩
      simp [hs]
  · rintro ⟨hpart, rfl | ⟨rest, rfl⟩⟩
    · rw [Text.cut?_eq_none_iff.2 hpart]
    · have hcut : Text.cut? ':' (part ++ ":" ++ rest).toList = some (part.toList, rest.toList) := by
        simp [Text.cut?_append_cons hpart]
      rw [hcut]
      exact String.ofList_toList

namespace RuleReport

/-- The id of the report is that of the node, or goes on with a colon after it; there is no colon in the id
of the node. -/
def IsOn (report : RuleReport) (nodeId : String) : Prop :=
  ':' ∉ nodeId.toList ∧ (report.id = nodeId ∨ ∃ rest, report.id = nodeId ++ ":" ++ rest)

variable {report : RuleReport} {nodeId : String}

theorem nodeId_eq_iff : report.nodeId = nodeId ↔ report.IsOn nodeId := beforeColon_eq_iff

instance : Decidable (report.IsOn nodeId) := decidable_of_iff _ nodeId_eq_iff

end RuleReport

namespace Topology

variable {env : TopologyEnv} {t : Topology} {reports others : List RuleReport} {nodeId : String}
  {node : PathNode}

/-! ## What the reports on a node come to -/

theorem mentions_iff : Mentions reports nodeId ↔ ∃ report ∈ reports, report.IsOn nodeId := by
  simp only [Mentions, RuleReport.nodeId_eq_iff]

theorem mentions_congr (h : ∀ report, report ∈ others ↔ report ∈ reports) :
    Mentions others nodeId ↔ Mentions reports nodeId := by
  simp only [Mentions, h]

theorem faults_congr (h : ∀ report, report ∈ others ↔ report ∈ reports) :
    Faults others nodeId ↔ Faults reports nodeId := by
  simp only [Faults, h]

/-- Lists with the same reports give a node the same status. -/
theorem heard?_congr (h : ∀ report, report ∈ others ↔ report ∈ reports) (nodeId : String) :
    heard? others nodeId = heard? reports nodeId := by
  rcases heard?_cases reports nodeId with ⟨hheard, hnot⟩ | ⟨hheard, hclears⟩ | ⟨hheard, hfaults⟩
  · rw [hheard, heard?_of_not_mentions (mt (mentions_congr h).1 hnot)]
  · rw [hheard, heard?_of_clears ⟨(mentions_congr h).2 hclears.1, mt (faults_congr h).1 hclears.2⟩]
  · rw [hheard, heard?_of_faults ((faults_congr h).2 hfaults)]

theorem isSome_heard?_iff : (heard? reports nodeId).isSome ↔ Mentions reports nodeId := by
  rcases heard?_cases reports nodeId with ⟨hheard, hnot⟩ | ⟨hheard, hclears⟩ | ⟨hheard, hfaults⟩
  · simp [hheard, hnot]
  · simp [hheard, hclears.1]
  · simp [hheard, hfaults.mentions]

/-! ## One call -/

theorem recordStatuses_eq (t : Topology) (reports : List RuleReport) : t.recordStatuses reports =
    ({ t with
        chains := t.chains.map fun _ path => path.mapNodes fun node =>
          { node with status := (heard? reports node.id).getD node.status } },
      t.allNodes.countP fun node => (heard? reports node.id).isSome) := rfl

/-- Neither the order of the reports matters nor how often each of them comes. -/
theorem recordStatuses_congr (h : ∀ report, report ∈ others ↔ report ∈ reports) :
    t.recordStatuses others = t.recordStatuses reports := by
  simp only [recordStatuses_eq, heard?_congr h]

/-- What a list of reports makes of a node. -/
structure Heeds (reports : List RuleReport) (node after : PathNode) : Prop where
  frame : after = { node with status := after.status }
  active : (∃ report ∈ reports, report.IsOn node.id) →
    (∀ report ∈ reports, report.IsOn node.id → report.status = .active) → after.status = .active
  error : (∃ report ∈ reports, report.IsOn node.id ∧ report.status ≠ .active) →
    after.status = .error
  kept : (¬ ∃ report ∈ reports, report.IsOn node.id) → after.status = node.status

theorem heeds_heard? (reports : List RuleReport) (node : PathNode) :
    Heeds reports node { node with status := (heard? reports node.id).getD node.status } where
  frame := rfl
  active hmentions hactive := by
    have hclears : Clears reports node.id := by
      refine ⟨mentions_iff.2 hmentions, ?_⟩
      rintro ⟨report, hreport, hnode, hstatus⟩
      rw [hactive report hreport (RuleReport.nodeId_eq_iff.1 hnode)] at hstatus
      cases hstatus
    show (heard? reports node.id).getD node.status = .active
    rw [heard?_of_clears hclears, Option.getD_some]
  error hfault := by
    obtain ⟨report, hreport, hon, hstatus⟩ := hfault
    have hfaults : Faults reports node.id := by
      refine ⟨report, hreport, RuleReport.nodeId_eq_iff.2 hon, ?_⟩
      cases hreported : report.status with
      | active => exact (hstatus hreported).elim
      | error => rfl
    show (heard? reports node.id).getD node.status = .error
    rw [heard?_of_faults hfaults, Option.getD_some]
  kept hnot := by
    show (heard? reports node.id).getD node.status = node.status
    rw [heard?_of_not_mentions (mt mentions_iff.1 hnot), Option.getD_none]

/-- The path of a chain after a list of reports. -/
structure PathHeeds (reports : List RuleReport) (path after : ChainPath) : Prop where
  classifiers : after.classifiers = path.classifiers
  nodes : List.Forall₂ (Heeds reports) path.nodes after.nodes

theorem pathHeeds_recordStatuses (t : Topology) (reports : List RuleReport) (chainId : String) :
    Option.Rel (PathHeeds reports) (t.path? chainId)
      ((t.recordStatuses reports).1.path? chainId) := by
  rw [path?_recordStatuses]
  cases t.path? chainId with
  | none => exact .none
  | some path =>
    refine .some ⟨rfl, ?_⟩
    rw [nodes_mapNodes, List.forall₂_map_right_iff]
    exact List.forall₂_same.2 fun node _ => heeds_heard? reports node

/-- A list of reports gives every node that it mentions the status that the reports on it come to, answers
how many these are, and changes nothing else; only which reports it has matters. -/
theorem recordStatuses_folds (env : TopologyEnv) (t : Topology) (reports : List RuleReport) :
    (∀ chainId, Option.Rel (PathHeeds reports) (t.path? chainId)
        ((t.recordStatuses reports).1.path? chainId)) ∧
      (t.recordStatuses reports).1 = { t with chains := (t.recordStatuses reports).1.chains } ∧
      (∀ chainId, (t.recordStatuses reports).1.flowRules env chainId = t.flowRules env chainId) ∧
      (t.recordStatuses reports).2 =
        (t.allNodes.filter fun node => ∃ report ∈ reports, report.IsOn node.id).length ∧
      ∀ others : List RuleReport, (∀ report, report ∈ others ↔ report ∈ reports) →
        t.recordStatuses others = t.recordStatuses reports := by
  refine ⟨pathHeeds_recordStatuses t reports, rfl, flowRules_recordStatuses t reports, ?_,
    fun others h => recordStatuses_congr h⟩
  rw [recordStatuses_eq, ← List.countP_eq_length_filter]
  refine List.countP_congr fun node _ => ?_
  rw [isSome_heard?_iff, mentions_iff, decide_eq_true_iff]

/-- Reports on the head `n` and the service function `nn` of a chain, and one on no node. -/
def mixedReports : List RuleReport :=
  [⟨"nn:p:q", .active⟩, ⟨"n", .active⟩, ⟨"n:", .error⟩, ⟨"m:p", .error⟩, ⟨"nn:p:q", .active⟩]

/-- One of the reports on the head is of an error. -/
theorem mixedReports_folded :
    (∃ path after, tunnelLive.path? "x" = some path ∧
        (tunnelLive.recordStatuses mixedReports).1.path? "x" = some after ∧
        PathHeeds mixedReports path after ∧ after.head.status = .error) ∧
      (tunnelLive.recordStatuses mixedReports).2 = 2 ∧
      tunnelLive.recordStatuses mixedReports.reverse = tunnelLive.recordStatuses mixedReports := by
  obtain ⟨hpaths, -, -, hcount, hsame⟩ := recordStatuses_folds tunnelEnv tunnelLive mixedReports
  refine ⟨?_, ?_, hsame _ fun report => List.mem_reverse⟩
  · have hhead : (tunnelLive.path? "x").map (·.head.id) = some "n" := by decide +kernel
    obtain ⟨path, hpath, hid⟩ := Option.map_eq_some_iff.1 hhead
    have hx := hpaths "x"
    rw [hpath] at hx
    cases hafter : (tunnelLive.recordStatuses mixedReports).1.path? "x" with
    | none =>
      rw [hafter] at hx
      cases hx
    | some after =>
      rw [hafter] at hx
      cases hx with
      | some hheeds =>
        refine ⟨path, after, hpath, rfl, hheeds, ?_⟩
        obtain ⟨hfirst, -⟩ := List.forall₂_cons.1 hheeds.nodes
        refine hfirst.error ⟨⟨"n:", .error⟩, by decide, ?_, by decide⟩
        rw [hid]
        decide
  · rw [hcount]
    decide +kernel

end Topology

end ServiceChain
