import ServiceChain.Proofs.Classifier.Traffic
import ServiceChain.Proofs.Rule.Compiles
import ServiceChain.Proofs.Rule.Keys

/-!
# The traffic that a head takes into its chain

The head of a chain has entries of the first table from two steps: the classification, which selects
what the classifiers select (`exists_classification_selects_iff`), and before a next-hop group the
steering entry, which selects all IPv4 traffic on the port for one address
(`exists_steering_selects_iff`).  So without a group the head takes exactly the classified traffic,
and with one also what is sent to the address of the first classifier that has one, or everything if
none has (`head_selects_iff`, `not_head_selects_classified`).
-/

namespace ServiceChain

/-- Some entry of the first table that the operations install selects the packet. -/
def TakesIn (ops : List BridgeOp) (p : Packet) : Prop :=
  ∃ entry : FlowEntry, .addFlow entry ∈ ops ∧ entry.key.table = .localSwitching ∧
    entry.key.pattern.selects p

namespace FlowClassifier

variable {fc : FlowClassifier} {sets : List MatchFields}

/-- Of IPv4 packets, the matches of any classifier select its traffic: one for IPv6 has neither. -/
theorem exists_selects_iff_of_ipv4 (h : fc.matchFields = .ok sets) (inPort : Option UInt32)
    {p : Packet} (hp : p.dlType = EtherType.ipv4Value) :
    (∃ fields ∈ sets, (fields.onPort inPort).selects p) ↔
      fc.selects p ∧ inPort.all (· == p.inPort) := by
  cases hether : fc.etherType with
  | ipv4 => exact exists_selects_iff hether h inPort p
  | ipv6 =>
    have hsets : sets = [] := by
      unfold matchFields at h
      rw [hether] at h
      cases h
      rfl
    have hnone : fc.selects p = false := by
      have hvalue : (EtherType.ipv6.value == EtherType.ipv4Value) = false := by decide
      simp only [selects, hether, hp, hvalue, Bool.false_and]
    simp [hsets, hnone]

end FlowClassifier

namespace FlowRule

variable {ctx : HostContext} {ports : PortTable} {r : FlowRule} {fcs : List FlowClassifier}
  {entries : List FlowEntry} {ops : List BridgeOp} {id : String} {port : Port} {p : Packet}

/-- The address is the first known one of a logical destination; any is, if none is known. -/
def SteeredTo (fcs : List FlowClassifier) (mac : MacAddress) : Prop :=
  ∀ known, fcs.findSome? (·.destinationMac) = some known → known = mac

theorem inboundPort_of_attached (hegress : r.egress = some id) (hport : ports[id]? = some port) :
    r.inboundPort ports = .ok (some port.number) := by
  simp [inboundPort, hegress, hport]

/-- The classification selects what the classifiers select. -/
theorem exists_classification_selects_iff (h : r.classificationEntries ports fcs = .ok entries)
    (hinbound : r.inboundPort ports = .ok (some port.number)) (hp : p.dlType = EtherType.ipv4Value)
    (hin : p.inPort = port.number) :
    (∃ entry ∈ entries, entry.key.table = .localSwitching ∧ entry.key.pattern.selects p) ↔
      ∃ fc ∈ fcs, fc.selects p := by
  constructor
  · rintro ⟨entry, hentry, -, hselects⟩
    obtain ⟨fc, hfc, inPort, sets, -, hsets, fields, hfields, rfl⟩ :=
      (mem_classificationEntries h).1 hentry
    have htraffic := (FlowClassifier.exists_selects_iff_of_ipv4 hsets inPort hp).1
      ⟨fields, hfields, hselects⟩
    exact ⟨fc, hfc, htraffic.1⟩
  · rintro ⟨fc, hfc, hselects⟩
    obtain ⟨sets, hsets⟩ : ∃ sets, fc.matchFields = .ok sets := by
      simp only [classificationEntries, Except.bind_eq_ok, Except.mapError_eq_ok] at h
      obtain ⟨-, -, sets, hsets, -⟩ := h
      exact Except.exists_mapM_iff.1 ⟨sets, hsets⟩ fc hfc
    obtain ⟨fields, hfields, hmatch⟩ :=
      (FlowClassifier.exists_selects_iff_of_ipv4 hsets (some port.number) hp).2
        ⟨hselects, by simp [hin]⟩
    exact ⟨_, (mem_classificationEntries h).2
      ⟨fc, hfc, some port.number, sets, hinbound, hsets, fields, hfields, rfl⟩, rfl, hmatch⟩

/-- Before a group, traffic for one address is steered; a head has nothing else of this kind in the
first table. -/
theorem exists_steering_selects_iff (hrole : r.role = .source)
    (h : r.sourceEntries ctx ports fcs = .ok entries)
    (hinbound : r.inboundPort ports = .ok (some port.number)) (hp : p.dlType = EtherType.ipv4Value)
    (hin : p.inPort = port.number) :
    (∃ entry ∈ entries, entry.key.table = .localSwitching ∧ entry.key.pattern.selects p) ↔
      r.activeGroup.isSome ∧ SteeredTo fcs p.dlDst := by
  cases hactive : r.activeGroup with
  | none =>
    simp only [Option.isSome_none, Bool.false_eq_true, false_and, iff_false]
    rintro ⟨entry, hentry, htable, -⟩
    rcases (mem_sourceEntries hactive h).1 hentry with ⟨inPort, -, hreturn⟩ | ⟨mac, -, fc, -, hsteer⟩
    · simp [returnEntries, hrole] at hreturn
    · obtain ⟨nwDst, -, rfl⟩ := Option.map_eq_some_iff.1 hsteer
      cases htable
  | some group =>
    obtain ⟨inPort, hinbound', rfl⟩ := (sourceEntries_of_group hactive).1 h
    obtain rfl := Except.ok.inj (hinbound'.symm.trans hinbound)
    simp only [groupSteeringEntries, Option.isNone_some, Bool.false_and, Bool.false_eq_true,
      if_false, List.mem_singleton, exists_eq_left, true_and, Option.isSome_some]
    unfold SteeredTo FlowMatch.selects
    cases fcs.findSome? (·.destinationMac) <;> simp [hp, hin]

/-- What a head takes in is what either of its steps selects in the first table; the members of its
group stand in another one. -/
theorem takesIn_egressOps (hrole : r.role = .source) (h : r.egressOps ctx ports fcs true = .ok ops) :
    ∃ classification source, r.classificationEntries ports fcs = .ok classification ∧
      r.sourceEntries ctx ports fcs = .ok source ∧
      (TakesIn ops p ↔
        (∃ entry ∈ classification, entry.key.table = .localSwitching ∧ entry.key.pattern.selects p) ∨
          ∃ entry ∈ source, entry.key.table = .localSwitching ∧ entry.key.pattern.selects p) := by
  obtain ⟨entries, hentries, rfl⟩ := Except.map_eq_ok.1 h
  obtain ⟨classification, source, hclassify, -, hsource, rfl⟩ := egressEntries_eq_ok.1 hentries
  refine ⟨classification, source, hclassify hrole, hsource, ?_⟩
  simp only [← exists_or, ← or_and_right, ← List.mem_append]
  constructor
  · rintro ⟨entry, hmem, htable, hselects⟩
    rcases List.mem_append.1 hmem with hgroup | hflow
    · unfold groupOps at hgroup
      split at hgroup
      · rcases mem_ensureOps.1 hgroup with hensure | ⟨member, -, hmember⟩
        · cases hensure
        · cases hmember
          cases htable
      · cases hgroup
    · obtain ⟨entry', hentry', heq⟩ := mem_flows.1 hflow
      cases heq
      exact ⟨entry', hentry', htable, hselects⟩
  · rintro ⟨entry, hentry, htable, hselects⟩
    exact ⟨entry, List.mem_append_right _ (mem_flows.2 ⟨entry, hentry, rfl⟩), htable, hselects⟩

/-- Of the IPv4 packets on its port, a head takes in the traffic of the classifiers, and before a
group also all that is for the steered address. -/
theorem head_selects_iff (hrole : r.role = .source) (hegress : r.egress = some id)
    (hport : ports[id]? = some port) (h : r.egressOps ctx ports fcs true = .ok ops)
    (hin : p.inPort = port.number) (hp : p.dlType = EtherType.ipv4Value) :
    TakesIn ops p ↔
      (∃ fc ∈ fcs, fc.selects p) ∨ r.activeGroup.isSome ∧ SteeredTo fcs p.dlDst := by
  have hinbound := inboundPort_of_attached hegress hport
  obtain ⟨classification, source, hclassify, hsource, htakes⟩ := takesIn_egressOps hrole h
  rw [htakes, exists_classification_selects_iff hclassify hinbound hp hin,
    exists_steering_selects_iff hrole hsource hinbound hp hin]

/-- The head of a chain before a group of one instance, with classified web traffic to one address. -/
def sampleHead : FlowRule where
  id := "n1:d1"
  role := .source
  nsp := 7
  nsi := 255
  egress := some "p1"
  host := some "h1"
  segment := ⟨101, by decide, by decide⟩
  nextGroup := some ⟨5, [⟨"a", ⟨#v[2, 0, 0, 0, 1, 3]⟩, 1, some "h1"⟩]⟩
  addFcs := [{ FlowClassifier.sampleWeb with
    destinationMac := some FlowClassifier.sampleRequest.dlDst }]

/-- The port of the head. -/
def sampleHeadPort : Port := ⟨11, ⟨#v[2, 0, 0, 0, 1, 9]⟩⟩

/-- A bridge with no other port. -/
def sampleHeadPorts : PortTable := (∅ : PortTable).insert "p1" sampleHeadPort

/-- A packet to the steered address that is no web traffic. -/
def sampleStray : Packet := { FlowClassifier.sampleRequest with tpDst := 22 }

theorem sampleHeadPorts_p1 : sampleHeadPorts["p1"]? = some sampleHeadPort := by
  simp [sampleHeadPorts]

theorem sampleHead_compiles :
    ∃ ops, sampleHead.egressOps ⟨"br-int", "h1", 99⟩ sampleHeadPorts sampleHead.addFcs true = .ok ops := by
  have hattached : Attached sampleHeadPorts sampleHead.egress := by
    rintro _ ⟨⟩
    exact ⟨_, sampleHeadPorts_p1⟩
  have hbounded : ∀ fc ∈ sampleHead.addFcs, fc.Bounded := by
    intro fc hfc
    obtain rfl := List.mem_singleton.1 hfc
    exact ⟨rfl, rfl⟩
  have hingress : Attached sampleHeadPorts sampleHead.ingress := by
    rintro _ ⟨⟩
  obtain ⟨entries, hentries⟩ : ∃ entries, sampleHead.egressEntries ⟨"br-int", "h1", 99⟩
      sampleHeadPorts sampleHead.addFcs = .ok entries :=
    exists_egressEntries hingress hattached (.inr rfl) hbounded
  exact ⟨_, Except.map_eq_ok.2 ⟨entries, hentries, rfl⟩⟩

theorem sampleHead_takes_stray :
    ∃ ops, sampleHead.egressOps ⟨"br-int", "h1", 99⟩ sampleHeadPorts sampleHead.addFcs true = .ok ops ∧
      TakesIn ops sampleStray := by
  obtain ⟨ops, hops⟩ := sampleHead_compiles
  refine ⟨ops, hops, (head_selects_iff rfl rfl sampleHeadPorts_p1 hops rfl rfl).2 (.inr ⟨rfl, ?_⟩)⟩
  rintro known ⟨⟩
  rfl

/-- Before a group, a head takes in traffic that no classifier selects. -/
theorem not_head_selects_classified :
    ¬∀ (ctx : HostContext) (ports : PortTable) (r : FlowRule) (fcs : List FlowClassifier)
      (ops : List BridgeOp) (id : String) (port : Port) (p : Packet), r.role = .source →
        r.egress = some id → ports[id]? = some port → r.egressOps ctx ports fcs true = .ok ops →
        p.inPort = port.number → p.dlType = EtherType.ipv4Value → p.dlVlan = none →
        (TakesIn ops p ↔ ∃ fc ∈ fcs, fc.selects p) := by
  intro hall
  obtain ⟨ops, hops⟩ := sampleHead_compiles
  have hclassified := hall _ _ _ _ ops _ _ sampleStray rfl rfl sampleHeadPorts_p1 hops rfl rfl rfl
  obtain ⟨classification, source, -, hsource, htakes⟩ := takesIn_egressOps rfl hops
  have hinbound : sampleHead.inboundPort sampleHeadPorts = .ok (some sampleHeadPort.number) :=
    inboundPort_of_attached rfl sampleHeadPorts_p1
  have hsteered : SteeredTo sampleHead.addFcs sampleStray.dlDst := by
    rintro known ⟨⟩
    rfl
  have hsource := (exists_steering_selects_iff rfl hsource hinbound rfl rfl).2 ⟨rfl, hsteered⟩
  obtain ⟨fc, hfc, hselects⟩ := hclassified.1 (htakes.2 (.inr hsource))
  obtain rfl := List.mem_singleton.1 hfc
  exact absurd hselects (by decide +kernel)

end FlowRule

end ServiceChain
