import ServiceChain.Proofs.Classifier.Bounds
import ServiceChain.Proofs.Rule.Passes

/-!
# Rules that compile

A classifier whose bounds are in order has match fields (`FlowClassifier.exists_matchFields`), and a
validated one has its bounds in order.  A rule with such classifiers whose ports are attached, both
of them unless it is for the head, compiles both ways (`Programmable.exists_installOps`,
`Programmable.exists_removeOps`).
-/

namespace ServiceChain

namespace FlowClassifier

/-- Both ranges of ports are in order. -/
structure Bounded (fc : FlowClassifier) : Prop where
  source : checkBounds fc.sourcePortMin fc.sourcePortMax = .ok ()
  destination : checkBounds fc.destinationPortMin fc.destinationPortMax = .ok ()

theorem bounded_of_validate {fc : FlowClassifier} {policy : ClassifierPolicy}
    (h : fc.validate policy = .ok ()) : fc.Bounded := by
  simp only [validate, Except.bind_eq_ok] at h
  obtain ⟨_, -, _, hsource, hdestination⟩ := h
  exact ⟨hsource, hdestination⟩

theorem Bounded.reversed {fc : FlowClassifier} (h : fc.Bounded) : fc.reversed.Bounded :=
  ⟨h.source, h.destination⟩

theorem exists_matchFields {fc : FlowClassifier} (h : fc.Bounded) :
    ∃ sets, fc.matchFields = .ok sets := by
  unfold matchFields
  split
  · exact ⟨[], rfl⟩
  · exact ⟨[], rfl⟩
  · obtain ⟨sources, hsources⟩ := exists_boundMasks_iff.2 ⟨_, h.source⟩
    obtain ⟨destinations, hdestinations⟩ := exists_boundMasks_iff.2 ⟨_, h.destination⟩
    rw [hsources, hdestinations]
    exact ⟨_, rfl⟩

end FlowClassifier

namespace FlowRule

variable {ctx : HostContext} {ports : PortTable} {r : FlowRule} {fcs : List FlowClassifier}

/-- A port is attached, if there is one. -/
def Attached (ports : PortTable) (id : Option String) : Prop :=
  ∀ port, id = some port → ∃ attached, ports[port]? = some attached

/-- The ports of the rule are attached, both of them unless it is for the head, and the ranges of
its classifiers are in order. -/
structure Programmable (ports : PortTable) (r : FlowRule) : Prop where
  ingress : Attached ports r.ingress
  egress : Attached ports r.egress
  whole : r.role ≠ .source → r.ingress.isSome ∧ r.egress.isSome
  addFcs : ∀ fc ∈ r.addFcs, fc.Bounded
  delFcs : ∀ fc ∈ r.delFcs, fc.Bounded

theorem Programmable.isWhole (h : r.Programmable ports) : r.IsWhole := by
  intro hrole
  exact h.whole (by simp [hrole])

theorem exists_inboundPort (h : Attached ports r.egress) :
    ∃ inPort, r.inboundPort ports = .ok inPort := by
  unfold inboundPort
  split
  · exact ⟨none, rfl⟩
  · rename_i id hid
    obtain ⟨port, hport⟩ := h id hid
    rw [hport]
    exact ⟨_, rfl⟩

theorem exists_ingressPort (h : Attached ports r.ingress) (hsome : r.ingress.isSome) :
    ∃ port, r.ingressPort ports = .ok port := by
  obtain ⟨id, hid⟩ := Option.isSome_iff_exists.1 hsome
  obtain ⟨port, hport⟩ := h id hid
  unfold ingressPort
  simp only [hid, hport]
  exact ⟨port, rfl⟩

theorem exists_nodeMac (hi : Attached ports r.ingress) (he : Attached ports r.egress)
    (hsome : r.ingress.isSome ∨ r.egress.isSome) : ∃ mac, r.nodeMac ports = .ok mac := by
  have hport : ∃ port, (r.ingress.bind (ports[·]?)).or (r.egress.bind (ports[·]?)) = some port := by
    cases hingress : r.ingress with
    | some id =>
      obtain ⟨port, hport⟩ := hi id hingress
      exact ⟨port, by simp [hport]⟩
    | none =>
      obtain ⟨id, hid⟩ := Option.isSome_iff_exists.1 (hsome.resolve_left (by simp [hingress]))
      obtain ⟨port, hport⟩ := he id hid
      exact ⟨port, by simp [hid, hport]⟩
  obtain ⟨port, hport⟩ := hport
  unfold nodeMac
  rw [hport]
  exact ⟨_, rfl⟩

theorem exists_classificationEntries (he : Attached ports r.egress)
    (hfcs : ∀ fc ∈ fcs, fc.Bounded) :
    ∃ entries, r.classificationEntries ports fcs = .ok entries := by
  obtain ⟨inPort, hport⟩ := exists_inboundPort he
  obtain ⟨sets, hsets⟩ := Except.exists_mapM_eq_ok fun fc hfc =>
    FlowClassifier.exists_matchFields (hfcs fc hfc)
  unfold classificationEntries
  rw [hport, hsets]
  exact ⟨_, rfl⟩

theorem exists_sourceEntries (hi : Attached ports r.ingress) (he : Attached ports r.egress)
    (hsome : r.ingress.isSome ∨ r.egress.isSome) :
    ∃ entries, r.sourceEntries ctx ports fcs = .ok entries := by
  obtain ⟨inPort, hport⟩ := exists_inboundPort he
  obtain ⟨mac, hmac⟩ := exists_nodeMac hi he hsome
  unfold sourceEntries
  rw [hport, hmac]
  cases r.activeGroup with
  | some group => exact ⟨_, rfl⟩
  | none => cases hempty : fcs.isEmpty <;> exact ⟨_, rfl⟩

theorem exists_egressEntries (hi : Attached ports r.ingress) (he : Attached ports r.egress)
    (hsome : r.ingress.isSome ∨ r.egress.isSome) (hfcs : ∀ fc ∈ fcs, fc.Bounded) :
    ∃ entries, r.egressEntries ctx ports fcs = .ok entries := by
  obtain ⟨classification, hclassification⟩ := exists_classificationEntries he hfcs
  obtain ⟨source, hsource⟩ := exists_sourceEntries hi he hsome
  unfold egressEntries
  rw [hclassification, hsource]
  by_cases hrole : r.role = .source
  · rw [if_pos hrole]
    exact ⟨_, rfl⟩
  · rw [if_neg hrole]
    exact ⟨_, rfl⟩

theorem exists_destinationEntries (hi : Attached ports r.ingress) (hsome : r.ingress.isSome) :
    ∃ entries, r.destinationEntries ctx ports fcs = .ok entries := by
  obtain ⟨port, hport⟩ := exists_ingressPort hi hsome
  unfold destinationEntries
  rw [hport]
  cases r.activeGroup with
  | none => cases fcs <;> exact ⟨_, rfl⟩
  | some group => cases fcs <;> exact ⟨_, rfl⟩

namespace Programmable

variable {p : Pass}

theorem removal (h : r.Programmable ports) (groupRefs : Option UInt32) (shared : List FlowRule) :
    (r.removal groupRefs shared).Programmable ports := by
  unfold FlowRule.removal
  exact
    { ingress := h.ingress
      egress := h.egress
      whole := h.whole
      addFcs := by simp
      delFcs := h.addFcs }

/-- Every pass of a programmable rule has entries, whichever classifiers it is given. -/
theorem exists_passEntries (h : r.Programmable ports) (hfcs : ∀ fc ∈ fcs, fc.Bounded)
    (hp : p ∈ r.installPasses) : ∃ entries, r.passEntries ctx ports fcs p = .ok entries := by
  have hturn : ∀ fc ∈ p.turn fcs, fc.Bounded := by
    unfold Pass.turn
    split
    · simp only [List.mem_map]
      rintro _ ⟨fc, hfc, rfl⟩
      exact (hfcs fc hfc).reversed
    · exact hfcs
  have hseen : Attached ports (r.seenBy p).ingress ∧ Attached ports (r.seenBy p).egress := by
    unfold seenBy reversed
    split
    · by_cases hrole : r.role = .source <;> simp [hrole, h.ingress, h.egress]
    · exact ⟨h.ingress, h.egress⟩
  rw [mem_installPasses] at hp
  obtain ⟨side, isReverse⟩ := p
  cases side with
  | egress =>
    refine exists_egressEntries hseen.1 hseen.2 ?_ hturn
    cases isReverse with
    | false => exact .inr hp
    | true => by_cases hrole : r.role = .source <;> simp [seenBy, reversed, hrole, hp.2]
  | ingress =>
    refine exists_destinationEntries hseen.1 ?_
    cases isReverse with
    | false => exact hp
    | true =>
      by_cases hrole : r.role = .source
      · simp [seenBy, reversed, hrole, hp.2]
      · simp [seenBy, reversed, hrole, (h.whole hrole).1]

theorem exists_installOps (h : r.Programmable ports) :
    ∃ ops, r.installOps ctx ports = .ok ops :=
  exists_passesOps fun _ hp => h.exists_passEntries h.addFcs hp

theorem exists_uninstallOps (h : r.Programmable ports) :
    ∃ ops, r.uninstallOps ctx ports = .ok ops :=
  FlowRule.exists_uninstallOps fun _ hp =>
    h.exists_passEntries h.delFcs ((mem_removalPasses h.isWhole).1 hp)

theorem exists_removeOps (h : r.Programmable ports) :
    ∃ ops, r.removeOps ctx ports = .ok ops := by
  obtain ⟨ops, hops⟩ : ∃ ops, r.uninstallOps ctx ports = .ok ops := h.exists_uninstallOps
  unfold removeOps
  rw [hops]
  exact ⟨_, rfl⟩

end Programmable

end FlowRule

end ServiceChain
