import ServiceChain.Proofs.Classifier.Reversal

/-!
# What is validated compiles

The ranges of a classifier are refused and fail to compile for the same bounds, and either way the source
range is read first.  So an IPv4 classifier that names a logical port fails to compile with the error that
it is refused with, and any classifier that passes compiles, with its sides exchanged or with other
networks and addresses just as well (`compiles_as_validated`).
-/

namespace ServiceChain

namespace FlowClassifier

variable {fc : FlowClassifier} {e : ClassifierError} {policy : ClassifierPolicy}

/-- The source range is read first, in compiling as in checking. -/
theorem IsV4.matchFields_eq_error (h : fc.IsV4) :
    fc.matchFields = .error e ↔ boundMasks fc.sourcePortMin fc.sourcePortMax = .error e ∨
      (∃ masks, boundMasks fc.sourcePortMin fc.sourcePortMax = .ok masks) ∧
        boundMasks fc.destinationPortMin fc.destinationPortMax = .error e := by
  obtain ⟨nets, hnets⟩ := h.exists_nets
  simp only [matchFields, h.etherType, hnets, Except.bind_eq_error, pure, Except.pure, reduceCtorEq,
    and_false, exists_false, or_false, exists_and_right]

theorem validate_eq_error (h : fc.checkLogicalPorts policy = .ok ()) :
    fc.validate policy = .error e ↔ checkBounds fc.sourcePortMin fc.sourcePortMax = .error e ∨
      (∃ done, checkBounds fc.sourcePortMin fc.sourcePortMax = .ok done) ∧
        checkBounds fc.destinationPortMin fc.destinationPortMax = .error e := by
  have hvalidate : fc.validate policy = checkBounds fc.sourcePortMin fc.sourcePortMax >>= fun _ =>
      checkBounds fc.destinationPortMin fc.destinationPortMax := by
    rw [validate, h]
    rfl
  rw [hvalidate, Except.bind_eq_error, exists_and_right]

theorem checkLogicalPorts_atLeastOne
    (h : fc.logicalSource.isSome ∨ fc.logicalDestination.isSome) :
    fc.checkLogicalPorts .atLeastOne = .ok () := by
  unfold checkLogicalPorts
  cases hsource : fc.logicalSource <;> cases hdestination : fc.logicalDestination <;>
    simp [hsource, hdestination] at h ⊢

/-- An IPv4 classifier that names a logical port fails to compile just if it is refused, for the same
reason.  Every classifier that passes under either policy compiles, for traffic of either direction and
whatever its networks and the addresses of its logical ports are. -/
theorem compiles_as_validated :
    (∀ (fc : FlowClassifier) (e : ClassifierError), fc.IsV4 →
        fc.logicalSource.isSome ∨ fc.logicalDestination.isSome →
          (fc.matchFields = .error e ↔ fc.validate .atLeastOne = .error e)) ∧
      ∀ (fc : FlowClassifier) (policy : ClassifierPolicy), fc.validate policy = .ok () →
        (∃ sets, fc.matchFields = .ok sets) ∧ (∃ sets, fc.reversed.matchFields = .ok sets) ∧
          ∀ (sourceNet destinationNet : Option IpNet) (sourceMac destinationMac : Option MacAddress),
            ∃ sets, { fc with sourceNet, destinationNet, sourceMac, destinationMac }.matchFields =
              .ok sets := by
  constructor
  · intro fc e hv4 hports
    rw [hv4.matchFields_eq_error, validate_eq_error (checkLogicalPorts_atLeastOne hports),
      boundMasks_eq_error_iff, boundMasks_eq_error_iff, exists_boundMasks_iff]
  · intro fc policy hvalid
    have hbounded := bounded_of_validate hvalid
    refine ⟨exists_matchFields hbounded, exists_matchFields hbounded.reversed, ?_⟩
    intro sourceNet destinationNet sourceMac destinationMac
    exact exists_matchFields ⟨hbounded.source, hbounded.destination⟩

/-- Its source bounds mean the ports up to 9000, and its destination bounds are inverted. -/
def sampleInverted : FlowClassifier where
  id := "inverted"
  sourcePortMin := some 0
  sourcePortMax := some 9000
  destinationPortMin := some 90
  destinationPortMax := some 80
  logicalSource := some "p1"

/-- Compiling the sample fails as it is refused; with its upper bound zero, it compiles for any network. -/
theorem sampleInverted_compiles_as_validated :
    sampleInverted.validate .atLeastOne = .error (.invertedRange ⟨90, 80⟩) ∧
      sampleInverted.matchFields = .error (.invertedRange ⟨90, 80⟩) ∧
      ({ sampleInverted with destinationPortMax := some 0 }).validate .exactlyOne = .ok () ∧
      ∃ sets, { sampleInverted with
        destinationPortMax := some 0, sourceNet := some (.v4 Ipv4Net.any) }.matchFields = .ok sets := by
  obtain ⟨hfails, hpasses⟩ := compiles_as_validated
  have hv4 : sampleInverted.IsV4 := ⟨rfl, nofun, nofun⟩
  have hrefused : sampleInverted.validate .atLeastOne = .error (.invertedRange ⟨90, 80⟩) := rfl
  have hvalid : ({ sampleInverted with destinationPortMax := some 0 }).validate .exactlyOne =
      .ok () := rfl
  obtain ⟨-, -, hreplaced⟩ := hpasses _ _ hvalid
  exact ⟨hrefused, (hfails _ _ hv4 (.inl rfl)).2 hrefused, hvalid,
    hreplaced (some (.v4 Ipv4Net.any)) none none none⟩

end FlowClassifier

end ServiceChain
