import ServiceChain.Proofs.Rule.HeadTraffic

/-!
# Rules turned around

What a pass sees of a reversed rule is what the pass of the other direction sees of the rule
(`passOps_reversed`).  A bidirectional rule for the head, or with a port on either side, goes over the
same passes as the reversed rule does, in another order (`TwoWay.perm_installPasses`).  So one compiles
just if the other does, to the same operations in another order (`installOps_reversed`).
-/

namespace ServiceChain

namespace FlowRule

/-- The pass over the same side in the other direction. -/
def Pass.turned (p : Pass) : Pass := { p with isReverse := !p.isReverse }

/-- A rule for both directions whose passes pair up: it is for the head, or has a port on either side. -/
structure TwoWay (r : FlowRule) : Prop where
  reversePath : r.reversePath = true
  sides : r.role = .source ∨ (r.ingress.isSome ∧ r.egress.isSome)

variable {ctx : HostContext} {ports : PortTable} {r : FlowRule} {ops : List BridgeOp}
  {passes : List Pass}

theorem seenBy_reversed (r : FlowRule) (p : Pass) : r.reversed.seenBy p = r.seenBy p.turned := by
  obtain ⟨side, isReverse⟩ := p
  cases isReverse <;> simp [seenBy, Pass.turned]

theorem passOps_reversed (r : FlowRule) (install : Bool) (p : Pass) :
    r.reversed.passOps ctx ports install p = r.passOps ctx ports install p.turned := by
  unfold passOps
  rw [seenBy_reversed]
  rfl

theorem passesOps_reversed (r : FlowRule) (install : Bool) (passes : List Pass) :
    r.reversed.passesOps ctx ports install passes =
      r.passesOps ctx ports install (passes.map Pass.turned) := by
  unfold passesOps
  rw [List.mapM_map]
  congr 2
  funext p
  exact passOps_reversed r install p

theorem exists_perm_of_passesOps {install : Bool} {others : List Pass} (hperm : passes.Perm others)
    (h : r.passesOps ctx ports install passes = .ok ops) :
    ∃ back, r.passesOps ctx ports install others = .ok back ∧ ops.Perm back := by
  obtain ⟨opss, hopss, rfl⟩ := Except.map_eq_ok.1 h
  obtain ⟨backs, hbacks, hbacksPerm⟩ := Except.exists_perm_of_mapM hperm hopss
  exact ⟨backs.flatten, Except.map_eq_ok.2 ⟨backs, hbacks, rfl⟩, hbacksPerm.flatten⟩

/-! ## Rules for both directions -/

theorem TwoWay.reversed (h : r.TwoWay) : r.reversed.TwoWay where
  reversePath := h.reversePath
  sides := by
    rcases h.sides with hrole | hports
    · exact .inl hrole
    · by_cases hrole : r.role = .source
      · exact .inl hrole
      · refine .inr ?_
        simpa [FlowRule.reversed, hrole] using hports

/-- The passes of the reversed rule, turned, are those of the rule. -/
theorem TwoWay.perm_installPasses (h : r.TwoWay) :
    (r.reversed.installPasses.map Pass.turned).Perm r.installPasses := by
  have hreverse : r.reversed.reversePath = true := h.reversed.reversePath
  rcases h.sides with hrole | ⟨hingress, hegress⟩
  · -- at the head the ports change sides, so the sides of one port are those of the other
    have hports : r.reversed.ingress = r.egress ∧ r.reversed.egress = r.ingress := by
      simp [FlowRule.reversed, hrole]
    simp only [installPasses, hports, hreverse, h.reversePath]
    cases r.ingress.isSome <;> cases r.egress.isSome <;> decide
  · have hports : r.reversed.ingress.isSome ∧ r.reversed.egress.isSome := by
      by_cases hrole : r.role = .source <;> simp [FlowRule.reversed, hrole, hingress, hegress]
    simp only [installPasses, hports, hreverse, h.reversePath, hingress, hegress]
    decide

/-- What a rule for both directions compiles to, the reversed rule does in another order. -/
theorem TwoWay.exists_installOps_reversed (h : r.TwoWay) (hops : r.installOps ctx ports = .ok ops) :
    ∃ back, r.reversed.installOps ctx ports = .ok back ∧ ops.Perm back := by
  unfold installOps at hops ⊢
  rw [passesOps_reversed]
  exact exists_perm_of_passesOps h.perm_installPasses.symm hops

/-- A rule for both directions compiles just if the reversed rule does, both to the same operations in
some order; the rule reversed twice compiles as the rule. -/
theorem installOps_reversed (hreverse : r.reversePath = true)
    (hsides : r.role = .source ∨ (r.ingress.isSome ∧ r.egress.isSome)) (ctx : HostContext)
    (ports : PortTable) :
    ((∃ ops, r.installOps ctx ports = .ok ops) ↔ ∃ back, r.reversed.installOps ctx ports = .ok back) ∧
      (∀ ops back, r.installOps ctx ports = .ok ops → r.reversed.installOps ctx ports = .ok back →
        ops.Perm back) ∧
      r.reversed.reversed.installOps ctx ports = r.installOps ctx ports := by
  have htwo : r.TwoWay := ⟨hreverse, hsides⟩
  refine ⟨⟨?_, ?_⟩, ?_, by rw [reversed_reversed]⟩
  · rintro ⟨ops, hops⟩
    obtain ⟨back, hback, -⟩ := htwo.exists_installOps_reversed hops
    exact ⟨back, hback⟩
  · rintro ⟨back, hback⟩
    obtain ⟨ops, hops, -⟩ := htwo.reversed.exists_installOps_reversed hback
    exact ⟨ops, by rwa [reversed_reversed] at hops⟩
  · intro ops back hops hback
    obtain ⟨back', hback', hperm⟩ := htwo.exists_installOps_reversed hops
    obtain rfl := Except.ok.inj (hback.symm.trans hback')
    exact hperm

/-- A head with one port and traffic both ways. -/
def sampleHeadBothWays : FlowRule := { sampleHead with reversePath := true }

/-- The sample and its reverse compile to the same operations, in different orders. -/
theorem sampleHeadBothWays_reversed :
    ∃ ops back, sampleHeadBothWays.installOps ⟨"br-int", "h1", 99⟩ sampleHeadPorts = .ok ops ∧
      sampleHeadBothWays.reversed.installOps ⟨"br-int", "h1", 99⟩ sampleHeadPorts = .ok back ∧
      ops.Perm back ∧ ops ≠ back := by
  have horder : (sampleHeadBothWays.installOps ⟨"br-int", "h1", 99⟩ sampleHeadPorts).toOption ≠
      (sampleHeadBothWays.reversed.installOps ⟨"br-int", "h1", 99⟩ sampleHeadPorts).toOption := by
    decide +kernel
  obtain ⟨ops, hops⟩ : ∃ ops, sampleHeadBothWays.installOps ⟨"br-int", "h1", 99⟩ sampleHeadPorts =
      .ok ops := Except.exists_of_isOk (by decide +kernel)
  obtain ⟨hcompiles, hperm, -⟩ := installOps_reversed (r := sampleHeadBothWays) rfl (.inl rfl)
    ⟨"br-int", "h1", 99⟩ sampleHeadPorts
  obtain ⟨back, hback⟩ := hcompiles.1 ⟨ops, hops⟩
  refine ⟨ops, back, hops, hback, hperm ops back hops hback, ?_⟩
  rintro rfl
  exact horder (by rw [hops, hback])

end FlowRule

end ServiceChain
