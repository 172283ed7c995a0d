import Mathlib.Data.List.Induction
import ServiceChain.Proofs.Topology.Tags

/-!
# Tags that are VLAN ids

A tag is never reserved that is the VLAN id of a known detail, but no tag is looked at when a detail on a
VLAN network is bound.  So the tag of a VXLAN network can be the VLAN id of a detail (`Collides`), though
only if the detail was bound when the network held the tag already: by a later call, or by the same call and
after a detail of the network (`BindsLate`).

Whichever calls are made, there is a collision exactly if a call bound its detail late and it has lasted since
(`CollidesLate`, `exists_late`).  Two rules of live details carry the same VLAN id only on account of one
VLAN, of one VXLAN network, or of such a collision (`segments_meet_late`).
-/

namespace ServiceChain

namespace Topology

variable {env : TopologyEnv} {t t' : Topology} {d d' : PortDetail} {details : List PortDetail}
  {vni : UInt32} {tag : SegmentId} {calls : List ChainCall}

/-! ## Collisions -/

/-- The tag of a VXLAN network is the VLAN id of a known detail. -/
structure Collides (t : Topology) (vni : UInt32) (tag : SegmentId) (d : PortDetail) : Prop where
  held : t.tags[vni]? = some tag
  known : t.details[d.id]? = some d
  vlan : ∃ vlan, d.vlan? = some vlan ∧ vlan.toNat = tag.toNat

/-- A detail that was not known is bound after a VXLAN network got a tag: the tag was held before, or a detail
of the network is bound earlier. -/
structure BindsLate (t : Topology) (details : List PortDetail) (vni : UInt32) (tag : SegmentId)
    (d : PortDetail) : Prop where
  new : t.details[d.id]? = none
  order : ∃ earlier later, details = earlier ++ d :: later ∧ d ∉ earlier ∧
    (t.tags[vni]? = some tag ∨ ∃ other ∈ earlier, other.vni? = some vni)

theorem vni?_of_vlan? {vlan : UInt32} (h : d.vlan? = some vlan) : d.vni? = none := by
  unfold PortDetail.vlan? at h
  split at h
  · rename_i hvlan
    simp [PortDetail.vni?, hvlan]
  · cases h

theorem details_enroll {other : PortDetail} {id : String} :
    (t.enroll other).details[id]? = if other.id = id then some other else t.details[id]? := by
  simp [Topology.enroll, Std.ExtTreeMap.getElem?_insert]

theorem Collides.settles (h : t'.Collides vni tag d) (hsettles : Settles t t') :
    t.Collides vni tag d :=
  ⟨hsettles.tag vni tag h.held, hsettles.detail d.id d h.known, h.vlan⟩

/-- Enrolling a detail brings no collision of another, and of its own only with a tag that is held. -/
theorem Collides.enroll {other : PortDetail} (h : (t.enroll other).Collides vni tag d) :
    t.tags[vni]? = some tag ∧ (t.details[d.id]? = some d ∨ other = d) := by
  have hdetail := h.known
  rw [details_enroll] at hdetail
  obtain ⟨vlan, hvlan, htag⟩ := h.vlan
  rcases tags_of_reserveTag h.held with hold | ⟨hvni, hfree⟩
  · refine ⟨hold, ?_⟩
    split at hdetail
    · exact .inr (Option.some.inj hdetail)
    · exact .inl hdetail
  · -- a tag that is new is no VLAN id of a known detail, and the detail it is taken for is on no VLAN
    split at hdetail
    · obtain rfl := Option.some.inj hdetail
      cases hvni.symm.trans (vni?_of_vlan? hvlan)
    · exact absurd (mem_usedVlans.2 (.inr ⟨d.id, d, vlan, hdetail, hvlan, htag⟩)) hfree

theorem BindsLate.cons {other : PortDetail} (h : t.BindsLate details vni tag d) (hne : d ≠ other) :
    t.BindsLate (other :: details) vni tag d := by
  obtain ⟨hnew, earlier, later, rfl, hnot, horder⟩ := h
  refine ⟨hnew, other :: earlier, later, rfl, by simp [hne, hnot], horder.imp_right ?_⟩
  rintro ⟨x, hx, hvni⟩
  exact ⟨x, List.mem_cons_of_mem _ hx, hvni⟩

/-- What is late after a detail is enrolled is late when that detail comes first. -/
theorem BindsLate.of_enroll {other : PortDetail}
    (h : (t.enroll other).BindsLate details vni tag d) :
    t.BindsLate (other :: details) vni tag d := by
  obtain ⟨hnew, earlier, later, rfl, hnot, horder⟩ := h
  rw [details_enroll] at hnew
  split at hnew
  · cases hnew
  · rename_i hid
    have hne : d ≠ other := fun h => hid (by rw [h])
    refine ⟨hnew, other :: earlier, later, rfl, by simp [hne, hnot], ?_⟩
    rcases horder with htag | ⟨x, hx, hvni⟩
    · refine (tags_of_reserveTag htag).imp_right fun hnew => ?_
      exact ⟨other, List.mem_cons_self, hnew.1⟩
    · exact .inr ⟨x, List.mem_cons_of_mem _ hx, hvni⟩

/-- The induction is over the details that are left to be enrolled: those before them have been, so what was
not known before them was not known at the start either. -/
theorem Enrolls.collides (h : Enrolls t details t') (hcollides : t'.Collides vni tag d)
    (hone : ∀ other, t.details[d.id]? = some other ∨ other ∈ details ∧ other.id = d.id → other = d) :
    t.Collides vni tag d ∨ t.BindsLate details vni tag d := by
  induction h with
  | done hdetails htags =>
    exact .inl ⟨htags ▸ hcollides.held, hdetails ▸ hcollides.known, hcollides.vlan⟩
  | @pass t _ other details hknown _ ih =>
    have hone' : ∀ x, t.details[d.id]? = some x ∨ x ∈ details ∧ x.id = d.id → x = d := fun x hx =>
      hone x (hx.imp_right fun h => ⟨List.mem_cons_of_mem _ h.1, h.2⟩)
    refine (ih hcollides hone').imp_right fun hlate => hlate.cons ?_
    rintro rfl
    rw [Std.ExtTreeMap.mem_iff_isSome_getElem?, hlate.new] at hknown
    cases hknown
  | @step t _ other details _ ih =>
    have hone' : ∀ x, (t.enroll other).details[d.id]? = some x ∨ x ∈ details ∧ x.id = d.id →
        x = d := by
      rintro x (hx | ⟨hx, hid⟩)
      · rw [details_enroll] at hx
        split at hx
        · rename_i hid
          obtain rfl := Option.some.inj hx
          exact hone _ (.inr ⟨List.mem_cons_self, hid⟩)
        · exact hone x (.inl hx)
      · exact hone x (.inr ⟨List.mem_cons_of_mem _ hx, hid⟩)
    rcases ih hcollides hone' with hcollides | hlate
    · obtain ⟨htag, hdetail | rfl⟩ := hcollides.enroll
      · exact .inl ⟨htag, hdetail, hcollides.vlan⟩
      · cases hold : t.details[other.id]? with
        | none => exact .inr ⟨hold, [], details, rfl, List.not_mem_nil, .inl htag⟩
        | some x =>
          obtain rfl := hone x (.inl hold)
          exact .inl ⟨htag, hold, hcollides.vlan⟩
    · exact .inr hlate.of_enroll

/-- A call brings a collision only by binding its detail late. -/
theorem collides_answer (hlaw : env.Lawful) (hwf : WellFormed env t) {call : ChainCall}
    (h : (t.answer env call).1.Collides vni tag d) :
    t.Collides vni tag d ∨ t.BindsLate (t.bindings env call) vni tag d := by
  obtain ⟨bound, hrebinds⟩ := exists_rebinds hlaw hwf call
  have hbound := h.settles hrebinds.settles
  refine hrebinds.enrolls.collides hbound fun other hother => ?_
  exact Option.some.inj (((hrebinds.detail d.id other).2 hother).symm.trans hbound.known)

/-! ## Runs -/

/-- The topology after some calls, successful or not. -/
def afterCalls (env : TopologyEnv) (t : Topology) (calls : List ChainCall) : Topology :=
  calls.foldl (fun t call => (t.answer env call).1) t

theorem afterCalls_append (calls calls' : List ChainCall) :
    t.afterCalls env (calls ++ calls') = (t.afterCalls env calls).afterCalls env calls' :=
  List.foldl_append

theorem Reachable.afterCalls (h : Reachable env t) (calls : List ChainCall) :
    Reachable env (t.afterCalls env calls) := by
  induction calls generalizing t with
  | nil => exact h
  | cons call calls ih => exact ih (h.answer call)

/-- One of the calls bound the detail late, and the collision has lasted since. -/
def CollidesLate (env : TopologyEnv) (calls : List ChainCall) (vni : UInt32) (tag : SegmentId)
    (d : PortDetail) : Prop :=
  ∃ before call after, calls = before ++ call :: after ∧
    (afterCalls env {} before).BindsLate ((afterCalls env {} before).bindings env call) vni tag d ∧
      ∀ front, front <+: after →
        (afterCalls env {} (before ++ call :: front)).Collides vni tag d

theorem exists_late (hlaw : env.Lawful) (h : (afterCalls env {} calls).Collides vni tag d) :
    CollidesLate env calls vni tag d := by
  induction calls using List.reverseRecOn with
  | nil => simpa [afterCalls] using h.held
  | append_singleton calls call ih =>
    have hlast := h
    rw [afterCalls_append] at hlast
    have hwf := (Reachable.empty.afterCalls calls).wellFormed hlaw
    rcases collides_answer hlaw hwf hlast with hbefore | hlate
    · obtain ⟨before, first, after, rfl, hlate, hlasts⟩ := ih hbefore
      refine ⟨before, first, after ++ [call], by simp, hlate, fun front hfront => ?_⟩
      rcases List.prefix_concat_iff.1 hfront with rfl | hfront
      · simpa using h
      · exact hlasts front hfront
    · refine ⟨calls, call, [], rfl, hlate, fun front hfront => ?_⟩
      obtain rfl := List.prefix_nil.1 hfront
      exact h

theorem CollidesLate.collides (h : CollidesLate env calls vni tag d) :
    (afterCalls env {} calls).Collides vni tag d := by
  obtain ⟨before, call, after, rfl, -, hlasts⟩ := h
  exact hlasts after (List.prefix_refl after)

/-! ## Rules -/

/-- A live chain has the rule, for the detail. -/
def HasLiveRule (env : TopologyEnv) (t : Topology) (d : PortDetail) (rule : FlowRule) : Prop :=
  ∃ chainId path node, t.path? chainId = some path ∧ HasRule env t path node d rule

/-- A detail with a host is on a network that carries chains. -/
theorem networkType_of_host (hwf : WellFormed env t) {id : String} (hd : t.details[id]? = some d)
    (hhost : d.host.isSome) : d.networkType = some .vlan ∨ d.networkType = some .vxlan := by
  have hbound : ∀ (x : PortDetail) (b : PortBinding), x.host = none → (x.bind b).host.isSome →
      (x.bind b).networkType = some .vlan ∨ (x.bind b).networkType = some .vxlan := by
    intro x b hnone hsome
    cases htype : b.networkType <;> simp_all [PortDetail.bind, NetworkType.isSupported]
  rcases (hwf.genuine id d hd).2 with ⟨-, pair, b, -, -, rfl⟩ | ⟨e, n, -, b, -, rfl⟩
  · exact hbound _ b rfl hhost
  · cases e <;> exact hbound _ b rfl hhost

/-- The VLAN id of a rule is the tag of its detail's VXLAN network, or that of its detail's VLAN. -/
theorem HasLiveRule.network (hwf : WellFormed env t) {rule : FlowRule}
    (h : HasLiveRule env t d rule) : t.details[d.id]? = some d ∧
      ((∃ vni, d.vni? = some vni ∧ t.tags[vni]? = some rule.segment) ∨
        ∃ vlan, d.vlan? = some vlan ∧ vlan.toNat = rule.segment.toNat) := by
  obtain ⟨chainId, path, node, -, hrule⟩ := h
  obtain ⟨id, -, hd⟩ := mem_nodeDetails.1 hrule.detail_mem
  obtain ⟨host, segment, hhost, hsegment, rfl⟩ := detailRule_eq_some.1 hrule.rule_eq
  obtain ⟨number, hnumber, hcarried⟩ := hasSegment_iff.2 hsegment
  refine ⟨by rwa [(hwf.genuine id d hd).1], ?_⟩
  rcases networkType_of_host hwf hd (by simp [hhost]) with hvlan | hvxlan
  · rw [hvlan, if_neg (by decide)] at hcarried
    exact .inr ⟨number, by rw [PortDetail.vlan?, hvlan, if_pos rfl, hnumber], hcarried⟩
  · rw [hvxlan, if_pos rfl] at hcarried
    exact .inl ⟨number, by rw [PortDetail.vni?, hvxlan, if_pos rfl, hnumber], hcarried⟩

/-- Whichever calls are made, the tag of a network is the VLAN id of a detail exactly if the detail was bound
late.  So where none was, live rules carry the same VLAN id only if their details are on one VLAN or on one
VXLAN network; otherwise the network of one may also have a tag that is the VLAN id of the other, bound
late. -/
theorem segments_meet_late (hlaw : env.Lawful) (calls : List ChainCall) :
    (∀ vni tag d, (afterCalls env {} calls).Collides vni tag d ↔ CollidesLate env calls vni tag d) ∧
      ∀ d d' rule rule', HasLiveRule env (afterCalls env {} calls) d rule →
        HasLiveRule env (afterCalls env {} calls) d' rule' → rule.segment = rule'.segment →
          (∃ vlan, d.vlan? = some vlan ∧ d'.vlan? = some vlan) ∨
            (∃ vni, d.vni? = some vni ∧ d'.vni? = some vni) ∨
            (∃ vni, d.vni? = some vni ∧ CollidesLate env calls vni rule.segment d') ∨
            ∃ vni, d'.vni? = some vni ∧ CollidesLate env calls vni rule.segment d := by
  have hreach : Reachable env (afterCalls env {} calls) := Reachable.empty.afterCalls calls
  have hwf := hreach.wellFormed hlaw
  refine ⟨fun vni tag d => ⟨exists_late hlaw, CollidesLate.collides⟩,
    fun d d' rule rule' hrule hrule' hsame => ?_⟩
  obtain ⟨hd, hnetwork⟩ := hrule.network hwf
  obtain ⟨hd', hnetwork'⟩ := hrule'.network hwf
  rw [← hsame] at hnetwork'
  rcases hnetwork with ⟨vni, hvni, htag⟩ | ⟨vlan, hvlan, hid⟩ <;>
    rcases hnetwork' with ⟨vni', hvni', htag'⟩ | ⟨vlan', hvlan', hid'⟩
  · obtain rfl := hreach.tagsDistinct hlaw vni vni' _ htag htag'
    exact .inr (.inl ⟨vni, hvni, hvni'⟩)
  · exact .inr (.inr (.inl ⟨vni, hvni, exists_late hlaw ⟨htag, hd', vlan', hvlan', hid'⟩⟩))
  · exact .inr (.inr (.inr ⟨vni', hvni', exists_late hlaw ⟨htag', hd, vlan, hvlan, hid⟩⟩))
  · obtain rfl : vlan = vlan' := UInt32.toNat_inj.1 (hid.trans hid'.symm)
    exact .inl ⟨vlan, hvlan, hvlan'⟩

/-! ## A sample -/

/-- Traffic comes from a port on the VLAN with the largest id, and its chain leads through a service function
on a VXLAN network. -/
def collidingEnv : TopologyEnv :=
  { tunnelEnv with
    store :=
      { tunnelEnv.store with
        binding? := fun port =>
          (tunnelBinding "s" .vlan (some 4094) 1 :: tunnelBindings).find? (·.portId == port) } }

theorem collidingEnv_lawful : collidingEnv.Lawful :=
  ⟨tunnelEnv_lawful.chain_id, tunnelEnv_lawful.pair_id, tunnelEnv_lawful.newId_injective,
    tunnelEnv_lawful.newId_ne_pair⟩

/-- The chain is created. -/
def colliding : Topology := afterCalls collidingEnv {} [.create "x"]

theorem exists_liveRule (chainId : String) {P : PathNode → PortDetail → FlowRule → Prop}
    [∀ node d rule, Decidable (P node d rule)]
    (h : (t.path? chainId).any fun path => path.nodes.any fun node => (t.nodeDetails node).any fun d =>
      (t.detailRule env node d path.classifiers [] none).toOption.join.any (P node d ·)) :
    ∃ node d rule, HasLiveRule env t d rule ∧ P node d rule := by
  simp only [Option.any_eq_true, List.any_eq_true, decide_eq_true_eq] at h
  obtain ⟨path, hpath, node, hnode, d, hd, rule, hrule, hP⟩ := h
  refine ⟨node, d, rule, ⟨chainId, path, node, hpath, hnode, hd, ?_⟩, hP⟩
  cases hfound : t.detailRule env node d path.classifiers [] none with
  | error e => simp [hfound, Except.toOption] at hrule
  | ok found => simpa [hfound, Except.toOption] using hrule

theorem colliding_rules : ∃ tag d d' rule rule', colliding.Collides 5000 tag d ∧
    HasLiveRule collidingEnv colliding d rule ∧ HasLiveRule collidingEnv colliding d' rule' ∧
      rule.segment = tag ∧ rule'.segment = tag ∧ d.vni? = none ∧ d'.vlan? = none := by
  have hwf := (Reachable.empty.afterCalls [.create "x"]).wellFormed collidingEnv_lawful
  obtain ⟨-, d, rule, hrule, hvlan, hsegment, hlargest⟩ : ∃ (_ : PathNode) (d : PortDetail)
      (rule : FlowRule), HasLiveRule collidingEnv colliding d rule ∧ d.vlan? = some 4094 ∧
        colliding.tags[(5000 : UInt32)]? = some rule.segment ∧ rule.segment.toNat = 4094 :=
    exists_liveRule "x" (by decide +kernel)
  obtain ⟨-, d', rule', hrule', hvlan', hsegment'⟩ : ∃ (_ : PathNode) (d : PortDetail)
      (rule : FlowRule), HasLiveRule collidingEnv colliding d rule ∧ d.vlan? = none ∧
        colliding.tags[(5000 : UInt32)]? = some rule.segment :=
    exists_liveRule "x" (by decide +kernel)
  have hcollides : colliding.Collides 5000 rule.segment d :=
    ⟨hsegment, (hrule.network hwf).1, 4094, hvlan, hlargest.symm⟩
  exact ⟨rule.segment, d, d', rule, rule', hcollides, hrule, hrule', rfl,
    Option.some.inj (hsegment'.symm.trans hsegment), vni?_of_vlan? hvlan, hvlan'⟩

/-- The two parts of the chain are on different networks, whose traffic is tagged alike. -/
theorem colliding_shares_segment :
    (∃ batches, (answer collidingEnv {} (.create "x")).2 = .ok batches) ∧
      (∃ tag d, colliding.Collides 5000 tag d) ∧
      ∃ d d' rule rule', HasLiveRule collidingEnv colliding d rule ∧
        HasLiveRule collidingEnv colliding d' rule' ∧ rule.segment = rule'.segment ∧
          d.vni? = none ∧ d'.vlan? = none := by
  obtain ⟨tag, d, d', rule, rule', hcollides, hrule, hrule', hsegment, hsegment', hvni, hvlan⟩ :=
    colliding_rules
  have hok : (answer collidingEnv {} (.create "x")).2.toOption.isSome := by decide +kernel
  refine ⟨?_, ⟨tag, d, hcollides⟩, d, d', rule, rule', hrule, hrule',
    hsegment.trans hsegment'.symm, hvni, hvlan⟩
  cases hresult : (answer collidingEnv {} (.create "x")).2 with
  | ok batches => exact ⟨batches, rfl⟩
  | error e => simp [hresult, Except.toOption] at hok

/-- The chain's source was bound after the service function, for whose network the tag was taken. -/
theorem colliding_late : ∃ tag d, colliding.Collides 5000 tag d ∧
    CollidesLate collidingEnv [.create "x"] 5000 tag d := by
  obtain ⟨tag, d, -, -, -, hcollides, -⟩ := colliding_rules
  have hlate := (segments_meet_late collidingEnv_lawful [.create "x"]).1 5000 tag d
  exact ⟨tag, d, hcollides, hlate.1 hcollides⟩

end Topology

end ServiceChain
