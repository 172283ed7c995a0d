import ServiceChain.Proofs.Except
import ServiceChain.Proofs.Map
import ServiceChain.Proofs.Topology.WellFormed

/-!
# What a plan promises

The details that a plan brings are the ones already known, or new: those of the pairs of hops are
given by the store (`isPairOf_of_mem_details`), those of ends are found among the known ones or made
under ids that were never issued (`EndsFound`, `endDetails_found`).  So they agree with what is known
(`agrees_of_pairs`, `EndsFound.agrees`), and an end still has one detail at most.
-/

namespace ServiceChain

namespace Topology

variable {env : TopologyEnv} {t t' : Topology} {issued : Nat}

/-! ## Details of pairs -/

theorem agrees_of_pairs (hlaw : env.Lawful) (hgenuine : Genuine env issued t)
    {details : List PortDetail} (h : ∀ d ∈ details, d.IsPairOf env) : t.Agrees details where
  known d hd d' hd' := by
    obtain ⟨hid, hpair | ⟨e, n, -, binding, -, rfl⟩⟩ := hgenuine _ _ hd'
    · exact hpair.eq_of_id hlaw (h d hd) hid
    · have hid' := (ChainEnd.id_detail_bind e _ _).symm.trans hid
      exact absurd hid' ((h d hd).id_ne_newId hlaw n)
  unique d hd d' hd' hid := (h d hd).eq_of_id hlaw (h d' hd') hid

theorem bindingOf_eq_ok {port : String} {binding : PortBinding} :
    bindingOf env port = .ok binding ↔ env.store.binding? port = some binding := by
  unfold bindingOf
  cases env.store.binding? port <;> simp

theorem resolvePair_eq_ok {id : String} {rp : ResolvedPair} : resolvePair env id = .ok rp ↔
    env.store.pair? id = some rp.pair ∧ env.store.binding? rp.pair.ingress = some rp.ingress ∧
      env.store.binding? rp.pair.egress = some rp.egress := by
  unfold resolvePair
  cases hpair : env.store.pair? id with
  | none => simp
  | some pair =>
    simp only [Except.bind_eq_ok, Except.pure_eq_ok, bindingOf_eq_ok, Option.some.injEq]
    constructor
    · rintro ⟨ingress, hingress, egress, hegress, rfl⟩
      exact ⟨rfl, hingress, hegress⟩
    · rintro ⟨rfl, hingress, hegress⟩
      exact ⟨_, hingress, _, hegress, rfl⟩

theorem resolveHop_eq_ok {id : String} {hop : Hop} (h : resolveHop env id = .ok hop) :
    ∃ group, env.store.group? id = some group ∧ hop.groupId = group.groupId ∧
      group.pairs.mapM (resolvePair env) = .ok hop.pairs := by
  unfold resolveHop at h
  split at h
  · cases h
  · rename_i group hgroup
    simp only [Except.bind_eq_ok, Except.pure_eq_ok] at h
    obtain ⟨pairs, hpairs, rfl⟩ := h
    exact ⟨group, hgroup, rfl, hpairs⟩

/-- The details of a resolved hop are those of recorded pairs. -/
theorem isPairOf_of_mem_details {id : String} {hop : Hop} (h : resolveHop env id = .ok hop)
    {d : PortDetail} (hd : d ∈ hop.details.map (·.1)) : d.IsPairOf env := by
  obtain ⟨group, -, -, hpairs⟩ := resolveHop_eq_ok h
  simp only [Hop.details, List.map_map, List.mem_map, Function.comp_apply] at hd
  obtain ⟨rp, hrp, rfl⟩ := hd
  obtain ⟨pairId, -, hpair⟩ := Except.exists_of_mem_mapM hpairs hrp
  obtain ⟨hstored, hingress, -⟩ := resolvePair_eq_ok.1 hpair
  exact ⟨pairId, rp.pair, rp.ingress, hstored, hingress, rfl⟩

/-! ## Details of ends -/

theorem nodup_eraseDups {α : Type} [DecidableEq α] (as : List α) : as.eraseDups.Nodup := by
  induction hn : as.length using Nat.strongRecOn generalizing as with
  | ind n ih =>
    cases as with
    | nil => exact List.nodup_nil
    | cons a as =>
      rw [List.eraseDups_cons, List.nodup_cons]
      have hle := List.length_filter_le (fun b => !b == a) as
      rw [List.length_cons] at hn
      refine ⟨?_, ih _ (by omega) _ rfl⟩
      simp

theorem nodup_ofClassifiers (fcs : List FlowClassifier) : (ChainEnd.ofClassifiers fcs).Nodup :=
  nodup_eraseDups _

/-- A detail made for an end that had none, under an id whose number is in a range. -/
def IsNewEnd (env : TopologyEnv) (t : Topology) (next last : Nat) (ends : List ChainEnd)
    (d : PortDetail) : Prop :=
  ∃ e ∈ ends, t.endDetail? e = none ∧ ∃ n, next ≤ n ∧ n < last ∧
    ∃ binding, env.store.binding? e.port = some binding ∧
      d = (e.detail (env.newId n)).bind binding

/-- The details for ends: known ones, and new ones under ids with numbers in a range. -/
structure EndsFound (env : TopologyEnv) (t : Topology) (next last : Nat) (ends : List ChainEnd)
    (details : List PortDetail) : Prop where
  le : next ≤ last
  matched : List.Forall₂ (fun e d => e.isOf d) ends details
  found : ∀ d ∈ details, t.details[d.id]? = some d ∨ IsNewEnd env t next last ends d
  unique : ∀ d ∈ details, ∀ d' ∈ details, d.id = d'.id → d = d'

variable {next last : Nat} {ends : List ChainEnd} {details : List PortDetail} {d : PortDetail}

theorem IsNewEnd.exists_id (h : IsNewEnd env t next last ends d) :
    ∃ n, next ≤ n ∧ n < last ∧ d.id = env.newId n := by
  obtain ⟨e, -, -, n, hle, hlt, binding, -, rfl⟩ := h
  exact ⟨n, hle, hlt, ChainEnd.id_detail_bind _ _ _⟩

theorem IsNewEnd.isEndOf (h : IsNewEnd env t next last ends d) : d.IsEndOf env last := by
  obtain ⟨e, -, -, n, -, hlt, binding, hbinding, rfl⟩ := h
  exact ⟨e, n, hlt, binding, hbinding, rfl⟩

/-- An id that was not issued is the id of no known detail. -/
theorem Genuine.eq_none (hlaw : env.Lawful) (h : Genuine env issued t) {n : Nat}
    (hle : issued ≤ n) : t.details[env.newId n]? = none := by
  cases hknown : t.details[env.newId n]? with
  | none => rfl
  | some d =>
    obtain ⟨hid, hpair | ⟨e, m, hm, binding, -, rfl⟩⟩ := h _ _ hknown
    · exact absurd hid.symm (hpair.id_ne_newId hlaw n)
    · have hsame := hlaw.newId_injective ((ChainEnd.id_detail_bind e _ _).symm.trans hid)
      omega

/-- A new detail has the id of no known one. -/
theorem IsNewEnd.not_known (hlaw : env.Lawful) (hgenuine : Genuine env issued t')
    (hle : issued ≤ next) (h : IsNewEnd env t next last ends d) : t'.details[d.id]? = none := by
  obtain ⟨n, hn, -, hid⟩ := h.exists_id
  rw [hid]
  exact hgenuine.eq_none hlaw (Nat.le_trans hle hn)

theorem endDetail?_eq_some (hgenuine : Genuine env issued t) {e : ChainEnd}
    (h : t.endDetail? e = some d) : t.details[d.id]? = some d ∧ e.isOf d := by
  obtain ⟨id, hid⟩ := Std.ExtTreeMap.mem_values.1 (List.mem_of_find?_eq_some h)
  have hkey := (hgenuine id d hid).1
  subst hkey
  exact ⟨hid, List.find?_some h⟩

theorem IsNewEnd.mono {next' : Nat} {e : ChainEnd} (h : IsNewEnd env t next' last ends d)
    (hle : next ≤ next') : IsNewEnd env t next last (e :: ends) d := by
  obtain ⟨e', he', hnone, n, hn, hrest⟩ := h
  exact ⟨e', List.mem_cons_of_mem _ he', hnone, n, by omega, hrest⟩

/-- One more end, whose detail has the id of no other or is the same. -/
theorem EndsFound.cons {next' : Nat} {e : ChainEnd} (h : EndsFound env t next' last ends details)
    (hle : next ≤ next') (hof : e.isOf d)
    (hfound : t.details[d.id]? = some d ∨ IsNewEnd env t next last (e :: ends) d)
    (hsame : ∀ d' ∈ details, d.id = d'.id → d = d') :
    EndsFound env t next last (e :: ends) (d :: details) where
  le := Nat.le_trans hle h.le
  matched := .cons hof h.matched
  found d' hd' := by
    rcases List.mem_cons.1 hd' with rfl | hd'
    · exact hfound
    · exact (h.found d' hd').imp id (·.mono hle)
  unique d₁ hd₁ d₂ hd₂ hid := by
    rcases List.mem_cons.1 hd₁ with h₁ | h₁ <;> rcases List.mem_cons.1 hd₂ with h₂ | h₂
    · rw [h₁, h₂]
    · rw [h₁] at hid ⊢
      exact hsame d₂ h₂ hid
    · rw [h₂] at hid ⊢
      exact (hsame d₁ h₁ hid.symm).symm
    · exact h.unique d₁ h₁ d₂ h₂ hid

theorem endDetails_found (hlaw : env.Lawful) (hgenuine : Genuine env issued t)
    (hle : issued ≤ next) (h : t.endDetails env next ends = .ok (details, last)) :
    EndsFound env t next last ends details := by
  induction ends generalizing next details with
  | nil =>
    simp only [endDetails, Except.ok.injEq, Prod.mk.injEq] at h
    obtain ⟨rfl, rfl⟩ := h
    exact ⟨Nat.le_refl _, .nil, by simp, by simp⟩
  | cons e ends ih =>
    rw [endDetails] at h
    split at h
    · rename_i d hfound
      simp only [Except.bind_eq_ok, Except.pure_eq_ok, Prod.exists, Prod.mk.injEq] at h
      obtain ⟨rest, last', hrest, rfl, hlast⟩ := h
      rw [hlast] at hrest
      have hrest := ih hle hrest
      obtain ⟨hknown, hof⟩ := endDetail?_eq_some hgenuine hfound
      refine hrest.cons (Nat.le_refl _) hof (.inl hknown) fun d' hd' hid => ?_
      -- a new detail after it has a new id
      rcases hrest.found d' hd' with hknown' | hnew
      · rw [← hid, hknown] at hknown'
        exact Option.some.inj hknown'
      · have hnone := hnew.not_known hlaw hgenuine hle
        rw [← hid, hknown] at hnone
        cases hnone
    · rename_i hnone
      simp only [Except.bind_eq_ok, Except.pure_eq_ok, Prod.exists, Prod.mk.injEq] at h
      obtain ⟨binding, hbinding, rest, last', hrest, rfl, hlast⟩ := h
      rw [hlast] at hrest
      have hrest := ih (Nat.le_succ_of_le hle) hrest
      have hlt : next < last := hrest.le
      have hnew : IsNewEnd env t next last (e :: ends) ((e.detail (env.newId next)).bind binding) :=
        ⟨e, List.mem_cons_self, hnone, next, Nat.le_refl _, hlt, binding,
          bindingOf_eq_ok.1 hbinding, rfl⟩
      refine hrest.cons (Nat.le_succ _) (e.isOf_detail_bind _ _) (.inr hnew) fun d' hd' hid => ?_
      -- the ids after it are issued after it
      have hidNew := ChainEnd.id_detail_bind e (env.newId next) binding
      rcases hrest.found d' hd' with hknown | hnew'
      · have hnone := hnew.not_known hlaw hgenuine hle
        rw [hid, hknown] at hnone
        cases hnone
      · obtain ⟨n, hn, -, hid'⟩ := hnew'.exists_id
        have hsame := hlaw.newId_injective (hidNew.symm.trans (hid.trans hid'))
        omega

theorem EndsFound.exists_detail (h : EndsFound env t next last ends details) {e : ChainEnd}
    (he : e ∈ ends) : ∃ d ∈ details, e.isOf d := by
  have hmatched := h.matched
  clear h
  induction hmatched with
  | nil => cases he
  | cons hof _ ih =>
    rcases List.mem_cons.1 he with rfl | he
    · exact ⟨_, List.mem_cons_self, hof⟩
    · obtain ⟨d, hd, hof⟩ := ih he
      exact ⟨d, List.mem_cons_of_mem _ hd, hof⟩

theorem exists_end_of_matched (h : List.Forall₂ (fun e d => ChainEnd.isOf e d) ends details)
    (hd : d ∈ details) : ∃ e ∈ ends, e.isOf d := by
  induction h with
  | nil => cases hd
  | cons hof _ ih =>
    rcases List.mem_cons.1 hd with rfl | hd
    · exact ⟨_, List.mem_cons_self, hof⟩
    · obtain ⟨e, he, hof⟩ := ih hd
      exact ⟨e, List.mem_cons_of_mem _ he, hof⟩

theorem eq_of_matched (h : List.Forall₂ (fun e d => ChainEnd.isOf e d) ends details)
    (hnodup : ends.Nodup) {d' : PortDetail} (hd : d ∈ details) (hd' : d' ∈ details)
    {e : ChainEnd} (he : e.isOf d) (he' : e.isOf d') : d = d' := by
  induction h with
  | nil => cases hd
  | @cons e₀ d₀ ends details hof htail ih =>
    rw [List.nodup_cons] at hnodup
    have hnot : ∀ d ∈ details, e₀.isOf d → False := by
      intro d hd hof
      obtain ⟨e₁, he₁, hof₁⟩ := exists_end_of_matched htail hd
      exact hnodup.1 (ChainEnd.isOf_unique hof hof₁ ▸ he₁)
    rcases List.mem_cons.1 hd with h₁ | h₁ <;> rcases List.mem_cons.1 hd' with h₂ | h₂
    · rw [h₁, h₂]
    · rw [h₁] at he
      exact (hnot d' h₂ (ChainEnd.isOf_unique he hof ▸ he')).elim
    · rw [h₂] at he'
      exact (hnot d h₁ (ChainEnd.isOf_unique he' hof ▸ he)).elim
    · exact ih hnodup.2 h₁ h₂

/-- Where only details of pairs and those found for ends are added, an end still has one at most. -/
theorem EndsFound.end_unique (hbooked : Booked env t) (hnodup : ends.Nodup)
    (h : EndsFound env t next last ends details)
    (hadded : ∀ (id : String) (d : PortDetail), t'.details[id]? = some d →
      t.details[id]? = some d ∨ d.IsPairOf env ∨ d ∈ details ∧ d.id = id)
    (e : ChainEnd) (id id' : String) (d d' : PortDetail) (hd : t'.details[id]? = some d)
    (hd' : t'.details[id']? = some d') (he : e.isOf d) (he' : e.isOf d') : d = d' := by
  -- what stands for the end is known, or was made because nothing known did
  have hcases : ∀ {id : String} {d : PortDetail}, t'.details[id]? = some d → e.isOf d →
      t.details[id]? = some d ∨ d ∈ details ∧ t.endDetail? e = none := by
    intro id d hd he
    rcases hadded id d hd with hd | hpair | ⟨hmem, rfl⟩
    · exact .inl hd
    · exact absurd he (ChainEnd.not_isOf_of_pair hpair)
    · rcases h.found d hmem with hknown | ⟨e', -, hnone, n, -, -, binding, -, heq⟩
      · exact .inl hknown
      · refine .inr ⟨hmem, ?_⟩
        rw [heq] at he
        rw [ChainEnd.isOf_unique he (e'.isOf_detail_bind _ _)]
        exact hnone
  have hnone : ∀ {id : String} {d : PortDetail}, t.details[id]? = some d → e.isOf d →
      t.endDetail? e = none → False := by
    intro id d hd he hnone
    rw [endDetail?, List.find?_eq_none] at hnone
    exact hnone d (Std.ExtTreeMap.mem_values.2 ⟨id, hd⟩) he
  rcases hcases hd he with hold | ⟨hmem, hfree⟩ <;>
    rcases hcases hd' he' with hold' | ⟨hmem', hfree'⟩
  · exact hbooked.end_unique e id id' d d' hold hold' he he'
  · exact (hnone hold he hfree').elim
  · exact (hnone hold' he' hfree).elim
  · exact eq_of_matched h.matched hnodup hmem hmem' he he'

/-- What is found for ends agrees with what is known, also after other details were added. -/
theorem EndsFound.agrees (hlaw : env.Lawful) (hle : issued ≤ next)
    (h : EndsFound env t next last ends details) (hgenuine : Genuine env issued t')
    (hkept : ∀ (id : String) (d : PortDetail), t.details[id]? = some d → t'.details[id]? = some d) :
    t'.Agrees details where
  known d hd d' hd' := by
    rcases h.found d hd with hknown | hnew
    · exact Option.some.inj (hd'.symm.trans (hkept _ _ hknown))
    · rw [hnew.not_known hlaw hgenuine hle] at hd'
      cases hd'
  unique := h.unique

end Topology

end ServiceChain
