import ServiceChain.Proofs.Wire.Compact
import ServiceChain.Proofs.Wire.Rules

/-!
# Flow rules survive the wire

A rule holds rules of other chains, and each level of them opens two brackets more: that of the array and
that of the rule (`FlowRule.within_toJson`, `FlowRule.le_depth_toJson`).  The record of a rule is read back
however deep the rule is nested.  Its text is read back as well, unless the reader of texts bounds the
brackets that are open and refuses this one (`FlowRule.survives_wire`).
-/

namespace ServiceChain

namespace Json

variable {j : Json} {n n' : Nat}

/-- The value has numbers of 64 bits only, and no more open brackets than the given number. -/
def Within (n : Nat) (j : Json) : Prop := j.Whole ∧ j.depth ≤ n

theorem Within.mono (h : j.Within n) (hle : n ≤ n') : j.Within n' := ⟨h.1, h.2.trans hle⟩

@[simp]
theorem within_str (s : String) : (str s).Within n := ⟨.str s, Nat.zero_le n⟩

@[simp]
theorem within_bool (b : Bool) : (bool b).Within n := ⟨.bool b, Nat.zero_le n⟩

theorem within_nat {k : Nat} (h : k < UInt64.size) : (nat k).Within n :=
  have hmin : Int64.minValue.toInt ≤ 0 := by decide
  ⟨.int (hmin.trans (Int.natCast_nonneg k)) (Int.ofNat_lt.2 h), Nat.zero_le n⟩

theorem within_arr {items : List Json} (h : ∀ item ∈ items, item.Within n) :
    (arr items).Within (n + 1) := by
  refine ⟨.arr fun item hitem => (h item hitem).1, ?_⟩
  rw [depth, Nat.add_le_add_iff_right, depthOfItems_le]
  exact fun item hitem => (h item hitem).2

theorem within_obj {fields : List (String × Json)} (h : ∀ field ∈ fields, field.2.Within n) :
    (obj fields).Within (n + 1) := by
  refine ⟨.obj fun field hfield => (h field hfield).1, ?_⟩
  rw [depth, Nat.add_le_add_iff_right, depthOfFields_le]
  exact fun field hfield => (h field hfield).2

end Json

namespace Wire

open Json

variable {α : Type} {write : α → Json} {n : Nat}

@[simp]
theorem within_writeUInt8 (k : UInt8) : (writeUInt8 k).Within n :=
  within_nat (k.toNat_lt.trans (by decide))

@[simp]
theorem within_writeUInt16 (k : UInt16) : (writeUInt16 k).Within n :=
  within_nat (k.toNat_lt.trans (by decide))

@[simp]
theorem within_writeUInt32 (k : UInt32) : (writeUInt32 k).Within n :=
  within_nat (k.toNat_lt.trans (by decide))

@[simp]
theorem within_writeList (h : ∀ a, (write a).Within n) (items : List α) :
    (writeList write items).Within (n + 1) := by
  refine within_arr fun item hitem => ?_
  obtain ⟨a, -, rfl⟩ := List.mem_map.1 hitem
  exact h a

/-- The values of all fields are within a depth. -/
def FieldsWithin (n : Nat) (fields : Fields) : Prop := ∀ field ∈ fields, field.2.Within n

@[simp]
theorem fieldsWithin_nil : FieldsWithin n [] := fun _ h => absurd h List.not_mem_nil

@[simp]
theorem fieldsWithin_cons {name : String} {value : Json} {fields : Fields} :
    FieldsWithin n ((name, value) :: fields) ↔ value.Within n ∧ FieldsWithin n fields :=
  List.forall_mem_cons

@[simp]
theorem fieldsWithin_append {fields fields' : Fields} :
    FieldsWithin n (fields ++ fields') ↔ FieldsWithin n fields ∧ FieldsWithin n fields' :=
  List.forall_mem_append

@[simp]
theorem fieldsWithin_present {name : String} {v : Option α} :
    FieldsWithin n (present name write v) ↔ ∀ a ∈ v, (write a).Within n := by
  cases v <;> simp [present]

end Wire

open Json Wire

theorem FlowClassifier.within_toJson (fc : FlowClassifier) : fc.toJson.Within 1 := by
  apply within_obj
  change FieldsWithin 0 _
  simp [EtherType.toJson, IpProtocol.toJson, IpNet.toJson, MacAddress.toJson]

theorem NextHop.within_toJson (member : NextHop) : member.toJson.Within 1 := by
  apply within_obj
  change FieldsWithin 0 _
  simp [MacAddress.toJson]

theorem NextHopGroup.within_toJson (group : NextHopGroup) : group.toJson.Within 3 := by
  apply within_obj
  change FieldsWithin 2 _
  simp [NextHop.within_toJson]

theorem SegmentId.within_toJson (segment : SegmentId) {n : Nat} : segment.toJson.Within n :=
  within_nat (segment.le_max.trans_lt (by decide))

namespace FlowRule

mutual

/-- How deep rules of other chains are nested in the rule. -/
def nesting : FlowRule → Nat
  | ⟨_, _, _, _, _, _, _, _, _, _, _, _, _, shared⟩ => nestingOf shared

/-- How deep rules are nested in a rule that holds these ones. -/
def nestingOf : List FlowRule → Nat
  | [] => 0
  | rule :: rules => max (rule.nesting + 1) (nestingOf rules)

end

theorem nestingOf_le {rules : List FlowRule} {n : Nat} :
    nestingOf rules ≤ n ↔ ∀ rule ∈ rules, rule.nesting + 1 ≤ n := by
  induction rules with
  | nil => simp [nestingOf]
  | cons rule rules ih => rw [nestingOf, Nat.max_le, ih, List.forall_mem_cons]

theorem nesting_eq (r : FlowRule) : r.nesting = nestingOf r.sharedWith := by
  cases r
  rfl

theorem listToJson_eq (rules : List FlowRule) : listToJson rules = rules.map toJson := by
  induction rules with
  | nil => rfl
  | cons rule rules ih => rw [listToJson, ih, List.map_cons]

theorem fieldsWithin_ownFields (r : FlowRule) : FieldsWithin 3 r.ownFields := by
  have hclassifiers : ∀ fcs, (writeList FlowClassifier.toJson fcs).Within 3 := fun fcs =>
    (within_writeList FlowClassifier.within_toJson fcs).mono (by decide)
  simp [ownFields, NodeRole.toJson, SegmentId.within_toJson, NextHopGroup.within_toJson, hclassifiers]

/-- A rule has four brackets open in its next-hop group, and two more for each level that it is nested. -/
theorem within_toJson (r : FlowRule) : r.toJson.Within (2 * r.nesting + 4) := by
  induction r using inductionOn with
  | h r ih =>
    rw [toJson_eq]
    apply within_obj
    change FieldsWithin (2 * r.nesting + 3) _
    rw [fieldsWithin_append]
    refine ⟨fun field hfield => (fieldsWithin_ownFields r field hfield).mono (by omega), ?_⟩
    split
    · exact fieldsWithin_nil
    · have hshared : ∀ rule ∈ r.sharedWith, rule.toJson.Within (2 * r.nesting + 2) := by
        intro rule hrule
        have hlevel := nestingOf_le.1 (Nat.le_of_eq r.nesting_eq.symm) rule hrule
        exact (ih rule hrule).mono (by omega)
      rw [fieldsWithin_cons, listToJson_eq]
      refine ⟨within_arr fun item hitem => ?_, fieldsWithin_nil⟩
      obtain ⟨rule, hrule, rfl⟩ := List.mem_map.1 hitem
      exact hshared rule hrule

/-- Two brackets are open in the list of classifiers of a rule, and two more for each level. -/
theorem le_depth_toJson (r : FlowRule) : 2 * r.nesting + 2 ≤ r.toJson.depth := by
  induction r using inductionOn with
  | h r ih =>
    have hfield : ∀ field ∈ r.ownFields ++ (if r.sharedWith.isEmpty then [] else
        [("shared_with", .arr (listToJson r.sharedWith))]), field.2.depth + 1 ≤ r.toJson.depth := by
      intro field hfield
      rw [toJson_eq, depth, Nat.add_le_add_iff_right]
      exact depthOfFields_le.1 (Nat.le_refl _) field hfield
    have hown : 2 ≤ r.toJson.depth := by
      have hlist : (writeList FlowClassifier.toJson r.addFcs).depth + 1 ≤ r.toJson.depth :=
        hfield ("add_fcs", _) (List.mem_append_left _ (List.mem_append_right _ List.mem_cons_self))
      have hdepth : 1 ≤ (writeList FlowClassifier.toJson r.addFcs).depth := by
        rw [writeList, depth]
        omega
      omega
    have hshared : r.nesting ≤ (r.toJson.depth - 2) / 2 := by
      rw [nesting_eq, nestingOf_le]
      intro rule hrule
      have hlist : (arr (listToJson r.sharedWith)).depth + 1 ≤ r.toJson.depth :=
        hfield ("shared_with", _) (List.mem_append_right _ (by simp [List.ne_nil_of_mem hrule]))
      have hitem : rule.toJson.depth ≤ depthOfItems (listToJson r.sharedWith) :=
        depthOfItems_le.1 (Nat.le_refl _) _ (by rw [listToJson_eq]; exact List.mem_map_of_mem hrule)
      have hrule := ih rule hrule
      rw [depth] at hlist
      omega
    omega

/-- Every rule is read back from its record, with any fields left out and with rules of other chains nested
in it to any depth; and it is read back from its text unless more brackets are open there than the reader of
the text keeps track of, which are two for each level that rules are nested and two to four within the
innermost one. -/
theorem survives_wire (T : JsonText) (hT : T.Lawful) (r : FlowRule) :
    ofJson? r.toJson = some r ∧
      (2 * r.nesting + 2 ≤ r.toJson.depth ∧ r.toJson.depth ≤ 2 * r.nesting + 4) ∧
      (T.read? (T.write r.toJson)).bind ofJson? =
        if JsonText.admits T.limit r.toJson.depth then some r else none := by
  obtain ⟨hwhole, hdepth⟩ := r.within_toJson
  refine ⟨r.ofJson?_toJson, ⟨r.le_depth_toJson, hdepth⟩, ?_⟩
  split
  · next hfits => rw [hT.read_write _ hwhole hfits, Option.bind_some, ofJson?_toJson]
  · next hdeep => rw [hT.refuses _ hwhole hdeep, Option.bind_none]

/-- A rule for a service function. -/
def sampleHeld : FlowRule where
  id := "n:p"
  role := .serviceFunction
  nsp := 1
  nsi := 254
  segment := ⟨104, by decide, by decide⟩

/-- The rule with itself nested in it, down to a level. -/
def nested : Nat → FlowRule
  | 0 => sampleHeld
  | level + 1 => { sampleHeld with sharedWith := [nested level] }

theorem nesting_nested (level : Nat) : (nested level).nesting = level := by
  induction level with
  | zero => rfl
  | succ level ih => simp [nested, nesting, nestingOf, ih]

/-- A reader that follows 127 open brackets reads a rule that is nested 61 times, and refuses one that is
nested 63 times; without a bound it reads that one as well. -/
theorem nested_on_wire :
    ((compact (some 127)).read? ((compact (some 127)).write (nested 61).toJson)).bind ofJson? =
        some (nested 61) ∧
      ((compact (some 127)).read? ((compact (some 127)).write (nested 63).toJson)).bind ofJson? = none ∧
      ((compact none).read? ((compact none).write (nested 63).toJson)).bind ofJson? =
        some (nested 63) := by
  have hbounded := survives_wire (compact (some 127)) (compact_lawful _)
  obtain ⟨-, ⟨-, hshallow⟩, hread⟩ := hbounded (nested 61)
  obtain ⟨-, ⟨hdeep, -⟩, hrefused⟩ := hbounded (nested 63)
  obtain ⟨-, -, hunbounded⟩ := survives_wire (compact none) (compact_lawful none) (nested 63)
  rw [nesting_nested] at hshallow hdeep
  rw [hread, hrefused, hunbounded]
  refine ⟨if_pos (JsonText.admits_iff.2 fun bound hbound => ?_), if_neg fun h => ?_,
    if_pos (JsonText.admits_iff.2 fun _ hbound => ?_)⟩
  · obtain rfl := Option.some.inj hbound
    omega
  · have hfits := JsonText.admits_iff.1 h 127 rfl
    omega
  · cases hbound

end FlowRule

end ServiceChain
