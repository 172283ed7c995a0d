import ServiceChain.Proofs.Wire.Values
import ServiceChain.Wire.Rule

/-!
# Flow rules are read back from their records

A classifier, a next-hop group and a flow rule are read back from the record that is written for
them, whichever of their fields are left out (`FlowRule.ofJson?_toJson`).  A rule holds rules of other
chains, which hold rules in turn: the own fields of a rule are read back whatever it is that stands
under `shared_with` (`ofFields?_ownFields`), so a rule is read back if the rules that it holds are
(`ofJson?_toJson_of_shared`), and by induction every rule is (`FlowRule.inductionOn`).
-/

namespace ServiceChain

open Wire

namespace FlowClassifier

@[simp]
theorem readsBack : ReadsBack ofJson? toJson where
  read_write fc := by
    -- each field is read on its own, whatever the others are
    obtain ⟨fields, hjson, hread⟩ : ∃ fields, fc.toJson = .obj fields ∧
        required fields "id" readString = some fc.id ∧
        defaulted fields "ethertype" .ipv4 EtherType.ofJson? = some fc.etherType ∧
        optional fields "protocol" IpProtocol.ofJson? = some fc.protocol ∧
        optional fields "source_port_range_min" readUInt16 = some fc.sourcePortMin ∧
        optional fields "source_port_range_max" readUInt16 = some fc.sourcePortMax ∧
        optional fields "destination_port_range_min" readUInt16 = some fc.destinationPortMin ∧
        optional fields "destination_port_range_max" readUInt16 = some fc.destinationPortMax ∧
        optional fields "source_ip_prefix" IpNet.ofJson? = some fc.sourceNet ∧
        optional fields "destination_ip_prefix" IpNet.ofJson? = some fc.destinationNet ∧
        optional fields "logical_source_port" readString = some fc.logicalSource ∧
        optional fields "logical_destination_port" readString = some fc.logicalDestination ∧
        optional fields "lsp_mac_address" MacAddress.ofJson? = some fc.sourceMac ∧
        optional fields "ldp_mac_address" MacAddress.ofJson? = some fc.destinationMac :=
      ⟨_, rfl, by
        simp [required_eq, optional_eq, defaulted_eq, List.lookup_append, List.lookup_cons]⟩
    rw [ofJson?, hjson, bind_fieldsOf]
    simp only [hread]
    rfl
  write_ne_null _ := Json.noConfusion

end FlowClassifier

namespace NextHop

@[simp]
theorem readsBack : ReadsBack ofJson? toJson where
  read_write h := by
    obtain ⟨fields, hjson, hread⟩ : ∃ fields, h.toJson = .obj fields ∧
        required fields "portpair_id" readString = some h.portPairId ∧
        required fields "mac_address" MacAddress.ofJson? = some h.mac ∧
        required fields "weight" readUInt32 = some h.weight ∧
        optional fields "host_id" readString = some h.host :=
      ⟨_, rfl, by simp [required_eq, optional_eq, List.lookup_cons]⟩
    rw [ofJson?, hjson, bind_fieldsOf]
    simp only [hread]
    rfl
  write_ne_null _ := Json.noConfusion

end NextHop

namespace NextHopGroup

@[simp]
theorem readsBack : ReadsBack ofJson? toJson where
  read_write g := by
    obtain ⟨fields, hjson, hread⟩ : ∃ fields, g.toJson = .obj fields ∧
        required fields "group_id" readUInt32 = some g.id ∧
        required fields "members" (readList NextHop.ofJson?) = some g.members :=
      ⟨_, rfl, by simp [required_eq, List.lookup_cons]⟩
    rw [ofJson?, hjson, bind_fieldsOf]
    simp only [hread]
    rfl
  write_ne_null _ := Json.noConfusion

end NextHopGroup

namespace NodeRole

@[simp]
theorem readsBack : ReadsBack ofJson? toJson :=
  readsBack_name isNull (fun r => by cases r <;> simp) fun r r' => by cases r <;> cases r' <;> decide

end NodeRole

/-! ## Rules -/

namespace FlowRule

/-- The own fields of a rule are read back, whatever rules of other chains it holds. -/
theorem ofFields?_ownFields (r : FlowRule) {tail : Fields} (shared : List FlowRule)
    (htail : ∀ name ≠ "shared_with", tail.lookup name = none) :
    ofFields? (r.ownFields ++ tail) shared = some { r with sharedWith := shared } := by
  obtain ⟨fields, hfields, hread⟩ : ∃ fields, r.ownFields ++ tail = fields ∧
      required fields "id" readString = some r.id ∧
      required fields "node_role" NodeRole.ofJson? = some r.role ∧
      required fields "nsp" readUInt32 = some r.nsp ∧
      required fields "nsi" readUInt8 = some r.nsi ∧
      optional fields "ingress" readString = some r.ingress ∧
      optional fields "egress" readString = some r.egress ∧
      optional fields "host_id" readString = some r.host ∧
      required fields "segment_id" SegmentId.ofJson? = some r.segment ∧
      optional fields "next_hop_group" NextHopGroup.ofJson? = some r.nextGroup ∧
      optional fields "group_refcnt" readUInt32 = some r.groupRefs ∧
      defaulted fields "add_fcs" [] (readList FlowClassifier.ofJson?) = some r.addFcs ∧
      defaulted fields "del_fcs" [] (readList FlowClassifier.ofJson?) = some r.delFcs ∧
      defaulted fields "reverse_path" false readBool = some r.reversePath :=
    ⟨_, rfl, by
      simp [ownFields, required_eq, optional_eq, defaulted_eq, List.lookup_append,
        List.lookup_cons, htail]⟩
  rw [hfields, ofFields?]
  simp only [hread]
  rfl

theorem lookup_ownFields (r : FlowRule) : r.ownFields.lookup "shared_with" = none := by
  simp [ownFields, List.lookup_append, List.lookup_cons]

/-- Fields of other names are passed over in the search for the rules of other chains. -/
theorem sharedOf?_append {fields : Fields} (h : fields.lookup "shared_with" = none)
    (tail : Fields) : sharedOf? (fields ++ tail) = sharedOf? tail := by
  induction fields with
  | nil => rfl
  | cons field fields ih =>
    obtain ⟨name, value⟩ := field
    by_cases hname : name = "shared_with"
    · simp [hname] at h
    · rw [List.lookup_cons, beq_false_of_ne (Ne.symm hname)] at h
      rw [List.cons_append, sharedOf?, if_neg hname, ih h]

/-- A rule is written as its own fields and, if there are any, the rules of other chains. -/
theorem toJson_eq (r : FlowRule) : r.toJson = .obj (r.ownFields ++
    if r.sharedWith.isEmpty then [] else [("shared_with", .arr (listToJson r.sharedWith))]) := by
  cases r
  rfl

/-- A rule is read back if the rules of other chains that it holds are. -/
theorem ofJson?_toJson_of_shared {r : FlowRule}
    (h : itemsOf? (listToJson r.sharedWith) = some r.sharedWith) : ofJson? r.toJson = some r := by
  obtain ⟨tail, hjson, hshared, htail⟩ : ∃ tail, r.toJson = .obj (r.ownFields ++ tail) ∧
      sharedOf? tail = some r.sharedWith ∧ ∀ name ≠ "shared_with", tail.lookup name = none := by
    refine ⟨_, r.toJson_eq, ?_, ?_⟩
    · cases hrules : r.sharedWith with
      | nil => rfl
      | cons rule rules =>
        rw [hrules] at h
        exact h
    · intro name hname
      cases r.sharedWith with
      | nil => rfl
      | cons rule rules => simp [List.lookup_cons, beq_false_of_ne hname]
  rw [hjson, ofJson?, sharedOf?_append r.lookup_ownFields, hshared, Option.bind_some,
    ofFields?_ownFields r r.sharedWith htail]
  cases r
  rfl

/-- What holds of a rule if it holds of the rules of other chains in it holds of every rule. -/
@[elab_as_elim]
theorem inductionOn {motive : FlowRule → Prop} (r : FlowRule)
    (h : ∀ r : FlowRule, (∀ rule ∈ r.sharedWith, motive rule) → motive r) : motive r :=
  h r fun rule _ => inductionOn rule h
termination_by sizeOf r
decreasing_by
  -- a rule in the list is a part of the rule that holds the list
  have hlt : sizeOf rule < sizeOf r.sharedWith := List.sizeOf_lt_of_mem ‹_›
  refine hlt.trans ?_
  cases r
  simp only [mk.sizeOf_spec]
  omega

theorem itemsOf?_listToJson {rules : List FlowRule}
    (h : ∀ rule ∈ rules, ofJson? rule.toJson = some rule) : itemsOf? (listToJson rules) = some rules := by
  induction rules with
  | nil => rfl
  | cons rule rules ih =>
    obtain ⟨hrule, hrules⟩ := List.forall_mem_cons.1 h
    rw [listToJson, itemsOf?, hrule, ih hrules]

/-- Every rule is read back from the record written for it: with any fields left out, and with rules
of other chains nested in it to any depth. -/
theorem ofJson?_toJson (r : FlowRule) : ofJson? r.toJson = some r := by
  induction r using inductionOn with
  | h r ih => exact ofJson?_toJson_of_shared (itemsOf?_listToJson ih)

end FlowRule

end ServiceChain
