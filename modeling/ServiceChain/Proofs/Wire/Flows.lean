import ServiceChain.Proofs.Wire.Values
import ServiceChain.Wire.Flow

/-!
# Flow entries, groups and operations survive the wire

A match is read back whichever of its fields are left out, an action whichever it is, and both wherever
they stand: the readers are told what stands for nothing after a name, and what is written never asks
for it.  An operation writes its name beside the fields of an entry or of a group, which are read among
fields of other names (`FlowEntry.ofFields?_append`, `GroupSpec.ofFields?_append`).

The removal of a single group is a bare number.  It has no record, and no record is read as one, so it is
the one operation that does not survive the wire (`BridgeOp.survives_iff`).
-/

namespace ServiceChain

open Wire

variable {isNothing : Json → Bool}

namespace Table

@[simp]
theorem readsBack : ReadsBack (ofJsonWith? isNothing) toJson :=
  readsBack_name isNothing (fun t => by cases t <;> simp) fun t t' => by cases t <;> cases t' <;> decide

end Table

namespace FlowMatch

@[simp]
theorem readsBack : ReadsBack ofJson? toJson where
  read_write m := by
    -- each field is read on its own, whether the others are written or not
    obtain ⟨fields, hjson, hread⟩ : ∃ fields, m.toJson = .obj fields ∧
        optional fields "in_port" readUInt32 = some m.inPort ∧
        optional fields "dl_type" readUInt16 = some m.dlType ∧
        optional fields "dl_vlan" readUInt16 = some m.dlVlan ∧
        optional fields "dl_dst" MacAddress.ofJson? = some m.dlDst ∧
        optional fields "mpls_label" readUInt32 = some m.mplsLabel ∧
        optional fields "nw_proto" readUInt8 = some m.nwProto ∧
        optional fields "nw_src" Ipv4Net.ofJson? = some m.nwSrc ∧
        optional fields "nw_dst" Ipv4Net.ofJson? = some m.nwDst ∧
        optional fields "tp_src" PortMask.ofJson? = some m.tpSrc ∧
        optional fields "tp_dst" PortMask.ofJson? = some m.tpDst :=
      ⟨_, rfl, by simp [optional_eq, List.lookup_append]⟩
    show (fieldsOf m.toJson).bind ofFields? = some m
    rw [hjson, fieldsOf, Option.bind_some, ofFields?]
    simp only [hread]
    rfl
  write_ne_null _ := Json.noConfusion

end FlowMatch

namespace FlowAction

@[simp]
theorem readsBack : ReadsBack (ofJsonWith? isNothing) toJson where
  read_write action := by
    cases action with
    | stripVlan => rfl
    | drop => rfl
    | modVlanVid vid => simp [toJson, ofJsonWith?, readsBack_uint16.read_write]
    | modDlSrc mac => simp [toJson, ofJsonWith?, MacAddress.readsBack.read_write]
    | modDlDst mac => simp [toJson, ofJsonWith?, MacAddress.readsBack.read_write]
    | output port => simp [toJson, ofJsonWith?, readsBack_uint32.read_write]
    | resubmit table => simp [toJson, ofJsonWith?, Table.readsBack.read_write]
    | gotoTable table => simp [toJson, ofJsonWith?, Table.readsBack.read_write]
    | group id => simp [toJson, ofJsonWith?, readsBack_uint32.read_write]
  write_ne_null action := by cases action <;> exact Json.noConfusion

end FlowAction

namespace FlowEntry

/-- An entry is read from its fields behind fields of other names. -/
theorem ofFields?_append (e : FlowEntry) (others : Fields)
    (hothers : ∀ field ∈ e.toFields, others.lookup field.1 = none) :
    ofFields? isNothing (others ++ e.toFields) = some e := by
  simp only [toFields, List.forall_mem_cons] at hothers
  obtain ⟨htable, hpriority, hmatches, hactions, -⟩ := hothers
  obtain ⟨fields, hfields, hread⟩ : ∃ fields, others ++ e.toFields = fields ∧
      required fields "table" (Table.ofJsonWith? isNothing) = some e.key.table ∧
      required fields "priority" readUInt16 = some e.key.priority ∧
      required fields "matches" FlowMatch.ofJson? = some e.key.pattern ∧
      required fields "actions" (readList (FlowAction.ofJsonWith? isNothing)) = some e.actions :=
    ⟨_, rfl, by
      simp [toFields, required_eq, List.lookup_append, List.lookup_cons, htable, hpriority, hmatches,
        hactions]⟩
  rw [hfields, ofFields?]
  simp only [hread]
  rfl

end FlowEntry

namespace GroupType

@[simp]
theorem readsBack : ReadsBack (ofJsonWith? isNothing) toJson :=
  readsBack_name isNothing (fun t => by cases t; simp) fun t t' _ => by cases t; cases t'; rfl

end GroupType

namespace Bucket

@[simp]
theorem readsBack : ReadsBack (ofJsonWith? isNothing) toJson where
  read_write b := by
    obtain ⟨fields, hjson, hread⟩ : ∃ fields, b.toJson = .obj fields ∧
        required fields "weight" readUInt32 = some b.weight ∧
        required fields "actions" (readList (FlowAction.ofJsonWith? isNothing)) = some b.actions :=
      ⟨_, rfl, by simp [required_eq, List.lookup_cons]⟩
    rw [ofJsonWith?, hjson, bind_fieldsOf]
    simp only [hread]
    rfl
  write_ne_null _ := Json.noConfusion

end Bucket

namespace GroupSpec

/-- A group is read from its fields behind fields of other names. -/
theorem ofFields?_append (g : GroupSpec) (others : Fields)
    (hothers : ∀ field ∈ g.toFields, others.lookup field.1 = none) :
    ofFields? isNothing (others ++ g.toFields) = some g := by
  simp only [toFields, List.forall_mem_cons] at hothers
  obtain ⟨hid, htype, hbuckets, -⟩ := hothers
  obtain ⟨fields, hfields, hread⟩ : ∃ fields, others ++ g.toFields = fields ∧
      required fields "group_id" readUInt32 = some g.id ∧
      required fields "group_type" (GroupType.ofJsonWith? isNothing) = some g.type ∧
      required fields "buckets" (readList (Bucket.ofJsonWith? isNothing)) = some g.buckets :=
    ⟨_, rfl, by
      simp [toFields, required_eq, List.lookup_append, List.lookup_cons, hid, htype, hbuckets]⟩
  rw [hfields, ofFields?]
  simp only [hread]
  rfl

end GroupSpec

/-! ## Operations -/

namespace BridgeOp

variable {op : BridgeOp} {j : Json}

/-- What was written for an operation is read as that operation. -/
theorem ofJsonWith?_of_toJson? (h : op.toJson? = some j) : ofJsonWith? isNothing j = some op := by
  cases op with
  | addFlow entry =>
    obtain ⟨fields, hjson, hname, hread⟩ : ∃ fields, (addFlow entry).toJson? = some (.obj fields) ∧
        required fields "op" readString = some "add_flow" ∧
        FlowEntry.ofFields? isNothing fields = some entry :=
      ⟨_, rfl, by simp [required_eq, name],
        entry.ofFields?_append [_] (by simp [FlowEntry.toFields, List.lookup_cons])⟩
    obtain rfl := Option.some.inj (h.symm.trans hjson)
    simp [ofJsonWith?, bind_fieldsOf, hname, hread]
  | deleteFlows table priority pattern =>
    obtain ⟨fields, hjson, hread⟩ : ∃ fields,
        (deleteFlows table priority pattern).toJson? = some (.obj fields) ∧
        required fields "op" readString = some "delete_flows" ∧
        optional fields "table" (Table.ofJsonWith? isNothing) = some table ∧
        optional fields "priority" readUInt16 = some priority ∧
        required fields "matches" FlowMatch.ofJson? = some pattern :=
      ⟨_, rfl, by simp [required_eq, optional_eq, List.lookup_cons, name]⟩
    obtain rfl := Option.some.inj (h.symm.trans hjson)
    simp [ofJsonWith?, bind_fieldsOf, hread]
  | ensureGroup group =>
    obtain ⟨fields, hjson, hname, hread⟩ : ∃ fields,
        (ensureGroup group).toJson? = some (.obj fields) ∧
        required fields "op" readString = some "ensure_group" ∧
        GroupSpec.ofFields? isNothing fields = some group :=
      ⟨_, rfl, by simp [required_eq, name],
        group.ofFields?_append [_] (by simp [GroupSpec.toFields, List.lookup_cons])⟩
    obtain rfl := Option.some.inj (h.symm.trans hjson)
    simp [ofJsonWith?, bind_fieldsOf, hname, hread]
  | deleteGroup id => cases h
  | deleteAllGroups =>
    obtain ⟨fields, hjson, hname⟩ : ∃ fields, deleteAllGroups.toJson? = some (.obj fields) ∧
        required fields "op" readString = some "delete_all_groups" :=
      ⟨_, rfl, by simp [required_eq, name]⟩
    obtain rfl := Option.some.inj (h.symm.trans hjson)
    simp [ofJsonWith?, bind_fieldsOf, hname]

/-- No record is read as the removal of a single group. -/
theorem ofJsonWith?_ne_deleteGroup (id : UInt32) : ofJsonWith? isNothing j ≠ some (deleteGroup id) := by
  intro h
  simp only [ofJsonWith?, Option.bind_eq_bind, Option.bind_eq_some_iff] at h
  obtain ⟨fields, -, name, -, h⟩ := h
  split at h
  · obtain ⟨entry, -, heq⟩ := Option.map_eq_some_iff.1 h
    cases heq
  · simp only [Option.bind_eq_some_iff] at h
    obtain ⟨table, -, priority, -, pattern, -, heq⟩ := h
    cases heq
  · obtain ⟨group, -, heq⟩ := Option.map_eq_some_iff.1 h
    cases heq
  · cases h
  · cases h

/-- An operation has a record, and is read back from it, just if it is no removal of a single group.  No
record is read as one, so nothing else that could be written for it would help. -/
theorem survives_iff (op : BridgeOp) :
    ((∃ j, op.toJson? = some j ∧ ofJson? j = some op) ↔ ∀ id, op ≠ deleteGroup id) ∧
      (op.toJson? = none ↔ ∃ id, op = deleteGroup id) ∧
        ∀ j id, ofJson? j ≠ some (deleteGroup id) := by
  have hnone : op.toJson? = none ↔ ∃ id, op = deleteGroup id := by
    cases op <;> simp [toJson?]
  refine ⟨⟨?_, ?_⟩, hnone, fun j id => ofJsonWith?_ne_deleteGroup id⟩
  · rintro ⟨j, hwrite, -⟩ id rfl
    cases hwrite
  · intro hkept
    cases hwrite : op.toJson? with
    | none =>
      obtain ⟨id, hop⟩ := hnone.1 hwrite
      exact absurd hop (hkept id)
    | some j => exact ⟨j, rfl, ofJsonWith?_of_toJson? hwrite⟩

/-- Not every operation survives the wire. -/
theorem not_survives : ¬ ∀ op : BridgeOp, ∃ j, op.toJson? = some j ∧ ofJson? j = some op := by
  intro hall
  obtain ⟨j, hwrite, -⟩ := hall (deleteGroup 7)
  cases hwrite

end BridgeOp

end ServiceChain
