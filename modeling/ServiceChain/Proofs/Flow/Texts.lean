import Mathlib.Data.Option.Basic
import ServiceChain.Flow.Entry
import ServiceChain.Proofs.Address.Texts
import ServiceChain.Proofs.Text.Delimited

/-!
# The texts of flow entries

Two flow entries with the same text are equal (`FlowEntry.text_inj`).  No value of a field or of an action
holds a comma (`Atomic`).  So what stands before `actions=` falls apart at its commas, into fields that each
give a name its value (`FlowKey.heading_injective`), and what stands behind it into actions
(`FlowAction.listChars_injective`).  The comma of a resubmission ends no action: no keyword starts another,
so the keyword that an action starts with tells how far the action goes (`FlowAction.delimited_chars`).
-/

namespace ServiceChain

variable {α β : Type} {write : α → List Char}

/-! ## Values -/

/-- Different values have different texts, which are made up of digits and of what stands between them
in addresses, networks and port masks. -/
structure Atomic (write : α → List Char) : Prop where
  injective : Function.Injective write
  writtenWith (a : α) : Text.WrittenWith ['x', ':', '.', '/'] (write a)

/-- What is read back is written differently for different values. -/
theorem injective_of_read (read : List Char → β) {found : α → β} (hfound : Function.Injective found)
    (h : ∀ a, read (write a) = found a) : Function.Injective write := by
  intro a b heq
  apply hfound
  rw [← h, heq, h]

namespace Atomic

theorem comp (h : Atomic write) (get : β → α) (hget : Function.Injective get) :
    Atomic fun b => write (get b) where
  injective := h.injective.comp hget
  writtenWith b := h.writtenWith (get b)

theorem not_mem (h : Atomic write) {c : Char} (hc : c ∈ [',', ')']) (a : α) : c ∉ write a := by
  simp only [List.mem_cons, List.not_mem_nil, or_false] at hc
  rcases hc with rfl | rfl
  · exact (h.writtenWith a).not_mem (by decide) fun _ => Nat.digitChar_ne ',' rfl
  · exact (h.writtenWith a).not_mem (by decide) fun _ => Nat.digitChar_ne ')' rfl

theorem delimited (h : Atomic write) : Text.Delimited [',', ')'] write :=
  .of_injective h.injective fun a _ hmem hc => h.not_mem hc a hmem

theorem decimal : Atomic Text.decimal where
  injective := injective_of_read (Text.digits? 10) (Option.some_injective _)
    (Text.digits?_toDigits (by decide) (by decide))
  writtenWith := Text.writtenWith_decimal _

theorem uint8 : Atomic fun n : UInt8 => Text.decimal n.toNat :=
  decimal.comp UInt8.toNat fun _ _ => UInt8.toNat_inj.1

theorem uint16 : Atomic fun n : UInt16 => Text.decimal n.toNat :=
  decimal.comp UInt16.toNat fun _ _ => UInt16.toNat_inj.1

theorem uint32 : Atomic fun n : UInt32 => Text.decimal n.toNat :=
  decimal.comp UInt32.toNat fun _ _ => UInt32.toNat_inj.1

theorem table : Atomic Table.chars :=
  decimal.comp Table.number fun a b => by cases a <;> cases b <;> decide

theorem etherType : Atomic fun n : UInt16 => "0x".toList ++ Text.hexPadded 4 n.toNat where
  injective := by
    have hdigits : Function.Injective (Text.hexPadded 4) :=
      injective_of_read (Text.digits? 16) (Option.some_injective _)
        (Text.digits?_hexPadded 4)
    intro m n heq
    exact UInt16.toNat_inj.1 (hdigits (List.append_cancel_left heq))
  writtenWith n := by
    simpa using ((Text.writtenWith_hexPadded _ 4 n.toNat).cons (by decide)).zero_cons

theorem mac : Atomic MacAddress.chars where
  injective := injective_of_read MacAddress.ofChars? (Option.some_injective _)
    MacAddress.ofChars?_chars
  writtenWith a := a.writtenWith_chars.mono (by simp)

theorem ipv4Net : Atomic Ipv4Net.chars where
  injective := injective_of_read (fun cs => Ipv4Net.parse (String.ofList cs))
    (fun _ _ => Except.ok.inj) Ipv4Net.parse_text
  writtenWith a := a.writtenWith_chars.mono (by simp)

theorem portMask : Atomic PortMask.chars where
  injective := injective_of_read PortMask.ofChars? (Option.some_injective _) PortMask.ofChars?_chars
  writtenWith a := by
    have hmask : Text.WrittenWith ['x', ':', '.', '/'] ('/' :: '0' :: 'x' :: Text.hex a.mask.toNat) :=
      ((Text.writtenWith_hex _ _).cons (by decide)).zero_cons.cons (by decide)
    simpa [PortMask.chars] using (Text.writtenWith_decimal _ a.value.toNat).append hmask

end Atomic

/-! ## Actions -/

namespace FlowAction

/-- What the text of an action starts with: all of it that does not hang on a value. -/
def keyword : FlowAction → String
  | modVlanVid _ => "mod_vlan_vid:"
  | stripVlan => "strip_vlan"
  | modDlSrc _ => "mod_dl_src:"
  | modDlDst _ => "mod_dl_dst:"
  | output _ => "output:"
  | resubmit _ => "resubmit(,"
  | gotoTable _ => "goto_table:"
  | group _ => "group:"
  | drop => "drop"

/-- What stands behind the keyword of an action. -/
def argument : FlowAction → List Char
  | modVlanVid vid => Text.decimal vid.toNat
  | modDlSrc mac | modDlDst mac => mac.chars
  | output n | group n => Text.decimal n.toNat
  | resubmit table => table.chars ++ [')']
  | gotoTable table => table.chars
  | stripVlan | drop => []

theorem chars_eq (action : FlowAction) : action.chars = action.keyword.toList ++ action.argument := by
  cases action with
  | stripVlan => exact (List.append_nil _).symm
  | drop => exact (List.append_nil _).symm
  | resubmit table => exact List.append_assoc ..
  | _ => rfl

/-- All keywords. -/
def keywords : List String :=
  ["mod_vlan_vid:", "strip_vlan", "mod_dl_src:", "mod_dl_dst:", "output:", "resubmit(,",
    "goto_table:", "group:", "drop"]

theorem keyword_mem (action : FlowAction) : action.keyword ∈ keywords := by
  cases action <;> simp [keyword, keywords]

/-- No keyword starts another. -/
theorem keyword_eq_of_isPrefix :
    ∀ v ∈ keywords, ∀ w ∈ keywords, v.toList <+: w.toList → v = w := by
  decide

theorem chars_ne_nil (action : FlowAction) : action.chars ≠ [] := by
  rw [chars_eq]
  cases action <;> simp [keyword]

theorem keyword_append_inj {a b : FlowAction} {cs ds : List Char}
    (h : a.keyword.toList ++ cs = b.keyword.toList ++ ds) : a.keyword = b.keyword ∧ cs = ds := by
  have hkeyword : a.keyword = b.keyword := by
    have hstarts : b.keyword.toList <+: a.keyword.toList ++ cs := by simp [h]
    rcases List.prefix_or_prefix_of_prefix (List.prefix_append _ cs) hstarts with hle | hle
    · exact keyword_eq_of_isPrefix _ a.keyword_mem _ b.keyword_mem hle
    · exact (keyword_eq_of_isPrefix _ b.keyword_mem _ a.keyword_mem hle).symm
  rw [hkeyword] at h
  exact ⟨hkeyword, List.append_cancel_left h⟩

theorem argument_append_inj {a b : FlowAction} {rest rest' : List Char}
    (hkeyword : a.keyword = b.keyword) (hrest : Text.Closes [','] rest)
    (hrest' : Text.Closes [','] rest') (h : a.argument ++ rest = b.argument ++ rest') :
    a = b ∧ rest = rest' := by
  have hcloses : Text.Closes [',', ')'] rest := hrest.mono (by simp)
  have hcloses' : Text.Closes [',', ')'] rest' := hrest'.mono (by simp)
  -- different kinds of actions have different keywords
  cases a <;> cases b <;> simp only [keyword, String.reduceEq] at hkeyword
  case modVlanVid.modVlanVid =>
    exact (Atomic.uint16.delimited hcloses hcloses' h).imp_left (congrArg modVlanVid)
  case stripVlan.stripVlan => exact ⟨rfl, h⟩
  case modDlSrc.modDlSrc =>
    exact (Atomic.mac.delimited hcloses hcloses' h).imp_left (congrArg modDlSrc)
  case modDlDst.modDlDst =>
    exact (Atomic.mac.delimited hcloses hcloses' h).imp_left (congrArg modDlDst)
  case output.output =>
    exact (Atomic.uint32.delimited hcloses hcloses' h).imp_left (congrArg output)
  case resubmit.resubmit table table' =>
    simp only [argument, List.append_assoc, List.singleton_append] at h
    obtain ⟨rfl, hparen⟩ := Atomic.table.delimited (Text.closes_cons (by decide) rest)
      (Text.closes_cons (by decide) rest') h
    exact ⟨rfl, (List.cons.inj hparen).2⟩
  case gotoTable.gotoTable =>
    exact (Atomic.table.delimited hcloses hcloses' h).imp_left (congrArg gotoTable)
  case group.group =>
    exact (Atomic.uint32.delimited hcloses hcloses' h).imp_left (congrArg group)
  case drop.drop => exact ⟨rfl, h⟩

theorem delimited_chars : Text.Delimited [','] chars := by
  intro a b rest rest' hrest hrest' h
  rw [chars_eq, chars_eq, List.append_assoc, List.append_assoc] at h
  obtain ⟨hkeyword, hargument⟩ := keyword_append_inj h
  exact argument_append_inj hkeyword hrest hrest' hargument

theorem listChars_injective : Function.Injective listChars :=
  delimited_chars.intercalate_injective chars_ne_nil

end FlowAction

/-! ## Matches -/

namespace FlowMatch

/-- What a list of fields says of a name. -/
def valueOf (name : String) (fields : List (List Char)) : Option (List Char) :=
  (fields.filterMap (Text.cut? '=')).lookup name.toList

theorem valueOf_append (name : String) (fields others : List (List Char)) :
    valueOf name (fields ++ others) = (valueOf name fields).or (valueOf name others) := by
  rw [valueOf, List.filterMap_append, List.lookup_append]
  rfl

theorem valueOf_fieldChars {name other : String} (hother : '=' ∉ other.toList) (v : Option α) :
    valueOf name (fieldChars other write v) = if name = other then v.map write else none := by
  cases v with
  | none => simp [fieldChars, valueOf]
  | some v =>
    rw [fieldChars, valueOf, List.filterMap_cons_some (Text.cut?_append_cons hother)]
    by_cases h : name = other
    · simp [h]
    · have hne : name.toList ≠ other.toList := fun heq => h (String.toList_inj.1 heq)
      simp [h, List.lookup_cons, beq_false_of_ne hne]

/-- Each field stands under a name of its own. -/
theorem fields_injective : Function.Injective fields := by
  intro m m' h
  have hvalue (name : String) : valueOf name m.fields = valueOf name m'.fields := by rw [h]
  simp only [fields, valueOf_append] at hvalue
  have hinPort : m.inPort = m'.inPort := Option.map_injective Atomic.uint32.injective
    (by simpa [valueOf_fieldChars] using hvalue "in_port")
  have hdlType : m.dlType = m'.dlType := Option.map_injective Atomic.etherType.injective
    (by simpa [valueOf_fieldChars] using hvalue "dl_type")
  have hdlVlan : m.dlVlan = m'.dlVlan := Option.map_injective Atomic.uint16.injective
    (by simpa [valueOf_fieldChars] using hvalue "dl_vlan")
  have hdlDst : m.dlDst = m'.dlDst := Option.map_injective Atomic.mac.injective
    (by simpa [valueOf_fieldChars] using hvalue "dl_dst")
  have hmplsLabel : m.mplsLabel = m'.mplsLabel := Option.map_injective Atomic.uint32.injective
    (by simpa [valueOf_fieldChars] using hvalue "mpls_label")
  have hnwProto : m.nwProto = m'.nwProto := Option.map_injective Atomic.uint8.injective
    (by simpa [valueOf_fieldChars] using hvalue "nw_proto")
  have hnwSrc : m.nwSrc = m'.nwSrc := Option.map_injective Atomic.ipv4Net.injective
    (by simpa [valueOf_fieldChars] using hvalue "nw_src")
  have hnwDst : m.nwDst = m'.nwDst := Option.map_injective Atomic.ipv4Net.injective
    (by simpa [valueOf_fieldChars] using hvalue "nw_dst")
  have htpSrc : m.tpSrc = m'.tpSrc := Option.map_injective Atomic.portMask.injective
    (by simpa [valueOf_fieldChars] using hvalue "tp_src")
  have htpDst : m.tpDst = m'.tpDst := Option.map_injective Atomic.portMask.injective
    (by simpa [valueOf_fieldChars] using hvalue "tp_dst")
  cases m
  cases m'
  simp only [mk.injEq]
  exact ⟨hinPort, hdlType, hdlVlan, hdlDst, hmplsLabel, hnwProto, hnwSrc, hnwDst, htpSrc, htpDst⟩

theorem fields_eq_nil_iff {m : FlowMatch} : m.fields = [] ↔ m = any :=
  ⟨fun h => fields_injective (h.trans rfl), fun h => by rw [h]; rfl⟩

end FlowMatch

/-! ## Headings -/

/-- The names that a heading may give values. -/
def headingNames : List String :=
  ["table", "priority", "in_port", "dl_type", "dl_vlan", "dl_dst", "mpls_label", "nw_proto",
    "nw_src", "nw_dst", "tp_src", "tp_dst"]

/-- A field of a heading: one of its names, and a value without a comma. -/
def IsHeadingField (field : List Char) : Prop :=
  ∃ name ∈ headingNames, ∃ value, ',' ∉ value ∧ field = name.toList ++ '=' :: value

theorem isHeadingField_of_mem {name : String} (h : Atomic write) (hname : name ∈ headingNames)
    (v : Option α) : ∀ field ∈ FlowMatch.fieldChars name write v, IsHeadingField field := by
  intro field hfield
  cases v with
  | none => simp [FlowMatch.fieldChars] at hfield
  | some v =>
    obtain rfl := List.mem_singleton.1 hfield
    exact ⟨name, hname, write v, h.not_mem (by decide) v, rfl⟩

/-- A field of a heading is not cut at a comma, and is not taken for the start of the actions. -/
theorem IsHeadingField.separated {field : List Char} (h : IsHeadingField field) :
    ',' ∉ field ∧ ¬ "actions=".toList <+: field := by
  obtain ⟨name, hname, value, hvalue, rfl⟩ := h
  have hnames : ∀ name ∈ headingNames,
      ',' ∉ name.toList ∧ '=' ∉ name.toList ∧ name ≠ "actions" := by decide
  obtain ⟨hcomma, hequals, hne⟩ := hnames name hname
  refine ⟨by simp [hcomma, hvalue], ?_⟩
  rintro ⟨cs, hcs⟩
  -- up to its equals sign the field is its name
  have hcut : Text.cut? '=' ("actions".toList ++ '=' :: cs) =
      Text.cut? '=' (name.toList ++ '=' :: value) := by rw [← hcs]; simp
  rw [Text.cut?_append_cons (by decide), Text.cut?_append_cons hequals] at hcut
  obtain ⟨hactions, -⟩ := Prod.mk.inj (Option.some.inj hcut)
  exact hne (String.toList_inj.1 hactions).symm

namespace FlowKey

/-- What stands before the actions of an entry: table, priority, and the fields of the match. -/
def heading (key : FlowKey) : List (List Char) :=
  FlowMatch.fieldChars "table" Table.chars (some key.table) ++
    FlowMatch.fieldChars "priority" (fun p : UInt16 => Text.decimal p.toNat) (some key.priority) ++
    key.pattern.fields

theorem heading_injective : Function.Injective heading := by
  intro k k' h
  simp only [heading, FlowMatch.fieldChars, List.cons_append, List.nil_append, List.cons.injEq] at h
  obtain ⟨htable, hpriority, hfields⟩ := h
  have htable := Atomic.table.injective (List.cons.inj (List.append_cancel_left htable)).2
  have hpriority := Atomic.uint16.injective (List.cons.inj (List.append_cancel_left hpriority)).2
  have hpattern := FlowMatch.fields_injective hfields
  cases k
  cases k'
  simp_all

theorem isHeadingField_of_mem_heading (key : FlowKey) :
    ∀ field ∈ key.heading, IsHeadingField field := by
  simp only [heading, FlowMatch.fields, List.forall_mem_append, and_assoc]
  exact ⟨isHeadingField_of_mem .table (by decide) _, isHeadingField_of_mem .uint16 (by decide) _,
    isHeadingField_of_mem .uint32 (by decide) _, isHeadingField_of_mem .etherType (by decide) _,
    isHeadingField_of_mem .uint16 (by decide) _, isHeadingField_of_mem .mac (by decide) _,
    isHeadingField_of_mem .uint32 (by decide) _, isHeadingField_of_mem .uint8 (by decide) _,
    isHeadingField_of_mem .ipv4Net (by decide) _, isHeadingField_of_mem .ipv4Net (by decide) _,
    isHeadingField_of_mem .portMask (by decide) _, isHeadingField_of_mem .portMask (by decide) _⟩

end FlowKey

/-! ## Entries -/

namespace FlowEntry

theorem chars_eq (e : FlowEntry) :
    e.chars = e.key.heading.flatMap (· ++ [',']) ++
      ("actions=".toList ++ FlowAction.listChars e.actions) := by
  have hpattern : (if e.key.pattern = FlowMatch.any then [] else e.key.pattern.chars ++ [',']) =
      e.key.pattern.fields.flatMap (· ++ [',']) := by
    split
    · next hany => rw [FlowMatch.fields_eq_nil_iff.2 hany, List.flatMap_nil]
    · next hany => exact Text.intercalate_append_sep (mt FlowMatch.fields_eq_nil_iff.1 hany)
  calc
    e.chars = "table=".toList ++ e.key.table.chars ++
        ",priority=".toList ++ Text.decimal e.key.priority.toNat ++ [','] ++
        e.key.pattern.fields.flatMap (· ++ [',']) ++
        "actions=".toList ++ FlowAction.listChars e.actions := by
      rw [← hpattern]
      rfl
    _ = _ := by simp [FlowKey.heading, FlowMatch.fieldChars]

/-- Two flow entries with the same text are equal. -/
theorem text_inj {e f : FlowEntry} : e.text = f.text ↔ e = f := by
  refine ⟨fun h => ?_, fun h => by rw [h]⟩
  have hchars : e.chars = f.chars := String.ofList_injective h
  rw [chars_eq, chars_eq] at hchars
  obtain ⟨hheading, hactions⟩ := Text.flatMap_append_inj (by decide)
    (fun field hfield => (e.key.isHeadingField_of_mem_heading field hfield).separated)
    (fun field hfield => (f.key.isHeadingField_of_mem_heading field hfield).separated) hchars
  have hkey : e.key = f.key := FlowKey.heading_injective hheading
  have hlist : e.actions = f.actions := FlowAction.listChars_injective hactions
  cases e
  cases f
  simp_all

end FlowEntry

end ServiceChain
