import ServiceChain.Address.Ipv4
import ServiceChain.Address.Mac
import ServiceChain.Address.PortMask

/-!
# Flow matches

A match names header fields and the values that they must have; a field left out matches anything.
Matches are ordered field by field, a field left out before any value, and one match covers another
when every field it names is named by the other with the same value.
-/

namespace ServiceChain

/-- The three tables of the chain pipeline, in the order that traffic passes them. -/
inductive Table where
  /-- Classification of traffic from local ports. -/
  | localSwitching
  /-- The choice between local delivery, a group member and the transport port. -/
  | crossSubnet
  /-- Delivery to the ingress port of a hop. -/
  | chainIngress
  deriving DecidableEq, Repr

namespace Table

/-- The table's number on the switch. -/
def number : Table → Nat
  | localSwitching => 0
  | crossSubnet => 5
  | chainIngress => 10

/-- The table's number, as characters. -/
def chars (t : Table) : List Char := Text.decimal t.number

/-- Tables are ordered by number. -/
instance : Ord Table := ⟨compareOn number⟩

instance : Std.TransOrd Table := inferInstanceAs (Std.TransCmp (compareOn number))

instance : Std.LawfulEqOrd Table where
  eq_of_compare {a b} h := by
    have : a.number = b.number := Std.compare_eq_iff_eq.mp h
    cases a <;> cases b <;> simp_all [number]

end Table

/-! ## Priorities -/

namespace Priority

/-- The table miss of the chain ingress table. -/
def drop : UInt16 := 0

/-- Static entries, and classification without a known inbound port. -/
def fallback : UInt16 := 20

/-- Group members, and classification on a known inbound port. -/
def ingress : UInt16 := 30

/-- Steering at a hop. -/
def steering : UInt16 := 50

/-- Return from a service function, and delivery to one. -/
def delivery : UInt16 := 60

end Priority

/-! ## Matches -/

/-- The header fields that an entry looks at. -/
structure FlowMatch where
  inPort : Option UInt32 := none
  dlType : Option UInt16 := none
  dlVlan : Option UInt16 := none
  dlDst : Option MacAddress := none
  mplsLabel : Option UInt32 := none
  nwProto : Option UInt8 := none
  nwSrc : Option Ipv4Net := none
  nwDst : Option Ipv4Net := none
  tpSrc : Option PortMask := none
  tpDst : Option PortMask := none
  deriving DecidableEq, Repr, Inhabited

namespace FlowMatch

/-- The match of every packet. -/
def any : FlowMatch := {}

/-- Restricts the source port; a wildcard leaves the field out. -/
def withTpSrc (m : FlowMatch) (ports : PortMask) : FlowMatch :=
  { m with tpSrc := if ports.isWildcard then none else some ports }

/-- Restricts the destination port; a wildcard leaves the field out. -/
def withTpDst (m : FlowMatch) (ports : PortMask) : FlowMatch :=
  { m with tpDst := if ports.isWildcard then none else some ports }

/-- A field agrees when it is left out on the first side or equal on both. -/
def fieldCovers {α : Type} [DecidableEq α] (mine theirs : Option α) : Bool :=
  mine.isNone || mine == theirs

/-- Every field that `m` names is named by `other` with the same value. -/
def covers (m other : FlowMatch) : Bool :=
  fieldCovers m.inPort other.inPort && fieldCovers m.dlType other.dlType &&
    fieldCovers m.dlVlan other.dlVlan && fieldCovers m.dlDst other.dlDst &&
    fieldCovers m.mplsLabel other.mplsLabel && fieldCovers m.nwProto other.nwProto &&
    fieldCovers m.nwSrc other.nwSrc && fieldCovers m.nwDst other.nwDst &&
    fieldCovers m.tpSrc other.tpSrc && fieldCovers m.tpDst other.tpDst

/-! ## Order -/

/-- Field by field in declaration order, a field left out first. -/
def order : FlowMatch → FlowMatch → Ordering :=
  compareLex (compareOn inPort) <| compareLex (compareOn dlType) <|
    compareLex (compareOn dlVlan) <| compareLex (compareOn dlDst) <|
    compareLex (compareOn mplsLabel) <| compareLex (compareOn nwProto) <|
    compareLex (compareOn nwSrc) <| compareLex (compareOn nwDst) <|
    compareLex (compareOn tpSrc) (compareOn tpDst)

instance : Ord FlowMatch := ⟨order⟩

instance : Std.TransOrd FlowMatch :=
  inferInstanceAs (Std.TransCmp
    (compareLex (compareOn inPort) <| compareLex (compareOn dlType) <|
      compareLex (compareOn dlVlan) <| compareLex (compareOn dlDst) <|
      compareLex (compareOn mplsLabel) <| compareLex (compareOn nwProto) <|
      compareLex (compareOn nwSrc) <| compareLex (compareOn nwDst) <|
      compareLex (compareOn tpSrc) (compareOn tpDst)))

instance : Std.LawfulEqOrd FlowMatch where
  eq_of_compare {a b} h := by
    change order a b = .eq at h
    simp only [order, compareLex, compareOn, Ordering.then_eq_eq,
      Std.LawfulEqOrd.compare_eq_iff_eq] at h
    cases a; cases b; simp_all

/-! ## Text -/

/-- A named field, if it is set. -/
def fieldChars {α : Type} (name : String) (chars : α → List Char) : Option α → List (List Char)
  | none => []
  | some v => [name.toList ++ '=' :: chars v]

/-- The fields that are set, in order. -/
def fields (m : FlowMatch) : List (List Char) :=
  fieldChars "in_port" (fun p : UInt32 => Text.decimal p.toNat) m.inPort ++
  fieldChars "dl_type" (fun t : UInt16 => "0x".toList ++ Text.hexPadded 4 t.toNat) m.dlType ++
  fieldChars "dl_vlan" (fun v : UInt16 => Text.decimal v.toNat) m.dlVlan ++
  fieldChars "dl_dst" MacAddress.chars m.dlDst ++
  fieldChars "mpls_label" (fun l : UInt32 => Text.decimal l.toNat) m.mplsLabel ++
  fieldChars "nw_proto" (fun p : UInt8 => Text.decimal p.toNat) m.nwProto ++
  fieldChars "nw_src" Ipv4Net.chars m.nwSrc ++
  fieldChars "nw_dst" Ipv4Net.chars m.nwDst ++
  fieldChars "tp_src" PortMask.chars m.tpSrc ++
  fieldChars "tp_dst" PortMask.chars m.tpDst

/-- The fields that are set, joined by commas. -/
def chars (m : FlowMatch) : List Char := [','].intercalate m.fields

/-- The written form of a match. -/
def text (m : FlowMatch) : String := String.ofList m.chars

end FlowMatch

end ServiceChain
