import Mathlib.Logic.Function.Basic
import Mathlib.Tactic.Common
import ServiceChain.Flow.Entry

/-!
# The order of keys

A key is written out in columns: its table, its priority, and one column for each field of its match.  A
column holds the numbers that the field is made of, and none where the field is left out.  Keys are
compared as their columns are, first difference first (`FlowKey.compare_eq_lt_iff`), and no two keys have
the same columns (`FlowKey.columns_injective`).
-/

namespace ServiceChain

/-! ## Comparisons by an image -/

/-- A comparison puts values in the order of their images. -/
def OrderedBy {α β : Type} [LT β] (cmp : α → α → Ordering) (image : α → β) : Prop :=
  ∀ a b, cmp a b = .lt ↔ image a < image b

namespace OrderedBy

variable {α β γ : Type} [LT β] {cmp rest : α → α → Ordering}

/-- Where only equal values compare as equal, they are told apart by their images. -/
theorem injective [Std.Irrefl fun x y : β => x < y] [Std.OrientedCmp cmp] [Std.LawfulEqCmp cmp]
    {image : α → β} (h : OrderedBy cmp image) : Function.Injective image := by
  intro a b heq
  cases hcmp : cmp a b with
  | eq => exact Std.LawfulEqCmp.eq_of_compare hcmp
  | lt =>
    rw [h, heq] at hcmp
    exact (Std.Irrefl.irrefl _ hcmp).elim
  | gt =>
    rw [Std.OrientedCmp.gt_iff_lt, h, heq] at hcmp
    exact (Std.Irrefl.irrefl _ hcmp).elim

theorem comap [Ord γ] {image : γ → β} (h : OrderedBy compare image) (get : α → γ) :
    OrderedBy (compareOn get) fun a => image (get a) :=
  fun a b => h (get a) (get b)

theorem single {image : α → β} (h : OrderedBy cmp image) : OrderedBy cmp fun a => [image a] := by
  intro a b
  rw [h, List.cons_lt_cons_iff]
  simp

/-- Values that are compared by a field first, and by the others where it is the same. -/
theorem fields [Std.Irrefl fun x y : β => x < y] [Ord γ] [Std.OrientedOrd γ] [Std.LawfulEqOrd γ]
    {column : γ → β} {columns : α → List β} (h : OrderedBy compare column) (get : α → γ)
    (hrest : OrderedBy rest columns) :
    OrderedBy (compareLex (compareOn get) rest) fun a => column (get a) :: columns a := by
  intro a b
  rw [compareLex, Ordering.then_eq_lt, compareOn, h, Std.LawfulEqOrd.compare_eq_iff_eq, hrest,
    List.cons_lt_cons_iff, h.injective.eq_iff]

/-- A field that may be left out comes before all its values where it is. -/
theorem option [Ord α] {column : α → List ℕ} (h : OrderedBy compare column)
    (hcolumn : ∀ a, column a ≠ []) :
    OrderedBy compare fun value : Option α => value.elim [] column := by
  intro a b
  cases a with
  | none =>
    cases b with
    | none => simp [compare]
    | some b =>
      obtain ⟨n, ns, heq⟩ := List.exists_cons_of_ne_nil (hcolumn b)
      simp [compare, heq]
  | some a =>
    cases b with
    | none => simp [compare]
    | some b => exact h a b

end OrderedBy

/-! ## Values of fields -/

theorem orderedBy_uint8 : OrderedBy compare UInt8.toNat := fun _ _ => Std.compare_eq_lt

theorem orderedBy_uint16 : OrderedBy compare UInt16.toNat := fun _ _ => Std.compare_eq_lt

theorem orderedBy_uint32 : OrderedBy compare UInt32.toNat := fun _ _ => Std.compare_eq_lt

theorem orderedBy_bits : OrderedBy compare fun bits : BitVec 32 => bits.toNat :=
  fun _ _ => compareOfLessAndEq_eq_lt

theorem orderedBy_nat : OrderedBy compare fun n : ℕ => n := fun _ _ => Nat.compare_eq_lt

/-- The number of a table. -/
def Table.column (table : Table) : List ℕ := [table.number]

theorem Table.orderedBy_column : OrderedBy compare Table.column :=
  (orderedBy_nat.comap number).single

/-- The octets of an address. -/
def MacAddress.column (mac : MacAddress) : List ℕ := mac.octets.toList.map UInt8.toNat

/-- Lists of octets are compared octet by octet. -/
theorem compareLex_octets_eq_lt_iff (as bs : List UInt8) :
    List.compareLex compare as bs = .lt ↔ as.map UInt8.toNat < bs.map UInt8.toNat := by
  induction as generalizing bs with
  | nil => cases bs <;> simp [List.compareLex]
  | cons a as ih =>
    cases bs with
    | nil => simp [List.compareLex]
    | cons b bs =>
      rw [List.compareLex_cons_cons, Ordering.then_eq_lt, ih, List.map_cons, List.map_cons,
        List.cons_lt_cons_iff, Std.compare_eq_lt, UInt8.lt_iff_toNat_lt,
        Std.LawfulEqOrd.compare_eq_iff_eq, UInt8.toNat_inj]

theorem MacAddress.orderedBy_column : OrderedBy compare MacAddress.column := by
  intro a b
  rw [column, column, ← compareLex_octets_eq_lt_iff, ← Vector.compareLex_eq_compareLex_toList]
  rfl

theorem MacAddress.column_ne_nil (mac : MacAddress) : mac.column ≠ [] :=
  List.ne_nil_of_length_pos (by simp [column])

/-- The address and the length of a network. -/
def Ipv4Net.column (net : Ipv4Net) : List ℕ := [net.address.bits.toNat, net.length]

theorem Ipv4Net.orderedBy_column : OrderedBy compare Ipv4Net.column :=
  orderedBy_bits.fields (·.address.bits) (orderedBy_nat.comap length).single

/-- The value and the mask of a port mask. -/
def PortMask.column (ports : PortMask) : List ℕ := [ports.value.toNat, ports.mask.toNat]

theorem PortMask.orderedBy_column : OrderedBy compare PortMask.column :=
  orderedBy_uint16.fields value (orderedBy_uint16.comap mask).single

/-! ## Matches and keys -/

/-- The fields of a match, in order. -/
def FlowMatch.columns (m : FlowMatch) : List (List ℕ) :=
  [m.inPort.elim [] fun port => [port.toNat],
    m.dlType.elim [] fun type => [type.toNat],
    m.dlVlan.elim [] fun vid => [vid.toNat],
    m.dlDst.elim [] MacAddress.column,
    m.mplsLabel.elim [] fun label => [label.toNat],
    m.nwProto.elim [] fun protocol => [protocol.toNat],
    m.nwSrc.elim [] Ipv4Net.column,
    m.nwDst.elim [] Ipv4Net.column,
    m.tpSrc.elim [] PortMask.column,
    m.tpDst.elim [] PortMask.column]

theorem FlowMatch.orderedBy_columns : OrderedBy compare FlowMatch.columns :=
  (orderedBy_uint32.single.option (by simp)).fields inPort <|
  (orderedBy_uint16.single.option (by simp)).fields dlType <|
  (orderedBy_uint16.single.option (by simp)).fields dlVlan <|
  (MacAddress.orderedBy_column.option MacAddress.column_ne_nil).fields dlDst <|
  (orderedBy_uint32.single.option (by simp)).fields mplsLabel <|
  (orderedBy_uint8.single.option (by simp)).fields nwProto <|
  (Ipv4Net.orderedBy_column.option (by simp [Ipv4Net.column])).fields nwSrc <|
  (Ipv4Net.orderedBy_column.option (by simp [Ipv4Net.column])).fields nwDst <|
  (PortMask.orderedBy_column.option (by simp [PortMask.column])).fields tpSrc <|
  ((PortMask.orderedBy_column.option (by simp [PortMask.column])).comap tpDst).single

namespace FlowKey

/-- The table, the priority and the fields of the match. -/
def columns (key : FlowKey) : List (List ℕ) :=
  key.table.column :: [key.priority.toNat] :: key.pattern.columns

theorem orderedBy_columns : OrderedBy compare columns :=
  Table.orderedBy_column.fields table <|
    orderedBy_uint16.single.fields priority <| FlowMatch.orderedBy_columns.comap pattern

theorem compare_eq_lt_iff {a b : FlowKey} : compare a b = .lt ↔ a.columns < b.columns :=
  orderedBy_columns a b

theorem columns_injective : Function.Injective columns := orderedBy_columns.injective

end FlowKey

end ServiceChain
