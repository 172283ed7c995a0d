import ServiceChain.Json

/-!
# Texts of values

Records are exchanged as texts.  Which characters a value is written with is left open: any writer and
reader of texts will do that fit together (`JsonText.Lawful`).  A reader keeps track of the brackets that
are open, and may refuse a text in which they are too many.
-/

namespace ServiceChain

namespace Json

/-- The numbers in the value are integers of 64 bits, with a sign or without. -/
inductive Whole : Json → Prop
  | null : Whole .null
  | bool (value : Bool) : Whole (.bool value)
  | int {value : Int} (hmin : Int64.minValue.toInt ≤ value) (hmax : value < UInt64.size) :
    Whole (.int value)
  | str (value : String) : Whole (.str value)
  | arr {items : List Json} (h : ∀ item ∈ items, Whole item) : Whole (.arr items)
  | obj {fields : List (String × Json)} (h : ∀ field ∈ fields, Whole field.2) : Whole (.obj fields)

end Json

/-- A way to write values as texts and to read them. -/
structure JsonText where
  /-- The number of brackets that may be open at once, if there is a bound; 127 is a common one. -/
  limit : Option Nat
  write : Json → String
  read? : String → Option Json

namespace JsonText

/-- As many open brackets do not exceed the bound, if there is one. -/
def admits (limit : Option Nat) (depth : Nat) : Bool := limit.all (depth ≤ ·)

theorem admits_iff {limit : Option Nat} {depth : Nat} :
    admits limit depth ↔ ∀ bound ∈ limit, depth ≤ bound := by
  cases limit <;> simp [admits]

theorem admits_of_le {limit : Option Nat} {depth depth' : Nat} (h : admits limit depth)
    (hle : depth' ≤ depth) : admits limit depth' :=
  admits_iff.2 fun bound hbound => Nat.le_trans hle (admits_iff.1 h bound hbound)

/-- A value is read back from its text as it was written, the fields of objects in their order, unless it
is nested too deep; then its text is refused.  Nothing is asked for numbers of other kinds. -/
structure Lawful (T : JsonText) : Prop where
  read_write : ∀ j : Json, j.Whole → admits T.limit j.depth → T.read? (T.write j) = some j
  refuses : ∀ j : Json, j.Whole → ¬ admits T.limit j.depth → T.read? (T.write j) = none

end JsonText

end ServiceChain
