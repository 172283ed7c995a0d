/-!
# JSON values

The form in which records are exchanged.  Objects are lists of named values, in the order in which they are
read or written; a number is an integer or a decimal fraction.
-/

namespace ServiceChain

/-- A JSON value. -/
inductive Json where
  | null
  | bool (value : Bool)
  | int (value : Int)
  /-- The number `mantissa / 10 ^ scale` that is not an integer. -/
  | fraction (mantissa : Int) (scale : Nat)
  | str (value : String)
  | arr (items : List Json)
  | obj (fields : List (String × Json))
  deriving Repr, Inhabited

namespace Json

/-- A natural number as a JSON value. -/
def nat (n : Nat) : Json := int n

mutual

/-- The number of brackets that are open at once where most of them are. -/
def depth : Json → Nat
  | arr items => depthOfItems items + 1
  | obj fields => depthOfFields fields + 1
  | _ => 0

/-- The depth of the deepest of the items. -/
def depthOfItems : List Json → Nat
  | [] => 0
  | item :: items => max item.depth (depthOfItems items)

/-- The depth of the deepest of the fields. -/
def depthOfFields : List (String × Json) → Nat
  | [] => 0
  | field :: fields => max (depthOfField field) (depthOfFields fields)

/-- The depth of the value of a field. -/
def depthOfField : String × Json → Nat
  | (_, value) => value.depth

end

theorem depthOfItems_le {items : List Json} {n : Nat} :
    depthOfItems items ≤ n ↔ ∀ item ∈ items, item.depth ≤ n := by
  induction items with
  | nil => simp [depthOfItems]
  | cons item items ih => rw [depthOfItems, Nat.max_le, ih, List.forall_mem_cons]

theorem depthOfFields_le {fields : List (String × Json)} {n : Nat} :
    depthOfFields fields ≤ n ↔ ∀ field ∈ fields, field.2.depth ≤ n := by
  induction fields with
  | nil => simp [depthOfFields]
  | cons field fields ih =>
    obtain ⟨name, value⟩ := field
    rw [depthOfFields, depthOfField, Nat.max_le, ih, List.forall_mem_cons]

end Json

end ServiceChain
