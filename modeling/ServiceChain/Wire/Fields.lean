import ServiceChain.Json

/-!
# Reading and writing records

A record is an object with a field for each part.  A field may be required, optional (absent or
`null` for nothing) or have a default (taken if the field is absent); fields of other names are
passed over.
-/

namespace ServiceChain.Wire

/-! ## Values -/

/-- An integer from zero up to a bound, the bound left out. -/
def readNat (bound : Nat) : Json → Option Nat
  | .int n => if 0 ≤ n ∧ n < bound then some n.toNat else none
  | _ => none

def readUInt8 (j : Json) : Option UInt8 := (readNat UInt8.size j).map UInt8.ofNat

def readUInt16 (j : Json) : Option UInt16 := (readNat UInt16.size j).map UInt16.ofNat

def readUInt32 (j : Json) : Option UInt32 := (readNat UInt32.size j).map UInt32.ofNat

def readString : Json → Option String
  | .str s => some s
  | _ => none

def readBool : Json → Option Bool
  | .bool b => some b
  | _ => none

/-- The items of an array. -/
def readList {α : Type} (read : Json → Option α) : Json → Option (List α)
  | .arr items => items.mapM read
  | _ => none

/-- The value stands for nothing. -/
def isNull : Json → Bool
  | .null => true
  | _ => false

/-- The value stands for nothing in a record that tells its own kind. -/
def isNullOrEmpty : Json → Bool
  | .null => true
  | .obj fields => fields.isEmpty
  | _ => false

/-- A value of a finite type by its name; an object that maps the name to nothing is as good. -/
def readNameWith {α : Type} (isNothing : Json → Bool) (all : List α) (text : α → String) :
    Json → Option α
  | .str s => all.find? (text · == s)
  | .obj [(s, v)] => if isNothing v then all.find? (text · == s) else none
  | _ => none

/-- A value of a finite type by its name, where only `null` stands for nothing. -/
def readName {α : Type} : List α → (α → String) → Json → Option α := readNameWith isNull

/-- A value that is read from a text. -/
def readParsed {α ε : Type} (parse : String → Except ε α) : Json → Option α
  | .str s => (parse s).toOption
  | _ => none

def writeUInt8 (n : UInt8) : Json := .nat n.toNat

def writeUInt16 (n : UInt16) : Json := .nat n.toNat

def writeUInt32 (n : UInt32) : Json := .nat n.toNat

/-- The items as an array. -/
def writeList {α : Type} (write : α → Json) (items : List α) : Json := .arr (items.map write)

/-- The value, or `null` for nothing. -/
def writeOption {α : Type} (write : α → Json) : Option α → Json
  | none => .null
  | some v => write v

/-! ## Fields -/

/-- The named values of an object. -/
abbrev Fields := List (String × Json)

/-- The fields of an object. -/
def fieldsOf : Json → Option Fields
  | .obj fields => some fields
  | _ => none

/-- A field that has to be there. -/
def required {α : Type} (fields : Fields) (name : String) (read : Json → Option α) : Option α :=
  (fields.lookup name).bind read

/-- A field that may be absent or `null`. -/
def optional {α : Type} (fields : Fields) (name : String) (read : Json → Option α) :
    Option (Option α) :=
  match fields.lookup name with
  | none => some none
  | some .null => some none
  | some v => (read v).map some

/-- A field that may be absent. -/
def defaulted {α : Type} (fields : Fields) (name : String) (default : α)
    (read : Json → Option α) : Option α :=
  match fields.lookup name with
  | none => some default
  | some v => read v

/-- A field that is written only if there is a value. -/
def present {α : Type} (name : String) (write : α → Json) : Option α → Fields
  | none => []
  | some v => [(name, write v)]

end ServiceChain.Wire
