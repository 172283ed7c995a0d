import ServiceChain.Proofs.Address.Ipv6Texts
import ServiceChain.Wire.Address

/-!
# Values and fields are read back

What a writer makes of a value is read back if the reader gives that value, and if it is not `null`,
which would stand for no value at all (`ReadsBack`).  Numbers, texts, names, addresses and networks
are read back, and so are lists of what is read back.

A reader of a field only sees what stands under its name (`optional_eq`, `defaulted_eq`).  There an
optional field has been written for a value, or not at all (`lookup_present`), and either is read as
what it was written for (`optionalOf_map_write`).
-/

namespace ServiceChain

namespace Wire

variable {α : Type} {read : Json → Option α} {write : α → Json}

/-- The reader gives back every value from what the writer makes of it, which is never `null`. -/
structure ReadsBack (read : Json → Option α) (write : α → Json) : Prop where
  read_write (a : α) : read (write a) = some a
  write_ne_null (a : α) : write a ≠ .null

/-! ## Values -/

theorem readNat_nat {bound n : Nat} (h : n < bound) : readNat bound (.nat n) = some n := by
  have hbounds : (0 : Int) ≤ n ∧ (n : Int) < bound := by omega
  rw [Json.nat, readNat, if_pos hbounds, Int.toNat_natCast]

@[simp]
theorem readsBack_uint8 : ReadsBack readUInt8 writeUInt8 where
  read_write n := by simp [readUInt8, writeUInt8, readNat_nat n.toNat_lt_size]
  write_ne_null _ := Json.noConfusion

@[simp]
theorem readsBack_uint16 : ReadsBack readUInt16 writeUInt16 where
  read_write n := by simp [readUInt16, writeUInt16, readNat_nat n.toNat_lt_size]
  write_ne_null _ := Json.noConfusion

@[simp]
theorem readsBack_uint32 : ReadsBack readUInt32 writeUInt32 where
  read_write n := by simp [readUInt32, writeUInt32, readNat_nat n.toNat_lt_size]
  write_ne_null _ := Json.noConfusion

@[simp]
theorem readsBack_string : ReadsBack readString Json.str where
  read_write _ := rfl
  write_ne_null _ := Json.noConfusion

@[simp]
theorem readsBack_bool : ReadsBack readBool Json.bool where
  read_write _ := rfl
  write_ne_null _ := Json.noConfusion

@[simp]
theorem readsBack_list (h : ReadsBack read write) : ReadsBack (readList read) (writeList write) where
  read_write items := Text.mapM_map_eq_some h.read_write items
  write_ne_null _ := Json.noConfusion

theorem readsBack_parsed {ε : Type} {parse : String → Except ε α} {text : α → String}
    (h : ∀ a, parse (text a) = .ok a) : ReadsBack (readParsed parse) fun a => .str (text a) where
  read_write a := by simp [readParsed, h, Except.toOption]
  write_ne_null _ := Json.noConfusion

/-- Where the names of all values differ, each value is found by its name. -/
theorem readsBack_name {all : List α} {text : α → String} (isNothing : Json → Bool)
    (hall : ∀ a, a ∈ all) (hinj : Function.Injective text) :
    ReadsBack (readNameWith isNothing all text) fun a => .str (text a) where
  read_write a := by
    have hfound : (all.find? (text · == text a)).isSome :=
      List.find?_isSome.2 ⟨a, hall a, by simp⟩
    obtain ⟨b, hb⟩ := Option.isSome_iff_exists.1 hfound
    have hname := List.find?_some hb
    rw [beq_iff_eq] at hname
    rw [readNameWith, hb, hinj hname]
  write_ne_null _ := Json.noConfusion

/-! ## Fields -/

variable {fields : Fields} {name key : String}

@[simp]
theorem lookup_present (v : Option α) :
    (present name write v).lookup key = if key = name then v.map write else none := by
  by_cases h : key = name
  · cases v <;> simp [present, h]
  · cases v <;> simp [present, List.lookup_cons, beq_false_of_ne h, h]

theorem bind_fieldsOf (fields : Fields) (f : Fields → Option α) :
    (fieldsOf (.obj fields) >>= f) = f fields := rfl

/-- The value of a required field from what stands under its name. -/
def requiredOf (read : Json → Option α) (found : Option Json) : Option α := found.bind read

/-- The value of an optional field from what stands under its name. -/
def optionalOf (read : Json → Option α) : Option Json → Option (Option α)
  | none => some none
  | some .null => some none
  | some v => (read v).map some

/-- The value of a field with a default from what stands under its name. -/
def defaultedOf (default : α) (read : Json → Option α) : Option Json → Option α
  | none => some default
  | some v => read v

theorem required_eq : required fields name read = requiredOf read (fields.lookup name) := rfl

theorem optional_eq : optional fields name read = optionalOf read (fields.lookup name) := rfl

theorem defaulted_eq {default : α} :
    defaulted fields name default read = defaultedOf default read (fields.lookup name) := rfl

@[simp]
theorem requiredOf_write (h : ReadsBack read write) (v : α) :
    requiredOf read (some (write v)) = some v := h.read_write v

@[simp]
theorem optionalOf_map_write (h : ReadsBack read write) (v : Option α) :
    optionalOf read (v.map write) = some v := by
  cases v with
  | none => rfl
  | some a =>
    rw [Option.map_some, optionalOf, h.read_write, Option.map_some]
    simpa using h.write_ne_null a

@[simp]
theorem optionalOf_writeOption (h : ReadsBack read write) (v : Option α) :
    optionalOf read (some (writeOption write v)) = some v := by
  cases v with
  | none => rfl
  | some a => exact optionalOf_map_write h (some a)

@[simp]
theorem defaultedOf_write (h : ReadsBack read write) (default v : α) :
    defaultedOf default read (some (write v)) = some v := h.read_write v

end Wire

/-! ## Addresses -/

open Wire

namespace MacAddress

@[simp]
theorem readsBack : ReadsBack ofJson? toJson := readsBack_parsed parse_text

end MacAddress

namespace Ipv4Net

@[simp]
theorem readsBack : ReadsBack ofJson? toJson := readsBack_parsed parse_text

end Ipv4Net

namespace PortMask

@[simp]
theorem readsBack : ReadsBack ofJson? toJson := readsBack_parsed parse_text

end PortMask

namespace IpNet

@[simp]
theorem readsBack : ReadsBack ofJson? toJson := readsBack_parsed parse_text

end IpNet

namespace SegmentId

@[simp]
theorem readsBack : ReadsBack ofJson? toJson where
  read_write segment := by
    have hlt : segment.toNat < UInt32.size := segment.le_max.trans_lt (by decide)
    rw [ofJson?, toJson, readNat_nat hlt, Option.bind_some, ofNat?_toNat]
  write_ne_null _ := Json.noConfusion

end SegmentId

namespace EtherType

@[simp]
theorem readsBack : ReadsBack ofJson? toJson :=
  readsBack_name isNull (fun t => by cases t <;> simp) fun t t' => by cases t <;> cases t' <;> decide

end EtherType

namespace IpProtocol

@[simp]
theorem readsBack : ReadsBack ofJson? toJson :=
  readsBack_name isNull (fun p => by cases p <;> simp) fun p p' => by cases p <;> cases p' <;> decide

end IpProtocol

end ServiceChain
