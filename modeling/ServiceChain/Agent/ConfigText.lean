import ServiceChain.Agent.Config
import ServiceChain.Text.Numeral
import ServiceChain.Yaml.Document

/-!
# The text of a configuration

A configuration is a YAML mapping.  Any scalar is a text, only a plain one can be a number, and
settings of other names are passed over; a setting given twice has no meaning.
-/

namespace ServiceChain.AgentConfig

open Text

/-- The digits of a plain number: decimal without leading zeros, or hexadecimal, octal or binary
after `0x`, `0o` or `0b`. -/
def unsigned? : List Char → Option Nat
  | '0' :: 'x' :: cs => Text.digits? 16 cs
  | '0' :: 'o' :: cs => Text.digits? 8 cs
  | '0' :: 'b' :: cs => Text.digits? 2 cs
  | '0' :: _ :: _ => none
  | cs => Text.digits? 10 cs

/-- The tag of integers. -/
def integerTag : Yaml.TagName := .ofChars "tag:yaml.org,2002:int".toList

/-- A scalar that may be a number: a plain one, or a literal one with the tag of integers. -/
def numeralText? : Yaml.Value → Option (List Char)
  | .scalar .plain _ cs => some cs
  | .scalar .literal tag cs => if tag = some integerTag then some cs else none
  | _ => none

/-- A number of 32 bits, possibly after a plus sign. -/
def portNumber? (value : Yaml.Value) : Option UInt32 := do
  let n ← unsigned? (Text.dropPlus (← numeralText? value))
  if n < UInt32.size then some (UInt32.ofNat n) else none

/-- A text in any style. -/
def name? : Yaml.Value → Option (List Char)
  | .scalar _ _ cs => some cs
  | .collection => none

/-- The plain texts that stand for nothing. -/
def isNull (cs : List Char) : Bool :=
  ["", "~", "null", "Null", "NULL"].any (·.toList == cs)

/-- The text of a tag of its own, after its exclamation mark. -/
def ownTag? : Option Yaml.TagName → Option (List Char)
  | some (0x21 :: bytes) => (String.fromUTF8? ⟨bytes.toArray⟩).map (·.toList)
  | _ => none

/-- A policy by its name. -/
def policyOfName? (cs : List Char) : Option ClassifierPolicy :=
  [ClassifierPolicy.atLeastOne, ClassifierPolicy.exactlyOne].find? (·.text.toList == cs)

/-- A policy by its name, or by a tag of its own before nothing. -/
def policy? : Yaml.Value → Option ClassifierPolicy
  | .scalar style tag cs =>
    match ownTag? tag with
    | some name => if style = .plain ∧ isNull cs then policyOfName? name else none
    | none => policyOfName? cs
  | .collection => none

/-- The value of a setting: the default if it is not given, `none` if it is given twice or cannot be
read. -/
def setting? {α : Type} (read : Yaml.Value → Option α) (default : α) (name : String)
    (settings : List (List Char × Yaml.Value)) : Option α :=
  match settings.filter (·.1 = name.toList) with
  | [] => some default
  | [(_, value)] => read value
  | _ => none

/-- The configuration of a list of settings. -/
def ofSettings? (settings : List (List Char × Yaml.Value)) : Option AgentConfig := do
  let text? (value : Yaml.Value) : Option String := (name? value).map String.ofList
  return {
    bridge := ← setting? text? "br-int" "bridge" settings
    host := ← setting? text? "" "local_host" settings
    transportPort := ← setting? portNumber? 1 "transport_ofport" settings
    policy := ← setting? policy? .atLeastOne "classifier_policy" settings }

/-- The configuration of the entries of a mapping, all of which have a text for a key. -/
def ofEntries? (entries : Yaml.Entries) : Option AgentConfig := do
  ofSettings? (← entries.mapM fun (key, value) => (name? key).map (·, value))

/-- Reads and checks a configuration. -/
def parse (s : String) : Except ConfigError AgentConfig :=
  match (Yaml.entries? s.toList).bind ofEntries? with
  | none => .error .malformed
  | some config => (config.validate.mapError ConfigError.invalid).map fun _ => config

/-- Reads and checks a configuration from the bytes of a file, which must be UTF-8. -/
def ofBytes (bytes : ByteArray) : Except ConfigError AgentConfig :=
  match String.fromUTF8? bytes with
  | none => .error .unreadable
  | some s => parse s

end ServiceChain.AgentConfig
