import ServiceChain.Text.Numeral
import ServiceChain.Yaml.Cell

/-!
# Tags

A tag names the type of a node; it is a handle, which stands for the front of the name, and a
suffix.  Names are bytes: a percent sign and two hexadecimal digits write any byte, as long as those
of a character stand together, and a zero byte ends the name.
-/

namespace ServiceChain.Yaml

/-- The name of a type, or a part of it. -/
abbrev TagName := List UInt8

/-- The bytes of a text. -/
def TagName.ofChars (cs : List Char) : TagName := cs.flatMap String.utf8EncodeChar

/-! ## Names -/

/-- A character that may stand in a name; `isVerbatim` tells that angle brackets enclose it. -/
def isTagChar (isVerbatim : Bool) (c : Char) : Bool :=
  isNameChar c || ";/?:@&=+$.!~*\x27()".toList.contains c ||
    (isVerbatim && ",[]".toList.contains c)

/-- The byte that two hexadecimal digits write. -/
def byte? (high low : Cell) : Option UInt8 :=
  (Text.digits? 16 [high.char, low.char]).map UInt8.ofNat

/-- The number of bytes that belong to the character of a byte and stand after it, where so many were
missing before it. -/
def missingAfter? (byte : UInt8) : Nat → Option Nat
  | missing + 1 => if byte &&& 0xc0 = 0x80 then some missing else none
  | 0 =>
    if byte &&& 0x80 = 0 then some 0
    else if byte &&& 0xe0 = 0xc0 then some 1
    else if byte &&& 0xf0 = 0xe0 then some 2
    else if byte &&& 0xf8 = 0xf0 then some 3
    else none

/-- The name at the front, where so many bytes of a character are missing, and what follows it. -/
def tagName? (isVerbatim : Bool) : Nat → List Cell → Option (TagName × List Cell)
  | missing, [] => if missing = 0 then some ([], []) else none
  | missing, c :: cs =>
    if c.char == '%' then
      match cs with
      | high :: low :: cs => do
        let byte ← byte? high low
        let (name, rest) ← tagName? isVerbatim (← missingAfter? byte missing) cs
        return (byte :: name, rest)
      | _ => none
    else if missing ≠ 0 then none
    else if isTagChar isVerbatim c.char then
      (tagName? isVerbatim 0 cs).map fun (name, rest) => (.ofChars [c.char] ++ name, rest)
    else some ([], c :: cs)

/-- What a zero byte leaves of a name. -/
def TagName.cut (name : TagName) : TagName := name.takeWhile (· ≠ 0)

/-! ## Tags -/

/-- The handle after an exclamation mark: a name between two such marks, or a name of which nothing
is known yet. -/
def tagHandle (cells : List Cell) : List Char × List Cell :=
  let name := (cells.takeWhile fun c => isNameChar c.char).map (·.char)
  let rest := cells.dropWhile fun c => isNameChar c.char
  if rest.head?.any (·.char == '!') then ('!' :: name ++ ['!'], rest.tail) else ('!' :: name, rest)

/-- A handle with a name between two exclamation marks. -/
def isNamedHandle (handle : List Char) : Bool :=
  handle.length > 1 && handle.getLast? == some '!'

/-- The handle and the suffix of a tag after its exclamation mark, and what follows them.  A suffix
may be empty only in the tag that is a single mark. -/
def tagParts? (cells : List Cell) : Option ((List Char × TagName) × List Cell) := do
  if cells.head?.any (·.char == '<') then
    let (name, rest) ← tagName? true 0 cells.tail
    if name.isEmpty || !rest.head?.any (·.char == '>') then none
    else return (([], name.cut), rest.tail)
  else
    let (handle, rest) := tagHandle cells
    let (name, rest) ← tagName? false 0 rest
    if isNamedHandle handle then
      if name.isEmpty then none else return ((handle, name.cut), rest)
    else
      let suffix := (TagName.ofChars handle.tail ++ name).cut
      return (if suffix.isEmpty then ([], .ofChars ['!']) else (['!'], suffix), rest)

/-- The tag after its exclamation mark, which white space or, between brackets, a comma ends. -/
def tag? (inFlow : Bool) (cells : List Cell) : Option ((List Char × TagName) × List Cell) := do
  let (parts, rest) ← tagParts? cells
  if atSpace rest || (inFlow && rest.head?.any (·.char == ',')) then return (parts, rest) else none

end ServiceChain.Yaml
