import ServiceChain.Yaml.Scalar.Block
import ServiceChain.Yaml.Token

/-!
# Directives

A line before a document may ask for a version of the language or declare a handle of tags.
-/

namespace ServiceChain.Yaml

/-- The number at the front, of at most nine digits, and what follows it. -/
def number? (cells : List Cell) : Option (Nat × List Cell) :=
  let digits := (cells.takeWhile fun c => isDigit c.char).map (·.char)
  if digits.isEmpty || digits.length > 9 then none
  else
    some (digits.foldl (fun n d => 10 * n + (d.toNat - '0'.toNat)) 0,
      cells.dropWhile fun c => isDigit c.char)

/-- The two numbers of a version and what follows them. -/
def version? (cells : List Cell) : Option (Token × List Cell) := do
  let (major, rest) ← number? (cells.dropWhile (·.isBlank))
  if rest.head?.any (·.char == '.') then
    let (minor, rest) ← number? rest.tail
    return (.version major minor, rest)
  else none

/-- The handle and its expansion and what follows them. -/
def handle? (cells : List Cell) : Option (Token × List Cell) := do
  match cells.dropWhile (·.isBlank) with
  | [] => none
  | c :: cs =>
    let (handle, rest) := tagHandle cs
    let (expansion, next) ← tagName? true 0 (rest.dropWhile (·.isBlank))
    if c.char != '!' || !(handle == ['!'] || isNamedHandle handle) ||
        !rest.head?.any (·.isBlank) || expansion.isEmpty || !atSpace next then none
    else return (.handle handle expansion.cut, next)

/-- The directive after its percent sign and the line below it. -/
def directive? (cells : List Cell) : Option (Token × List Cell) := do
  let name := (cells.takeWhile fun c => isNameChar c.char).map (·.char)
  let rest := cells.dropWhile fun c => isNameChar c.char
  let (token, rest) ←
    if !atSpace rest then none
    else if name = "YAML".toList then version? rest
    else if name = "TAG".toList then handle? rest
    else none
  return (token, ← nextLine? rest)

end ServiceChain.Yaml
