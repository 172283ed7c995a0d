import ServiceChain.Yaml.Scalar.Gap

/-!
# Plain scalars

A plain scalar is a run of words.  A colon before white space ends it, as do a comment and, between
brackets, a bracket or a comma.
-/

namespace ServiceChain.Yaml

/-- A plain scalar starts here; `inFlow` tells that brackets are open. -/
def startsPlain (inFlow : Bool) : List Cell → Bool
  | [] => false
  | c :: cs =>
    if c.char == '-' then !atSpace cs
    else if c.char == '?' || c.char == ':' then !inFlow && !atSpace cs
    else !(c.isSpace || isIndicator c.char)

/-- The word at the front and what follows it; `none` where a colon between brackets runs into a
bracket, a comma or a question mark. -/
def word? (inFlow : Bool) : List Cell → Option (List Char × List Cell)
  | [] => some ([], [])
  | c :: cs =>
    if c.isSpace then some ([], c :: cs)
    else if inFlow && c.char == ':' &&
        cs.head?.any (fun d => isBracket d.char || d.char == '?') then none
    else if (c.char == ':' && atSpace cs) || (inFlow && isBracket c.char) then some ([], c :: cs)
    else (word? inFlow cs).map fun (text, rest) => (c.char :: text, rest)

/-- What a plain scalar reads as. -/
structure Plain where
  text : List Char
  /-- The white space after the scalar goes beyond its line. -/
  endsLine : Bool
  /-- What follows the scalar and its white space. -/
  rest : List Cell

/-- No word of the scalar starts here: a comment or a marker does, or a line left of the column
`indent`. -/
def endsPlain (inFlow : Bool) (indent : Nat) (cells : List Cell) : Bool :=
  atMarker cells || match cells with
    | [] => true
    | c :: _ => c.char == '#' || (!inFlow && c.column < indent)

/-- The words at the front, at most as many as the first number says. -/
def words? (inFlow : Bool) (indent : Nat) : Nat → List Cell → Option Plain
  | 0, _ => none
  | fuel + 1, cells => do
    let (text, rest) ← word? inFlow cells
    if text.isEmpty || !rest.head?.any (·.isSpace) then return ⟨text, false, rest⟩
    let (gap, rest) ← gap? indent false rest
    if endsPlain inFlow indent rest then return ⟨text, gap.isBroken, rest⟩
    let next ← words? inFlow indent fuel rest
    if next.text.isEmpty then return ⟨text, gap.isBroken, rest⟩
    return { next with text := text ++ gap.text ++ next.text }

/-- The plain scalar at the front. -/
def plain? (inFlow : Bool) (indent : Nat) (cells : List Cell) : Option Plain :=
  words? inFlow indent (cells.length + 1) cells

end ServiceChain.Yaml
