import ServiceChain.Yaml.Anchor
import ServiceChain.Yaml.Directive
import ServiceChain.Yaml.Scalar.Plain
import ServiceChain.Yaml.Scalar.Quoted

/-!
# The tokens of a text

Indentation opens and closes blocks.  A key need not be announced: a node on one line, not longer
than 1024 bytes, becomes a key when a colon follows it.  Places where such a key may start are
therefore remembered, one for the block and one for each open bracket, and the start of the key is
put in when the colon is met.
-/

namespace ServiceChain.Yaml

/-- A place where a key may start. -/
structure KeyStart where
  cell : Cell
  /-- The number of tokens before the place. -/
  tokens : Nat
  /-- Only a key can stand there. -/
  isRequired : Bool

/-- A text that is read up to some place. -/
structure Lexer where
  rest : List Cell
  /-- The tokens that have been read, the last one first. -/
  tokens : List Token
  /-- The columns of the open blocks, the innermost first. -/
  blocks : List Nat
  /-- Where a key may have started since the innermost bracket. -/
  key : Option KeyStart
  /-- Where a key may have started outside each open bracket, the innermost first. -/
  outerKeys : List (Option KeyStart)
  /-- A key may start at the next token. -/
  allowsKey : Bool

namespace Lexer

/-- The start of a text. -/
def start (cells : List Cell) : Lexer :=
  { rest := cells, tokens := [], blocks := [], key := none, outerKeys := [], allowsKey := true }

/-- A bracket is open. -/
def inFlow (s : Lexer) : Bool := !s.outerKeys.isEmpty

/-- The least column of the content of the innermost block. -/
def leastColumn (s : Lexer) : Nat :=
  match s.blocks with
  | [] => 0
  | column :: _ => column + 1

/-- Adds a token and goes on after it. -/
def emit (token : Token) (rest : List Cell) (s : Lexer) : Lexer :=
  { s with tokens := token :: s.tokens, rest }

/-- Puts a token in after the first ones. -/
def insert (count : Nat) (token : Token) (s : Lexer) : Lexer :=
  let later := s.tokens.length - count
  { s with tokens := s.tokens.take later ++ token :: s.tokens.drop later }

/-! ## White space -/

/-- What follows white space and comments, and whether a key may start there.  A new line outside
brackets allows one; where one may start outside brackets, a tab is no white space. -/
def skipSpace (inFlow : Bool) : Bool → Bool → List Cell → Bool × List Cell
  | allowsKey, _, [] => (allowsKey, [])
  | allowsKey, inComment, c :: cs =>
    if c.isBreak then skipSpace inFlow (allowsKey || !inFlow) false cs
    else if inComment then skipSpace inFlow allowsKey true cs
    else if c.char == '#' then skipSpace inFlow allowsKey true cs
    else if c.char == ' ' || (c.char == '\t' && (inFlow || !allowsKey)) ||
        (c.char == '\ufeff' && c.column == 0) then
      skipSpace inFlow allowsKey false cs
    else (allowsKey, c :: cs)

/-- Goes to the next token. -/
def toToken (s : Lexer) : Lexer :=
  let (allowsKey, rest) := skipSpace s.inFlow s.allowsKey false s.rest
  { s with allowsKey, rest }

/-! ## Keys -/

/-- Forgets a place that is on an earlier line or too far away; `none` if a key has to stand there.
-/
def expire? (c : Cell) : Option KeyStart → Option (Option KeyStart)
  | none => some none
  | some k =>
    if k.cell.line < c.line || k.cell.offset + 1024 < c.offset then
      if k.isRequired then none else some none
    else some (some k)

/-- Forgets the places that the cell is too far away from. -/
def expireKeys? (c : Cell) (s : Lexer) : Option Lexer := do
  return { s with key := ← expire? c s.key, outerKeys := ← s.outerKeys.mapM (expire? c) }

/-- Forgets the place since the innermost bracket; `none` if a key has to stand there. -/
def dropKey? (s : Lexer) : Option Lexer :=
  if s.key.any (·.isRequired) then none else some { s with key := none }

/-- Remembers a place if a key may start there. -/
def markKey? (c : Cell) (s : Lexer) : Option Lexer :=
  if s.allowsKey then do
    let s ← s.dropKey?
    let isRequired := !s.inFlow && s.blocks.head? == some c.column
    return { s with key := some { cell := c, tokens := s.tokens.length, isRequired } }
  else some s

/-! ## Blocks -/

/-- Closes the innermost blocks, as long as their columns are so, unless a bracket is open. -/
def closeBlocks (isClosed : Nat → Bool) (s : Lexer) : Lexer :=
  if s.inFlow then s
  else
    { s with
      blocks := s.blocks.dropWhile isClosed
      tokens := (s.blocks.takeWhile isClosed).map (fun _ => .blockEnd) ++ s.tokens }

/-- Closes all blocks, unless a bracket is open. -/
def closeAllBlocks (s : Lexer) : Lexer := s.closeBlocks fun _ => true

/-- Opens a block at a column right of the innermost one, unless a bracket is open; its start is put
in after the first tokens. -/
def openBlock (shape : Shape) (column count : Nat) (s : Lexer) : Lexer :=
  if s.inFlow || column < s.leastColumn then s
  else { s with blocks := column :: s.blocks }.insert count (.blockStart shape)

/-! ## Tokens -/

/-- A start or end of a document, or a directive: no block goes on. -/
def boundary? (token : Token) (rest : List Cell) (s : Lexer) : Option Lexer := do
  let s ← s.closeAllBlocks.dropKey?
  return { s with allowsKey := false }.emit token rest

/-- An opening bracket, which may start a key. -/
def openBracket? (shape : Shape) (c : Cell) (cs : List Cell) (s : Lexer) : Option Lexer := do
  let s ← s.markKey? c
  return { s with key := none, outerKeys := s.key :: s.outerKeys, allowsKey := true }.emit
    (.flowStart shape) cs

/-- A closing bracket. -/
def closeBracket? (shape : Shape) (cs : List Cell) (s : Lexer) : Option Lexer := do
  let s ← s.dropKey?
  return { s with
    key := s.outerKeys.headD none, outerKeys := s.outerKeys.tail, allowsKey := false }.emit
      (.flowEnd shape) cs

/-- A comma. -/
def comma? (cs : List Cell) (s : Lexer) : Option Lexer := do
  let s ← s.dropKey?
  return { s with allowsKey := true }.emit .comma cs

/-- The dash before an item. -/
def item? (c : Cell) (cs : List Cell) (s : Lexer) : Option Lexer :=
  if s.inFlow || s.allowsKey then do
    let s ← (s.openBlock .sequence c.column s.tokens.length).dropKey?
    return { s with allowsKey := true }.emit .item cs
  else none

/-- The question mark before a key. -/
def key? (c : Cell) (cs : List Cell) (s : Lexer) : Option Lexer :=
  if s.inFlow || s.allowsKey then do
    let s ← (s.openBlock .mapping c.column s.tokens.length).dropKey?
    return { s with allowsKey := !s.inFlow }.emit .key cs
  else none

/-- The colon before a value, after a key that has not been announced or another one. -/
def colon? (c : Cell) (cs : List Cell) (s : Lexer) : Option Lexer :=
  match s.key with
  | some k =>
    let s := (s.insert k.tokens .key).openBlock .mapping k.cell.column k.tokens
    some ({ s with key := none, allowsKey := false }.emit .colon cs)
  | none =>
    if s.inFlow || s.allowsKey then
      let s := s.openBlock .mapping c.column s.tokens.length
      some ({ s with allowsKey := !s.inFlow }.emit .colon cs)
    else none

/-- A token that may start a key and after which none may start. -/
def leaf? (c : Cell) (read : Option (Token × List Cell)) (s : Lexer) : Option Lexer := do
  let s ← s.markKey? c
  let (token, rest) ← read
  return { s with allowsKey := false }.emit token rest

/-- A block scalar. -/
def blockScalar? (style : Style) (cs : List Cell) (s : Lexer) : Option Lexer := do
  let s ← s.dropKey?
  let (text, rest) ← block? style s.leastColumn cs
  return { s with allowsKey := true }.emit (.scalar style text) rest

/-- A plain scalar; a key may start after it on a new line. -/
def plainScalar? (c : Cell) (s : Lexer) : Option Lexer := do
  let s ← s.markKey? c
  let scalar ← plain? s.inFlow s.leastColumn s.rest
  return { s with allowsKey := scalar.endsLine }.emit (.scalar .plain scalar.text) scalar.rest

/-- The token at the front. -/
def token? (c : Cell) (cs : List Cell) (s : Lexer) : Option Lexer :=
  if c.column == 0 && c.char == '%' then do
    let (token, rest) ← directive? cs
    s.boundary? token rest
  else if isMarker '-' (c :: cs) then s.boundary? .documentStart (cs.drop 2)
  else if isMarker '.' (c :: cs) then s.boundary? .documentEnd (cs.drop 2)
  else if startsPlain s.inFlow (c :: cs) then s.plainScalar? c
  else
    match c.char with
    | '[' => s.openBracket? .sequence c cs
    | '\x7b' => s.openBracket? .mapping c cs
    | ']' => s.closeBracket? .sequence cs
    | '\x7d' => s.closeBracket? .mapping cs
    | ',' => s.comma? cs
    | '-' => s.item? c cs
    | '?' => s.key? c cs
    | ':' => s.colon? c cs
    | '*' => s.leaf? c ((anchorName? cs).map fun (name, rest) => (.reference name, rest))
    | '&' => s.leaf? c ((anchorName? cs).map fun (name, rest) => (.anchor name, rest))
    | '!' => s.leaf? c ((tag? s.inFlow cs).map fun ((handle, suffix), rest) =>
        (.tag handle suffix, rest))
    | '\x27' | '\x22' => s.leaf? c ((quoted? (c :: cs)).map fun (text, rest) =>
        (.scalar .quoted text, rest))
    | '|' => if s.inFlow then none else s.blockScalar? .literal cs
    | '>' => if s.inFlow then none else s.blockScalar? .folded cs
    | _ => none

/-- The tokens up to the end of the text, at most as many as the number says. -/
def run? : Nat → Lexer → Option (List Token)
  | 0, _ => none
  | fuel + 1, s =>
    let s := s.toToken
    match s.rest with
    | [] => s.closeAllBlocks.dropKey?.map (·.tokens.reverse)
    | c :: cs => do
      let s ← s.expireKeys? c
      run? fuel (← (s.closeBlocks (c.column < ·)).token? c cs)

end Lexer

/-- The tokens of a text. -/
def tokens? (text : List Char) : Option (List Token) := do
  let cells ← cells? text
  (Lexer.start cells).run? (cells.length + 1)

end ServiceChain.Yaml
