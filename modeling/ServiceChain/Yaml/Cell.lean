/-!
# Characters at their places

A text is read as a list of cells, each a character with its place.  All ways of ending a line
become one character, so that readers meet a line end as a single cell; the separators of lines and
of paragraphs stay themselves.
-/

namespace ServiceChain.Yaml

/-! ## Characters -/

/-- A space or a tab. -/
def isBlank (c : Char) : Bool := c == ' ' || c == '\t'

/-- The separator of lines or of paragraphs. -/
def isSeparator (c : Char) : Bool := c.toNat == 0x2028 || c.toNat == 0x2029

/-- A character that ends a line. -/
def isBreak (c : Char) : Bool := c == '\n' || c == '\r' || c.toNat == 0x85 || isSeparator c

/-- A character that may stand in a text. -/
def isPrintable (c : Char) : Bool :=
  let n := c.toNat
  n == 0x09 || n == 0x0a || n == 0x0d || (0x20 ≤ n && n ≤ 0x7e) || n == 0x85 ||
    (0xa0 ≤ n && n ≤ 0xfffd) || 0x10000 ≤ n

/-- A digit. -/
def isDigit (c : Char) : Bool := '0' ≤ c && c ≤ '9'

/-- A letter, a digit, a dash or an underscore. -/
def isNameChar (c : Char) : Bool :=
  isDigit c || ('a' ≤ c && c ≤ 'z') || ('A' ≤ c && c ≤ 'Z') || c == '-' || c == '_'

/-- A character that divides or closes collections in brackets. -/
def isBracket (c : Char) : Bool := ",[]\x7b\x7d".toList.contains c

/-- A character that no plain scalar starts with. -/
def isIndicator (c : Char) : Bool := "-?:,[]\x7b\x7d#&*!|>\x27\x22%@\x60".toList.contains c

/-! ## Cells -/

/-- A character, the number of bytes before it, and its line and column. -/
structure Cell where
  char : Char
  offset : Nat
  line : Nat
  column : Nat
  deriving DecidableEq, Repr

/-- The cells of a text that starts at the given place. -/
def place (offset line column : Nat) : List Char → List Cell
  | [] => []
  | '\r' :: '\n' :: cs => ⟨'\n', offset, line, column⟩ :: place (offset + 2) (line + 1) 0 cs
  | c :: cs =>
    if isBreak c then
      ⟨if isSeparator c then c else '\n', offset, line, column⟩ ::
        place (offset + c.utf8Size) (line + 1) 0 cs
    else ⟨c, offset, line, column⟩ :: place (offset + c.utf8Size) line (column + 1) cs

/-- The cells of a text without control characters. -/
def cells? (text : List Char) : Option (List Cell) :=
  if text.all isPrintable then some (place 0 0 0 text) else none

/-- The cell ends a line. -/
def Cell.isBreak (c : Cell) : Bool := Yaml.isBreak c.char

/-- The cell is a space or a tab. -/
def Cell.isBlank (c : Cell) : Bool := Yaml.isBlank c.char

/-- The cell is white space. -/
def Cell.isSpace (c : Cell) : Bool := c.isBlank || c.isBreak

/-- The text ends here, or white space follows. -/
def atSpace : List Cell → Bool
  | [] => true
  | c :: _ => c.isSpace

/-- A line of three equal characters, alone or before white space: three dashes start a document and
three dots end it. -/
def isMarker (mark : Char) (cells : List Cell) : Bool :=
  cells.head?.any (·.column == 0) && (cells.take 3).map (·.char) == [mark, mark, mark] &&
    atSpace (cells.drop 3)

/-- A document starts or ends here. -/
def atMarker (cells : List Cell) : Bool := isMarker '-' cells || isMarker '.' cells

end ServiceChain.Yaml
