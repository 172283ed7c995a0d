import ServiceChain.Text.Numeral
import ServiceChain.Wire.Text

/-!
# The compact form of texts

Values are written without blanks: brackets, commas and colons stand between texts in quotes and words,
which are the names of constants and numbers.  A text is read in two passes.  The first one cuts it into
tokens, character by character (`CompactForm.scan`).  The second one puts the tokens together with a stack
of the arrays and objects that are open (`CompactForm.step?`); so the height of the stack is what a bound on
open brackets is about.  Only integers are read, and no character is read from the codes of two halves.
-/

namespace ServiceChain

namespace CompactForm

/-! ## Tokens -/

/-- The marks between words and texts. -/
inductive Mark where
  | openItems | closeItems | openFields | closeFields | comma | colon
  deriving DecidableEq, Repr

namespace Mark

def char : Mark → Char
  | openItems => '['
  | closeItems => ']'
  | openFields => '\x7b'
  | closeFields => '\x7d'
  | comma => ','
  | colon => ':'

/-- The mark that is written with a character. -/
def ofChar? (c : Char) : Option Mark :=
  [openItems, closeItems, openFields, closeFields, comma, colon].find? (·.char == c)

end Mark

/-- A mark, the characters of a text, or those of a word. -/
inductive Token where
  | mark (m : Mark)
  | text (chars : List Char)
  | word (chars : List Char)
  deriving DecidableEq, Repr

/-! ## Words -/

def nullChars : List Char := ['n', 'u', 'l', 'l']

def boolChars : Bool → List Char
  | true => ['t', 'r', 'u', 'e']
  | false => ['f', 'a', 'l', 's', 'e']

def intChars : Int → List Char
  | .ofNat n => Text.decimal n
  | .negSucc n => '-' :: Text.decimal (n + 1)

/-- Digits, behind a minus sign or not. -/
def signed? : List Char → Option Int
  | '-' :: ds => (Text.digits? 10 ds).map fun n => -(n : Int)
  | ds => (Text.digits? 10 ds).map Int.ofNat

/-- The integer that is written so; leading zeros are not read. -/
def int? (cs : List Char) : Option Int := (signed? cs).filter (intChars · == cs)

/-- The value of a word. -/
def word? (cs : List Char) : Option Json :=
  if cs = nullChars then some .null
  else if cs = boolChars true then some (.bool true)
  else if cs = boolChars false then some (.bool false)
  else (int? cs).map .int

/-! ## Writing -/

def quote : Char := '\x22'

def backslash : Char := '\x5c'

/-- The characters that are written as a backslash and a letter of their own. -/
def escapes : List (Char × Char) :=
  [(quote, quote), (backslash, backslash), ('\x08', 'b'), ('\x0c', 'f'), ('\n', 'n'), ('\r', 'r'),
    ('\t', 't')]

/-- A character in a text; other control characters are written with their codes. -/
def escaped (c : Char) : List Char :=
  match escapes.find? (·.1 == c) with
  | some (_, letter) => [backslash, letter]
  | none => if c.toNat < 32 then backslash :: 'u' :: Text.hexPadded 4 c.toNat else [c]

def Token.chars : Token → List Char
  | mark m => [m.char]
  | text cs => quote :: (cs.flatMap escaped ++ [quote])
  | word cs => cs

mutual

/-- The tokens of a value. -/
def tokens : Json → List Token
  | .null => [.word nullChars]
  | .bool b => [.word (boolChars b)]
  | .int n => [.word (intChars n)]
  | .fraction mantissa scale => [.word (intChars mantissa ++ 'e' :: '-' :: Text.decimal scale)]
  | .str s => [.text s.toList]
  | .arr items =>
    .mark .openItems :: ([.mark .comma].intercalate (itemTokens items) ++ [.mark .closeItems])
  | .obj fields =>
    .mark .openFields :: ([.mark .comma].intercalate (fieldTokens fields) ++ [.mark .closeFields])

/-- The tokens of each item. -/
def itemTokens : List Json → List (List Token)
  | [] => []
  | item :: items => tokens item :: itemTokens items

/-- The tokens of each field. -/
def fieldTokens : List (String × Json) → List (List Token)
  | [] => []
  | field :: fields => tokensOfField field :: fieldTokens fields

/-- The tokens of a field. -/
def tokensOfField : String × Json → List Token
  | (name, value) => .text name.toList :: .mark .colon :: tokens value

end

/-! ## Tokens of a text -/

/-- The character may stand between tokens. -/
def isSpace (c : Char) : Bool := c = ' ' || c = '\t' || c = '\n' || c = '\r'

/-- The character that is written with a letter behind a backslash; a slash may be written so. -/
def unescaped? (letter : Char) : Option Char :=
  ((('/', '/') :: escapes).find? (·.2 == letter)).map (·.1)

/-- The character with a code. -/
def charOf? (code : Nat) : Option Char := if code.isValidChar then some (Char.ofNat code) else none

/-- Where in a token the characters so far have led; what was seen of a word or a text stands last first. -/
inductive Mode where
  | gap
  | word (seen : List Char)
  | text (seen : List Char)
  /-- Behind a backslash. -/
  | escape (seen : List Char)
  /-- Within the four digits of a code. -/
  | code (seen digits : List Char)
  deriving DecidableEq, Repr

/-- What one character leads to, and the tokens that it ends. -/
def Mode.step? : Mode → Char → Option (Mode × List Token)
  | gap, c =>
    if c = quote then some (text [], [])
    else
      match Mark.ofChar? c with
      | some m => some (gap, [.mark m])
      | none => if isSpace c then some (gap, []) else some (word [c], [])
  | word seen, c =>
    if c = quote then none
    else
      match Mark.ofChar? c with
      | some m => some (gap, [.word seen.reverse, .mark m])
      | none => if isSpace c then some (gap, [.word seen.reverse]) else some (word (c :: seen), [])
  | text seen, c =>
    if c = quote then some (gap, [.text seen.reverse])
    else if c = backslash then some (escape seen, [])
    else if c.toNat < 32 then none
    else some (text (c :: seen), [])
  | escape seen, c =>
    if c = 'u' then some (code seen [], [])
    else (unescaped? c).map fun c => (text (c :: seen), [])
  | code seen digits, c =>
    if digits.length < 3 then some (code seen (digits ++ [c]), [])
    else
      ((Text.digits? 16 (digits ++ [c])).bind charOf?).map fun c => (text (c :: seen), [])

/-- Cuts characters into tokens. -/
def scan : Mode → List Char → Option (List Token)
  | .gap, [] => some []
  | .word seen, [] => some [.word seen.reverse]
  | _, [] => none
  | mode, c :: cs =>
    (mode.step? c).bind fun (next, ended) => (scan next cs).map (ended ++ ·)

/-! ## Values of tokens -/

/-- An array or object that is open around a value, with what was read of it, last first. -/
inductive Frame where
  | item (done : List Json)
  | field (done : List (String × Json)) (name : String)

/-- What is due next, inside of the brackets that are open. -/
inductive State where
  /-- A value, or the end of an array that was just opened. -/
  | value (opened : Bool) (stack : List Frame)
  /-- The name of a field, or the end of an object that was just opened. -/
  | name (opened : Bool) (done : List (String × Json)) (stack : List Frame)
  /-- The colon behind a name. -/
  | colon (done : List (String × Json)) (name : String) (stack : List Frame)
  /-- A comma or the end of an array. -/
  | items (done : List Json) (stack : List Frame)
  /-- A comma or the end of an object. -/
  | fields (done : List (String × Json)) (stack : List Frame)
  | ended (value : Json)

/-- A value is complete. -/
def give (value : Json) : List Frame → State
  | [] => .ended value
  | .item done :: stack => .items (value :: done) stack
  | .field done name :: stack => .fields ((name, value) :: done) stack

/-- What one token leads to. -/
def step? (limit : Option Nat) : State → Token → Option State
  | .value _ stack, .mark .openItems =>
    if JsonText.admits limit (stack.length + 1) then some (.value true (.item [] :: stack)) else none
  | .value _ stack, .mark .openFields =>
    if JsonText.admits limit (stack.length + 1) then some (.name true [] stack) else none
  | .value true (.item done :: stack), .mark .closeItems => some (give (.arr done.reverse) stack)
  | .value _ stack, .text cs => some (give (.str (String.ofList cs)) stack)
  | .value _ stack, .word cs => (word? cs).map (give · stack)
  | .name true done stack, .mark .closeFields => some (give (.obj done.reverse) stack)
  | .name _ done stack, .text cs => some (.colon done (String.ofList cs) stack)
  | .colon done name stack, .mark .colon => some (.value false (.field done name :: stack))
  | .items done stack, .mark .comma => some (.value false (.item done :: stack))
  | .items done stack, .mark .closeItems => some (give (.arr done.reverse) stack)
  | .fields done stack, .mark .comma => some (.name false done stack)
  | .fields done stack, .mark .closeFields => some (give (.obj done.reverse) stack)
  | _, _ => none

/-- The value that has ended. -/
def State.value? : State → Option Json
  | ended j => some j
  | _ => none

end CompactForm

open CompactForm in
/-- The compact form of texts, with a bound on open brackets or without one. -/
def compact (limit : Option Nat) : JsonText where
  limit
  write j := String.ofList ((tokens j).flatMap Token.chars)
  read? s := do
    let ts ← scan .gap s.toList
    let last ← ts.foldlM (step? limit) (.value false [])
    last.value?

end ServiceChain
