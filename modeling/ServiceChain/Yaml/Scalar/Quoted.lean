import ServiceChain.Text.Numeral
import ServiceChain.Yaml.Scalar.Gap

/-!
# Quoted scalars

In single quotes a doubled quote stands for itself; in double quotes a backslash starts an escape or
hides a line end.  Both may fill several lines.
-/

namespace ServiceChain.Yaml

/-! ## Escapes -/

/-- The character of an escape of one letter. -/
def escape? : Char → Option Char
  | '0' => some '\x00'
  | 'a' => some '\x07'
  | 'b' => some '\x08'
  | 't' => some '\t'
  | '\t' => some '\t'
  | 'n' => some '\n'
  | 'v' => some '\x0b'
  | 'f' => some '\x0c'
  | 'r' => some '\r'
  | 'e' => some '\x1b'
  | ' ' => some ' '
  | '\x22' => some '\x22'
  | '/' => some '/'
  | '\x5c' => some '\x5c'
  | 'N' => some '\u0085'
  | '_' => some '\u00a0'
  | 'L' => some '\u2028'
  | 'P' => some '\u2029'
  | _ => none

/-- The number of digits after the letter of an escape. -/
def escapeLength? : Char → Option Nat
  | 'x' => some 2
  | 'u' => some 4
  | 'U' => some 8
  | _ => none

/-- The character whose number is written by so many hexadecimal digits. -/
def coded? (length : Nat) (cells : List Cell) : Option Char := do
  let digits := (cells.take length).map (·.char)
  let n ← Text.digits? 16 digits
  if digits.length = length ∧ n.isValidChar then some (Char.ofNat n) else none

/-- The character of the escape after a backslash and what follows it. -/
def escaped? : List Cell → Option (Char × List Cell)
  | [] => none
  | c :: cs =>
    match escapeLength? c.char with
    | some length => (coded? length cs).map fun d => (d, cs.drop length)
    | none => (escape? c.char).map fun d => (d, cs)

/-! ## Scalars -/

/-- Puts a text in front of what has been read. -/
def prepend (text : List Char) (tail : Option (List Char × List Cell)) :
    Option (List Char × List Cell) :=
  tail.map fun (more, rest) => (text ++ more, rest)

/-- The content of a single quoted scalar after its opening quote and what follows the closing one;
the number bounds the characters. -/
def single? : Nat → List Cell → Option (List Char × List Cell)
  | 0, _ => none
  | _ + 1, [] => none
  | fuel + 1, c :: cs =>
    if atMarker (c :: cs) then none
    else if c.isSpace then do
      let (gap, rest) ← gap? 0 false (c :: cs)
      prepend gap.text (single? fuel rest)
    else if c.char == '\x27' then
      if cs.head?.any (·.char == '\x27') then prepend ['\x27'] (single? fuel cs.tail)
      else some ([], cs)
    else prepend [c.char] (single? fuel cs)

/-- The content of a double quoted scalar after its opening quote and what follows the closing one;
the number bounds the characters. -/
def double? : Nat → List Cell → Option (List Char × List Cell)
  | 0, _ => none
  | _ + 1, [] => none
  | fuel + 1, c :: cs =>
    if atMarker (c :: cs) then none
    else if c.isSpace then do
      let (gap, rest) ← gap? 0 false (c :: cs)
      prepend gap.text (double? fuel rest)
    else if c.char == '\x22' then some ([], cs)
    else if c.char == '\x5c' then
      if cs.head?.any (·.isBreak) then do
        let (gap, rest) ← gap? 0 true cs.tail
        prepend gap.breaks (double? fuel rest)
      else do
        let (d, rest) ← escaped? cs
        prepend [d] (double? fuel rest)
    else prepend [c.char] (double? fuel cs)

/-- The quoted scalar at the front and what follows it. -/
def quoted? (cells : List Cell) : Option (List Char × List Cell) :=
  match cells with
  | [] => none
  | c :: cs =>
    if c.char == '\x27' then single? cells.length cs
    else if c.char == '\x22' then double? cells.length cs
    else none

end ServiceChain.Yaml
