import ServiceChain.Yaml.Cell
import ServiceChain.Yaml.Token

/-!
# Block scalars

A block scalar is written in indented lines below its header.  A literal one keeps its line ends;
in a folded one the end of a line before a line that starts without a blank is read as a space.
-/

namespace ServiceChain.Yaml

/-- What happens to the line ends at the end of a block scalar. -/
inductive Chomping where
  | strip
  | clip
  | keep
  deriving DecidableEq, Repr

namespace Chomping

/-- The chomping that a character of a header asks for. -/
def ofChar? : Char → Option Chomping
  | '-' => some strip
  | '+' => some keep
  | _ => none

end Chomping

/-- The header of a block scalar. -/
structure BlockHeader where
  chomping : Chomping
  /-- The indentation inside the block around the scalar, zero if the first line shows it. -/
  increment : Nat

/-! ## The header -/

/-- The indentation at the front of a header. -/
def increment : List Cell → Nat × List Cell
  | [] => (0, [])
  | c :: cs => if isDigit c.char then (c.char.toNat - '0'.toNat, cs) else (0, c :: cs)

/-- The chomping at the front of a header. -/
def chomping : List Cell → Chomping × List Cell
  | [] => (.clip, [])
  | c :: cs =>
    match Chomping.ofChar? c.char with
    | some chomping => (chomping, cs)
    | none => (.clip, c :: cs)

/-- The line after blanks and a comment, which must be all that is left of the line before. -/
def nextLine? (cells : List Cell) : Option (List Cell) :=
  let cells := cells.dropWhile (·.isBlank)
  let cells :=
    if cells.head?.any (·.char == '#') then cells.dropWhile (!·.isBreak) else cells
  match cells with
  | [] => some []
  | c :: cs => if c.isBreak then some cs else none

/-- The header after its first character and the line below it.  The two parts stand in any order;
an indentation of zero has no meaning. -/
def blockHeader? (cells : List Cell) : Option (BlockHeader × List Cell) :=
  let (before, rest) := chomping cells
  let digit := rest.head?.any fun c => isDigit c.char
  let (increment, rest) := increment rest
  let (chomping, rest) := if before = .clip ∧ digit then chomping rest else (before, rest)
  if digit ∧ increment = 0 then none
  else (nextLine? rest).map fun rest => (⟨chomping, increment⟩, rest)

/-! ## The lines -/

/-- The ends of the empty lines at the front, the widest indentation met, and what follows the
indentation of the next line.  Zero as an indentation stands for any; no tab may stand in it. -/
def emptyLines? (indent : Nat) : List Cell → Option (List Char × Nat × List Cell)
  | [] => some ([], 0, [])
  | c :: cs =>
    if c.isBreak then
      (emptyLines? indent cs).map fun (breaks, width, rest) =>
        (c.char :: breaks, max width c.column, rest)
    else if c.isBlank && (indent == 0 || c.column < indent) then
      if c.char == '\t' then none else emptyLines? indent cs
    else some ([], c.column, c :: cs)

/-- White space after a line: its own end, and the ends of the empty lines that follow it. -/
structure LineEnd where
  own : List Char
  empties : List Char

namespace LineEnd

/-- What the end of a line is read as before another line.  Only a line end between two lines that
start without a blank is folded. -/
def joint (style : Style) (afterBlank beforeBlank : Bool) (e : LineEnd) : List Char :=
  if style = .folded ∧ e.own = ['\n'] ∧ !afterBlank ∧ !beforeBlank then
    if e.empties.isEmpty then [' '] else e.empties
  else e.own ++ e.empties

/-- What the end of the last line is read as. -/
def chomped (e : LineEnd) : Chomping → List Char
  | .strip => []
  | .clip => e.own
  | .keep => e.own ++ e.empties

end LineEnd

/-- The lines that start at the column `indent`, at most as many as the number says, and what
follows them.  They come after the given line end; `afterBlank` tells that the line before starts
with a blank. -/
def blockLines? (style : Style) (chomping : Chomping) (indent : Nat) :
    Nat → Bool → LineEnd → List Cell → Option (List Char × List Cell)
  | 0, _, _, _ => none
  | _ + 1, _, e, [] => some (e.chomped chomping, [])
  | fuel + 1, afterBlank, e, c :: cs =>
    if c.column = indent then do
      let line := (c :: cs).takeWhile (!·.isBreak)
      let rest := (c :: cs).dropWhile (!·.isBreak)
      let (empties, _, next) ← emptyLines? indent rest.tail
      let (text, rest) ← blockLines? style chomping indent fuel c.isBlank
        ⟨(rest.take 1).map (·.char), empties⟩ next
      return (e.joint style afterBlank c.isBlank ++ line.map (·.char) ++ text, rest)
    else some (e.chomped chomping, c :: cs)

/-- The block scalar after its first character and what follows it; `least` is the least column of
the content of the block around it. -/
def block? (style : Style) (least : Nat) (cells : List Cell) : Option (List Char × List Cell) := do
  let (header, rest) ← blockHeader? cells
  let given := if header.increment = 0 then 0 else least - 1 + header.increment
  let (empties, width, rest) ← emptyLines? given rest
  let indent := if given = 0 then max (max width least) 1 else given
  blockLines? style header.chomping indent (cells.length + 1) false ⟨[], empties⟩ rest

end ServiceChain.Yaml
