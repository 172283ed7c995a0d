import ServiceChain.Yaml.Cell

/-!
# White space inside scalars

Between two words of a scalar that fills several lines, a line end is read as a space, and empty
lines are read as line ends.
-/

namespace ServiceChain.Yaml

/-- The white space between two words: blanks on one line, or line ends. -/
structure Gap where
  /-- The blanks, if there is no line end. -/
  blanks : List Char
  /-- The line ends. -/
  breaks : List Char
  deriving DecidableEq, Repr

namespace Gap

/-- The words stand on different lines. -/
def isBroken (gap : Gap) : Bool := !gap.breaks.isEmpty

/-- What a gap is read as. -/
def text (gap : Gap) : List Char :=
  match gap.breaks with
  | [] => gap.blanks
  | ['\n'] => [' ']
  | '\n' :: more => more
  | breaks => breaks

end Gap

/-- The gap at the front and what follows it; `isBroken` tells that a line has ended before.  No
tab may stand left of the column `indent` of a new line. -/
def gap? (indent : Nat) (isBroken : Bool) : List Cell → Option (Gap × List Cell)
  | [] => some (⟨[], []⟩, [])
  | c :: cs =>
    if c.isBreak then
      (gap? indent true cs).map fun (gap, rest) => (⟨[], c.char :: gap.breaks⟩, rest)
    else if c.isBlank then
      if isBroken && c.char == '\t' && c.column < indent then none
      else
        (gap? indent isBroken cs).map fun (gap, rest) =>
          (if isBroken || gap.isBroken then gap else ⟨c.char :: gap.blanks, []⟩, rest)
    else some (⟨[], []⟩, c :: cs)

end ServiceChain.Yaml
