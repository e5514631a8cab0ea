import Sprig.Lines
import Sprig.Token.Scan

/-!
# Logical lines

A logical line is what one statement or block keyword is written on: physical lines are joined while a
parenthesis is open or the last token is a connective. Blank lines and comments leave no trace.
-/

namespace Sprig

abbrev LogicalLine := List Token

/-- The physical lines of a text, each with its line feed. -/
def physicalLines (text : List Char) : List (List Char) := splitAfter (· == '\n') text

namespace LogicalLine

/-- Joins the tokens of physical lines after those that are still `pending`. Tokens that wait for more at
the end of the text make the last logical line. -/
def join (pending : LogicalLine) : List (List Token) → List LogicalLine
  | [] => if pending.isEmpty then [] else [pending]
  | ts :: rest =>
    let line := pending ++ ts
    if line.isEmpty || Token.isDangling line then join line rest else line :: join [] rest

/-- The logical lines of a source text. -/
def ofSource (source : String) : Except Fault (List LogicalLine) := do
  let lines ← ((physicalLines source.toList).zipIdx 1).mapM fun (text, line) => scan line text
  return join [] lines

/-- What a logical line adds to the number of open blocks. -/
def blockDepth (line : LogicalLine) : Int := (line.head?.map (·.kind.blockDepth)).getD 0

/-- The lines stop in the middle of a statement: the last one waits for more tokens or a block is open. -/
def isUnfinished (lines : List LogicalLine) : Bool :=
  lines.getLast?.any Token.isDangling || decide (0 < lines.foldr (fun line d => blockDepth line + d) 0)

end LogicalLine

/-- More text must follow before the source can be a program. A source that does not scan is not waited
for. -/
def isIncomplete (source : String) : Bool :=
  match LogicalLine.ofSource source with
  | .ok lines => LogicalLine.isUnfinished lines
  | .error _ => false

end Sprig
