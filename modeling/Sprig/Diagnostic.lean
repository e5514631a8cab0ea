import Sprig.Fault
import Sprig.LogicalLine

/-!
# Diagnostics

What a user is told about a fault, and the part of the source that it refers to. How a report looks is not said here.
-/

namespace Sprig

/-- The stage of work that failed. -/
inductive Stage where
  | lexical | syntactic | runtime
  deriving DecidableEq, Repr

def Stage.title : Stage → String
  | lexical => "Lexical Error"
  | syntactic => "Parse Error"
  | runtime => "Runtime Error"

structure Diagnostic where
  stage : Stage
  line : Nat
  message : String
  help : Option String
  deriving DecidableEq, Repr

def Fault.diagnostic (f : Fault) : Diagnostic where
  stage := match f.problem with
    | .lexical _ => .lexical
    | .syntactic _ => .syntactic
    | .runtime _ => .runtime
  line := f.line
  message := f.message
  help := f.help

/-- The characters of a text from index `start` up to `stop`. -/
structure Span where
  start : Nat
  stop : Nat
  deriving DecidableEq, Repr

namespace Span

def isBreak (c : Char) : Bool := c == '\n' || c == '\r'

/-- The part of a line to show: all but the break at its end, or its first character if that is all. -/
def shownLength (line : List Char) : Nat :=
  let content := (line.reverse.dropWhile isBreak).length
  if content = 0 then min line.length 1 else content

/-- The span of a line, counted from 1. A line that does not exist has the last character for its span. -/
def ofLine (source : List Char) (line : Nat) : Span :=
  let lines := physicalLines source
  match line with
  | 0 => last
  | n + 1 =>
    match lines[n]? with
    | some text =>
      let start := (lines.take n).flatten.length
      ⟨start, start + shownLength text⟩
    | none => last
where
  last : Span := ⟨source.length - 1, source.length⟩

end Span

/-- A message with the part of a source that it labels. -/
structure Report where
  filename : String
  source : String
  span : Span
  title : String
  label : String
  note : Option String

/-- The report on a diagnostic about a source text. -/
def Diagnostic.about (d : Diagnostic) (source : String) (filename : Option String) : Report where
  filename := filename.getD "<repl>"
  source := source
  span := .ofLine source.toList d.line
  title := s!"{d.stage.title}: {d.message}"
  label := d.message
  note := d.help.map fun text => s!"help: {text}"

/-- What is said beside the output. -/
inductive Notice where
  | text (text : String)
  | report (r : Report)

end Sprig
