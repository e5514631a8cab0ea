import Sprig.Diagnostic
import Sprig.Text.Width

/-!
# How reports look

A report is drawn as a frame around the lines of the source that it labels, with marks at them and the label
behind an arrow. A span on one line of the display is underlined; one that goes over several is marked by a
bar to the left of its first and last line, with an ellipsis for those between. Only what shows a report to
the user draws it.
-/

namespace Sprig

namespace Report

/-- Characters after which a display goes to a new line. -/
def endsLine (c : Char) : Bool :=
  c == '\n' || c == '\r' || c == '\x0b' || c == '\x0c' || c == '\u0085' || c == '\u2028' || c == '\u2029'

/-- Puts back together a carriage return and the line feed after it. -/
def rejoin : List (List Char) → List (List Char)
  | line :: ['\n'] :: rest =>
    if line.getLast? == some '\r' then (line ++ ['\n']) :: rejoin rest else line :: ['\n'] :: rejoin rest
  | line :: rest => line :: rejoin rest
  | [] => []

/-- A line of the display: its number, counted from 1, the index of its first character in the source, and
its characters with the break. -/
structure Row where
  number : Nat
  start : Nat
  text : List Char

namespace Row

def stop (r : Row) : Nat := r.start + r.text.length

/-- The rows for lines that begin with the given number and index. -/
def ofLines (number start : Nat) : List (List Char) → List Row
  | [] => []
  | text :: rest => ⟨number, start, text⟩ :: ofLines (number + 1) (start + text.length) rest

def ofSource (source : List Char) : List Row := ofLines 1 0 (rejoin (splitAfter endsLine source))

def meets (r : Row) (span : Span) : Bool := decide (r.start < span.stop) && decide (span.start < r.stop)

/-- The text as it is shown: without the blanks at its end, and with spaces for those inside. -/
def shown (r : Row) : String :=
  String.ofList <| (dropBlanksRight r.text).zipIdx.flatMap fun (c, i) =>
    if isBlank c then List.replicate (displayWidth i c) ' ' else [c]

/-- The columns that the first `count` characters take; past the shown text each takes one. -/
def widths (r : Row) (count : Nat) : List Nat :=
  let text := dropBlanksRight r.text
  (text.zipIdx.map (fun (c, i) => displayWidth i c) ++ List.replicate count 1).take count

/-- Draws below the first `count` characters: for each index, a character for its first column and one for
the columns after it. -/
def below (r : Row) (count : Nat) (draw : Nat → Char × Char) : String :=
  String.ofList <| (r.widths count).zipIdx.flatMap fun (width, i) =>
    let (first, more) := draw i
    (first :: List.replicate width more).take width

end Row

/-- What stands left of the source, for line numbers of the given width. -/
def margin (digits : Nat) : String := String.ofList (List.replicate (digits + 2) ' ')

def sourceLine (digits : Nat) (r : Row) (mark : String) : String :=
  let number := toString r.number
  let pad := String.ofList (List.replicate (digits + 1 - number.length) ' ')
  s!"{pad}{number} │ {mark}{r.shown}"

/-- Underlines a span that lies on one row, with an arrow from its middle character to the message. -/
def underlined (digits : Nat) (r : Row) (span : Span) (message : String) : List String :=
  let start := span.start - r.start
  let stop := span.stop - r.start
  let middle := (start + stop) / 2
  let marks := r.below (stop + 2) fun i =>
    if i = middle then ('┬', '─') else if start ≤ i ∧ i < stop then ('─', '─') else (' ', ' ')
  let arrow := r.below (stop + 2) fun i =>
    if i = middle then ('╰', '─') else if middle < i then ('─', '─') else (' ', ' ')
  [sourceLine digits r "",
   s!"{margin digits}│ {marks}",
   s!"{margin digits}│ {arrow} {message}"]

/-- Brackets a span from its first row to its last, with an arrow below that to the message. -/
def bracketed (digits : Nat) (first : Row) (between : List Row) (last : Row) (message : String) :
    List String :=
  let count := last.text.length + 2
  let gap := last.below count fun _ => (' ', ' ')
  let arrow := last.below count fun _ => ('─', '─')
  let ellipsis := if between.isEmpty then [] else [s!"{margin digits}┆ ┆   "]
  [sourceLine digits first "╭─▶ "] ++ ellipsis ++
  [sourceLine digits last "├─▶ ",
   s!"{margin digits}│ │   {gap}",
   s!"{margin digits}│ ╰───{arrow} {message}"]

/-- What stands left of the notes. Room is left for a bracket, and a bracket that begins right below the
first row of the display has its bar drawn there too. -/
def gutter (first : Row) (bracket : Bool) : String :=
  if !bracket then "" else if first.number = 2 then "│   " else "    "

def noted (digits : Nat) (gutter : String) : Option String → List String
  | some text => [s!"{margin digits}│ {gutter}", s!"{margin digits}│ {gutter}Note: {text}"]
  | none => []

/-- The frame around the rows that the span goes over. -/
def frame (r : Report) (first : Row) (rest : List Row) : List String :=
  let last := rest.getLastD first
  let digits := (toString last.number).length
  let body :=
    if rest.isEmpty then underlined digits first r.span r.label
    else bracketed digits first rest.dropLast last r.label
  [s!"{margin digits}╭─[{r.filename}:{first.number}:{r.span.start - first.start + 1}]",
   s!"{margin digits}│"] ++ body ++
  noted digits (gutter first !rest.isEmpty) r.note ++
  [String.ofList (List.replicate (digits + 2) '─') ++ "╯"]

/-- The report as it is shown. An empty source has no line to show. -/
def draw (r : Report) : String :=
  let frame := match (Row.ofSource r.source.toList).filter (·.meets r.span) with
    | first :: rest => r.frame first rest
    | [] => []
  String.join ((s!"Error: {r.title}" :: frame).map (· ++ "\n"))

end Report

def Diagnostic.report (d : Diagnostic) (source : String) (filename : Option String) : String :=
  (d.about source filename).draw

def Notice.draw : Notice → String
  | .text s => s
  | .report r => r.draw

end Sprig
