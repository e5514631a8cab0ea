import Sprig.Eval
import Sprig.Program.Grammar

/-!
# Sessions

A session runs a program that grows. A submitted chunk is put behind the source accepted so far and the whole
is read again, so that names keep their bindings; only the statements that were not run before are run.
-/

namespace Sprig

structure Session where
  /-- What has been accepted so far. -/
  source : String
  /-- The text of the last submission, accepted or not, to which the lines of its faults refer. -/
  attempt : String
  /-- How many statements of `source` have been handed over to be run. -/
  executed : Nat
  machine : Machine

namespace Session

def start (console : Console) : Session := ⟨"", "", 0, .start console⟩

def endLine (text : String) : String :=
  if text.toList.getLast? == some '\n' then text else text ++ "\n"

/-- The accepted source with a chunk behind it; both end in a line feed. -/
def extend (source chunk : String) : String :=
  endLine ((if source.isEmpty then source else endLine source) ++ chunk)

/-- Takes in what the text of the last submission reads as. If it cannot be read, nothing changes; else the text
is kept and what is new in it is run. -/
def accept (fuel : Nat) (s : Session) : Except Fault Program → Except Stop Unit × Session
  | .error f => (.error (.fault f), s)
  | .ok p =>
    let fresh := p.body.tail s.executed
    let s := { s with source := s.attempt, executed := p.body.stmts.length }
    match s.machine.resume fuel p.scopes fresh with
    | .ok () machine => (.ok (), { s with machine })
    | .error stop machine => (.error stop, { s with machine })

/-- Takes in a chunk and runs what is new in it. A chunk that cannot be read changes nothing but `attempt`;
one that can is kept even if running it fails. -/
def submit (fuel : Nat) (s : Session) (chunk : String) : Except Stop Unit × Session :=
  let text := extend s.source chunk
  accept fuel { s with attempt := text } (Program.ofSource text)

/-- Takes the next line of the input that the program reads too. -/
def next? (s : Session) : Option (RawLine × Session) :=
  s.machine.console.next?.map fun (line, console) =>
    (line, { s with machine := { s.machine with console } })

/-- Writes to the output of the program, outside of it. -/
def write (s : Session) (text : String) : Session :=
  { s with machine := { s.machine with console := s.machine.console.write text } }

end Session

end Sprig
