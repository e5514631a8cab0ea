import Sprig.Diagnostic
import Sprig.Session
import Sprig.Text.Blank

/-!
# The interactive loop

Lines are collected until they are no longer incomplete, and then submitted to a session. The loop reads its
lines from the input that the programs read too, and its prompts go where their output goes.
-/

namespace Sprig

def version : String := "0.1.0"

structure Repl where
  session : Session
  /-- The lines collected so far. -/
  buffer : String
  /-- What has been said about errors. -/
  notices : List Notice

namespace Repl

def console (r : Repl) : Console := r.session.machine.console

def withConsole (r : Repl) (console : Console) : Repl :=
  { r with session := { r.session with machine := { r.session.machine with console } } }

def write (r : Repl) (text : String) : Repl := { r with session := r.session.write text }

def complain (r : Repl) (notice : Notice) : Repl := { r with notices := r.notices ++ [notice] }

def start (console : Console) : Repl :=
  write ⟨.start console, "", []⟩ s!"Sprig {version}\nType 'exit' or press Ctrl+D to quit\n\n"

def prompt (r : Repl) : String := if r.buffer.isEmpty then "> " else "... "

/-- Submits a chunk and reports its fault, if there is one. Says whether the chunk came to an end. -/
def submit (fuel : Nat) (r : Repl) (chunk : String) : Bool × Repl :=
  let (result, session) := r.session.submit fuel chunk
  let r := { r with session, buffer := "" }
  match result with
  | .ok () => (true, r)
  | .error (.fault f) => (true, r.complain (.report (f.diagnostic.about session.attempt none)))
  | .error .outOfFuel => (false, r)

/-- Adds a line to those collected, and submits them if they are complete. -/
def collect (fuel : Nat) (r : Repl) (line : String) : Bool × Repl :=
  let chunk := r.buffer ++ line
  if isIncomplete chunk then (true, { r with buffer := chunk }) else r.submit fuel chunk

/-- Deals with a line of text. Says whether to go on. A command is one only where a statement may start. -/
def take (fuel : Nat) (r : Repl) (line : String) : Bool × Repl :=
  if r.buffer.isEmpty then
    match String.ofList (trimBlanks line.toList) with
    | "" => (true, r)
    | "exit" | "quit" => (false, r.write "Goodbye!\n")
    | _ => r.collect fuel line
  else r.collect fuel line

/-- Prompts for a line and deals with it. Says whether to go on. -/
def turn (fuel : Nat) (r : Repl) : Bool × Repl :=
  let r := r.write r.prompt
  match r.session.next? with
  | none => (false, r.write "\n")
  | some (.undecodable, session) =>
    (false, { r with session }.complain (.text s!"Error reading input: {Console.notText}\n"))
  | some (.text line, session) => { r with session }.take fuel line

/-- At most `n` turns. -/
def turns (fuel : Nat) : Nat → Repl → Repl
  | 0, r => r
  | n + 1, r =>
    match r.turn fuel with
    | (true, r) => turns fuel n r
    | (false, r) => r

/-- The loop until it ends. Every turn but the last takes a line of input. -/
def run (fuel : Nat) (r : Repl) : Repl := r.turns fuel (r.console.input.length + 1)

end Repl

end Sprig
