import Sprig.Command

/-!
# The program

Arguments, files and streams around `Sprig.Command`. Lines of standard input are read when they are asked for:
a run is repeated with one more line for as long as it wants one, and what is new in its output is shown.
-/

namespace Sprig.Main

/-- More rounds of a loop than any run has time for. -/
def unbounded : Nat := Nat.pow 2 62

partial def readLine (stdin : IO.FS.Stream) (bytes : ByteArray) : IO (Option RawLine) := do
  let byte ← stdin.read 1
  if byte.isEmpty && bytes.isEmpty then return none
  if byte.isEmpty || byte.data == #[10] then return some (.ofBytes (bytes ++ byte).data.toList)
  readLine stdin (bytes ++ byte)

def display (bytes : ByteArray) : IO Unit := do
  let stdout ← IO.getStdout
  stdout.write bytes
  stdout.flush

/-- Runs `step` on a console, and shows its output from byte `shown` on. A line that is not text stands in for
the first one that has not been read: a run that takes it stops there, with nothing written after it. -/
partial def converse {α : Type} (step : Console → α) (after : α → Console) (console : Console)
    (shown : Nat) : IO α := do
  let result := step { console with input := console.input ++ [.undecodable] }
  let output := (after result).output
  display (output.extract shown output.size)
  if !(after result).input.isEmpty then return result
  match ← readLine (← IO.getStdin) .empty with
  | some line => converse step after { console with input := console.input ++ [line] } output.size
  | none =>
    let result := step console
    display ((after result).output.extract output.size (after result).output.size)
    return result

partial def interact (r : Repl) (shown : Nat) : IO Unit := do
  let console := { r.console with input := [] }
  let turn (console : Console) : Bool × Repl := (r.withConsole console).turn unbounded
  let (goesOn, r) ← converse turn (·.2.console) console shown
  IO.eprint r.errors
  if goesOn then interact { r with notices := [] } r.console.output.size

def entry (path : String) : IO Command.Entry := do
  try return .file (← IO.FS.readBinFile path)
  catch
    | .noFileOrDirectory .. | .noSuchThing .. => return .missing
    | .inappropriateType .. => return .unreadable Command.isDirectory
    | e => return .unreadable (toString e)

end Sprig.Main

open Sprig Sprig.Main in
def main (args : List String) : IO UInt32 := do
  let start (console : Console) : IO Unit := interact (.start { console with input := [] }) console.output.size
  match Command.parse args with
  | .help => IO.print Command.helpText; return 0
  | .version => IO.print Command.versionText; return 0
  | .malformed => IO.eprint Command.usage; return 2
  | .start none _ => start (.start none .empty); return 0
  | .start (some path) interactive =>
    match Command.source path (← entry path) with
    | .error complaint => IO.eprint complaint; return 1
    | .ok text =>
      let run := Script.run unbounded text (some path)
      let outcome ← converse run (·.console) (.start none .empty) 0
      IO.eprint outcome.errors
      if !outcome.success then return 1
      if interactive then start outcome.console
      return 0
