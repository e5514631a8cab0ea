import Sprig.Diagnostic.Report
import Sprig.Repl
import Sprig.Script

/-!
# The command line
-/

namespace Sprig

namespace Command

/-- What a command line asks for. -/
inductive Request where
  | help
  | version
  | start (file : Option String) (interactive : Bool)
  /-- An unknown option, one given twice, or a second file. -/
  | malformed
  deriving DecidableEq, Repr

def helpText : String :=
  String.join <| List.map (· ++ "\n")
    ["Interpreter for the sprig scripting language",
     "",
     "Usage: sprig [OPTIONS] [FILE]",
     "",
     "Arguments:",
     "  [FILE]  The script file to execute",
     "",
     "Options:",
     "  -i, --interactive  Start in interactive REPL mode",
     "  -h, --help         Print help",
     "  -V, --version      Print version"]

def usage : String := "Usage: sprig [OPTIONS] [FILE]\n"

def versionText : String := s!"sprig {version}\n"

/-- Arguments that are files whatever they look like. -/
def files (file : Option String) (interactive : Bool) : List String → Request
  | [] => .start file interactive
  | arg :: rest => if file.isSome then .malformed else files (some arg) interactive rest

/-- Options written together behind one dash: either a request, or whether `i` has been among them. -/
def flags (interactive : Bool) : List Char → Request ⊕ Bool
  | [] => .inr interactive
  | 'i' :: rest => if interactive then .inl .malformed else flags true rest
  | 'h' :: _ => .inl .help
  | 'V' :: _ => .inl .version
  | _ => .inl .malformed

/-- Reads arguments in order; the first that settles what to do ends the reading. -/
def parseFrom (file : Option String) (interactive : Bool) : List String → Request
  | [] => .start file interactive
  | "--" :: rest => files file interactive rest
  | "--help" :: _ => .help
  | "--version" :: _ => .version
  | "--interactive" :: rest => if interactive then .malformed else parseFrom file true rest
  | arg :: rest =>
    match arg.toList with
    | '-' :: '-' :: _ => .malformed
    | '-' :: c :: cs =>
      match flags interactive (c :: cs) with
      | .inl request => request
      | .inr interactive => parseFrom file interactive rest
    | _ => if file.isSome then .malformed else parseFrom (some arg) interactive rest

def parse : List String → Request := parseFrom none false

/-- What a path leads to. -/
inductive Entry where
  | missing
  | unreadable (reason : String)
  | file (bytes : ByteArray)

/-- Why a directory is unreadable. -/
def isDirectory : String := "Is a directory (os error 21)"

structure Outcome where
  exit : Nat
  output : ByteArray
  notices : List Notice

/-- The source text that a path leads to, or the complaint. -/
def source (path : String) : Entry → Except String String
  | .missing => .error s!"Error: File '{path}' not found\n"
  | .unreadable reason => .error s!"Error reading file '{path}': {reason}\n"
  | .file bytes =>
    match String.fromUTF8? bytes with
    | some text => .ok text
    | none => .error s!"Error reading file '{path}': {Console.notText}\n"

/-- The interactive loop, on what is left of the console. -/
def interact (fuel : Nat) (console : Console) : Outcome :=
  let r := (Repl.start console).run fuel
  ⟨0, r.console.output, r.notices⟩

/-- Runs a file, and then the interactive loop if asked for and all went well. -/
def runFile (fuel : Nat) (path : String) (entry : Entry) (interactive : Bool) (console : Console) :
    Outcome :=
  match source path entry with
  | .error complaint => ⟨1, console.output, [.text complaint]⟩
  | .ok text =>
    let o := Script.run fuel text (some path) console
    if !o.success then ⟨1, o.console.output, (o.report.map Notice.report).toList⟩
    else if interactive then interact fuel o.console
    else ⟨0, o.console.output, []⟩

/-- The whole command. -/
def run (fuel : Nat) (lookup : String → Entry) (args : List String) (console : Console) : Outcome :=
  match parse args with
  | .help => ⟨0, helpText.toUTF8, []⟩
  | .version => ⟨0, versionText.toUTF8, []⟩
  | .malformed => ⟨2, .empty, [.text usage]⟩
  | .start none _ => interact fuel console
  | .start (some path) interactive => runFile fuel path (lookup path) interactive console

end Command

/-! ## What is shown of errors -/

def Repl.errors (r : Repl) : String := String.join (r.notices.map Notice.draw)

def Script.Outcome.errors (o : Outcome) : String := (o.report.map Report.draw).getD ""

def Command.Outcome.errors (o : Outcome) : String := String.join (o.notices.map Notice.draw)

end Sprig
