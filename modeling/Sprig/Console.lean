import Sprig.Lines

/-!
# The console of a program

What has been written so far, how much more may be written, and the input lines not yet read.
-/

namespace Sprig

/-- A line of input with its line break, if its bytes are text. -/
inductive RawLine where
  | text (line : String)
  | undecodable
  deriving DecidableEq, Repr

def RawLine.ofBytes (bytes : List UInt8) : RawLine :=
  match String.fromUTF8? ⟨bytes.toArray⟩ with
  | some line => .text line
  | none => .undecodable

structure Console where
  output : ByteArray
  /-- How many bytes more the output takes; without a number it takes any. -/
  room : Option Nat
  input : List RawLine

namespace Console

def linesOf (bytes : ByteArray) : List RawLine :=
  (splitAfter (· == (10 : UInt8)) bytes.data.toList).map RawLine.ofBytes

def start (room : Option Nat) (input : ByteArray) : Console := ⟨.empty, room, linesOf input⟩

/-- A line without the line feeds and carriage returns at its end. -/
def withoutBreak (line : String) : String :=
  String.ofList (line.toList.reverse.dropWhile fun c => c == '\n' || c == '\r').reverse

def fits (c : Console) (text : String) : Bool := c.room.all (text.utf8ByteSize ≤ ·)

/-- Writes a text, or as much of it as there is room for. -/
def write (c : Console) (text : String) : Console :=
  match c.room with
  | none => { c with output := c.output ++ text.toUTF8 }
  | some room =>
    { c with
      output := c.output ++ text.toUTF8.extract 0 room
      room := some (room - text.utf8ByteSize) }

/-- Why a text that does not fit is refused. -/
def full : String := "sink full"

/-- Why a line that is not text is refused. -/
def notText : String := "stream did not contain valid UTF-8"

/-- The next line and the console without it. -/
def next? (c : Console) : Option (RawLine × Console) :=
  match c.input with
  | [] => none
  | line :: rest => some (line, { c with input := rest })

end Console

end Sprig
