import Sprig.Arithmetic
import Sprig.Console
import Sprig.Frame

/-!
# The state of a running program

A name is looked up in the globals if it starts with `$`, and otherwise in the innermost frame, never
anywhere else.
-/

namespace Sprig

structure Machine where
  globals : Frame
  /-- One frame per open call, innermost first; the frame of the program is the last. -/
  frames : List Frame
  /-- The value of the expression evaluated last. -/
  last : Value
  hasRun : Bool
  console : Console

namespace Machine

def start (console : Console) : Machine := ⟨.empty, [], .nil, false, console⟩

def get? (m : Machine) (name : String) : Option Value :=
  if isGlobalName name then m.globals.get? name else m.frames.head?.bind (·.get? name)

/-- The state with another value for a name that is bound. -/
def set? (m : Machine) (name : String) (v : Value) : Option Machine :=
  if isGlobalName name then
    (m.globals.set? name v).map fun globals => { m with globals }
  else
    match m.frames with
    | [] => none
    | frame :: rest => (frame.set? name v).map fun frame => { m with frames := frame :: rest }

/-- Binds parameters to arguments. Surplus arguments are dropped. -/
def bind (m : Machine) : List String → List Value → Machine
  | p :: ps, v :: vs => bind ((m.set? p v).getD m) ps vs
  | _, _ => m

/-- A new frame on top, for the names of a scope. -/
def push (m : Machine) (s : Scope) : Machine := { m with last := .nil, frames := .ofScope s :: m.frames }

/-- Opens the frame of a call. -/
def enter (m : Machine) (f : Func) (args : List Value) : Machine := (m.push f.scope).bind f.params args

def leave (m : Machine) : Machine := { m with frames := m.frames.tail }

/-- New frames for a program, with every name bound to nil. -/
def reset (m : Machine) (scopes : ScopeTable) : Machine :=
  { m with
    globals := .ofScope scopes.globals
    frames := [.ofScope scopes.program]
    last := .nil
    hasRun := true }

/-- New frames for a program that take over what the previous ones bind, the global frame from the global
frame and the program frame from the program frame. -/
def migrate (m : Machine) (scopes : ScopeTable) : Machine :=
  { m with
    globals := (Frame.ofScope scopes.globals).migrate m.globals
    frames := [(Frame.ofScope scopes.program).migrate (m.frames.getLast?.getD .empty)]
    last := .nil }

end Machine

end Sprig
