import Sprig.Scope
import Sprig.Value

/-!
# Frames

The bindings of the names of one scope. The names are fixed when the frame is made; storing only ever changes
what a name is bound to.
-/

namespace Sprig

structure Frame where
  bindings : List (String × Value)

namespace Frame

def empty : Frame := ⟨[]⟩

/-- Binds every name of a scope to nil. -/
def ofScope (s : Scope) : Frame := ⟨s.names.map (·, .nil)⟩

def size (f : Frame) : Nat := f.bindings.length

def get? (f : Frame) (name : String) : Option Value := f.bindings.lookup name

def contains (f : Frame) (name : String) : Bool := (f.get? name).isSome

/-- The frame with another value for a name that it binds. -/
def set? (f : Frame) (name : String) (v : Value) : Option Frame :=
  if f.contains name then some ⟨f.bindings.map fun b => if b.1 == name then (name, v) else b⟩ else none

/-- Takes over the values of the names that `previous` binds too. -/
def migrate (f previous : Frame) : Frame :=
  ⟨f.bindings.map fun (name, v) => (name, (previous.get? name).getD v)⟩

/-- How many names `migrate` takes over. -/
def shared (f previous : Frame) : Nat := f.bindings.countP fun (name, _) => previous.contains name

end Frame

end Sprig
