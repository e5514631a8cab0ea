/-!
# Scopes

The names that one region of a program declares, and the stack of regions that are open while the program
is read. A name that starts with `$` is global wherever it stands.
-/

namespace Sprig

def isGlobalName (name : String) : Bool := name.toList.head? == some '$'

structure Scope where
  name : String
  parent : Option String
  names : List String
  deriving DecidableEq, Repr

namespace Scope

def empty (name : String) (parent : Option String) : Scope := ⟨name, parent, []⟩

def find (s : Scope) (name : String) : Bool := s.names.contains name

/-- Names keep the order of their first declaration. -/
def declare (s : Scope) (name : String) : Scope :=
  if s.find name then s else { s with names := s.names ++ [name] }

end Scope

/-- The global and the program scope are always there; above them lie the scopes of the functions that
are being read, innermost first. -/
structure ScopeTable where
  globals : Scope
  program : Scope
  functions : List Scope
  deriving DecidableEq, Repr

namespace ScopeTable

def initial : ScopeTable where
  globals := .empty "Global" none
  program := .empty "Program" (some "Global")
  functions := []

def depth (t : ScopeTable) : Nat := 2 + t.functions.length

def current (t : ScopeTable) : Scope := t.functions.headD t.program

def push (t : ScopeTable) (name : String) : ScopeTable :=
  { t with functions := .empty name (some t.current.name) :: t.functions }

/-- Closes the innermost function scope. -/
def leave (t : ScopeTable) : ScopeTable := { t with functions := t.functions.tail }

/-- The innermost function scope and the table without it. The base scopes are never taken off. -/
def pop? (t : ScopeTable) : Option (Scope × ScopeTable) :=
  if t.functions.isEmpty then none else some (t.current, t.leave)

def declareGlobal (t : ScopeTable) (name : String) : ScopeTable :=
  { t with globals := t.globals.declare name }

def declareLocal (t : ScopeTable) (name : String) : ScopeTable :=
  match t.functions with
  | [] => { t with program := t.program.declare name }
  | s :: rest => { t with functions := s.declare name :: rest }

/-- Declares a name where its first character says it belongs. -/
def declare (t : ScopeTable) (name : String) : ScopeTable :=
  if isGlobalName name then t.declareGlobal name else t.declareLocal name

end ScopeTable

end Sprig
