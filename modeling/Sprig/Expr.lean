import Sprig.Operator

/-!
# Expressions

Every node carries a source line: the line of its operator, or else the line it starts on.
-/

namespace Sprig

/-- Values that a program can write down. -/
inductive Literal where
  | nil
  | boolean (b : Bool)
  | integer (n : Int64)
  | float (x : Float)
  | string (s : String)

mutual

inductive Expr where
  | literal (line : Nat) (value : Literal)
  /-- A name, and the arguments for it if it turns out to hold a function. -/
  | call (line : Nat) (name : String) (args : List Expr)
  | binary (line : Nat) (op : BinaryOp) (left right : Expr)
  | negate (line : Nat) (op : Negation) (operand : Expr)
  | compare (line : Nat) (op : Comparison) (left right : Expr)
  | gets (line : Nat)
  | assign (line : Nat) (stores : List Assign)

/-- Stores one value under one name; `line` is the line of the name. -/
structure Assign where
  line : Nat
  name : String
  value : Expr

end

namespace Expr

def line : Expr → Nat
  | literal line _ | call line _ _ | binary line _ _ _ | negate line _ _ | compare line _ _ _
  | gets line | assign line _ => line

def zero (line : Nat) : Expr := literal line (.integer 0)

end Expr

/-- Pairs targets with values. A target without a value gets nil, on the given line; a value without a
target is dropped. -/
def Assign.pair (line : Nat) : List (Nat × String) → List Expr → List Assign
  | [], _ => []
  | (targetLine, name) :: targets, [] =>
    ⟨targetLine, name, .literal line .nil⟩ :: pair line targets []
  | (targetLine, name) :: targets, value :: values =>
    ⟨targetLine, name, value⟩ :: pair line targets values

/-! ## Sameness

Floats are compared as numbers, so that a literal NaN is not the same as itself.
-/

def Literal.same : Literal → Literal → Bool
  | nil, nil => true
  | boolean a, boolean b => a == b
  | integer a, integer b => a == b
  | float a, float b => a == b
  | string a, string b => a == b
  | _, _ => false

mutual

def Expr.same : Expr → Expr → Bool
  | .literal i a, .literal j b => i == j && a.same b
  | .call i f xs, .call j g ys => i == j && f == g && Expr.sameAll xs ys
  | .binary i o a b, .binary j p c d => i == j && o == p && a.same c && b.same d
  | .negate i o a, .negate j p b => i == j && o == p && a.same b
  | .compare i o a b, .compare j p c d => i == j && o == p && a.same c && b.same d
  | .gets i, .gets j => i == j
  | .assign i xs, .assign j ys => i == j && Assign.sameAll xs ys
  | _, _ => false

def Expr.sameAll : List Expr → List Expr → Bool
  | [], [] => true
  | x :: xs, y :: ys => x.same y && Expr.sameAll xs ys
  | _, _ => false

def Assign.same : Assign → Assign → Bool
  | ⟨i, a, x⟩, ⟨j, b, y⟩ => i == j && a == b && x.same y

def Assign.sameAll : List Assign → List Assign → Bool
  | [], [] => true
  | x :: xs, y :: ys => x.same y && Assign.sameAll xs ys
  | _, _ => false

end

end Sprig
