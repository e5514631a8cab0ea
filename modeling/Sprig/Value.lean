import Sprig.Number.FloatText
import Sprig.Number.Integer
import Sprig.Program

/-!
# Values
-/

namespace Sprig

inductive Value where
  | nil
  | boolean (b : Bool)
  | integer (n : Int64)
  | float (x : Float)
  | string (s : String)
  | func (f : Func)

inductive Tag where
  | nil | boolean | integer | float | string | func
  deriving DecidableEq, Repr

/-- The operands of boolean operators and negations have one of these tags. -/
def Tag.isBoolean : Tag → Bool
  | nil | boolean => true
  | _ => false

namespace Value

def ofLiteral : Literal → Value
  | .nil => nil
  | .boolean b => boolean b
  | .integer n => integer n
  | .float x => float x
  | .string s => string s

def tag : Value → Tag
  | nil => .nil
  | boolean _ => .boolean
  | integer _ => .integer
  | float _ => .float
  | string _ => .string
  | func _ => .func

/-- Only nil and false are not. -/
def isTruthy : Value → Bool
  | nil | boolean false => false
  | _ => true

def widen (n : Int64) : Float := Float.ofInt n.toInt

def toFloat? : Value → Option Float
  | integer n => some (widen n)
  | float x => some x
  | _ => none

/-- A computed float that is a 64-bit integer becomes one. -/
def ofFloat (x : Float) : Value :=
  match Binary64.toInt? x >>= Integer.ofInt? with
  | some n => integer n
  | none => float x

/-- Equality of values: numbers compare as numbers, all else by kind and content. -/
def same : Value → Value → Bool
  | nil, nil => true
  | boolean a, boolean b => a == b
  | integer a, integer b => a == b
  | integer a, float b => widen a == b
  | float a, integer b => a == widen b
  | float a, float b => a == b
  | string a, string b => a == b
  | func f, func g => f.same g
  | _, _ => false

def render : Value → String
  | nil => "nil"
  | boolean b => if b then "true" else "false"
  | integer n => toString n.toInt
  | float x => FloatText.render x
  | string s => s
  | func f => s!"<function {f.name}>"

end Value

end Sprig
