import Sprig.Fault
import Sprig.Value

/-!
# What operators compute

Integer arithmetic is exact or fails. As soon as one operand is a float, or an integer power has a negative
exponent, the operation is done on floats and its result made an integer again where it is one.
-/

namespace Sprig

namespace Integer

def add? (l r : Int64) : Option Int64 := ofInt? (l.toInt + r.toInt)

def subtract? (l r : Int64) : Option Int64 := ofInt? (l.toInt - r.toInt)

def multiply? (l r : Int64) : Option Int64 := ofInt? (l.toInt * r.toInt)

/-- Rounds toward zero. One quotient alone is out of range. -/
def truncatedQuotient? (l r : Int64) : Option Int64 :=
  if l = Int64.minValue ∧ r = -1 then none else some (l / r)

/-- Rounds down. -/
def floorQuotient? (l r : Int64) : Option Int64 :=
  (truncatedQuotient? l r).map fun q => if l % r ≠ 0 ∧ decide (l < 0) ≠ decide (r < 0) then q - 1 else q

/-- The remainder that has the sign of the divisor. -/
def floorRemainder (l r : Int64) : Int64 :=
  let m := l % r
  if m ≠ 0 ∧ decide (m < 0) ≠ decide (r < 0) then m + r else m

/-- The product with a power, by repeated squaring. No square is formed that is not needed. -/
def timesPower? (acc base : Int64) (exponent : Nat) : Option Int64 :=
  if exponent = 0 then some acc
  else
    (if exponent % 2 = 1 then multiply? acc base else some acc).bind fun acc =>
      if exponent = 1 then some acc
      else (multiply? base base).bind fun square => timesPower? acc square (exponent / 2)

/-- The power with an exponent that is not negative. From 32 bits on only -1, 0 and 1 have one. -/
def power? (base exponent : Int64) : Option Int64 :=
  if exponent.toInt < Int.pow 2 32 then timesPower? 1 base exponent.toInt.toNat
  else if base = 0 ∨ base = 1 then some base
  else if base = -1 then some (if exponent % 2 = 0 then 1 else -1)
  else none

end Integer

namespace Value

def checked (op : ArithmeticOp) : Option Int64 → Except RuntimeProblem Value
  | some n => .ok (.integer n)
  | none => .error (.overflow op)

def integerArithmetic (op : ArithmeticOp) (l r : Int64) : Except RuntimeProblem Value :=
  match op with
  | .add => checked op (Integer.add? l r)
  | .subtract => checked op (Integer.subtract? l r)
  | .multiply => checked op (Integer.multiply? l r)
  | .power =>
    if r < 0 then .ok (.ofFloat (Float.pow (widen l) (widen r))) else checked op (Integer.power? l r)
  | .divide => if r = 0 then .error .divisionByZero else checked op (Integer.floorQuotient? l r)
  | .modulo => if r = 0 then .error .divisionByZero else .ok (.integer (Integer.floorRemainder l r))

/-- The remainder that has the sign of the divisor. -/
def floatModulo (l r : Float) : Float :=
  let m := Binary64.remainder l r
  if m != 0.0 && decide (m < 0.0) != decide (r < 0.0) then m + r else m

def floatArithmetic (op : ArithmeticOp) (l r : Float) : Float :=
  match op with
  | .add => l + r
  | .subtract => l - r
  | .multiply => l * r
  | .power => Float.pow l r
  | .divide => l / r
  | .modulo => floatModulo l r

/-- Both operands as numbers; the left one is complained about first. -/
def numbers (operator : String) (l r : Value) : Except RuntimeProblem (Float × Float) :=
  match l.toFloat?, r.toFloat? with
  | some x, some y => .ok (x, y)
  | none, _ => .error (.notANumber .left operator)
  | some _, none => .error (.notANumber .right operator)

def arithmetic (op : ArithmeticOp) : Value → Value → Except RuntimeProblem Value
  | .integer l, .integer r => integerArithmetic op l r
  | l, r => (numbers op.symbol l r).map fun (x, y) => .ofFloat (floatArithmetic op x y)

/-- Boolean operators pick an operand: a conjunction the left one if that is falsy, a disjunction if it is
truthy. -/
def pick (op : BooleanOp) (l r : Value) : Except RuntimeProblem Value :=
  if !l.tag.isBoolean then .error (.notABoolean .left op.symbol)
  else if !r.tag.isBoolean then .error (.notABoolean .right op.symbol)
  else .ok (if l.isTruthy = op.isConjunction then r else l)

def binary (op : BinaryOp) (l r : Value) : Except RuntimeProblem Value :=
  match op with
  | .arithmetic op => arithmetic op l r
  | .boolean op => pick op l r

def negate (op : Negation) (v : Value) : Except RuntimeProblem Value :=
  if v.tag.isBoolean then .ok (.boolean !v.isTruthy) else .error (.negatesNoBoolean op)

/-- The order of two numbers; a NaN has none. -/
def order (operator : String) : Value → Value → Except RuntimeProblem (Option Ordering)
  | .integer l, .integer r => .ok (some (compare l.toInt r.toInt))
  | l, r =>
    (numbers operator l r).map fun (x, y) =>
      if x < y then some .lt else if y < x then some .gt else if x == y then some .eq else none

def holds (op : Comparison) (l r : Value) : Except RuntimeProblem Bool :=
  match op with
  | .is | .equal => .ok (l.same r)
  | .notEqual => .ok !l.same r
  | .greater => (order op.symbol l r).map (· == some .gt)
  | .less => (order op.symbol l r).map (· == some .lt)
  | .greaterEqual => (order op.symbol l r).map fun o => o == some .gt || o == some .eq
  | .lessEqual => (order op.symbol l r).map fun o => o == some .lt || o == some .eq

end Value

end Sprig
