/-!
# Operators

The operators of expressions, with the symbol each one is written as.
-/

namespace Sprig

inductive ArithmeticOp where
  | add | subtract | multiply | power | divide | modulo
  deriving DecidableEq, Repr

def ArithmeticOp.symbol : ArithmeticOp → String
  | add => "+"
  | subtract => "-"
  | multiply => "*"
  | power => "**"
  | divide => "/"
  | modulo => "%"

/-- The words bind loosely and the symbols tightly. -/
inductive BooleanOp where
  | and | or | andAnd | orOr
  deriving DecidableEq, Repr

def BooleanOp.symbol : BooleanOp → String
  | and => "and"
  | or => "or"
  | andAnd => "&&"
  | orOr => "||"

def BooleanOp.isConjunction : BooleanOp → Bool
  | and | andAnd => true
  | or | orOr => false

inductive BinaryOp where
  | arithmetic (op : ArithmeticOp)
  | boolean (op : BooleanOp)
  deriving DecidableEq, Repr

def BinaryOp.symbol : BinaryOp → String
  | arithmetic op => op.symbol
  | boolean op => op.symbol

def BinaryOp.isBoolean : BinaryOp → Bool
  | arithmetic _ => false
  | boolean _ => true

inductive Comparison where
  | is | equal | notEqual | greater | less | greaterEqual | lessEqual
  deriving DecidableEq, Repr

def Comparison.symbol : Comparison → String
  | is => "is"
  | equal => "=="
  | notEqual => "!="
  | greater => ">"
  | less => "<"
  | greaterEqual => ">="
  | lessEqual => "<="

/-- `!` binds tightly and `not` loosely. -/
inductive Negation where
  | bang | not
  deriving DecidableEq, Repr

def Negation.symbol : Negation → String
  | bang => "!"
  | not => "not"

end Sprig
