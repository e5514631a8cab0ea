import Sprig.Number.FloatText
import Sprig.Number.Integer
import Sprig.Production

/-!
# The grammar of expressions

Tiers, loosest first: `or`, `and`, `not`, comparisons, `||`, `&&`, `!`, `+ -`, `* / % **`. Boolean and number
expressions both start with names and parentheses, so alternatives are tried in turn.

A production that comes back to a looser tier does so behind a token it has taken. `Rules` are those
productions for lines one token shorter; `Rules.upTo n` ties the knot for lines of at most `n` tokens.
-/

namespace Sprig

/-- The productions that a tighter tier comes back to. -/
structure Rules (σ : Type) where
  value : Production σ Expr
  lowBoolean : Production σ Expr
  number : Production σ Expr
  numberFactor : Production σ Expr

namespace Grammar

open Production

variable {σ : Type}

/-! ## Terminals -/

def integer : Production σ Expr := do
  let t ← token .integer
  match Integer.read? t.text with
  | some n => return .literal t.line (.integer n)
  | none => fault t.line (.malformedInteger t.text)

def float : Production σ Expr := do
  let t ← token .float
  match FloatText.read? t.text with
  | some x => return .literal t.line (.float x)
  | none => fault t.line (.malformedFloat t.text)

def string : Production σ Expr := do
  let t ← token .string
  return .literal t.line (.string t.text)

def boolean : Production σ Expr :=
  (do let t ← token .kwTrue; return .literal t.line (.boolean true)) <|>
  (do let t ← token .kwFalse; return .literal t.line (.boolean false))

def nil : Production σ Expr := do
  let t ← token .kwNil
  return .literal t.line .nil

def gets : Production σ Expr := do
  let t ← token .kwGets
  return .gets t.line

/-- A name with its line. It is declared even if the production around it does not match. -/
def target : Production σ (Nat × String) := do
  let t ← token .identifier
  modifyScopes (·.declare t.text)
  return (t.line, t.text)

/-! ## Operators -/

def looseOp : Kind → Option BinaryOp
  | .plus => some (.arithmetic .add)
  | .minus => some (.arithmetic .subtract)
  | _ => none

def tightOp : Kind → Option BinaryOp
  | .star => some (.arithmetic .multiply)
  | .starStar => some (.arithmetic .power)
  | .slash => some (.arithmetic .divide)
  | .percent => some (.arithmetic .modulo)
  | _ => none

def orOp : Kind → Option BinaryOp
  | .kwOr => some (.boolean .or)
  | _ => none

def andOp : Kind → Option BinaryOp
  | .kwAnd => some (.boolean .and)
  | _ => none

def orOrOp : Kind → Option BinaryOp
  | .orOr => some (.boolean .orOr)
  | _ => none

def andAndOp : Kind → Option BinaryOp
  | .andAnd => some (.boolean .andAnd)
  | _ => none

def equalityOp : Kind → Option Comparison
  | .kwIs => some .is
  | .equalEqual => some .equal
  | .bangEqual => some .notEqual
  | _ => none

def orderingOp : Kind → Option Comparison
  | .greater => some .greater
  | .less => some .less
  | .greaterEqual => some .greaterEqual
  | .lessEqual => some .lessEqual
  | _ => none

/-- Goes on after a first operand, associating to the left. -/
def chainFrom (operand : Production σ Expr) (op? : Kind → Option BinaryOp) (wanted : Wanted) (first : Expr) :
    Production σ Expr := do
  let others ← many do
    let (op, line) ← symbol op?
    let right ← operand.demand line (.missing op.symbol wanted)
    return (op, line, right)
  return others.foldl (fun left (op, line, right) => .binary line op left right) first

def chain (operand : Production σ Expr) (op? : Kind → Option BinaryOp) (wanted : Wanted) :
    Production σ Expr := do
  chainFrom operand op? wanted (← operand)

def comparison (operand : Production σ Expr) (op? : Kind → Option Comparison) (wanted : Wanted) :
    Production σ Expr := do
  let left ← operand
  let (op, line) ← symbol op?
  let right ← operand.demand line (.missing op.symbol wanted)
  return .compare line op left right

/-- `-x` reads as `0 - x`. -/
def minus (operand : Production σ Expr) (wanted : Wanted) : Production σ Expr := do
  let t ← token .minus
  let e ← operand.demand t.line (.missing "-" wanted)
  return .binary t.line (.arithmetic .subtract) (.zero t.line) e

def group (inner : Production σ Expr) : Production σ Expr := do
  let _ ← token .leftParen
  let e ← inner
  let _ ← token .rightParen
  return e

/-! ## Tiers -/

section
variable (mem : Memory σ) (r : Rules σ)

def values : Production σ (List Expr) := listOf r.value .value

def call : Production σ Expr := memoized mem .call do
  let t ← token .identifier
  let args ← inParens (values r) t.line (.unclosedArguments t.text)
  return .call t.line t.text args

/-- Targets, `=`, and the values for them, of which there may be too few or too many. -/
def stores : Production σ (List Assign) := do
  let t ← peek
  let first ← target
  let others ← many do
    let _ ← token .comma
    target
  let _ ← token .equal
  return Assign.pair t.line (first :: others) (← orNil (values r))

def assign (line : Nat) : Production σ Expr := do
  return .assign line (← stores r)

def numberFactor : Production σ Expr :=
  integer <|> float <|> call mem r <|> minus r.numberFactor .factor <|> do
    let t ← peek
    group (assign r t.line <|> r.number)

def numberTerm : Production σ Expr := chain (numberFactor mem r) tightOp .factor

def number : Production σ Expr := memoized mem .number do
  let first ← minus (numberTerm mem r) .term <|> numberTerm mem r
  chainFrom (numberTerm mem r) looseOp .term first

/-- There is no factor: a fault behind a negation, and otherwise no match. -/
def missingFactor (negated : Bool) (op : Negation) (line : Nat) : Production σ Expr :=
  if negated then fault line (.missing op.symbol .factor) else noMatch

/-- In front of an arithmetic operator the operand belongs to a number expression. -/
def highFactor : Production σ Expr := do
  let t ← peek
  let negated ← accepts .bang
  let e ← boolean <|> nil <|> call mem r <|> group r.lowBoolean <|> do
    unlessNext (· == .leftParen)
    missingFactor negated .bang t.line
  unlessNext Kind.isArithmetic
  return if negated then .negate t.line .bang e else e

def highTerm : Production σ Expr := chain (highFactor mem r) andAndOp .factor

def highBoolean : Production σ Expr := memoized mem .highBoolean (chain (highTerm mem r) orOrOp .term)

def comparable : Production σ Expr := number mem r <|> highBoolean mem r <|> string <|> gets

def orderable : Production σ Expr := number mem r <|> string

def condition : Production σ Expr :=
  comparison (comparable mem r) equalityOp .expression <|>
  comparison (orderable mem r) orderingOp .numberExpression

def lowFactor : Production σ Expr := do
  let t ← peek
  let negated ← accepts .kwNot
  let e ← condition mem r <|> assign r t.line <|> highBoolean mem r <|>
    missingFactor negated .not t.line
  return if negated then .negate t.line .not e else e

def lowTerm : Production σ Expr := chain (lowFactor mem r) andOp .factor

def lowBoolean : Production σ Expr := chain (lowTerm mem r) orOp .term

def value : Production σ Expr := memoized mem .value do
  lowBoolean mem r <|> number mem r <|> string <|> gets

end

end Grammar

namespace Rules

variable {σ : Type}

def none : Rules σ := ⟨.noMatch, .noMatch, .noMatch, .noMatch⟩

def next (mem : Memory σ) (r : Rules σ) : Rules σ where
  value := Grammar.value mem r
  lowBoolean := Grammar.lowBoolean mem r
  number := Grammar.number mem r
  numberFactor := Grammar.numberFactor mem r

/-- The rules for lines of at most `n` tokens. -/
def upTo (mem : Memory σ) : Nat → Rules σ
  | 0 => none
  | n + 1 => next mem (upTo mem n)

end Rules

end Sprig
