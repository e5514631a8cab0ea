import Sprig.Operator

/-!
# Faults

A fault is the cause of a failure and the source line it refers to. `Fault.message` is the one place that
puts causes into words.
-/

namespace Sprig

inductive LexicalProblem where
  | illegalSymbol (c : Char)
  | unknownEscape (c : Char)
  | unterminatedString
  | integerOutOfRange (text : String)
  deriving DecidableEq, Repr

/-- What the grammar demands after a token. -/
inductive Wanted where
  | term | factor | value | parameter | expression | numberExpression
  | booleanExpression | condition | functionName
  deriving DecidableEq, Repr

def Wanted.phrase : Wanted → String
  | term => "a term"
  | factor => "a factor"
  | value => "a value"
  | parameter => "a variable"
  | expression => "an expression"
  | numberExpression => "a number expression"
  | booleanExpression => "a boolean expression"
  | condition => "a condition"
  | functionName => "a function name"

inductive SyntaxProblem where
  | missing (after : String) (wanted : Wanted)
  | unexpectedToken (text : String)
  | misplacedKeyword (text : String)
  | undefinedSymbol (text : String)
  | unterminatedBlock (keyword : String)
  | unclosedParameters (function : String)
  | unclosedArguments (function : String)
  | malformedInteger (text : String)
  | malformedFloat (text : String)
  deriving DecidableEq, Repr

/-- The operand of an operator that a fault speaks of. -/
inductive Side where
  | left | right
  deriving DecidableEq, Repr

def Side.name : Side → String
  | left => "left"
  | right => "right"

inductive RuntimeProblem where
  | undefinedVariable (name : String)
  | notANumber (side : Side) (operator : String)
  | notABoolean (side : Side) (operator : String)
  | negatesNoBoolean (operator : Negation)
  | overflow (operator : ArithmeticOp)
  | divisionByZero
  | stackTooDeep (function : String)
  | outputFailed (reason : String)
  | inputFailed (reason : String)
  deriving DecidableEq, Repr

inductive Problem where
  | lexical (problem : LexicalProblem)
  | syntactic (problem : SyntaxProblem)
  | runtime (problem : RuntimeProblem)
  deriving DecidableEq, Repr

structure Fault where
  line : Nat
  problem : Problem
  deriving DecidableEq, Repr

/-- Calls may nest this deep. -/
def maxCallDepth : Nat := 256

namespace Fault

def message (fault : Fault) : String :=
  let line := fault.line
  match fault.problem with
  | .lexical (.illegalSymbol c) => s!"Illegal symbol '{c}' on line {line}"
  | .lexical (.unknownEscape c) => s!"Unknown escape '\\{c}' on line {line}"
  | .lexical .unterminatedString => s!"Unterminated string on line {line}"
  | .lexical (.integerOutOfRange text) => s!"Invalid integer '{text}' on line {line}"
  | .syntactic (.missing after wanted) =>
    s!"The '{after}' on line {line} is not followed by {wanted.phrase}"
  | .syntactic (.unexpectedToken text) => s!"Unexpected token '{text}' on line {line}"
  | .syntactic (.misplacedKeyword text) => s!"Misplaced keyword '{text}' on line {line}"
  | .syntactic (.undefinedSymbol text) => s!"Undefined symbol '{text}' on line {line}"
  | .syntactic (.unterminatedBlock keyword) =>
    s!"The '{keyword}' on line {line} is not terminated by an 'end'"
  | .syntactic (.unclosedParameters function) =>
    s!"The parameter list of '{function}' on line {line} is not closed by a ')'"
  | .syntactic (.unclosedArguments function) =>
    s!"The argument list of '{function}' on line {line} is not closed by a ')'"
  | .syntactic (.malformedInteger text) => s!"Invalid integer '{text}' on line {line}"
  | .syntactic (.malformedFloat text) => s!"Invalid float '{text}' on line {line}"
  | .runtime (.undefinedVariable name) => s!"Undefined variable '{name}' on line {line}"
  | .runtime (.notANumber side operator) =>
    s!"The expression to the {side.name} of the '{operator}' on line {line} is not a number"
  | .runtime (.notABoolean side operator) =>
    s!"The expression to the {side.name} of the '{operator}' on line {line} is not a boolean value"
  | .runtime (.negatesNoBoolean operator) =>
    s!"The expression after the '{operator.symbol}' on line {line} is not a boolean value"
  | .runtime (.overflow operator) => s!"Integer overflow in '{operator.symbol}' on line {line}"
  | .runtime .divisionByZero => s!"Division by zero on line {line}"
  | .runtime (.stackTooDeep function) => s!"Stack level too deep calling '{function}' on line {line}"
  | .runtime (.outputFailed reason) => s!"Could not write output on line {line}: {reason}"
  | .runtime (.inputFailed reason) => s!"Could not read input on line {line}: {reason}"

/-- Advice that goes with some problems. -/
def help (fault : Fault) : Option String :=
  match fault.problem with
  | .syntactic (.missing _ .functionName) => some "Function definitions look like: def name(a, b)"
  | .syntactic (.unexpectedToken _) => some "Each statement must be on its own line."
  | .syntactic (.misplacedKeyword _) =>
    some "'end', 'else' and 'elif' may only close a block opened by 'if', 'while' or 'def'."
  | .syntactic (.unterminatedBlock keyword) =>
    some s!"Close the '{keyword}' block with 'end' on its own line."
  | .syntactic (.unclosedArguments _) => some "Function calls look like: name(arg1, arg2)"
  | .runtime (.undefinedVariable _) =>
    some "Only globals ('$' names) and names assigned in the same function are visible."
  | .runtime (.stackTooDeep _) => some s!"Calls may nest at most {maxCallDepth} deep."
  | _ => none

end Fault

end Sprig
