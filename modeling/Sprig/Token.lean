/-!
# Tokens

A token is a kind, the text it was written as, and the physical line it stands on. The text of a string
token is its content, with the escapes already replaced.
-/

namespace Sprig

inductive Kind where
  | leftParen | rightParen | comma | equal
  | plus | minus | star | starStar | slash | percent | bang
  | equalEqual | bangEqual | greater | greaterEqual | less | lessEqual | andAnd | orOr
  | identifier | integer | float | string
  | kwIf | kwElif | kwElse | kwEnd | kwWhile | kwDef | kwPrint | kwPuts | kwGets
  | kwNot | kwAnd | kwOr | kwIs | kwTrue | kwFalse | kwNil
  deriving DecidableEq, Repr

namespace Kind

/-- Each reserved word with its kind. -/
def reserved : List (String × Kind) :=
  [("if", kwIf), ("elif", kwElif), ("else", kwElse), ("end", kwEnd), ("while", kwWhile),
   ("def", kwDef), ("print", kwPrint), ("puts", kwPuts), ("gets", kwGets), ("not", kwNot),
   ("and", kwAnd), ("or", kwOr), ("is", kwIs), ("true", kwTrue), ("false", kwFalse), ("nil", kwNil)]

def ofWord (word : String) : Kind := (reserved.lookup word).getD identifier

def isKeyword (k : Kind) : Bool := reserved.any (·.2 == k)

def isArithmetic : Kind → Bool
  | plus | minus | star | starStar | slash | percent => true
  | _ => false

/-- A physical line that ends in one of these goes on with the next line. -/
def isConnective : Kind → Bool
  | comma | plus | minus | star | starStar | slash | percent | bang | orOr | andAnd
  | kwNot | kwOr | kwAnd | kwIs | kwIf | kwElif | kwWhile
  | equalEqual | bangEqual | greater | less | greaterEqual | lessEqual => true
  | _ => false

/-- What one token adds to the number of open parentheses. -/
def depth : Kind → Int
  | leftParen => 1
  | rightParen => -1
  | _ => 0

/-- What a logical line that starts with this token adds to the number of open blocks. -/
def blockDepth : Kind → Int
  | kwIf | kwWhile | kwDef => 1
  | kwEnd => -1
  | _ => 0

end Kind

structure Token where
  kind : Kind
  text : String
  line : Nat
  deriving DecidableEq, Repr

namespace Token

/-- Open parentheses less closed ones. -/
def balance (ts : List Token) : Int := ts.foldr (fun t d => t.kind.depth + d) 0

/-- More tokens must follow: a parenthesis is open or the last token is a connective. -/
def isDangling (ts : List Token) : Bool :=
  decide (0 < balance ts) || ts.getLast?.any (·.kind.isConnective)

end Token

end Sprig
