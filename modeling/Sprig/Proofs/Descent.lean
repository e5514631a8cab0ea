import Sprig.Program.Grammar

/-!
# Descent with a cursor

The reading of a program as a cursor goes through it. A production that does not match puts the cursor back where it
was, or leaves that to what called it, and what an attempt came to is kept for the position it was made at, together
with the position it ended at.

The walk is watched. It halts where a production is entered again at a position at which it is still open, and where a
round of a loop does not bring the cursor forward.
-/

namespace Sprig

/-- A place in logical lines: which line, and which token on it. -/
structure Position where
  line : Nat
  index : Nat
  deriving DecidableEq, Hashable, Repr

namespace Position

def step (p : Position) : Position := { p with index := p.index + 1 }

def lineStart (p : Position) : Position := { p with index := 0 }

/-- The index stays. -/
def nextLine (p : Position) : Position := { p with line := p.line + 1 }

def Before (p q : Position) : Prop := p.line < q.line ∨ p.line = q.line ∧ p.index < q.index

instance (p q : Position) : Decidable (p.Before q) := inferInstanceAs (Decidable (_ ∨ _))

end Position

namespace Descent

/-- The productions on a line. -/
inductive Nonterminal where
  | value | lowBoolean | lowTerm | lowFactor
  | condition | valueCondition | numberCondition | conditionValue | orderingOperand
  | highBoolean | highTerm | highFactor
  | number | numberTerm | numberFactor | call
  | literal | string | boolean | nil | gets | var
  | assign | leftValues | valueList | varList
  deriving DecidableEq, Repr

abbrev Nonterminal.Item : Nonterminal → Type
  | .var => Nat × String
  | .leftValues | .varList => List (Nat × String)
  | .assign => List Assign
  | .valueList => List Expr
  | _ => Expr

/-- All productions. -/
inductive Part where
  | item (p : Nonterminal)
  | instructions | instruction
  | ifStatement (keyword : Kind)
  | whileStatement | functionDefinition | printStatement | putsStatement | getsStatement
  deriving DecidableEq, Repr

abbrev Part.Result : Part → Type
  | .item p => Option p.Item
  | .instructions => Block
  | .instruction => Option (List Stmt)
  | .ifStatement _ => Option (Arm × List Arm × Option Block)
  | _ => Option Stmt

structure State where
  position : Position
  scopes : ScopeTable
  memo : Std.HashMap (Rule × Position) (Option (Expr × Position))

inductive Halt where
  | fault (f : Fault)
  | reentered (p : Part) (position : Position)
  | stalled (position : Position)
  | outOfFuel

abbrev Move := StateT State (Except Halt)

/-! ## The cursor -/

def lineAt (lines : List LogicalLine) (line : Nat) : LogicalLine := lines[line]?.getD []

def tokenAt (lines : List LogicalLine) (position : Position) : Option Token :=
  (lineAt lines position.line)[position.index]?

/-- The line of the token at the position, or else of the last one on its line, or else on the last line. -/
def lineNumberAt (lines : List LogicalLine) (position : Position) : Nat :=
  let last := (lines[position.line]?.or lines.getLast?).bind (·.getLast?)
  (((tokenAt lines position).or last).map (·.line)).getD 1

namespace Move

variable {α β : Type}

def fault (line : Nat) (problem : SyntaxProblem) : Move α := throw (.fault ⟨line, .syntactic problem⟩)

def snapshot : Move Position := return (← get).position

def restore (position : Position) : Move Unit := modify fun s => { s with position }

/-- Puts the cursor back; no match. -/
def back (start : Position) : Move (Option α) := do
  restore start
  return none

def modifyScopes (f : ScopeTable → ScopeTable) : Move Unit := modify fun s => { s with scopes := f s.scopes }

/-- Tries the second where the first does not match. The cursor stays where that one left it. -/
def orTry (c d : Move (Option α)) : Move (Option α) := do
  match ← c with
  | some a => return some a
  | none => d

/-- No match where the first does not match. The cursor stays where that one left it. -/
def andThen (c : Move (Option α)) (k : α → Move (Option β)) : Move (Option β) := do
  match ← c with
  | some a => k a
  | none => return none

def as (c : Move (Option α)) (f : α → β) : Move (Option β) := return (← c).map f

def demand (c : Move (Option α)) (line : Nat) (problem : SyntaxProblem) : Move α := do
  match ← c with
  | some a => return a
  | none => fault line problem

def orNil (c : Move (Option (List α))) : Move (List α) := return (← c).getD []

/-- Goes on from `.inr` and is done at `.inl`, after this many rounds at most. -/
def loop (round : α → Move (β ⊕ α)) : Nat → α → Move β
  | 0, _ => throw .outOfFuel
  | n + 1, a => do
    let start ← snapshot
    match ← round a with
    | .inl b => return b
    | .inr a => if start.Before (← snapshot) then loop round n a else throw (.stalled start)

/-- Keeps an attempt with the position it ended at. One that did not match ends where it started. -/
def keep (rule : Rule) (start : Position) : Option Expr → Move (Option Expr)
  | some e => do
    let stop ← snapshot
    modify fun s => { s with memo := s.memo.insert (rule, start) (some (e, stop)) }
    return some e
  | none => do
    restore start
    modify fun s => { s with memo := s.memo.insert (rule, start) none }
    return none

/-- Replays an attempt that was kept, or makes it. -/
def replay (rule : Rule) (start : Position) (c : Move (Option Expr)) :
    Option (Option (Expr × Position)) → Move (Option Expr)
  | some (some (e, stop)) => do
    restore stop
    return some e
  | some none => return none
  | none => do keep rule start (← c)

def memoized (rule : Rule) (c : Move (Option Expr)) : Move (Option Expr) := do
  let start ← snapshot
  replay rule start c (← get).memo[(rule, start)]?

end Move

section
variable (lines : List LogicalLine)

namespace Move

def peek : Move (Option Token) := return tokenAt lines (← snapshot)

def peekKind : Move (Option Kind) := return (← peek lines).map (·.kind)

def check (k : Kind) : Move Bool := return (← peekKind lines) == some k

/-- Takes the next token. The end of the line is not passed. -/
def advance : Move (Option Token) := do
  let start ← snapshot
  match ← peek lines with
  | some t =>
    restore start.step
    return some t
  | none => return none

def matchKind (k : Kind) : Move Bool := do
  if ← check lines k then
    let _ ← advance lines
    return true
  else return false

def lineNumber : Move Nat := return lineNumberAt lines (← snapshot)

def toLineStart : Move Unit := do restore (← snapshot).lineStart

def toNextLine : Move Unit := do restore (← snapshot).nextLine

def expectLineEnd : Move Unit := do
  match ← peek lines with
  | some t => fault t.line (.unexpectedToken t.text)
  | none => return ()

end Move

open Move

/-! ## Productions on a line -/

section
variable {α : Type} (rounds : Nat)

def terminal (k : Kind) (make : Token → Expr) : Move (Option Expr) := do
  if ← check lines k then return (← advance lines).map make else return none

def numeral : Move (Option Expr) := do
  match ← peek lines with
  | some t =>
    if t.kind = .integer then
      match Integer.read? t.text with
      | some n =>
        let _ ← advance lines
        return some (.literal t.line (.integer n))
      | none => fault t.line (.malformedInteger t.text)
    else if t.kind = .float then
      match FloatText.read? t.text with
      | some x =>
        let _ ← advance lines
        return some (.literal t.line (.float x))
      | none => fault t.line (.malformedFloat t.text)
    else return none
  | none => return none

/-- The name is declared even if what called this does not match. -/
def target : Move (Option (Nat × String)) := do
  if ← check lines .identifier then
    match ← advance lines with
    | some t =>
      modifyScopes (·.declare t.text)
      return some (t.line, t.text)
    | none => return none
  else return none

def chainFrom (operand : Move (Option Expr)) (op? : Kind → Option BinaryOp) (wanted : Wanted) (first : Expr) :
    Move (Option Expr) := do
  let last ← loop (fun left => do
    match (← peekKind lines).bind op? with
    | some op =>
      let line ← lineNumber lines
      let _ ← advance lines
      let right ← operand.demand line (.missing op.symbol wanted)
      return .inr (.binary line op left right)
    | none => return .inl left) rounds first
  return some last

def chain (operand : Move (Option Expr)) (op? : Kind → Option BinaryOp) (wanted : Wanted) : Move (Option Expr) :=
  operand.andThen (chainFrom lines rounds operand op? wanted)

def comparison (operand : Move (Option Expr)) (op? : Kind → Option Comparison) (wanted : Wanted) :
    Move (Option Expr) := do
  let start ← snapshot
  operand.andThen fun left => do
    match (← peekKind lines).bind op? with
    | some op =>
      let line ← lineNumber lines
      let _ ← advance lines
      let right ← operand.demand line (.missing op.symbol wanted)
      return some (.compare line op left right)
    | none => back start

def minus (operand : Move (Option Expr)) (wanted : Wanted) : Move Expr := do
  let line ← lineNumber lines
  let _ ← advance lines
  let e ← operand.demand line (.missing "-" wanted)
  return .binary line (.arithmetic .subtract) (.zero line) e

/-- What stands in front of a closing parenthesis. -/
def closed (start : Position) (inner : Move (Option Expr)) : Move (Option Expr) := do
  match ← inner with
  | some e => if ← matchKind lines .rightParen then return some e else back start
  | none => back start

def listOf (item : Move (Option α)) (wanted : Wanted) : Move (Option (List α)) :=
  item.andThen fun first => do
    let items ← loop (fun items => do
      if ← matchKind lines .comma then
        let line ← lineNumber lines
        let a ← item.demand line (.missing "," wanted)
        return .inr (items ++ [a])
      else return .inl items) rounds [first]
    return some items

/-- A comma that no target follows is no match, and the cursor stays behind it. -/
def nextTarget (target : Move (Option α)) (targets : List α) : Move (Option (List α) ⊕ List α) := do
  if ← matchKind lines .comma then
    match ← target with
    | some target => return .inr (targets ++ [target])
    | none => return .inl none
  else return .inl (some targets)

def inParens (list : Move (Option (List α))) (line : Nat) (unclosed : SyntaxProblem) : Move (List α) := do
  if ← matchKind lines .leftParen then
    let items ← list.orNil
    if ← matchKind lines .rightParen then return items else fault line unclosed
  else return []

/-- A factor has to follow a negation. -/
def negated (start : Position) (op : Negation) (line : Nat) (isNegated : Bool) : Option Expr → Move (Option Expr)
  | some e => return some (if isNegated then .negate line op e else e)
  | none => if isNegated then fault line (.missing op.symbol .factor) else back start

def parenthesized (start : Position) (line : Nat) (isNegated : Bool) (inner : Move (Option Expr)) :
    Move (Option Expr) := do
  if ← matchKind lines .leftParen then closed lines start inner
  else if isNegated then fault line (.missing "!" .factor)
  else return none

/-- In front of an arithmetic operator the factor belongs to a number expression. -/
def unlessArithmetic (start : Position) (line : Nat) (isNegated : Bool) : Option Expr → Move (Option Expr)
  | some e => do
    if (← peekKind lines).any Kind.isArithmetic then back start
    else return some (if isNegated then .negate line .bang e else e)
  | none => back start

end

/-- What a production on a line does, with `enter` for those it tries. -/
def Nonterminal.body (rounds : Nat) (enter : (p : Nonterminal) → Move (Option p.Item)) :
    (p : Nonterminal) → Move (Option p.Item)
  | .value => memoized .value <|
    (enter .lowBoolean).orTry <| (enter .number).orTry <| (enter .string).orTry (enter .gets)
  | .lowBoolean => chain lines rounds (enter .lowTerm) Grammar.orOp .term
  | .lowTerm => chain lines rounds (enter .lowFactor) Grammar.andOp .factor
  | .lowFactor => do
    let start ← snapshot
    let line ← lineNumber lines
    let isNegated ← matchKind lines .kwNot
    let factor ← (enter .condition).orTry <| ((enter .assign).as (.assign line)).orTry (enter .highBoolean)
    negated start .not line isNegated factor
  | .condition => (enter .valueCondition).orTry (enter .numberCondition)
  | .valueCondition => comparison lines (enter .conditionValue) Grammar.equalityOp .expression
  | .numberCondition => comparison lines (enter .orderingOperand) Grammar.orderingOp .numberExpression
  | .conditionValue =>
    (enter .number).orTry <| (enter .highBoolean).orTry <| (enter .string).orTry (enter .gets)
  | .orderingOperand => (enter .number).orTry (enter .string)
  | .highBoolean => memoized .highBoolean (chain lines rounds (enter .highTerm) Grammar.orOrOp .term)
  | .highTerm => chain lines rounds (enter .highFactor) Grammar.andAndOp .factor
  | .highFactor => do
    if (← peek lines).isSome then
      let start ← snapshot
      let line ← lineNumber lines
      let isNegated ← matchKind lines .bang
      let factor ← (enter .boolean).orTry <| (enter .nil).orTry <| (enter .call).orTry <|
        parenthesized lines start line isNegated (enter .lowBoolean)
      unlessArithmetic lines start line isNegated factor
    else return none
  | .number => memoized .number do
    if (← peek lines).isSome then
      let start ← snapshot
      let first : Move (Option Expr) := do
        if ← check lines .minus then return some (← minus lines (enter .numberTerm) .term)
        else (enter .numberTerm).orTry (back start)
      first.andThen (chainFrom lines rounds (enter .numberTerm) Grammar.looseOp .term)
    else return none
  | .numberTerm => chain lines rounds (enter .numberFactor) Grammar.tightOp .factor
  | .numberFactor => (enter .literal).orTry <| (enter .call).orTry do
    if ← check lines .minus then return some (← minus lines (enter .numberFactor) .factor)
    else if ← check lines .leftParen then
      let start ← snapshot
      let line ← lineNumber lines
      let _ ← advance lines
      closed lines start (((enter .assign).as (.assign line)).orTry (enter .number))
    else return none
  | .call => memoized .call do
    if ← check lines .identifier then
      let line ← lineNumber lines
      let name := ((← advance lines).map (·.text)).getD ""
      let args ← inParens lines (enter .valueList) line (.unclosedArguments name)
      return some (.call line name args)
    else return none
  | .literal => numeral lines
  | .string => terminal lines .string fun t => .literal t.line (.string t.text)
  | .boolean =>
    (terminal lines .kwTrue fun t => .literal t.line (.boolean true)).orTry
      (terminal lines .kwFalse fun t => .literal t.line (.boolean false))
  | .nil => terminal lines .kwNil fun t => .literal t.line .nil
  | .gets => terminal lines .kwGets fun t => .gets t.line
  | .var => target lines
  | .assign => do
    let start ← snapshot
    let line ← lineNumber lines
    match ← enter .leftValues with
    | some targets =>
      if ← matchKind lines .equal then
        let values ← (enter .valueList).orNil
        return some (Assign.pair line targets values)
      else back start
    | none => back start
  | .leftValues => (enter .var).andThen fun first => loop (nextTarget lines (enter .var)) rounds [first]
  | .valueList => listOf lines rounds (enter .value) .value
  | .varList => listOf lines rounds (enter .var) .parameter

/-! ## Lines and blocks -/

/-- The block under a header that ends here. -/
def under (enter : (p : Part) → Move p.Result) : Move Block := do
  expectLineEnd lines
  toNextLine
  enter .instructions

def close (keyword : String) (line : Nat) : Move Unit := do
  if ← matchKind lines .kwEnd then return () else fault line (.unterminatedBlock keyword)

def listing (enter : (p : Part) → Move p.Result) (k : Kind) (make : Nat → List Expr → Stmt) : Move (Option Stmt) := do
  if ← check lines k then
    let line ← lineNumber lines
    let _ ← advance lines
    return some (make line (← (enter (.item .valueList)).orNil))
  else return none

def chosen : Arm × List Arm × Option Block → List Stmt
  | (first, others, last) => [.choose first others last]

def nextArm (enter : (p : Part) → Move p.Result) (arms : List Arm) : Move (List Arm ⊕ List Arm) := do
  match ← enter (.ifStatement .kwElif) with
  | some (arm, _) => return .inr (arms ++ [arm])
  | none => return .inl arms

def nextStatements (enter : (p : Part) → Move p.Result) (stmts : List Stmt) : Move (List Stmt ⊕ List Stmt) := do
  if (← snapshot).line < lines.length then
    toLineStart
    match ← enter .instruction with
    | some more =>
      expectLineEnd lines
      toNextLine
      return .inr (stmts ++ more)
    | none => return .inl stmts
  else return .inl stmts

/-- What a production does, with `enter` for those it tries. -/
def Part.body (rounds : Nat) (enter : (p : Part) → Move p.Result) : (p : Part) → Move p.Result
  | .item p => p.body lines rounds fun q => enter (.item q)
  | .instructions => do
    let line ← lineNumber lines
    let stmts ← loop (nextStatements lines enter) rounds []
    toLineStart
    return ⟨line, stmts⟩
  | .instruction =>
    ((enter (.item .assign)).as (·.map .assign)).orTry <|
    ((enter .printStatement).as ([·])).orTry <|
    ((enter .putsStatement).as ([·])).orTry <|
    ((enter (.ifStatement .kwIf)).as chosen).orTry <|
    ((enter .whileStatement).as ([·])).orTry <|
    ((enter .functionDefinition).as ([·])).orTry <|
    ((enter .getsStatement).as ([·])).orTry <|
    (enter (.item .value)).as fun e => [.expr e]
  | .ifStatement keyword => do
    if ← check lines keyword then
      let line ← lineNumber lines
      let name := ((← advance lines).map (·.text)).getD ""
      let condition ← (enter (.item .lowBoolean)).demand line (.missing name .booleanExpression)
      let block ← under lines enter
      if keyword = .kwIf then
        let others ← loop (nextArm enter) rounds []
        let last ←
          if ← matchKind lines .kwElse then
            let block ← under lines enter
            pure (some block)
          else pure none
        close lines "if" line
        return some (⟨line, condition, block⟩, others, last)
      else return some (⟨line, condition, block⟩, [], none)
    else return none
  | .whileStatement => do
    if ← check lines .kwWhile then
      let line ← lineNumber lines
      let _ ← advance lines
      let condition ← (enter (.item .lowBoolean)).demand line (.missing "while" .condition)
      let block ← under lines enter
      close lines "while" line
      return some (.loop line condition block)
    else return none
  | .functionDefinition => do
    if ← check lines .kwDef then
      let line ← lineNumber lines
      let _ ← advance lines
      if ← check lines .identifier then
        let name := ((← advance lines).map (·.text)).getD ""
        modifyScopes fun scopes => (scopes.declare name).push name
        let params ← inParens lines (enter (.item .varList)) line (.unclosedParameters name)
        let block ← under lines enter
        close lines "def" line
        let scope := (← get).scopes.current
        modifyScopes (·.leave)
        return some (.define ⟨name, params.map (·.2), line, block, scope⟩)
      else fault line (.missing "def" .functionName)
    else return none
  | .printStatement => listing lines enter .kwPrint .print
  | .putsStatement => listing lines enter .kwPuts .puts
  | .getsStatement => do
    if ← check lines .kwGets then
      if (tokenAt lines (← snapshot).step).isNone then
        let line ← lineNumber lines
        let _ ← advance lines
        return some (.gets line)
      else return none
    else return none

/-! ## The walk -/

/-- Walks through a production while those in `opened` are open, nested at most so deep. -/
def run : Nat → List (Part × Position) → (p : Part) → Move p.Result
  | 0, _, _ => throw .outOfFuel
  | n + 1, opened, p => do
    let start ← snapshot
    if (p, start) ∈ opened then throw (.reentered p start)
    else p.body lines n (run n ((p, start) :: opened))

end

def parse (fuel : Nat) (lines : List LogicalLine) : Except Halt Program := do
  let (block, s) ← run lines fuel [] .instructions ⟨⟨0, 0⟩, .initial, ∅⟩
  match tokenAt lines ⟨s.position.line, 0⟩ with
  | some t => throw (.fault ⟨t.line, .syntactic (Program.stray t)⟩)
  | none => return ⟨block, s.scopes⟩

end Descent

end Sprig
