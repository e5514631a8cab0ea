import Sprig.Machine

/-!
# Evaluation

Evaluation is structural on expressions and statements. A call leaves that structure, so what a call does is a
parameter, `Caller`; `callAt d` ties the knot for calls that may nest `d` deep. The bound of `while` is the
number of times any one loop may go round.
-/

namespace Sprig

/-- Why evaluation stops early: the program is at fault, or a loop has used up its bound. -/
inductive Stop where
  | fault (f : Fault)
  | outOfFuel
  deriving DecidableEq

abbrev Eval := EStateM Stop Machine

/-- Calls a function with the values of its arguments, from a source line. -/
abbrev Caller := Func → List Value → Nat → Eval Value

namespace Eval

def fail {α : Type} (line : Nat) (problem : RuntimeProblem) : Eval α :=
  throw (.fault ⟨line, .runtime problem⟩)

def ofExcept {α : Type} (line : Nat) : Except RuntimeProblem α → Eval α
  | .ok a => return a
  | .error problem => fail line problem

/-- Records the value of an expression. -/
def remember (v : Value) : Eval Value := do
  modify fun m => { m with last := v }
  return v

def load (line : Nat) (name : String) : Eval Value := do
  match (← get).get? name with
  | some v => return v
  | none => fail line (.undefinedVariable name)

def store (line : Nat) (name : String) (v : Value) : Eval Unit := do
  match (← get).set? name v with
  | some m => set m
  | none => fail line (.undefinedVariable name)

def write (line : Nat) (text : String) : Eval Unit := do
  let fits := (← get).console.fits text
  modify fun m => { m with console := m.console.write text }
  if !fits then fail line (.outputFailed Console.full)

/-- The next line of input; nil when there is none. -/
def readLine (line : Nat) : Eval Value := do
  match (← get).console.next? with
  | none => remember .nil
  | some (raw, console) =>
    modify fun m => { m with console }
    match raw with
    | .text s => remember (.string (Console.withoutBreak s))
    | .undecodable => fail line (.inputFailed Console.notText)

/-- Goes round while the condition holds, at most `n` times. -/
def repeatWhile (condition : Eval Bool) (body : Eval Unit) : Nat → Eval Unit
  | 0 => throw .outOfFuel
  | n + 1 => do
    if ← condition then
      body
      repeatWhile condition body n

/-- Runs the body of a function in a frame of its own, which is gone afterwards whatever happens. The result
is the value evaluated last. -/
def within (f : Func) (args : List Value) (body : Eval Unit) : Eval Value := fun m =>
  match body (m.enter f args) with
  | .ok () m => .ok m.last m.leave
  | .error stop m => .error stop m.leave

end Eval

open Eval

mutual

def Expr.eval (call : Caller) : Expr → Eval Value
  | .literal _ v => remember (.ofLiteral v)
  | .call line name args => do
    match ← load line name with
    | .func f => remember (← call f (← Expr.evalAll call args) line)
    | v => remember v
  | .binary line op left right => do
    let l ← left.eval call
    let r ← right.eval call
    remember (← ofExcept line (Value.binary op l r))
  | .negate line op operand => do
    let v ← operand.eval call
    remember (← ofExcept line (Value.negate op v))
  | .compare line op left right => do
    let l ← left.eval call
    let r ← right.eval call
    remember (.boolean (← ofExcept line (Value.holds op l r)))
  | .gets line => readLine line
  | .assign _ stores => do
    remember (← Assign.evalAll call .nil stores)

def Expr.evalAll (call : Caller) : List Expr → Eval (List Value)
  | [] => return []
  | e :: es => do
    let v ← e.eval call
    return v :: (← Expr.evalAll call es)

def Assign.eval (call : Caller) : Assign → Eval Value
  | ⟨line, name, value⟩ => do
    let v ← value.eval call
    store line name v
    return v

/-- The value of the last of several stores. -/
def Assign.evalAll (call : Caller) (last : Value) : List Assign → Eval Value
  | [] => return last
  | a :: as => do
    let v ← a.eval call
    Assign.evalAll call v as

end

mutual

def Stmt.exec (call : Caller) (fuel : Nat) : Stmt → Eval Unit
  | .assign a => discard (a.eval call)
  | .print line values => do
    let vs ← Expr.evalAll call values
    write line (" ".intercalate (vs.map Value.render))
  | .puts line [] => write line "\n"
  | .puts line (value :: values) => do
    let vs ← Expr.evalAll call (value :: values)
    write line (String.join (vs.map (·.render ++ "\n")))
  | .choose first others otherwise => do
    if ← first.exec call fuel then return
    if ← Arm.execFirst call fuel others then return
    Block.execOption call fuel otherwise
  | .loop _ condition body =>
    repeatWhile (return (← condition.eval call).isTruthy) (body.exec call fuel) fuel
  | .define f => store f.line f.name (.func f)
  | .gets line => discard (readLine line)
  | .expr e => discard (e.eval call)

def Stmt.execAll (call : Caller) (fuel : Nat) : List Stmt → Eval Unit
  | [] => return
  | s :: ss => do
    s.exec call fuel
    Stmt.execAll call fuel ss

def Block.exec (call : Caller) (fuel : Nat) : Block → Eval Unit
  | ⟨_, stmts⟩ => Stmt.execAll call fuel stmts

def Block.execOption (call : Caller) (fuel : Nat) : Option Block → Eval Unit
  | none => return
  | some b => b.exec call fuel

/-- Runs the arm if its condition holds, and says whether it did. -/
def Arm.exec (call : Caller) (fuel : Nat) : Arm → Eval Bool
  | ⟨_, condition, body⟩ => do
    if (← condition.eval call).isTruthy then
      body.exec call fuel
      return true
    else return false

def Arm.execFirst (call : Caller) (fuel : Nat) : List Arm → Eval Bool
  | [] => return false
  | a :: as => do
    if ← a.exec call fuel then return true
    Arm.execFirst call fuel as

end

/-- Calls that may nest `d` deep. -/
def callAt (fuel : Nat) : Nat → Caller
  | 0 => fun f _ line => fail line (.stackTooDeep f.name)
  | d + 1 => fun f args _ => within f args (f.body.exec (callAt fuel d) fuel)

namespace Machine

/-- The calls that the open frames leave room for. -/
def caller (fuel : Nat) (m : Machine) : Caller := callAt fuel (maxCallDepth + 1 - m.frames.length)

def eval (fuel : Nat) (m : Machine) (e : Expr) : EStateM.Result Stop Machine Value :=
  e.eval (m.caller fuel) m

def exec (fuel : Nat) (m : Machine) (b : Block) : EStateM.Result Stop Machine Unit :=
  b.exec (m.caller fuel) fuel m

/-- Runs a block in new frames. -/
def run (fuel : Nat) (m : Machine) (scopes : ScopeTable) (b : Block) : EStateM.Result Stop Machine Unit :=
  (m.reset scopes).exec fuel b

/-- Runs a block in new frames that take over the bindings of the last run, if there was one. -/
def resume (fuel : Nat) (m : Machine) (scopes : ScopeTable) (b : Block) :
    EStateM.Result Stop Machine Unit :=
  if m.hasRun then (m.migrate scopes).exec fuel b else m.run fuel scopes b

end Machine

end Sprig
