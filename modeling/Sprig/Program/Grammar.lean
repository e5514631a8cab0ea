import Sprig.Expr.Grammar
import Sprig.Program

/-!
# The grammar of statements and blocks

A statement takes one logical line, or a header line, the block it opens, and the line that closes it.
-/

namespace Sprig

namespace Grammar

open Production

variable {σ : Type} (mem : Memory σ) (r : Rules σ)

/-! ## Lines -/

/-- Statements on one line. A line with several targets is several stores. -/
def simple : Production σ (List Stmt) :=
  (do return (← stores r).map .assign) <|>
  (do let t ← token .kwPrint; return [.print t.line (← orNil (values r))]) <|>
  (do let t ← token .kwPuts; return [.puts t.line (← orNil (values r))]) <|>
  (do let t ← token .kwGets; endOfLine; return [.gets t.line]) <|>
  (do return [.expr (← value mem r)])

/-- The line of an `if` or `elif`, and its condition. -/
def armHeader : Production σ (Nat × Expr) := do
  let t ← token .kwIf <|> token .kwElif
  return (t.line, ← (lowBoolean mem r).demand t.line (.missing t.text .booleanExpression))

def loopHeader : Production σ (Nat × Expr) := do
  let t ← token .kwWhile
  return (t.line, ← (lowBoolean mem r).demand t.line (.missing "while" .condition))

/-- The line, name and parameters of a function. The name is declared outside and the parameters inside of
the scope that is opened for it. -/
def functionHeader : Production σ (Nat × String × List String) := do
  let t ← token .kwDef
  let name ← (token .identifier).demand t.line (.missing "def" .functionName)
  modifyScopes fun scopes => (scopes.declare name.text).push name.text
  let params ← inParens (listOf target .parameter) t.line (.unclosedParameters name.text)
  return (t.line, name.text, params.map (·.2))

end Grammar

/-! ## Blocks -/

/-- Reads lines. The names that were declared and the attempts that are kept go from line to line. -/
abbrev Reader (σ : Type) := StateT (Trace σ) (Except Fault)

namespace Reader

variable {σ : Type} (notes : Notebook σ)

/-- Reads a whole line, with the given lines after it. -/
def line? {α : Type} (p : Memory σ → Rules σ → Production σ α) (ts : LogicalLine)
    (rest : List LogicalLine) : Reader σ (Option α) :=
  fun tr =>
  let mem := notes.page rest.length
  match p mem (.upTo mem ts.length) ts tr with
  | (.found a [], tr) => .ok (some a, tr)
  | (.found _ (t :: _), _) => .error ⟨t.line, .syntactic (.unexpectedToken t.text)⟩
  | (.noMatch, tr) => .ok (none, tr)
  | (.fault f, _) => .error f

/-- The line a block begins on: on the logical line after its header, that of the token as far in as the
header is long, or else of the last token. A block at the end of the text is on the line of its header. -/
def blockLine (header : LogicalLine) : List LogicalLine → Nat
  | [] => (header.getLast?.map (·.line)).getD 1
  | ts :: _ => ((ts[header.length]?.or ts.getLast?).map (·.line)).getD 1

/-- Reads the block under a header. -/
abbrev Body (σ : Type) := LogicalLine → List LogicalLine → Reader σ (Block × List LogicalLine)

/-- Takes a line that consists of this keyword. -/
def keyword? (k : Kind) : List LogicalLine → Reader σ (Option (LogicalLine × List LogicalLine))
  | (t :: ts) :: rest =>
    if t.kind = k then
      match ts with
      | [] => return some ([t], rest)
      | u :: _ => throw ⟨u.line, .syntactic (.unexpectedToken u.text)⟩
    else return none
  | _ => return none

/-- Takes the `end` of the block that `keyword` opened on the given line. -/
def close (keyword : String) (line : Nat) (lines : List LogicalLine) : Reader σ (List LogicalLine) := do
  match ← keyword? .kwEnd lines with
  | some (_, rest) => return rest
  | none => throw ⟨line, .syntactic (.unterminatedBlock keyword)⟩

/-- Nothing if the line is no header of this kind, else what the header says and the block under it. -/
def headed? {α : Type} (body : Body σ) (p : Memory σ → Rules σ → Production σ α) (ts : LogicalLine)
    (rest : List LogicalLine) : Reader σ (Option (α × Block × List LogicalLine)) := do
  match ← line? notes p ts rest with
  | none => return none
  | some header =>
    let (block, rest) ← body ts rest
    return some (header, block, rest)

/-- The `elif` arms that come next, at most `n`. -/
def arms (body : Body σ) : Nat → List LogicalLine → Reader σ (List Arm × List LogicalLine)
  | n + 1, (t :: ts) :: rest => do
    if t.kind = .kwElif then
      match ← headed? notes body Grammar.armHeader (t :: ts) rest with
      | some ((line, condition), block, rest) =>
        let (others, rest) ← arms body n rest
        return (⟨line, condition, block⟩ :: others, rest)
      | none => return ([], (t :: ts) :: rest)
    else return ([], (t :: ts) :: rest)
  | _, lines => return ([], lines)

def otherwise (body : Body σ) (lines : List LogicalLine) : Reader σ (Option Block × List LogicalLine) := do
  match ← keyword? .kwElse lines with
  | some (header, rest) =>
    let (block, rest) ← body header rest
    return (some block, rest)
  | none => return (none, lines)

/-- The statements that start on a line, and the lines after them. -/
def statement? (body : Body σ) (ts : LogicalLine) (rest : List LogicalLine) :
    Reader σ (Option (List Stmt × List LogicalLine)) := do
  match ts.head?.map Token.kind with
  | some .kwIf =>
    let some ((line, condition), block, rest) ← headed? notes body Grammar.armHeader ts rest
      | return none
    let (others, rest) ← arms notes body rest.length rest
    let (last, rest) ← otherwise body rest
    let rest ← close "if" line rest
    return some ([.choose ⟨line, condition, block⟩ others last], rest)
  | some .kwWhile =>
    let some ((line, condition), block, rest) ← headed? notes body Grammar.loopHeader ts rest
      | return none
    let rest ← close "while" line rest
    return some ([.loop line condition block], rest)
  | some .kwDef =>
    let some ((line, name, params), block, rest) ← headed? notes body (fun _ _ => Grammar.functionHeader) ts rest
      | return none
    let rest ← close "def" line rest
    let scope := (← get).scopes.current
    modify fun tr => { tr with scopes := tr.scopes.leave }
    return some ([.define ⟨name, params, line, block, scope⟩], rest)
  | _ => return (← line? notes Grammar.simple ts rest).map (·, rest)

/-- The statements on at most `n` lines, up to a line that starts none. -/
def statements : Nat → List LogicalLine → Reader σ (List Stmt × List LogicalLine)
  | n + 1, ts :: rest => do
    let body : Body σ := fun header lines => do
      let (stmts, rest) ← statements n lines
      return (⟨blockLine header lines, stmts⟩, rest)
    match ← statement? notes body ts rest with
    | some (stmts, rest) =>
      let (others, rest) ← statements n rest
      return (stmts ++ others, rest)
    | none => return ([], ts :: rest)
  | _, lines => return ([], lines)

end Reader

namespace Program

/-- Why a line that starts no statement cannot stand outside of all blocks. -/
def stray (t : Token) : SyntaxProblem :=
  if t.kind.isKeyword then .misplacedKeyword t.text else .undefinedSymbol t.text

def ofLinesWith {σ : Type} (notes : Notebook σ) (lines : List LogicalLine) : Except Fault Program := do
  let ((stmts, rest), tr) ← (Reader.statements notes lines.length lines).run ⟨.initial, notes.empty⟩
  match rest with
  | (t :: _) :: _ => throw ⟨t.line, .syntactic (stray t)⟩
  | _ => return ⟨⟨Reader.blockLine [] lines, stmts⟩, tr.scopes⟩

/-- The program on the given lines. A line without tokens ends it. -/
def ofLines : List LogicalLine → Except Fault Program := ofLinesWith .table

def ofSource (source : String) : Except Fault Program := LogicalLine.ofSource source >>= ofLines

end Program

end Sprig
