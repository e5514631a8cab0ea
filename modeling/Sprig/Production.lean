import Std.Data.HashMap
import Sprig.Expr
import Sprig.Fault
import Sprig.LogicalLine
import Sprig.Scope

/-!
# Productions on one logical line

A production works on the tokens that are left of a line. When it does not match, the next alternative starts
from the same tokens; a fault is final. What attempts leave behind, matching or not, is their trace: the
names they declared and what a `Memory` keeps of them.
-/

namespace Sprig

inductive Outcome (α : Type) where
  | found (value : α) (rest : List Token)
  | noMatch
  | fault (f : Fault)

structure Trace (σ : Type) where
  scopes : ScopeTable
  memory : σ

def Production (σ α : Type) := List Token → Trace σ → Outcome α × Trace σ

namespace Production

variable {σ α β : Type}

instance : Monad (Production σ) where
  pure a := fun ts tr => (.found a ts, tr)
  bind p f := fun ts tr =>
    match p ts tr with
    | (.found a rest, tr) => f a rest tr
    | (.noMatch, tr) => (.noMatch, tr)
    | (.fault e, tr) => (.fault e, tr)

instance : OrElse (Production σ α) where
  orElse p q := fun ts tr =>
    match p ts tr with
    | (.noMatch, tr) => q () ts tr
    | r => r

def noMatch : Production σ α := fun _ tr => (.noMatch, tr)

def fault (line : Nat) (problem : SyntaxProblem) : Production σ α :=
  fun _ tr => (.fault ⟨line, .syntactic problem⟩, tr)

/-- No match is a fault. -/
def demand (p : Production σ α) (line : Nat) (problem : SyntaxProblem) : Production σ α :=
  p <|> fault line problem

/-- The next token, which stays; no match at the end of the line. -/
def peek : Production σ Token
  | [], tr => (.noMatch, tr)
  | t :: ts, tr => (.found t (t :: ts), tr)

def token (k : Kind) : Production σ Token
  | [], tr => (.noMatch, tr)
  | t :: ts, tr => (if t.kind = k then .found t ts else .noMatch, tr)

/-- Takes the next token if `select` gives it a meaning. -/
def symbol (select : Kind → Option β) : Production σ (β × Nat)
  | [], tr => (.noMatch, tr)
  | t :: ts, tr =>
    match select t.kind with
    | some b => (.found (b, t.line) ts, tr)
    | none => (.noMatch, tr)

def accepts (k : Kind) : Production σ Bool := (do let _ ← token k; return true) <|> pure false

def endOfLine : Production σ Unit
  | [], tr => (.found () [], tr)
  | _, tr => (.noMatch, tr)

/-- No match where the next token is of this class. -/
def unlessNext (p : Kind → Bool) : Production σ Unit := fun ts tr =>
  (if ts.head?.any (p ·.kind) then .noMatch else .found () ts, tr)

def modifyScopes (f : ScopeTable → ScopeTable) : Production σ Unit := fun ts tr =>
  (.found () ts, { tr with scopes := f tr.scopes })

/-- The line of the next token, or else that of the token just taken. -/
def lineAfter (last : Token) : Production σ Nat := fun ts tr =>
  (.found ((ts.head?.map (·.line)).getD last.line) ts, tr)

/-- Repeats until there is no match, at most `n` times. -/
def repeated (p : Production σ α) : Nat → Production σ (List α)
  | 0 => pure []
  | n + 1 =>
    (do
      let a ← p
      let rest ← repeated p n
      return a :: rest) <|> pure []

/-- Repeats until there is no match. Every round has to take a token. -/
def many (p : Production σ α) : Production σ (List α) := fun ts tr => repeated p ts.length ts tr

def orNil (p : Production σ (List α)) : Production σ (List α) := p <|> pure []

/-- One or more items. A comma that no item follows is a fault. -/
def listOf (item : Production σ α) (wanted : Wanted) : Production σ (List α) := do
  let first ← item
  let others ← many do
    let comma ← token .comma
    let line ← lineAfter comma
    item.demand line (.missing "," wanted)
  return first :: others

/-- A list in parentheses, or nothing at all. -/
def inParens (list : Production σ (List α)) (line : Nat) (unclosed : SyntaxProblem) :
    Production σ (List α) :=
  orNil do
    let _ ← token .leftParen
    let items ← orNil list
    let _ ← (token .rightParen).demand line unclosed
    return items

end Production

/-! ## Memory -/

/-- The productions that alternatives keep coming back to. -/
inductive Rule where
  | value | highBoolean | number | call
  deriving DecidableEq, Hashable, Repr

/-- What is kept of an attempt that was no fault: what it found and the tokens after it. -/
abbrev Attempt := Option (Expr × List Token)

/-- A way to keep the attempts made on one line. An attempt is known by its rule and by how many tokens were
left. -/
structure Memory (σ : Type) where
  find? : σ → Rule → Nat → Option Attempt
  insert : σ → Rule → Nat → Attempt → σ

/-- A way to keep the attempts of a whole reading, with a page for every line. A line is known by how many
lines come after it. -/
structure Notebook (σ : Type) where
  empty : σ
  page : Nat → Memory σ

/-- Keeps nothing. -/
def Memory.off : Memory Unit where
  find? _ _ _ := none
  insert m _ _ _ := m

def Notebook.off : Notebook Unit := ⟨(), fun _ => .off⟩

/-- Keeps everything, so that nested alternatives take polynomial time. -/
def Notebook.table : Notebook (Std.HashMap (Rule × Nat × Nat) Attempt) where
  empty := ∅
  page line :=
    { find? m rule n := m[(rule, line, n)]?
      insert m rule n attempt := m.insert (rule, line, n) attempt }

namespace Production

variable {σ : Type}

/-- Replays the attempt that `mem` knows of, or makes it and has it recorded. -/
def memoized (mem : Memory σ) (rule : Rule) (p : Production σ Expr) : Production σ Expr := fun ts tr =>
  match mem.find? tr.memory rule ts.length with
  | some (some (e, rest)) => (.found e rest, tr)
  | some none => (.noMatch, tr)
  | none =>
    let insert (tr : Trace σ) (attempt : Attempt) : Trace σ :=
      { tr with memory := mem.insert tr.memory rule ts.length attempt }
    match p ts tr with
    | (.found e rest, tr) => (.found e rest, insert tr (some (e, rest)))
    | (.noMatch, tr) => (.noMatch, insert tr none)
    | (.fault f, tr) => (.fault f, tr)

end Production

end Sprig
