import Sprig.Expr
import Sprig.Scope

/-!
# Statements, blocks and programs
-/

namespace Sprig

mutual

inductive Stmt where
  | assign (store : Assign)
  | print (line : Nat) (values : List Expr)
  | puts (line : Nat) (values : List Expr)
  /-- The `if` arm, the `elif` arms, and what runs when no condition holds. -/
  | choose (first : Arm) (others : List Arm) (otherwise : Option Block)
  | loop (line : Nat) (condition : Expr) (body : Block)
  | define (func : Func)
  | gets (line : Nat)
  | expr (value : Expr)

structure Arm where
  line : Nat
  condition : Expr
  body : Block

structure Block where
  line : Nat
  stmts : List Stmt

/-- A function with the names its body declares. -/
structure Func where
  name : String
  params : List String
  line : Nat
  body : Block
  scope : Scope

end

def Stmt.line : Stmt → Nat
  | assign store => store.line
  | print line _ | puts line _ | loop line _ _ | gets line => line
  | choose first _ _ => first.line
  | define func => func.line
  | expr value => value.line

/-- The statements from the given index on, as a block of their own. -/
def Block.tail (b : Block) (start : Nat) : Block :=
  let rest := b.stmts.drop start
  ⟨(rest.head?.map Stmt.line).getD b.line, rest⟩

/-- What reading a whole source yields. -/
structure Program where
  body : Block
  scopes : ScopeTable

/-! ## Sameness -/

mutual

def Stmt.same : Stmt → Stmt → Bool
  | .assign a, .assign b => a.same b
  | .print i xs, .print j ys => i == j && Expr.sameAll xs ys
  | .puts i xs, .puts j ys => i == j && Expr.sameAll xs ys
  | .choose a xs o, .choose b ys p => a.same b && Arm.sameAll xs ys && Block.sameOption o p
  | .loop i c a, .loop j d b => i == j && c.same d && a.same b
  | .define f, .define g => f.same g
  | .gets i, .gets j => i == j
  | .expr a, .expr b => a.same b
  | _, _ => false

def Stmt.sameAll : List Stmt → List Stmt → Bool
  | [], [] => true
  | x :: xs, y :: ys => x.same y && Stmt.sameAll xs ys
  | _, _ => false

def Arm.same : Arm → Arm → Bool
  | ⟨i, c, a⟩, ⟨j, d, b⟩ => i == j && c.same d && a.same b

def Arm.sameAll : List Arm → List Arm → Bool
  | [], [] => true
  | x :: xs, y :: ys => x.same y && Arm.sameAll xs ys
  | _, _ => false

def Block.same : Block → Block → Bool
  | ⟨i, xs⟩, ⟨j, ys⟩ => i == j && Stmt.sameAll xs ys

def Block.sameOption : Option Block → Option Block → Bool
  | none, none => true
  | some a, some b => a.same b
  | _, _ => false

def Func.same : Func → Func → Bool
  | ⟨f, ps, i, a, s⟩, ⟨g, qs, j, b, t⟩ => f == g && ps == qs && i == j && a.same b && s == t

end

end Sprig
