import Sprig.Program.Grammar

/-!
# Other lines for the same text

A text that is moved keeps its tokens and gives them other lines. `mapLine g` puts the line `g n` in place of
every line `n`, in tokens, in syntax trees and in faults. The scope that a function keeps has no lines.
-/

namespace Sprig

section
variable (g : Nat → Nat)

def Token.mapLine (t : Token) : Token := { t with line := g t.line }

def Fault.mapLine (f : Fault) : Fault := { f with line := g f.line }

mutual

def Expr.mapLine : Expr → Expr
  | .literal line v => .literal (g line) v
  | .call line name args => .call (g line) name (Expr.mapLineAll args)
  | .binary line op left right => .binary (g line) op left.mapLine right.mapLine
  | .negate line op operand => .negate (g line) op operand.mapLine
  | .compare line op left right => .compare (g line) op left.mapLine right.mapLine
  | .gets line => .gets (g line)
  | .assign line stores => .assign (g line) (Assign.mapLineAll stores)

def Expr.mapLineAll : List Expr → List Expr
  | [] => []
  | e :: es => e.mapLine :: Expr.mapLineAll es

def Assign.mapLine : Assign → Assign
  | ⟨line, name, value⟩ => ⟨g line, name, value.mapLine⟩

def Assign.mapLineAll : List Assign → List Assign
  | [] => []
  | a :: as => a.mapLine :: Assign.mapLineAll as

end

mutual

def Stmt.mapLine : Stmt → Stmt
  | .assign store => .assign (store.mapLine g)
  | .print line values => .print (g line) (values.map (Expr.mapLine g))
  | .puts line values => .puts (g line) (values.map (Expr.mapLine g))
  | .choose first others otherwise =>
    .choose first.mapLine (Arm.mapLineAll others) (Block.mapLineOption otherwise)
  | .loop line condition body => .loop (g line) (condition.mapLine g) body.mapLine
  | .define f => .define f.mapLine
  | .gets line => .gets (g line)
  | .expr e => .expr (e.mapLine g)

def Stmt.mapLineAll : List Stmt → List Stmt
  | [] => []
  | s :: ss => s.mapLine :: Stmt.mapLineAll ss

def Arm.mapLine : Arm → Arm
  | ⟨line, condition, body⟩ => ⟨g line, condition.mapLine g, body.mapLine⟩

def Arm.mapLineAll : List Arm → List Arm
  | [] => []
  | a :: as => a.mapLine :: Arm.mapLineAll as

def Block.mapLine : Block → Block
  | ⟨line, stmts⟩ => ⟨g line, Stmt.mapLineAll stmts⟩

def Block.mapLineOption : Option Block → Option Block
  | none => none
  | some b => some b.mapLine

def Func.mapLine : Func → Func
  | ⟨name, params, line, body, scope⟩ => ⟨name, params, g line, body.mapLine, scope⟩

end

@[simp] theorem Token.mapLine_kind (t : Token) : (t.mapLine g).kind = t.kind := rfl

@[simp] theorem Token.mapLine_text (t : Token) : (t.mapLine g).text = t.text := rfl

@[simp] theorem Token.mapLine_line (t : Token) : (t.mapLine g).line = g t.line := rfl

@[simp] theorem Expr.mapLineAll_eq : ∀ es : List Expr, Expr.mapLineAll g es = es.map (Expr.mapLine g)
  | [] => rfl
  | e :: es => by rw [Expr.mapLineAll, Expr.mapLineAll_eq es, List.map_cons]

@[simp] theorem Assign.mapLineAll_eq : ∀ as : List Assign, Assign.mapLineAll g as = as.map (Assign.mapLine g)
  | [] => rfl
  | a :: as => by rw [Assign.mapLineAll, Assign.mapLineAll_eq as, List.map_cons]

@[simp] theorem Stmt.mapLineAll_eq : ∀ ss : List Stmt, Stmt.mapLineAll g ss = ss.map (Stmt.mapLine g)
  | [] => rfl
  | s :: ss => by rw [Stmt.mapLineAll, Stmt.mapLineAll_eq ss, List.map_cons]

@[simp] theorem Arm.mapLineAll_eq : ∀ as : List Arm, Arm.mapLineAll g as = as.map (Arm.mapLine g)
  | [] => rfl
  | a :: as => by rw [Arm.mapLineAll, Arm.mapLineAll_eq as, List.map_cons]

@[simp] theorem Block.mapLineOption_eq (b : Option Block) :
    Block.mapLineOption g b = b.map (Block.mapLine g) := by
  cases b <;> rfl

theorem Assign.pair_mapLine (line : Nat) : ∀ (targets : List (Nat × String)) (values : List Expr),
    Assign.pair (g line) (targets.map fun t => (g t.1, t.2)) (values.map (Expr.mapLine g)) =
      (Assign.pair line targets values).map (Assign.mapLine g)
  | [], _ => rfl
  | t :: targets, [] => by
    have ih := Assign.pair_mapLine line targets []
    simp only [List.map_nil] at ih
    simp only [List.map_cons, List.map_nil, Assign.pair, ih]
    rfl
  | t :: targets, v :: values => by
    simp only [List.map_cons, Assign.pair, Assign.pair_mapLine line targets values]
    rfl

end

/-! ## Lines that stay -/

theorem Token.map_mapLine_id (ts : List Token) : ts.map (Token.mapLine id) = ts := List.map_id ts

mutual

@[simp] theorem Expr.mapLine_id : ∀ e : Expr, e.mapLine id = e
  | .literal _ _ | .gets _ => rfl
  | .call line name args => by rw [Expr.mapLine, Expr.mapLineAll_id args]; rfl
  | .binary line op left right => by rw [Expr.mapLine, Expr.mapLine_id left, Expr.mapLine_id right]; rfl
  | .negate line op operand => by rw [Expr.mapLine, Expr.mapLine_id operand]; rfl
  | .compare line op left right => by rw [Expr.mapLine, Expr.mapLine_id left, Expr.mapLine_id right]; rfl
  | .assign line stores => by rw [Expr.mapLine, Assign.mapLineAll_id stores]; rfl

theorem Expr.mapLineAll_id : ∀ es : List Expr, Expr.mapLineAll id es = es
  | [] => rfl
  | e :: es => by rw [Expr.mapLineAll, Expr.mapLine_id e, Expr.mapLineAll_id es]

theorem Assign.mapLine_id : ∀ a : Assign, a.mapLine id = a
  | ⟨line, name, value⟩ => by rw [Assign.mapLine, Expr.mapLine_id value]; rfl

theorem Assign.mapLineAll_id : ∀ as : List Assign, Assign.mapLineAll id as = as
  | [] => rfl
  | a :: as => by rw [Assign.mapLineAll, Assign.mapLine_id a, Assign.mapLineAll_id as]

end

theorem Expr.map_mapLine_id (es : List Expr) : es.map (Expr.mapLine id) = es := by
  rw [← Expr.mapLineAll_eq, Expr.mapLineAll_id]

mutual

@[simp] theorem Stmt.mapLine_id : ∀ s : Stmt, s.mapLine id = s
  | .assign store => by rw [Stmt.mapLine, Assign.mapLine_id store]
  | .print line values => by rw [Stmt.mapLine, Expr.map_mapLine_id values]; rfl
  | .puts line values => by rw [Stmt.mapLine, Expr.map_mapLine_id values]; rfl
  | .choose first others otherwise => by
    rw [Stmt.mapLine, Arm.mapLine_id first, Arm.mapLineAll_id others, Block.mapLineOption_id otherwise]
  | .loop line condition body => by rw [Stmt.mapLine, Expr.mapLine_id condition, Block.mapLine_id body]; rfl
  | .define f => by rw [Stmt.mapLine, Func.mapLine_id f]
  | .gets line => rfl
  | .expr e => by rw [Stmt.mapLine, Expr.mapLine_id e]

theorem Stmt.mapLineAll_id : ∀ ss : List Stmt, Stmt.mapLineAll id ss = ss
  | [] => rfl
  | s :: ss => by rw [Stmt.mapLineAll, Stmt.mapLine_id s, Stmt.mapLineAll_id ss]

theorem Arm.mapLine_id : ∀ a : Arm, a.mapLine id = a
  | ⟨line, condition, body⟩ => by rw [Arm.mapLine, Expr.mapLine_id condition, Block.mapLine_id body]; rfl

theorem Arm.mapLineAll_id : ∀ as : List Arm, Arm.mapLineAll id as = as
  | [] => rfl
  | a :: as => by rw [Arm.mapLineAll, Arm.mapLine_id a, Arm.mapLineAll_id as]

theorem Block.mapLine_id : ∀ b : Block, b.mapLine id = b
  | ⟨line, stmts⟩ => by rw [Block.mapLine, Stmt.mapLineAll_id stmts]; rfl

theorem Block.mapLineOption_id : ∀ b : Option Block, Block.mapLineOption id b = b
  | none => rfl
  | some b => by rw [Block.mapLineOption, Block.mapLine_id b]

theorem Func.mapLine_id : ∀ f : Func, f.mapLine id = f
  | ⟨name, params, line, body, scope⟩ => by rw [Func.mapLine, Block.mapLine_id body]; rfl

end

theorem Stmt.map_mapLine_id (ss : List Stmt) : ss.map (Stmt.mapLine id) = ss := by
  rw [← Stmt.mapLineAll_eq, Stmt.mapLineAll_id]

/-! ## Lines that move twice -/

section
variable (g h : Nat → Nat)

mutual

@[simp] theorem Expr.mapLine_mapLine : ∀ e : Expr, (e.mapLine g).mapLine h = e.mapLine fun n => h (g n)
  | .literal _ _ | .gets _ => rfl
  | .call line name args => by simp only [Expr.mapLine, Expr.mapLineAll_mapLineAll args]
  | .binary line op left right => by
    simp only [Expr.mapLine, Expr.mapLine_mapLine left, Expr.mapLine_mapLine right]
  | .negate line op operand => by simp only [Expr.mapLine, Expr.mapLine_mapLine operand]
  | .compare line op left right => by
    simp only [Expr.mapLine, Expr.mapLine_mapLine left, Expr.mapLine_mapLine right]
  | .assign line stores => by simp only [Expr.mapLine, Assign.mapLineAll_mapLineAll stores]

theorem Expr.mapLineAll_mapLineAll : ∀ es : List Expr,
    Expr.mapLineAll h (Expr.mapLineAll g es) = Expr.mapLineAll (fun n => h (g n)) es
  | [] => rfl
  | e :: es => by simp only [Expr.mapLineAll, Expr.mapLine_mapLine e, Expr.mapLineAll_mapLineAll es]

theorem Assign.mapLine_mapLine : ∀ a : Assign, (a.mapLine g).mapLine h = a.mapLine fun n => h (g n)
  | ⟨line, name, value⟩ => by simp only [Assign.mapLine, Expr.mapLine_mapLine value]

theorem Assign.mapLineAll_mapLineAll : ∀ as : List Assign,
    Assign.mapLineAll h (Assign.mapLineAll g as) = Assign.mapLineAll (fun n => h (g n)) as
  | [] => rfl
  | a :: as => by simp only [Assign.mapLineAll, Assign.mapLine_mapLine a, Assign.mapLineAll_mapLineAll as]

end

theorem Expr.map_mapLine_mapLine (es : List Expr) :
    (es.map (Expr.mapLine g)).map (Expr.mapLine h) = es.map (Expr.mapLine fun n => h (g n)) := by
  simp only [← Expr.mapLineAll_eq, Expr.mapLineAll_mapLineAll]

mutual

@[simp] theorem Stmt.mapLine_mapLine : ∀ s : Stmt, (s.mapLine g).mapLine h = s.mapLine fun n => h (g n)
  | .assign store => by simp only [Stmt.mapLine, Assign.mapLine_mapLine]
  | .print line values => by simp only [Stmt.mapLine, Expr.map_mapLine_mapLine]
  | .puts line values => by simp only [Stmt.mapLine, Expr.map_mapLine_mapLine]
  | .choose first others otherwise => by
    simp only [Stmt.mapLine, Arm.mapLine_mapLine first, Arm.mapLineAll_mapLineAll others,
      Block.mapLineOption_mapLineOption otherwise]
  | .loop line condition body => by simp only [Stmt.mapLine, Expr.mapLine_mapLine, Block.mapLine_mapLine body]
  | .define f => by simp only [Stmt.mapLine, Func.mapLine_mapLine f]
  | .gets line => rfl
  | .expr e => by simp only [Stmt.mapLine, Expr.mapLine_mapLine]

theorem Stmt.mapLineAll_mapLineAll : ∀ ss : List Stmt,
    Stmt.mapLineAll h (Stmt.mapLineAll g ss) = Stmt.mapLineAll (fun n => h (g n)) ss
  | [] => rfl
  | s :: ss => by simp only [Stmt.mapLineAll, Stmt.mapLine_mapLine s, Stmt.mapLineAll_mapLineAll ss]

theorem Arm.mapLine_mapLine : ∀ a : Arm, (a.mapLine g).mapLine h = a.mapLine fun n => h (g n)
  | ⟨line, condition, body⟩ => by simp only [Arm.mapLine, Expr.mapLine_mapLine, Block.mapLine_mapLine body]

theorem Arm.mapLineAll_mapLineAll : ∀ as : List Arm,
    Arm.mapLineAll h (Arm.mapLineAll g as) = Arm.mapLineAll (fun n => h (g n)) as
  | [] => rfl
  | a :: as => by simp only [Arm.mapLineAll, Arm.mapLine_mapLine a, Arm.mapLineAll_mapLineAll as]

theorem Block.mapLine_mapLine : ∀ b : Block, (b.mapLine g).mapLine h = b.mapLine fun n => h (g n)
  | ⟨line, stmts⟩ => by simp only [Block.mapLine, Stmt.mapLineAll_mapLineAll stmts]

theorem Block.mapLineOption_mapLineOption : ∀ b : Option Block,
    Block.mapLineOption h (Block.mapLineOption g b) = Block.mapLineOption (fun n => h (g n)) b
  | none => rfl
  | some b => by simp only [Block.mapLineOption, Block.mapLine_mapLine b]

theorem Func.mapLine_mapLine : ∀ f : Func, (f.mapLine g).mapLine h = f.mapLine fun n => h (g n)
  | ⟨name, params, line, body, scope⟩ => by simp only [Func.mapLine, Block.mapLine_mapLine body]

end

end

/-! ## No lines -/

/-- The statement without its lines. -/
def Stmt.unlined (s : Stmt) : Stmt := s.mapLine fun _ => 0

@[simp] theorem Stmt.unlined_mapLine (g : Nat → Nat) (s : Stmt) : (s.mapLine g).unlined = s.unlined :=
  Stmt.mapLine_mapLine g _ s

@[simp] theorem Stmt.map_unlined_mapLine (g : Nat → Nat) (ss : List Stmt) :
    (ss.map (Stmt.mapLine g)).map Stmt.unlined = ss.map Stmt.unlined := by
  rw [List.map_map]
  exact List.map_congr_left fun s _ => s.unlined_mapLine g

end Sprig
