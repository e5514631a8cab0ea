import Sprig.Number.FloatText
import Sprig.Number.Integer
import Sprig.Proofs.MapLine

/-!
# Printed programs

A program is printed as logical lines: one statement or block keyword on each, with parentheses around every
operand that is made of other expressions. Printed tokens are on no line, that is on line 0.

`Expr.Tiered` and `Stmt.Tiered` are the programs of the tiered grammar: numbers are joined by arithmetic
operators, truth values by boolean ones, numbers and strings are ordered, and any two values may be equal.
-/

namespace Sprig

/-! ## Tiers -/

/-- The expressions a number may be written as. Names, calls and assignments may be of any kind. -/
def Expr.isNumber : Expr → Bool
  | .literal _ (.integer _) | .call _ _ _ | .binary _ (.arithmetic _) _ _ | .assign _ _ => true
  | _ => false

/-- The expressions a truth value may be written as. -/
def Expr.isBoolean : Expr → Bool
  | .literal _ .nil | .literal _ (.boolean _) | .call _ _ _ | .binary _ (.boolean _) _ _ | .negate _ _ _
  | .compare _ _ _ _ | .assign _ _ => true
  | _ => false

def Expr.isString : Expr → Bool
  | .literal _ (.string _) => true
  | _ => false

/-- The operands of the operator. -/
def BinaryOp.takes : BinaryOp → Expr → Bool
  | .arithmetic _, e => e.isNumber
  | .boolean _, e => e.isBoolean

/-- What can be compared. -/
def Comparison.takes : Comparison → Expr → Bool
  | .is, _ | .equal, _ | .notEqual, _ => true
  | .greater, e | .less, e | .greaterEqual, e | .lessEqual, e => e.isNumber || e.isString

/-- The literals of the grammar. A minus sign is an operator, and fractions are left out. -/
def Literal.Plain : Literal → Prop
  | .integer n => 0 ≤ n.toInt
  | .float _ => False
  | .nil | .boolean _ | .string _ => True

mutual

/-- Every operator is applied to what its tier allows. -/
def Expr.Tiered : Expr → Prop
  | .literal _ v => v.Plain
  | .call _ _ args => Expr.TieredAll args
  | .binary _ op left right => (op.takes left = true ∧ left.Tiered) ∧ op.takes right = true ∧ right.Tiered
  | .negate _ _ operand => operand.isBoolean = true ∧ operand.Tiered
  | .compare _ op left right => (op.takes left = true ∧ left.Tiered) ∧ op.takes right = true ∧ right.Tiered
  | .gets _ => True
  | .assign _ stores => stores ≠ [] ∧ Assign.TieredAll stores

def Expr.TieredAll : List Expr → Prop
  | [] => True
  | e :: es => e.Tiered ∧ Expr.TieredAll es

def Assign.TieredAll : List Assign → Prop
  | [] => True
  | ⟨_, _, value⟩ :: as => value.Tiered ∧ Assign.TieredAll as

end

/-- The expression is `gets` and nothing else. As a statement that is of a kind of its own. -/
def Expr.isGets : Expr → Bool
  | .gets _ => true
  | _ => false

mutual

def Stmt.Tiered : Stmt → Prop
  | .assign store => store.value.Tiered
  | .print _ values | .puts _ values => Expr.TieredAll values
  | .choose first others otherwise => first.Tiered ∧ Arm.TieredAll others ∧ Block.TieredOption otherwise
  | .loop _ condition body => (condition.isBoolean = true ∧ condition.Tiered) ∧ body.Tiered
  | .define f => f.Tiered
  | .gets _ => True
  | .expr e => e.isGets = false ∧ e.Tiered

def Stmt.TieredAll : List Stmt → Prop
  | [] => True
  | s :: ss => s.Tiered ∧ Stmt.TieredAll ss

def Arm.Tiered : Arm → Prop
  | ⟨_, condition, body⟩ => (condition.isBoolean = true ∧ condition.Tiered) ∧ body.Tiered

def Arm.TieredAll : List Arm → Prop
  | [] => True
  | a :: as => a.Tiered ∧ Arm.TieredAll as

def Block.Tiered : Block → Prop
  | ⟨_, stmts⟩ => Stmt.TieredAll stmts

def Block.TieredOption : Option Block → Prop
  | none => True
  | some b => b.Tiered

def Func.Tiered : Func → Prop
  | ⟨_, _, _, body, _⟩ => body.Tiered

end

/-! ## Tokens of expressions -/

def Token.unlined (kind : Kind) (text : String) : Token := ⟨kind, text, 0⟩

def Token.name (name : String) : Token := .unlined .identifier name

def Token.comma : Token := .unlined .comma ","

def Token.equalSign : Token := .unlined .equal "="

def Token.opening : Token := .unlined .leftParen "("

def Token.closing : Token := .unlined .rightParen ")"

section
variable (kind : Kind) (text : String)

@[simp] theorem Token.unlined_kind : (unlined kind text).kind = kind := rfl

@[simp] theorem Token.name_kind : (name text).kind = .identifier := rfl

@[simp] theorem Token.comma_kind : comma.kind = .comma := rfl

@[simp] theorem Token.equalSign_kind : equalSign.kind = .equal := rfl

@[simp] theorem Token.opening_kind : opening.kind = .leftParen := rfl

@[simp] theorem Token.closing_kind : closing.kind = .rightParen := rfl

end

def Token.enclosed (ts : List Token) : List Token := .opening :: ts ++ [.closing]

@[simp] theorem Token.enclosed_append (ts rest : List Token) :
    enclosed ts ++ rest = opening :: (ts ++ closing :: rest) := by
  simp [enclosed]

def Token.separated : List (List Token) → List Token
  | [] => []
  | ts :: tss => ts ++ tss.flatMap (.comma :: ·)

def Literal.token : Literal → Token
  | .nil => .unlined .kwNil "nil"
  | .boolean true => .unlined .kwTrue "true"
  | .boolean false => .unlined .kwFalse "false"
  | .integer n => .unlined .integer (toString n.toInt.toNat)
  | .float x => .unlined .float (FloatText.render x)
  | .string s => .unlined .string s

def BinaryOp.kind : BinaryOp → Kind
  | .arithmetic .add => .plus
  | .arithmetic .subtract => .minus
  | .arithmetic .multiply => .star
  | .arithmetic .power => .starStar
  | .arithmetic .divide => .slash
  | .arithmetic .modulo => .percent
  | .boolean .and => .kwAnd
  | .boolean .or => .kwOr
  | .boolean .andAnd => .andAnd
  | .boolean .orOr => .orOr

def Comparison.kind : Comparison → Kind
  | .is => .kwIs
  | .equal => .equalEqual
  | .notEqual => .bangEqual
  | .greater => .greater
  | .less => .less
  | .greaterEqual => .greaterEqual
  | .lessEqual => .lessEqual

def Negation.kind : Negation → Kind
  | .bang => .bang
  | .not => .kwNot

def BinaryOp.token (op : BinaryOp) : Token := .unlined op.kind op.symbol

def Comparison.token (op : Comparison) : Token := .unlined op.kind op.symbol

def Negation.token (op : Negation) : Token := .unlined op.kind op.symbol

@[simp] theorem BinaryOp.token_kind (op : BinaryOp) : op.token.kind = op.kind := rfl

@[simp] theorem Comparison.token_kind (op : Comparison) : op.token.kind = op.kind := rfl

@[simp] theorem Negation.token_kind (op : Negation) : op.token.kind = op.kind := rfl

/-- The expression is made of operands, and has to be enclosed to be one. -/
def Expr.isCompound : Expr → Bool
  | .binary _ _ _ _ | .negate _ _ _ | .compare _ _ _ _ | .assign _ _ => true
  | _ => false

def Expr.isAssign : Expr → Bool
  | .assign _ _ => true
  | _ => false

mutual

/-- The expression without parentheses around it. -/
def Expr.text : Expr → List Token
  | .literal _ v => [v.token]
  | .call _ name args =>
    .name name :: if args.isEmpty then [] else Token.enclosed (Token.separated (Expr.operands args))
  | .binary _ op left right =>
    (if left.isCompound then Token.enclosed left.text else left.text) ++
      op.token :: if right.isCompound then Token.enclosed right.text else right.text
  | .negate _ op operand => op.token :: if operand.isCompound then Token.enclosed operand.text else operand.text
  | .compare _ op left right =>
    (if left.isCompound then Token.enclosed left.text else left.text) ++
      op.token :: if right.isCompound then Token.enclosed right.text else right.text
  | .gets _ => [.unlined .kwGets "gets"]
  | .assign _ stores =>
    Token.separated (stores.map fun a => [.name a.name]) ++ .equalSign :: Token.separated (Assign.operands stores)

def Expr.operands : List Expr → List (List Token)
  | [] => []
  | e :: es => (if e.isCompound then Token.enclosed e.text else e.text) :: Expr.operands es

def Assign.operands : List Assign → List (List Token)
  | [] => []
  | ⟨_, _, value⟩ :: as =>
    (if value.isCompound then Token.enclosed value.text else value.text) :: Assign.operands as

end

/-- The expression as an operand of another one. -/
def Expr.operand (e : Expr) : List Token := if e.isCompound then Token.enclosed e.text else e.text

theorem Expr.operand_of_isCompound {e : Expr} (h : e.isCompound = true) : e.operand = Token.enclosed e.text :=
  if_pos h

theorem Expr.operand_of_not_isCompound {e : Expr} (h : e.isCompound = false) : e.operand = e.text := by
  rw [operand, h]
  rfl

/-- The expression on a line of its own. Parentheses may be left out, but an assignment looks like a statement
without them. -/
def Expr.whole (bare : Bool) (e : Expr) : List Token := if bare && !e.isAssign then e.text else e.operand

section
variable (line : Nat) (l r e : Expr)

@[simp] theorem Expr.operands_eq (es : List Expr) : Expr.operands es = es.map Expr.operand := by
  induction es with
  | nil => rfl
  | cons e es ih => rw [Expr.operands, ih, List.map_cons, Expr.operand]

@[simp] theorem Assign.operands_eq : ∀ as : List Assign, Assign.operands as = as.map (·.value.operand)
  | [] => rfl
  | ⟨_, _, value⟩ :: as => by rw [Assign.operands, Assign.operands_eq as, List.map_cons, Expr.operand]

@[simp] theorem Expr.text_binary (op : BinaryOp) :
    (Expr.binary line op l r).text = l.operand ++ op.token :: r.operand := by
  rw [Expr.text, Expr.operand, Expr.operand]

@[simp] theorem Expr.text_negate (op : Negation) : (Expr.negate line op e).text = op.token :: e.operand := by
  rw [Expr.text, Expr.operand]

@[simp] theorem Expr.text_compare (op : Comparison) :
    (Expr.compare line op l r).text = l.operand ++ op.token :: r.operand := by
  rw [Expr.text, Expr.operand, Expr.operand]

end

/-! ## Lines of statements -/

def Token.endKeyword : Token := .unlined .kwEnd "end"

mutual

/-- The logical lines of a statement. -/
def Stmt.lines (bare : Bool) : Stmt → List LogicalLine
  | .assign store => [.name store.name :: .equalSign :: store.value.whole bare]
  | .print _ values => [.unlined .kwPrint "print" :: Token.separated (values.map (Expr.whole bare))]
  | .puts _ values => [.unlined .kwPuts "puts" :: Token.separated (values.map (Expr.whole bare))]
  | .choose ⟨_, condition, body⟩ others otherwise =>
    (.unlined .kwIf "if" :: condition.whole bare) :: (body.lines bare ++
      (Arm.linesAll bare others ++ (Block.linesElse bare otherwise ++ [[.endKeyword]])))
  | .loop _ condition body =>
    (.unlined .kwWhile "while" :: condition.whole bare) :: (body.lines bare ++ [[.endKeyword]])
  | .define ⟨name, params, _, body, _⟩ =>
    (.unlined .kwDef "def" :: .name name ::
      if params.isEmpty then [] else Token.enclosed (Token.separated (params.map fun p => [.name p]))) ::
      (body.lines bare ++ [[.endKeyword]])
  | .gets _ => [[.unlined .kwGets "gets"]]
  | .expr e => [e.whole bare]

def Stmt.linesAll (bare : Bool) : List Stmt → List LogicalLine
  | [] => []
  | s :: ss => s.lines bare ++ Stmt.linesAll bare ss

def Arm.linesAll (bare : Bool) : List Arm → List LogicalLine
  | [] => []
  | ⟨_, condition, body⟩ :: as =>
    (.unlined .kwElif "elif" :: condition.whole bare) :: (body.lines bare ++ Arm.linesAll bare as)

def Block.lines (bare : Bool) : Block → List LogicalLine
  | ⟨_, stmts⟩ => Stmt.linesAll bare stmts

def Block.linesElse (bare : Bool) : Option Block → List LogicalLine
  | none => []
  | some b => [.unlined .kwElse "else"] :: b.lines bare

end

/-! ## What a program says -/

def Expr.unlined (e : Expr) : Expr := e.mapLine fun _ => 0

def Assign.unlined (a : Assign) : Assign := a.mapLine fun _ => 0

section
variable (line : Nat) (l r e : Expr)

@[simp] theorem Expr.unlined_literal (v : Literal) : (literal line v).unlined = literal 0 v := rfl

@[simp] theorem Expr.unlined_call (name : String) (args : List Expr) :
    (call line name args).unlined = call 0 name (args.map unlined) := by
  rw [unlined, mapLine, mapLineAll_eq]
  rfl

@[simp] theorem Expr.unlined_binary (op : BinaryOp) :
    (binary line op l r).unlined = binary 0 op l.unlined r.unlined := rfl

@[simp] theorem Expr.unlined_negate (op : Negation) : (negate line op e).unlined = negate 0 op e.unlined := rfl

@[simp] theorem Expr.unlined_compare (op : Comparison) :
    (compare line op l r).unlined = compare 0 op l.unlined r.unlined := rfl

@[simp] theorem Expr.unlined_gets : (gets line).unlined = gets 0 := rfl

@[simp] theorem Expr.unlined_assign (stores : List Assign) :
    (assign line stores).unlined = assign 0 (stores.map Assign.unlined) := by
  rw [unlined, mapLine, Assign.mapLineAll_eq]
  rfl

end

mutual

/-- The statement without its lines and without the scopes that its functions keep. -/
def Stmt.shape : Stmt → Stmt
  | .assign store => .assign store.unlined
  | .print _ values => .print 0 (values.map Expr.unlined)
  | .puts _ values => .puts 0 (values.map Expr.unlined)
  | .choose first others otherwise => .choose first.shape (Arm.shapes others) (Block.shapeOption otherwise)
  | .loop _ condition body => .loop 0 condition.unlined body.shape
  | .define f => .define f.shape
  | .gets _ => .gets 0
  | .expr e => .expr e.unlined

def Stmt.shapes : List Stmt → List Stmt
  | [] => []
  | s :: ss => s.shape :: Stmt.shapes ss

def Arm.shape : Arm → Arm
  | ⟨_, condition, body⟩ => ⟨0, condition.unlined, body.shape⟩

def Arm.shapes : List Arm → List Arm
  | [] => []
  | a :: as => a.shape :: Arm.shapes as

def Block.shape : Block → Block
  | ⟨_, stmts⟩ => ⟨0, Stmt.shapes stmts⟩

def Block.shapeOption : Option Block → Option Block
  | none => none
  | some b => some b.shape

def Func.shape : Func → Func
  | ⟨name, params, _, body, _⟩ => ⟨name, params, 0, body.shape, .empty name none⟩

end

@[simp] theorem Stmt.shapes_eq (ss : List Stmt) : Stmt.shapes ss = ss.map Stmt.shape := by
  induction ss with
  | nil => rfl
  | cons s ss ih => rw [Stmt.shapes, ih, List.map_cons]

@[simp] theorem Arm.shapes_eq (as : List Arm) : Arm.shapes as = as.map Arm.shape := by
  induction as with
  | nil => rfl
  | cons a as ih => rw [Arm.shapes, ih, List.map_cons]

@[simp] theorem Block.shapeOption_eq (b : Option Block) : Block.shapeOption b = b.map Block.shape := by
  cases b <;> rfl

/-! Lines are not a part of the shape. -/

section
variable (g : Nat → Nat)

@[simp] theorem Expr.unlined_mapLine (e : Expr) : (e.mapLine g).unlined = e.unlined := Expr.mapLine_mapLine g _ e

@[simp] theorem Assign.unlined_mapLine (a : Assign) : (a.mapLine g).unlined = a.unlined :=
  Assign.mapLine_mapLine g _ a

@[simp] theorem Expr.unlined_unlined (e : Expr) : e.unlined.unlined = e.unlined := e.unlined_mapLine _

@[simp] theorem Assign.unlined_unlined (a : Assign) : a.unlined.unlined = a.unlined := a.unlined_mapLine _

theorem Expr.map_unlined_mapLine (es : List Expr) :
    (es.map (Expr.mapLine g)).map Expr.unlined = es.map Expr.unlined :=
  Expr.map_mapLine_mapLine g _ es

mutual

@[simp] theorem Stmt.shape_mapLine : ∀ s : Stmt, (s.mapLine g).shape = s.shape
  | .assign store => by simp only [Stmt.mapLine, Stmt.shape, Assign.unlined_mapLine]
  | .print _ values | .puts _ values => by simp only [Stmt.mapLine, Stmt.shape, Expr.map_unlined_mapLine]
  | .choose first others otherwise => by
    simp only [Stmt.mapLine, Stmt.shape, Arm.shape_mapLine first, Arm.shapes_mapLineAll others,
      Block.shapeOption_mapLineOption otherwise]
  | .loop _ condition body => by
    simp only [Stmt.mapLine, Stmt.shape, Expr.unlined_mapLine, Block.shape_mapLine body]
  | .define f => by simp only [Stmt.mapLine, Stmt.shape, Func.shape_mapLine f]
  | .gets _ => rfl
  | .expr e => by simp only [Stmt.mapLine, Stmt.shape, Expr.unlined_mapLine]

theorem Stmt.shapes_mapLineAll : ∀ ss : List Stmt, Stmt.shapes (Stmt.mapLineAll g ss) = Stmt.shapes ss
  | [] => rfl
  | s :: ss => by simp only [Stmt.mapLineAll, Stmt.shapes, Stmt.shape_mapLine s, Stmt.shapes_mapLineAll ss]

theorem Arm.shape_mapLine : ∀ a : Arm, (a.mapLine g).shape = a.shape
  | ⟨_, condition, body⟩ => by simp only [Arm.mapLine, Arm.shape, Expr.unlined_mapLine, Block.shape_mapLine body]

theorem Arm.shapes_mapLineAll : ∀ as : List Arm, Arm.shapes (Arm.mapLineAll g as) = Arm.shapes as
  | [] => rfl
  | a :: as => by simp only [Arm.mapLineAll, Arm.shapes, Arm.shape_mapLine a, Arm.shapes_mapLineAll as]

theorem Block.shape_mapLine : ∀ b : Block, (b.mapLine g).shape = b.shape
  | ⟨_, stmts⟩ => by simp only [Block.mapLine, Block.shape, Stmt.shapes_mapLineAll stmts]

theorem Block.shapeOption_mapLineOption : ∀ b : Option Block,
    Block.shapeOption (Block.mapLineOption g b) = Block.shapeOption b
  | none => rfl
  | some b => by simp only [Block.mapLineOption, Block.shapeOption, Block.shape_mapLine b]

theorem Func.shape_mapLine : ∀ f : Func, (f.mapLine g).shape = f.shape
  | ⟨_, _, _, body, _⟩ => by simp only [Func.mapLine, Func.shape, Block.shape_mapLine body]

end

theorem Stmt.map_shape_mapLine (ss : List Stmt) :
    (ss.map (Stmt.mapLine g)).map Stmt.shape = ss.map Stmt.shape := by
  simp only [← Stmt.mapLineAll_eq, ← Stmt.shapes_eq, Stmt.shapes_mapLineAll]

end

end Sprig
