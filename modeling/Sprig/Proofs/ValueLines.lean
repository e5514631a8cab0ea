import Mathlib.Logic.Function.Basic
import Sprig.Proofs.MapLine
import Sprig.Proofs.ValueLemmas

/-!
# Values under other lines

Of all values only functions have lines. Operators look at them in one place: two functions are the same if they
are the same line for line. New lines that are as different as the old ones are do not change that.
-/

namespace Sprig

/-! ## Sameness -/

section
variable {g : Nat → Nat}

theorem beq_mapLine (hg : Function.Injective g) (i j : Nat) : (g i == g j) = (i == j) := by
  by_cases h : i = j
  · simp [h]
  · simp [h, hg.ne h]

mutual

theorem Expr.same_mapLine (hg : Function.Injective g) : ∀ e e' : Expr, (e.mapLine g).same (e'.mapLine g) = e.same e'
  | .literal _ _, e' => by cases e' <;> simp [Expr.mapLine, Expr.same, beq_mapLine hg]
  | .call _ _ args, e' => by
    cases e' with
    | call _ _ args' => simp only [Expr.mapLine, Expr.same, beq_mapLine hg, Expr.sameAll_mapLine hg args args']
    | _ => simp [Expr.mapLine, Expr.same]
  | .binary _ _ l r, e' => by
    cases e' with
    | binary _ _ l' r' =>
      simp only [Expr.mapLine, Expr.same, beq_mapLine hg, Expr.same_mapLine hg l l', Expr.same_mapLine hg r r']
    | _ => simp [Expr.mapLine, Expr.same]
  | .negate _ _ e, e' => by
    cases e' with
    | negate _ _ e' => simp only [Expr.mapLine, Expr.same, beq_mapLine hg, Expr.same_mapLine hg e e']
    | _ => simp [Expr.mapLine, Expr.same]
  | .compare _ _ l r, e' => by
    cases e' with
    | compare _ _ l' r' =>
      simp only [Expr.mapLine, Expr.same, beq_mapLine hg, Expr.same_mapLine hg l l', Expr.same_mapLine hg r r']
    | _ => simp [Expr.mapLine, Expr.same]
  | .gets _, e' => by cases e' <;> simp [Expr.mapLine, Expr.same, beq_mapLine hg]
  | .assign _ as, e' => by
    cases e' with
    | assign _ as' => simp only [Expr.mapLine, Expr.same, beq_mapLine hg, Assign.sameAll_mapLine hg as as']
    | _ => simp [Expr.mapLine, Expr.same]

theorem Expr.sameAll_mapLine (hg : Function.Injective g) : ∀ es es' : List Expr,
    Expr.sameAll (Expr.mapLineAll g es) (Expr.mapLineAll g es') = Expr.sameAll es es'
  | [], es' => by cases es' <;> simp only [Expr.mapLineAll, Expr.sameAll]
  | e :: es, es' => by
    cases es' with
    | nil => simp only [Expr.mapLineAll, Expr.sameAll]
    | cons e' es' =>
      simp only [Expr.mapLineAll, Expr.sameAll, Expr.same_mapLine hg e e', Expr.sameAll_mapLine hg es es']

theorem Assign.same_mapLine (hg : Function.Injective g) : ∀ a a' : Assign, (a.mapLine g).same (a'.mapLine g) = a.same a'
  | ⟨_, _, e⟩, ⟨_, _, e'⟩ => by simp only [Assign.mapLine, Assign.same, beq_mapLine hg, Expr.same_mapLine hg e e']

theorem Assign.sameAll_mapLine (hg : Function.Injective g) : ∀ as as' : List Assign,
    Assign.sameAll (Assign.mapLineAll g as) (Assign.mapLineAll g as') = Assign.sameAll as as'
  | [], as' => by cases as' <;> simp only [Assign.mapLineAll, Assign.sameAll]
  | a :: as, as' => by
    cases as' with
    | nil => simp only [Assign.mapLineAll, Assign.sameAll]
    | cons a' as' =>
      simp only [Assign.mapLineAll, Assign.sameAll, Assign.same_mapLine hg a a', Assign.sameAll_mapLine hg as as']

end

theorem Expr.sameAll_map_mapLine (hg : Function.Injective g) (es es' : List Expr) :
    Expr.sameAll (es.map (Expr.mapLine g)) (es'.map (Expr.mapLine g)) = Expr.sameAll es es' := by
  rw [← Expr.mapLineAll_eq, ← Expr.mapLineAll_eq]
  exact Expr.sameAll_mapLine hg es es'

mutual

theorem Stmt.same_mapLine (hg : Function.Injective g) : ∀ s s' : Stmt, (s.mapLine g).same (s'.mapLine g) = s.same s'
  | .assign a, s' => by
    cases s' with
    | assign a' => simp only [Stmt.mapLine, Stmt.same, Assign.same_mapLine hg a a']
    | _ => simp [Stmt.mapLine, Stmt.same]
  | .print _ es, s' => by
    cases s' with
    | print _ es' => simp only [Stmt.mapLine, Stmt.same, beq_mapLine hg, Expr.sameAll_map_mapLine hg es es']
    | _ => simp [Stmt.mapLine, Stmt.same]
  | .puts _ es, s' => by
    cases s' with
    | puts _ es' => simp only [Stmt.mapLine, Stmt.same, beq_mapLine hg, Expr.sameAll_map_mapLine hg es es']
    | _ => simp [Stmt.mapLine, Stmt.same]
  | .choose a as o, s' => by
    cases s' with
    | choose a' as' o' =>
      simp only [Stmt.mapLine, Stmt.same, Arm.same_mapLine hg a a', Arm.sameAll_mapLine hg as as',
        Block.sameOption_mapLine hg o o']
    | _ => simp [Stmt.mapLine, Stmt.same]
  | .loop _ c b, s' => by
    cases s' with
    | loop _ c' b' =>
      simp only [Stmt.mapLine, Stmt.same, beq_mapLine hg, Expr.same_mapLine hg c c', Block.same_mapLine hg b b']
    | _ => simp [Stmt.mapLine, Stmt.same]
  | .define f, s' => by
    cases s' with
    | define f' => simp only [Stmt.mapLine, Stmt.same, Func.same_mapLine hg f f']
    | _ => simp [Stmt.mapLine, Stmt.same]
  | .gets _, s' => by cases s' <;> simp [Stmt.mapLine, Stmt.same, beq_mapLine hg]
  | .expr e, s' => by
    cases s' with
    | expr e' => simp only [Stmt.mapLine, Stmt.same, Expr.same_mapLine hg e e']
    | _ => simp [Stmt.mapLine, Stmt.same]

theorem Stmt.sameAll_mapLine (hg : Function.Injective g) : ∀ ss ss' : List Stmt,
    Stmt.sameAll (Stmt.mapLineAll g ss) (Stmt.mapLineAll g ss') = Stmt.sameAll ss ss'
  | [], ss' => by cases ss' <;> simp only [Stmt.mapLineAll, Stmt.sameAll]
  | s :: ss, ss' => by
    cases ss' with
    | nil => simp only [Stmt.mapLineAll, Stmt.sameAll]
    | cons s' ss' =>
      simp only [Stmt.mapLineAll, Stmt.sameAll, Stmt.same_mapLine hg s s', Stmt.sameAll_mapLine hg ss ss']

theorem Arm.same_mapLine (hg : Function.Injective g) : ∀ a a' : Arm, (a.mapLine g).same (a'.mapLine g) = a.same a'
  | ⟨_, c, b⟩, ⟨_, c', b'⟩ => by
    simp only [Arm.mapLine, Arm.same, beq_mapLine hg, Expr.same_mapLine hg c c', Block.same_mapLine hg b b']

theorem Arm.sameAll_mapLine (hg : Function.Injective g) : ∀ as as' : List Arm,
    Arm.sameAll (Arm.mapLineAll g as) (Arm.mapLineAll g as') = Arm.sameAll as as'
  | [], as' => by cases as' <;> simp only [Arm.mapLineAll, Arm.sameAll]
  | a :: as, as' => by
    cases as' with
    | nil => simp only [Arm.mapLineAll, Arm.sameAll]
    | cons a' as' => simp only [Arm.mapLineAll, Arm.sameAll, Arm.same_mapLine hg a a', Arm.sameAll_mapLine hg as as']

theorem Block.same_mapLine (hg : Function.Injective g) : ∀ b b' : Block, (b.mapLine g).same (b'.mapLine g) = b.same b'
  | ⟨_, ss⟩, ⟨_, ss'⟩ => by simp only [Block.mapLine, Block.same, beq_mapLine hg, Stmt.sameAll_mapLine hg ss ss']

theorem Block.sameOption_mapLine (hg : Function.Injective g) : ∀ b b' : Option Block,
    Block.sameOption (Block.mapLineOption g b) (Block.mapLineOption g b') = Block.sameOption b b'
  | none, b' => by cases b' <;> simp only [Block.mapLineOption, Block.sameOption]
  | some b, b' => by
    cases b' with
    | none => simp only [Block.mapLineOption, Block.sameOption]
    | some b' => simp only [Block.mapLineOption, Block.sameOption, Block.same_mapLine hg b b']

theorem Func.same_mapLine (hg : Function.Injective g) : ∀ f f' : Func, (f.mapLine g).same (f'.mapLine g) = f.same f'
  | ⟨_, _, _, b, _⟩, ⟨_, _, _, b', _⟩ => by
    simp only [Func.mapLine, Func.same, beq_mapLine hg, Block.same_mapLine hg b b']

end

end

/-! ## Values -/

namespace Value

def mapLine (g : Nat → Nat) : Value → Value
  | func f => func (f.mapLine g)
  | v => v

@[simp] theorem mapLine_id (v : Value) : v.mapLine id = v := by
  cases v with
  | func f => exact congrArg func (Func.mapLine_id f)
  | _ => rfl

theorem mapLine_id_eq : mapLine id = id := funext mapLine_id

theorem map_mapLine_id (vs : List Value) : vs.map (mapLine id) = vs := by
  simp [List.map_id'' mapLine_id]

section
variable (g : Nat → Nat)

@[simp] theorem mapLine_ofLiteral (v : Literal) : (ofLiteral v).mapLine g = ofLiteral v := by
  cases v <;> rfl

@[simp] theorem isTruthy_mapLine (v : Value) : (v.mapLine g).isTruthy = v.isTruthy := by
  cases v <;> rfl

@[simp] theorem render_mapLine (v : Value) : (v.mapLine g).render = v.render := by
  cases v with
  | func f => cases f; rfl
  | _ => rfl

@[simp] theorem tag_mapLine (v : Value) : (v.mapLine g).tag = v.tag := by
  cases v <;> rfl

@[simp] theorem toFloat?_mapLine (v : Value) : (v.mapLine g).toFloat? = v.toFloat? := by
  cases v <;> rfl

theorem map_render_mapLine (vs : List Value) : (vs.map (mapLine g)).map render = vs.map render := by
  simp

end

/-! ## Operators -/

section
variable {g : Nat → Nat} {l r v : Value}

theorem map_mapLine_of_ne {x : Except RuntimeProblem Value} (h : ∀ f, x ≠ .ok (.func f)) :
    x.map (mapLine g) = x := by
  cases x with
  | error problem => rfl
  | ok v =>
    cases v with
    | func f => exact absurd rfl (h f)
    | _ => rfl

theorem arithmetic_mapLine (op : ArithmeticOp) (l r : Value) :
    arithmetic op (l.mapLine g) (r.mapLine g) = arithmetic op l r := by
  cases l <;> cases r <;> rfl

theorem arithmetic_ne_func (op : ArithmeticOp) (l r : Value) (f : Func) : arithmetic op l r ≠ .ok (.func f) := by
  intro h
  -- a function that comes out was an operand, and a function is no number
  have hbinary : binary (.arithmetic op) l r = .ok (.func f) := h
  rcases binary_eq_func hbinary with rfl | rfl
  · cases h
  · cases l <;> cases h

theorem binary_mapLine (op : BinaryOp) (l r : Value) :
    binary op (l.mapLine g) (r.mapLine g) = (binary op l r).map (mapLine g) := by
  cases op with
  | arithmetic op =>
    simp only [binary, arithmetic_mapLine]
    exact (map_mapLine_of_ne (arithmetic_ne_func op l r)).symm
  | boolean op =>
    simp only [binary, pick, tag_mapLine, isTruthy_mapLine]
    by_cases hl : l.tag.isBoolean = true
    · by_cases hr : r.tag.isBoolean = true
      · by_cases ht : l.isTruthy = op.isConjunction
        · simp [hl, hr, ht, Except.map]
        · simp [hl, hr, ht, Except.map]
      · simp [hl, hr, Except.map]
    · simp [hl, Except.map]

theorem negate_mapLine (op : Negation) (v : Value) : negate op (v.mapLine g) = (negate op v).map (mapLine g) := by
  rw [map_mapLine_of_ne fun f => negate_ne_func]
  simp only [negate, tag_mapLine, isTruthy_mapLine]

theorem same_mapLine (hg : Function.Injective g) (l r : Value) : (l.mapLine g).same (r.mapLine g) = l.same r := by
  cases l with
  | func f =>
    cases r with
    | func f' => exact Func.same_mapLine hg f f'
    | _ => rfl
  | _ => cases r <;> rfl

theorem order_mapLine (operator : String) (l r : Value) :
    order operator (l.mapLine g) (r.mapLine g) = order operator l r := by
  cases l <;> cases r <;> rfl

theorem holds_mapLine (hg : Function.Injective g) (op : Comparison) (l r : Value) :
    holds op (l.mapLine g) (r.mapLine g) = holds op l r := by
  unfold holds
  simp only [same_mapLine hg, order_mapLine]

end

end Value

end Sprig
