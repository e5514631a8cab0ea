import Sprig.Arithmetic

/-!
# What operators give back

Operators make no functions: one that comes out was an operand. And what they fail for is an operand, or that the
result is out of range.
-/

namespace Sprig

/-! ## Functions -/

namespace Value

variable {l r v w : Value} {f : Func}

theorem ofLiteral_ne_func (v : Literal) : Value.ofLiteral v ≠ .func f := by
  cases v <;> exact fun h => by cases h

theorem ofFloat_ne_func (x : Float) : Value.ofFloat x ≠ .func f := by
  unfold Value.ofFloat
  split <;> exact fun h => by cases h

theorem checked_ne_func {op : ArithmeticOp} {n? : Option Int64} : checked op n? ≠ .ok (.func f) := by
  cases n? <;> exact fun h => by cases h

theorem integerArithmetic_ne_func {op : ArithmeticOp} {i j : Int64} : integerArithmetic op i j ≠ .ok (.func f) := by
  intro h
  unfold integerArithmetic at h
  cases op with
  | add | subtract | multiply => exact checked_ne_func h
  | power =>
    simp only at h
    split at h
    · exact ofFloat_ne_func _ (Except.ok.inj h)
    · exact checked_ne_func h
  | divide =>
    simp only at h
    split at h
    · cases h
    · exact checked_ne_func h
  | modulo =>
    simp only at h
    split at h <;> cases h

theorem binary_eq_func {op : BinaryOp} (h : binary op l r = .ok (.func f)) : l = .func f ∨ r = .func f := by
  cases op with
  | arithmetic op =>
    simp only [binary] at h
    unfold arithmetic at h
    split at h
    · exact absurd h integerArithmetic_ne_func
    cases hn : numbers op.symbol l r with
    | error problem =>
      rw [hn] at h
      cases h
    | ok xy =>
      rw [hn] at h
      exact absurd (Except.ok.inj h) (ofFloat_ne_func _)
  | boolean op =>
    simp only [binary, pick] at h
    split at h
    · cases h
    split at h
    · cases h
    have h := Except.ok.inj h
    split at h
    · exact Or.inr h
    · exact Or.inl h

theorem negate_ne_func {op : Negation} : negate op v ≠ .ok (.func f) := by
  unfold negate
  split <;> exact fun h => by cases h

end Value

/-! ## Failures -/

/-- What an operator may find wrong with its operands. -/
def RuntimeProblem.isOperandProblem : RuntimeProblem → Bool
  | .notANumber _ _ | .notABoolean _ _ | .negatesNoBoolean _ | .overflow _ | .divisionByZero => true
  | .undefinedVariable _ | .stackTooDeep _ | .outputFailed _ | .inputFailed _ => false

namespace Value

variable {l r v : Value} {problem : RuntimeProblem}

theorem map_error {α β ε : Type} {f : α → β} {x : Except ε α} {e : ε} (h : x.map f = .error e) : x = .error e := by
  cases x with
  | ok a => cases h
  | error e' =>
    cases h
    rfl

theorem numbers_error {operator : String} (h : numbers operator l r = .error problem) :
    problem.isOperandProblem = true := by
  unfold numbers at h
  split at h
  · cases h
  · cases h
    rfl
  · cases h
    rfl

theorem checked_error {op : ArithmeticOp} {n? : Option Int64} (h : checked op n? = .error problem) :
    problem.isOperandProblem = true := by
  cases n? with
  | none =>
    cases h
    rfl
  | some n => cases h

theorem integerArithmetic_error {op : ArithmeticOp} {i j : Int64} (h : integerArithmetic op i j = .error problem) :
    problem.isOperandProblem = true := by
  unfold integerArithmetic at h
  cases op with
  | add | subtract | multiply => exact checked_error h
  | power =>
    simp only at h
    split at h
    · cases h
    · exact checked_error h
  | divide =>
    simp only at h
    split at h
    · cases h
      rfl
    · exact checked_error h
  | modulo =>
    simp only at h
    split at h
    · cases h
      rfl
    · cases h

theorem binary_error {op : BinaryOp} (h : binary op l r = .error problem) : problem.isOperandProblem = true := by
  cases op with
  | arithmetic op =>
    simp only [binary] at h
    unfold arithmetic at h
    split at h
    · exact integerArithmetic_error h
    · exact numbers_error (map_error h)
  | boolean op =>
    simp only [binary, pick] at h
    split at h
    · cases h
      rfl
    split at h
    · cases h
      rfl
    · cases h

theorem negate_error {op : Negation} (h : negate op v = .error problem) : problem.isOperandProblem = true := by
  unfold negate at h
  split at h
  · cases h
  · cases h
    rfl

theorem order_error {operator : String} (h : order operator l r = .error problem) :
    problem.isOperandProblem = true := by
  unfold order at h
  split at h
  · cases h
  · exact numbers_error (map_error h)

theorem holds_error {op : Comparison} (h : holds op l r = .error problem) : problem.isOperandProblem = true := by
  cases op with
  | is | equal | notEqual => cases h
  | greater | less | greaterEqual | lessEqual => exact order_error (map_error h)

end Value

end Sprig
