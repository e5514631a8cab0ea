import Sprig.Proofs.FullRules
import Sprig.Proofs.Reading

/-!
# What productions meet

A condition on the tokens before a production, on what it finds with the tokens behind it, and on its faults.
The conditions are put together as the productions are, and in the same way as the readers of blocks.
-/

namespace Sprig

/-! ## Productions -/

/-- What is found is in `Q` with the tokens behind it, and a fault is in `E`. -/
def Outcome.Meets {α : Type} (E : Fault → Prop) (Q : α → List Token → Prop) : Outcome α → Prop
  | found a rest => Q a rest
  | noMatch => True
  | fault f => E f

namespace Production

variable {σ α β : Type} {E : Fault → Prop} {P P' : List Token → Prop} {Q Q' : α → List Token → Prop}
  {R : β → List Token → Prop} {p q : Production σ α} {f : α → Production σ β}

/-- So it is on all tokens in `P`. -/
def Meets (E : Fault → Prop) (P : List Token → Prop) (p : Production σ α) (Q : α → List Token → Prop) : Prop :=
  ∀ ⦃ts⦄, P ts → ∀ tr, (p ts tr).1.Meets E Q

namespace Meets

theorem mono (h : Meets E P p Q) (hP : ∀ {ts}, P' ts → P ts) (hQ : ∀ {a ts}, Q a ts → Q' a ts) :
    Meets E P' p Q' := by
  intro ts hts tr
  have hmeets := h (hP hts) tr
  generalize (p ts tr).1 = o at hmeets ⊢
  cases o with
  | found a rest => exact hQ hmeets
  | noMatch => trivial
  | fault e => exact hmeets

theorem pure {a : α} (h : ∀ {ts}, P ts → Q a ts) : Meets E P (Pure.pure a : Production σ α) Q :=
  fun _ hts _ => h hts

theorem noMatch : Meets E P (Production.noMatch : Production σ α) Q := fun _ _ _ => trivial

theorem fault {line : Nat} {problem : SyntaxProblem} (h : E ⟨line, .syntactic problem⟩) :
    Meets E P (Production.fault line problem : Production σ α) Q :=
  fun _ _ _ => h

theorem bind (h : Meets E P p Q) (hf : ∀ a, Meets E (Q a) (f a) R) : Meets E P (p >>= f) R := by
  intro ts hts tr
  have hmeets := h hts tr
  rw [bind_apply]
  generalize p ts tr = o at hmeets ⊢
  obtain ⟨_ | _ | _, tr₁⟩ := o
  · exact hf _ hmeets tr₁
  · trivial
  · exact hmeets

theorem orElse (h : Meets E P p Q) (h' : Meets E P q Q) : Meets E P (p <|> q) Q := by
  intro ts hts tr
  have hmeets := h hts tr
  rw [orElse_apply]
  generalize p ts tr = o at hmeets ⊢
  obtain ⟨_ | _ | _, tr₁⟩ := o
  · exact hmeets
  · exact h' hts tr₁
  · exact hmeets

theorem demand {line : Nat} {problem : SyntaxProblem} (h : Meets E P p Q) (hE : E ⟨line, .syntactic problem⟩) :
    Meets E P (p.demand line problem) Q :=
  h.orElse (fault hE)

theorem memoized_off {rule : Rule} {p : Production Unit Expr} {Q : Expr → List Token → Prop} (h : Meets E P p Q) :
    Meets E P (memoized .off rule p) Q := by
  rwa [Production.memoized_off]

/-! ### Tokens -/

theorem peek : Meets E P (peek : Production σ Token) fun t ts => P ts ∧ ts.head? = some t := by
  intro ts hts tr
  cases ts with
  | nil => trivial
  | cons t ts => exact ⟨hts, rfl⟩

theorem token {k : Kind} : Meets E P (token k : Production σ Token) fun t ts => P (t :: ts) ∧ t.kind = k := by
  intro ts hts tr
  cases ts with
  | nil => trivial
  | cons t ts =>
    by_cases hk : t.kind = k
    · simpa [Production.token, hk, Outcome.Meets] using hts
    · simp [Production.token, hk, Outcome.Meets]

theorem symbol {select : Kind → Option β} : Meets E P (symbol select : Production σ (β × Nat))
    fun r ts => ∃ t, P (t :: ts) ∧ select t.kind = some r.1 ∧ t.line = r.2 := by
  intro ts hts tr
  cases ts with
  | nil => trivial
  | cons t ts =>
    cases hs : select t.kind with
    | none => simp [Production.symbol, hs, Outcome.Meets]
    | some b => simpa [Production.symbol, hs, Outcome.Meets] using ⟨t, hts, hs, rfl⟩

theorem lineAfter {last : Token} : Meets E P (lineAfter last : Production σ Nat)
    fun line ts => P ts ∧ line = (ts.head?.map (·.line)).getD last.line :=
  fun _ hts _ => ⟨hts, rfl⟩

theorem endOfLine : Meets E P (endOfLine : Production σ Unit) fun _ => P := by
  intro ts hts tr
  cases ts with
  | nil => exact hts
  | cons t ts => trivial

theorem unlessNext {c : Kind → Bool} : Meets E P (unlessNext c : Production σ Unit) fun _ => P := by
  intro ts hts tr
  simp only [Production.unlessNext]
  split
  · trivial
  · exact hts

theorem modifyScopes {g : ScopeTable → ScopeTable} :
    Meets E P (modifyScopes g : Production σ Unit) fun _ => P :=
  fun _ hts _ => hts

/-! ### Repetition -/

theorem repeated (h : Meets E P p fun _ => P) : ∀ n, Meets E P (repeated p n) fun _ => P
  | 0 => pure id
  | n + 1 => orElse (h.bind fun _ => (repeated h n).bind fun _ => pure id) (pure id)

theorem many (h : Meets E P p fun _ => P) : Meets E P (many p) fun _ => P :=
  fun ts hts tr => h.repeated ts.length hts tr

theorem orNil {p : Production σ (List α)} (h : Meets E P p fun _ => P) : Meets E P (orNil p) fun _ => P :=
  h.orElse (pure id)

end Meets

end Production

/-! ## Readers -/

namespace Reader

variable {σ α β : Type} {E : Fault → Prop} {Q : α → Prop} {R : β → Prop} {x : Reader σ α} {k : α → Reader σ β}

/-- What is read is in `Q`, and a fault is in `E`. -/
def Meets (E : Fault → Prop) (x : Reader σ α) (Q : α → Prop) : Prop :=
  ∀ tr, match x tr with
    | .ok (a, _) => Q a
    | .error f => E f

namespace Meets

theorem pure {a : α} (h : Q a) : Meets E (Pure.pure a : Reader σ α) Q := fun _ => h

theorem throw {f : Fault} (h : E f) : Meets E (MonadExcept.throw f : Reader σ α) Q := fun _ => h

theorem bind (h : Meets E x Q) (hk : ∀ a, Q a → Meets E (k a) R) : Meets E (x >>= k) R := by
  intro tr
  have hmeets := h tr
  cases hx : x tr with
  | error f =>
    rw [hx] at hmeets
    rw [bind_of_error hx]
    exact hmeets
  | ok r =>
    rw [hx] at hmeets
    rw [bind_of_ok hx]
    exact hk r.1 hmeets r.2

end Meets

end Reader

end Sprig
