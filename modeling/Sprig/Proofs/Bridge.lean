import Sprig.Proofs.MapLine

/-!
# Two readings of one line

A `Bridge` compares two ways to read the same line: the second one reads it under other line numbers, and
its traces stand in a relation to those of the first. `Sim` says that two productions keep to the bridge:
both match, both do not, or both are at fault, with the same result up to lines. It is closed under
everything that productions are made of.

`Sim` is bounded: it speaks of the places on the line with fewer than `n` tokens left. Behind a token that was
taken the bound is one less (`Sim.token_bind`), which is how the grammar comes back to its looser tiers.
-/

namespace Sprig

namespace Production

variable {σ α β : Type}

theorem bind_apply (p : Production σ α) (f : α → Production σ β) (ts : List Token) (tr : Trace σ) :
    (p >>= f) ts tr =
      match p ts tr with
      | (.found a rest, tr) => f a rest tr
      | (.noMatch, tr) => (.noMatch, tr)
      | (.fault e, tr) => (.fault e, tr) := rfl

theorem orElse_apply (p q : Production σ α) (ts : List Token) (tr : Trace σ) :
    (p <|> q) ts tr =
      match p ts tr with
      | (.noMatch, tr) => q ts tr
      | r => r := rfl

end Production

structure Bridge (σ τ : Type) where
  line : List Token
  mapLine : Nat → Nat
  traces : Trace σ → Trace τ → Prop
  declare : ∀ {tr tr'} (name : String), traces tr tr' →
    traces { tr with scopes := tr.scopes.declare name } { tr' with scopes := tr'.scopes.declare name }

namespace Bridge

open Production

variable {σ τ α β γ δ : Type} (B : Bridge σ τ)

/-- Outcomes that agree for readings that both start at the tokens `ts`. -/
inductive Matches (u : α → β) (ts : List Token) : Outcome α × Trace σ → Outcome β × Trace τ → Prop where
  | found {a rest tr tr'} : rest <:+ ts → B.traces tr tr' →
    Matches u ts (.found a rest, tr) (.found (u a) (rest.map (Token.mapLine B.mapLine)), tr')
  | noMatch {tr tr'} : B.traces tr tr' → Matches u ts (.noMatch, tr) (.noMatch, tr')
  | fault {f tr tr'} : B.traces tr tr' →
    Matches u ts (.fault f, tr) (.fault (f.mapLine B.mapLine), tr')

/-- The two productions agree wherever fewer than `n` tokens of the line are left. -/
def Sim (n : Nat) (u : α → β) (p : Production σ α) (q : Production τ β) : Prop :=
  ∀ ⦃ts tr tr'⦄, ts <:+ B.line → ts.length < n → B.traces tr tr' →
    B.Matches u ts (p ts tr) (q (ts.map (Token.mapLine B.mapLine)) tr')

namespace Sim

variable {B} {n : Nat} {u : α → β} {v : γ → δ} {p : Production σ α} {q : Production τ β}

theorem mono {m : Nat} (hmn : m ≤ n) (h : B.Sim n u p q) : B.Sim m u p q :=
  fun _ _ _ hts hlen htr => h hts (Nat.lt_of_lt_of_le hlen hmn) htr

theorem pure {a : α} {b : β} (h : b = u a) :
    B.Sim n u (Pure.pure a : Production σ α) (Pure.pure b : Production τ β) := by
  intro ts tr tr' _ _ htr
  rw [h]
  exact .found (List.suffix_refl ts) htr

theorem bind {f : α → Production σ γ} {f' : β → Production τ δ} (h : B.Sim n u p q)
    (hf : ∀ a, B.Sim n v (f a) (f' (u a))) : B.Sim n v (p >>= f) (q >>= f') := by
  intro ts tr tr' hts hlen htr
  have hp := h hts hlen htr
  rw [bind_apply, bind_apply]
  generalize p ts tr = x at hp ⊢
  generalize q (ts.map (Token.mapLine B.mapLine)) tr' = y at hp ⊢
  cases hp with
  | found hrest htr₁ =>
    rename_i a rest tr₁ tr₁'
    have hr := hf a (hrest.trans hts) (Nat.lt_of_le_of_lt hrest.length_le hlen) htr₁
    simp only
    generalize f a rest tr₁ = x at hr ⊢
    generalize f' (u a) (rest.map (Token.mapLine B.mapLine)) tr₁' = y at hr ⊢
    cases hr with
    | found hrest₂ htr₂ => exact .found (hrest₂.trans hrest) htr₂
    | noMatch htr₂ => exact .noMatch htr₂
    | fault htr₂ => exact .fault htr₂
  | noMatch htr₁ => exact .noMatch htr₁
  | fault htr₁ => exact .fault htr₁

theorem orElse {p₂ : Production σ α} {q₂ : Production τ β} (h : B.Sim n u p q) (h₂ : B.Sim n u p₂ q₂) :
    B.Sim n u (p <|> p₂) (q <|> q₂) := by
  intro ts tr tr' hts hlen htr
  have hp := h hts hlen htr
  rw [orElse_apply, orElse_apply]
  generalize p ts tr = x at hp ⊢
  generalize q (ts.map (Token.mapLine B.mapLine)) tr' = y at hp ⊢
  cases hp with
  | found hrest htr₁ => exact .found hrest htr₁
  | noMatch htr₁ => exact h₂ hts hlen htr₁
  | fault htr₁ => exact .fault htr₁

theorem noMatch : B.Sim n u (Production.noMatch : Production σ α) (Production.noMatch : Production τ β) :=
  fun _ _ _ _ _ htr => .noMatch htr

theorem fault {line line' : Nat} {problem : SyntaxProblem} (h : line' = B.mapLine line) :
    B.Sim n u (Production.fault line problem : Production σ α)
      (Production.fault line' problem : Production τ β) := by
  intro ts tr tr' _ _ htr
  rw [h]
  exact .fault htr

theorem demand {line line' : Nat} {problem : SyntaxProblem} (h : B.Sim n u p q)
    (hl : line' = B.mapLine line) : B.Sim n u (p.demand line problem) (q.demand line' problem) :=
  h.orElse (fault hl)

/-! ## Single tokens -/

theorem peek : B.Sim n (Token.mapLine B.mapLine) (Production.peek : Production σ Token)
    (Production.peek : Production τ Token) := by
  intro ts tr tr' _ _ htr
  cases ts with
  | nil => exact .noMatch htr
  | cons t ts => exact .found (List.suffix_refl _) htr

theorem token {k : Kind} : B.Sim n (Token.mapLine B.mapLine) (Production.token k : Production σ Token)
    (Production.token k : Production τ Token) := by
  intro ts tr tr' _ _ htr
  cases ts with
  | nil => exact .noMatch htr
  | cons t ts =>
    simp only [List.map_cons, Production.token, Token.mapLine_kind]
    by_cases hk : t.kind = k
    · simp only [hk, if_true]
      exact .found (List.suffix_cons t ts) htr
    · simp only [hk, if_false]
      exact .noMatch htr

theorem token_bind {k : Kind} {f : Token → Production σ γ} {f' : Token → Production τ δ}
    (hf : ∀ t, B.Sim n v (f t) (f' (t.mapLine B.mapLine))) :
    B.Sim (n + 1) v (Production.token k >>= f) (Production.token k >>= f') := by
  intro ts tr tr' hts hlen htr
  cases ts with
  | nil => exact .noMatch htr
  | cons t ts =>
    rw [bind_apply, bind_apply]
    simp only [List.map_cons, Production.token, Token.mapLine_kind]
    by_cases hk : t.kind = k
    · simp only [hk, if_true]
      have hr := hf t ((List.suffix_cons t ts).trans hts) (Nat.lt_of_succ_lt_succ hlen) htr
      generalize f t ts tr = x at hr ⊢
      generalize f' (t.mapLine B.mapLine) (ts.map (Token.mapLine B.mapLine)) tr' = y at hr ⊢
      cases hr with
      | found hrest htr₁ => exact .found (hrest.trans (List.suffix_cons t ts)) htr₁
      | noMatch htr₁ => exact .noMatch htr₁
      | fault htr₂ => exact .fault htr₂
    · simp only [hk, if_false]
      exact .noMatch htr

theorem symbol {select : Kind → Option γ} :
    B.Sim n (fun s => (s.1, B.mapLine s.2)) (Production.symbol select : Production σ (γ × Nat))
      (Production.symbol select : Production τ (γ × Nat)) := by
  intro ts tr tr' _ _ htr
  cases ts with
  | nil => exact .noMatch htr
  | cons t ts =>
    simp only [List.map_cons, Production.symbol, Token.mapLine_kind]
    cases select t.kind with
    | none => exact .noMatch htr
    | some b => exact .found (List.suffix_cons t ts) htr

theorem accepts {k : Kind} : B.Sim n id (Production.accepts k : Production σ Bool)
    (Production.accepts k : Production τ Bool) := by
  refine orElse (bind token fun _ => ?_) (pure rfl)
  exact pure rfl

theorem endOfLine : B.Sim n id (Production.endOfLine : Production σ Unit)
    (Production.endOfLine : Production τ Unit) := by
  intro ts tr tr' _ _ htr
  cases ts with
  | nil => exact .found (List.suffix_refl _) htr
  | cons t ts => exact .noMatch htr

theorem unlessNext {c : Kind → Bool} : B.Sim n id (Production.unlessNext c : Production σ Unit)
    (Production.unlessNext c : Production τ Unit) := by
  intro ts tr tr' _ _ htr
  have hany : (ts.map (Token.mapLine B.mapLine)).head?.any (c ·.kind) = ts.head?.any (c ·.kind) := by
    cases ts <;> rfl
  simp only [Production.unlessNext, hany]
  split
  · exact .noMatch htr
  · exact .found (List.suffix_refl _) htr

theorem lineAfter {t : Token} : B.Sim n B.mapLine (Production.lineAfter t : Production σ Nat)
    (Production.lineAfter (t.mapLine B.mapLine) : Production τ Nat) := by
  intro ts tr tr' _ _ htr
  have hline : (((ts.map (Token.mapLine B.mapLine)).head?.map (·.line)).getD (t.mapLine B.mapLine).line) =
      B.mapLine ((ts.head?.map (·.line)).getD t.line) := by
    cases ts <;> rfl
  simp only [Production.lineAfter, hline]
  exact .found (List.suffix_refl _) htr

theorem declare {name : String} :
    B.Sim n id (modifyScopes (·.declare name) : Production σ Unit)
      (modifyScopes (·.declare name) : Production τ Unit) :=
  fun _ _ _ _ _ htr => .found (List.suffix_refl _) (B.declare name htr)

/-! ## Repetition -/

theorem repeated (h : B.Sim n u p q) : ∀ k, B.Sim n (List.map u) (repeated p k) (repeated q k)
  | 0 => pure rfl
  | k + 1 => by
    refine orElse (h.bind fun a => bind (repeated h k) fun as => ?_) (pure rfl)
    exact pure rfl

theorem many (h : B.Sim n u p q) : B.Sim n (List.map u) (many p) (many q) := by
  intro ts tr tr' hts hlen htr
  have hr := h.repeated ts.length hts hlen htr
  simp only [Production.many, List.length_map]
  exact hr

theorem orNil {p : Production σ (List α)} {q : Production τ (List β)} (h : B.Sim n (List.map u) p q) :
    B.Sim n (List.map u) (orNil p) (orNil q) :=
  h.orElse (pure rfl)

theorem listOf {wanted : Wanted} (h : B.Sim n u p q) :
    B.Sim n (List.map u) (listOf p wanted) (listOf q wanted) := by
  refine h.bind fun a => bind (many (u := u) (token.bind fun t => lineAfter.bind fun line => ?_)) fun as => ?_
  · exact h.demand rfl
  · exact pure rfl

theorem inParens {p : Production σ (List α)} {q : Production τ (List β)} {line line' : Nat}
    {unclosed : SyntaxProblem} (h : B.Sim n (List.map u) p q) (hl : line' = B.mapLine line) :
    B.Sim (n + 1) (List.map u) (inParens p line unclosed) (inParens q line' unclosed) := by
  refine orNil (token_bind fun _ => h.orNil.bind fun items => bind (demand token hl) fun _ => ?_)
  exact pure rfl

end Sim

end Bridge

end Sprig
