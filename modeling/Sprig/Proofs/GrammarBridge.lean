import Sprig.Proofs.Bridge

/-!
# Two readings of one line: the grammar

Every production of the grammar keeps to a bridge if the rules it comes back to do and if what is remembered
on both sides does. The rules are needed only behind a token that was taken.
-/

namespace Sprig

namespace Grammar

variable {σ : Type}

/-- The production whose attempts are kept under a rule. -/
def ofRule (mem : Memory σ) (r : Rules σ) : Rule → Production σ Expr
  | .value => value mem r
  | .highBoolean => highBoolean mem r
  | .number => number mem r
  | .call => call mem r

/-- The parameters of a function, behind its name. -/
def parameters (line : Nat) (name : String) : Production σ (List (Nat × String)) :=
  Production.inParens (Production.listOf target .parameter) line (.unclosedParameters name)

theorem parameters_bind_ne_noMatch {α : Type} (line : Nat) (name : String)
    (f : List (Nat × String) → α) (ts : List Token) (tr tr₁ : Trace σ) :
    (parameters line name >>= fun params => (pure (f params) : Production σ α)) ts tr ≠ (.noMatch, tr₁) := by
  rw [Production.bind_apply]
  cases h : parameters line name ts tr with
  | mk o tr₂ =>
    cases o with
    | found ps rest => intro he; cases he
    | fault f => intro he; cases he
    | noMatch =>
      simp only [parameters, Production.inParens, Production.orNil] at h
      rw [Production.orElse_apply] at h
      split at h
      · cases h
      · rename_i hne
        exact absurd h (hne _)

theorem functionHeader_of_ne {t : Token} (ht : t.kind ≠ .kwDef) (ts : List Token) (tr : Trace σ) :
    functionHeader (t :: ts) tr = (.noMatch, tr) := by
  simp only [functionHeader, Production.bind_apply, Production.token, ht, if_false]

theorem functionHeader_alone {t : Token} (ht : t.kind = .kwDef) (tr : Trace σ) :
    functionHeader [t] tr = (.fault ⟨t.line, .syntactic (.missing "def" .functionName)⟩, tr) := by
  simp only [functionHeader, Production.bind_apply, Production.token, ht, if_true]
  rfl

theorem functionHeader_unnamed {t u : Token} (ht : t.kind = .kwDef) (hu : u.kind ≠ .identifier)
    (us : List Token) (tr : Trace σ) :
    functionHeader (t :: u :: us) tr = (.fault ⟨t.line, .syntactic (.missing "def" .functionName)⟩, tr) := by
  simp only [functionHeader, Production.bind_apply, Production.token, ht, if_true, Production.demand,
    Production.orElse_apply, hu, if_false, Production.fault]

theorem functionHeader_named {t u : Token} (ht : t.kind = .kwDef) (hu : u.kind = .identifier)
    (us : List Token) (tr : Trace σ) :
    functionHeader (t :: u :: us) tr =
      (parameters t.line u.text >>= fun params => pure (t.line, u.text, params.map (·.2))) us
        { tr with scopes := (tr.scopes.declare u.text).push u.text } := by
  simp only [functionHeader, Production.bind_apply, Production.token, ht, if_true, Production.demand,
    Production.orElse_apply, hu, Production.modifyScopes]
  rfl

end Grammar

namespace Bridge

variable {σ τ : Type} (B : Bridge σ τ)

/-- The rules agree where fewer than `n` tokens are left. -/
structure RulesSim (n : Nat) (r : Rules σ) (r' : Rules τ) : Prop where
  value : B.Sim n (Expr.mapLine B.mapLine) r.value r'.value
  lowBoolean : B.Sim n (Expr.mapLine B.mapLine) r.lowBoolean r'.lowBoolean
  number : B.Sim n (Expr.mapLine B.mapLine) r.number r'.number
  numberFactor : B.Sim n (Expr.mapLine B.mapLine) r.numberFactor r'.numberFactor

/-- Keeping attempts of the grammar's rules, as far as they agree, lets them agree. -/
def MemorySim (mem : Memory σ) (mem' : Memory τ) (r' : Rules τ) : Prop :=
  ∀ ⦃n : Nat⦄ ⦃rule : Rule⦄ ⦃p : Production σ Expr⦄ ⦃q : Production τ Expr⦄,
    Production.memoized mem' rule q = Grammar.ofRule mem' r' rule →
    B.Sim n (Expr.mapLine B.mapLine) p q →
    B.Sim n (Expr.mapLine B.mapLine) (.memoized mem rule p) (.memoized mem' rule q)

namespace Sim

open Grammar

variable {B} {n : Nat} {α : Type} {p : Production σ Expr} {q : Production τ Expr}

/-! ## Terminals -/

theorem integer : B.Sim n (Expr.mapLine B.mapLine) (Grammar.integer : Production σ Expr)
    (Grammar.integer : Production τ Expr) := by
  refine bind token fun t => ?_
  simp only [Token.mapLine_text]
  cases Integer.read? t.text with
  | none => exact fault rfl
  | some n => exact pure rfl

theorem float : B.Sim n (Expr.mapLine B.mapLine) (Grammar.float : Production σ Expr)
    (Grammar.float : Production τ Expr) := by
  refine bind token fun t => ?_
  simp only [Token.mapLine_text]
  cases FloatText.read? t.text with
  | none => exact fault rfl
  | some x => exact pure rfl

theorem string : B.Sim n (Expr.mapLine B.mapLine) (Grammar.string : Production σ Expr)
    (Grammar.string : Production τ Expr) := by
  refine bind token fun t => ?_
  exact pure rfl

theorem boolean : B.Sim n (Expr.mapLine B.mapLine) (Grammar.boolean : Production σ Expr)
    (Grammar.boolean : Production τ Expr) := by
  refine orElse (bind token fun t => ?_) (bind token fun t => ?_)
  · exact pure rfl
  · exact pure rfl

theorem nil : B.Sim n (Expr.mapLine B.mapLine) (Grammar.nil : Production σ Expr)
    (Grammar.nil : Production τ Expr) := by
  refine bind token fun t => ?_
  exact pure rfl

theorem gets : B.Sim n (Expr.mapLine B.mapLine) (Grammar.gets : Production σ Expr)
    (Grammar.gets : Production τ Expr) := by
  refine bind token fun t => ?_
  exact pure rfl

theorem target : B.Sim n (fun v => (B.mapLine v.1, v.2)) (Grammar.target : Production σ (Nat × String))
    (Grammar.target : Production τ (Nat × String)) := by
  refine bind token fun t => bind declare fun _ => ?_
  exact pure rfl

/-! ## Operators -/

theorem chainFrom {op? : Kind → Option BinaryOp} {wanted : Wanted} {first : Expr}
    (h : B.Sim n (Expr.mapLine B.mapLine) p q) :
    B.Sim n (Expr.mapLine B.mapLine) (chainFrom p op? wanted first)
      (chainFrom q op? wanted (first.mapLine B.mapLine)) := by
  refine bind (many (u := fun (o : BinaryOp × Nat × Expr) =>
    (o.1, B.mapLine o.2.1, o.2.2.mapLine B.mapLine)) (bind symbol fun s => ?_)) fun others => ?_
  · refine bind (h.demand rfl) fun right => ?_
    exact pure rfl
  · refine pure ?_
    induction others generalizing first with
    | nil => rfl
    | cons o others ih => exact @ih (.binary o.2.1 o.1 first o.2.2)

theorem chain {op? : Kind → Option BinaryOp} {wanted : Wanted} (h : B.Sim n (Expr.mapLine B.mapLine) p q) :
    B.Sim n (Expr.mapLine B.mapLine) (chain p op? wanted) (chain q op? wanted) :=
  h.bind fun _ => h.chainFrom

theorem comparison {op? : Kind → Option Comparison} {wanted : Wanted}
    (h : B.Sim n (Expr.mapLine B.mapLine) p q) :
    B.Sim n (Expr.mapLine B.mapLine) (comparison p op? wanted) (comparison q op? wanted) := by
  refine h.bind fun left => bind symbol fun s => bind (h.demand rfl) fun right => ?_
  exact pure rfl

theorem minus {wanted : Wanted} (h : B.Sim n (Expr.mapLine B.mapLine) p q) :
    B.Sim (n + 1) (Expr.mapLine B.mapLine) (minus p wanted) (minus q wanted) := by
  refine token_bind fun t => bind (h.demand rfl) fun e => ?_
  exact pure rfl

theorem group (h : B.Sim n (Expr.mapLine B.mapLine) p q) :
    B.Sim (n + 1) (Expr.mapLine B.mapLine) (group p) (group q) := by
  refine token_bind fun t => h.bind fun e => bind token fun _ => ?_
  exact pure rfl

theorem missingFactor {negated : Bool} {op : Negation} {line line' : Nat} (hl : line' = B.mapLine line) :
    B.Sim n (Expr.mapLine B.mapLine) (missingFactor negated op line : Production σ Expr)
      (missingFactor negated op line' : Production τ Expr) := by
  cases negated with
  | true => exact fault hl
  | false => exact noMatch

/-! ## Tiers -/

section
variable {mem : Memory σ} {mem' : Memory τ} {r : Rules σ} {r' : Rules τ}

theorem values (hr : B.RulesSim n r r') : B.Sim n (List.map (Expr.mapLine B.mapLine)) (values r) (values r') :=
  hr.value.listOf

theorem stores (hr : B.RulesSim n r r') :
    B.Sim (n + 1) (List.map (Assign.mapLine B.mapLine)) (stores r) (stores r') := by
  refine bind peek fun t => bind target fun first =>
    bind (many (u := fun v => (B.mapLine v.1, v.2)) (bind token fun _ => target)) fun others => ?_
  refine token_bind fun _ => bind (values hr).orNil fun es => ?_
  exact pure (Assign.pair_mapLine B.mapLine t.line (first :: others) es)

theorem assign {line line' : Nat} (hr : B.RulesSim n r r') (hl : line' = B.mapLine line) :
    B.Sim (n + 1) (Expr.mapLine B.mapLine) (assign r line) (assign r' line') := by
  refine bind (stores hr) fun ss => pure ?_
  rw [Expr.mapLine, Assign.mapLineAll_eq, hl]

variable (hm : B.MemorySim mem mem' r')
include hm

theorem call (hr : B.RulesSim n r r') :
    B.Sim (n + 1) (Expr.mapLine B.mapLine) (call mem r) (call mem' r') := by
  refine hm rfl (bind token fun t => ?_)
  refine bind (inParens (values hr) rfl) fun args => pure ?_
  rw [Expr.mapLine, Expr.mapLineAll_eq]
  rfl

theorem numberFactor (hr : B.RulesSim n r r') :
    B.Sim (n + 1) (Expr.mapLine B.mapLine) (numberFactor mem r) (numberFactor mem' r') := by
  refine integer.orElse (float.orElse ((call hm hr).orElse (hr.numberFactor.minus.orElse ?_)))
  refine bind peek fun t => group (orElse ((assign hr rfl).mono (Nat.le_succ n)) hr.number)

theorem numberTerm (hr : B.RulesSim n r r') :
    B.Sim (n + 1) (Expr.mapLine B.mapLine) (numberTerm mem r) (numberTerm mem' r') :=
  (numberFactor hm hr).chain

theorem number (hr : B.RulesSim n r r') :
    B.Sim (n + 1) (Expr.mapLine B.mapLine) (number mem r) (number mem' r') := by
  have ht := numberTerm hm hr
  exact hm rfl (bind ((ht.mono (Nat.le_succ n)).minus.orElse ht) fun first => ht.chainFrom)

theorem highFactor (hr : B.RulesSim n r r') :
    B.Sim (n + 1) (Expr.mapLine B.mapLine) (highFactor mem r) (highFactor mem' r') := by
  refine bind peek fun t => bind accepts fun negated => ?_
  refine bind (boolean.orElse (nil.orElse ((call hm hr).orElse (hr.lowBoolean.group.orElse ?_)))) fun e => ?_
  · exact bind unlessNext fun _ => missingFactor rfl
  · refine bind unlessNext fun _ => pure ?_
    cases negated <;> rfl

theorem highTerm (hr : B.RulesSim n r r') :
    B.Sim (n + 1) (Expr.mapLine B.mapLine) (highTerm mem r) (highTerm mem' r') :=
  (highFactor hm hr).chain

theorem highBoolean (hr : B.RulesSim n r r') :
    B.Sim (n + 1) (Expr.mapLine B.mapLine) (highBoolean mem r) (highBoolean mem' r') :=
  hm rfl (highTerm hm hr).chain

theorem comparable (hr : B.RulesSim n r r') :
    B.Sim (n + 1) (Expr.mapLine B.mapLine) (comparable mem r) (comparable mem' r') :=
  (number hm hr).orElse ((highBoolean hm hr).orElse (string.orElse gets))

theorem orderable (hr : B.RulesSim n r r') :
    B.Sim (n + 1) (Expr.mapLine B.mapLine) (orderable mem r) (orderable mem' r') :=
  (number hm hr).orElse string

theorem condition (hr : B.RulesSim n r r') :
    B.Sim (n + 1) (Expr.mapLine B.mapLine) (condition mem r) (condition mem' r') :=
  (comparable hm hr).comparison.orElse (orderable hm hr).comparison

theorem lowFactor (hr : B.RulesSim n r r') :
    B.Sim (n + 1) (Expr.mapLine B.mapLine) (lowFactor mem r) (lowFactor mem' r') := by
  refine bind peek fun t => bind accepts fun negated => ?_
  refine bind ((condition hm hr).orElse ((assign hr rfl).orElse
    ((highBoolean hm hr).orElse (missingFactor rfl)))) fun e => pure ?_
  cases negated <;> rfl

theorem lowTerm (hr : B.RulesSim n r r') :
    B.Sim (n + 1) (Expr.mapLine B.mapLine) (lowTerm mem r) (lowTerm mem' r') :=
  (lowFactor hm hr).chain

theorem lowBoolean (hr : B.RulesSim n r r') :
    B.Sim (n + 1) (Expr.mapLine B.mapLine) (lowBoolean mem r) (lowBoolean mem' r') :=
  (lowTerm hm hr).chain

theorem value (hr : B.RulesSim n r r') :
    B.Sim (n + 1) (Expr.mapLine B.mapLine) (value mem r) (value mem' r') :=
  hm rfl ((lowBoolean hm hr).orElse ((number hm hr).orElse (string.orElse gets)))

theorem next (hr : B.RulesSim n r r') : B.RulesSim (n + 1) (r.next mem) (r'.next mem') :=
  ⟨value hm hr, lowBoolean hm hr, number hm hr, numberFactor hm hr⟩

/-! ## Lines -/

theorem simple (hr : B.RulesSim n r r') :
    B.Sim (n + 1) (List.map (Stmt.mapLine B.mapLine)) (simple mem r) (simple mem' r') := by
  refine orElse (bind (stores hr) fun ss => pure ?_) (orElse (token_bind fun t => ?_) (orElse
    (token_bind fun t => ?_) (orElse (bind token fun t => bind endOfLine fun _ => ?_)
    (bind (value hm hr) fun e => ?_))))
  · simp only [List.map_map]
    rfl
  · refine bind (values hr).orNil fun es => ?_
    exact pure rfl
  · refine bind (values hr).orNil fun es => ?_
    exact pure rfl
  · exact pure rfl
  · exact pure rfl

theorem armHeader (hr : B.RulesSim n r r') :
    B.Sim (n + 1) (fun h => (B.mapLine h.1, h.2.mapLine B.mapLine)) (armHeader mem r) (armHeader mem' r') := by
  refine bind (orElse token token) fun t => bind ((lowBoolean hm hr).demand rfl) fun e => ?_
  exact pure rfl

theorem loopHeader (hr : B.RulesSim n r r') :
    B.Sim (n + 1) (fun h => (B.mapLine h.1, h.2.mapLine B.mapLine)) (loopHeader mem r)
      (loopHeader mem' r') := by
  refine bind token fun t => bind ((lowBoolean hm hr).demand rfl) fun e => ?_
  exact pure rfl

end

theorem parameters {line line' : Nat} {name : String} (hl : line' = B.mapLine line) :
    B.Sim n (List.map fun v => (B.mapLine v.1, v.2)) (parameters line name : Production σ (List (Nat × String)))
      (parameters line' name : Production τ (List (Nat × String))) :=
  mono (Nat.le_succ n) (inParens (listOf target) hl)

end Sim

end Bridge

end Sprig
