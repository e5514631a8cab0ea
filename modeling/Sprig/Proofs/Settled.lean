import Sprig.Proofs.FullRules

/-!
# What productions take

A production that matches takes tokens from the front of what is left. `Takes P` says that those tokens are in
`P`. Every production of the grammar takes as many closing parentheses as opening ones, and behind what it
takes a line may end: no operator, comma or condition is left open. So a line that was read waits for nothing.
-/

namespace Sprig

namespace Token

@[simp] theorem balance_nil : balance [] = 0 := rfl

theorem balance_cons (t : Token) (ts : List Token) : balance (t :: ts) = t.kind.depth + balance ts := rfl

theorem balance_append (ts us : List Token) : balance (ts ++ us) = balance ts + balance us := by
  induction ts with
  | nil => rw [List.nil_append, balance_nil, Int.zero_add]
  | cons t ts ih => rw [List.cons_append, balance_cons, balance_cons, ih, Int.add_assoc]

/-- The parentheses add `d`. -/
def Balanced (d : Int) (ts : List Token) : Prop := balance ts = d

/-- The parentheses add `d`, and a line may end behind the last token. -/
structure Settled (d : Int) (ts : List Token) : Prop where
  balanced : Balanced d ts
  last : ∃ t, ts.getLast? = some t ∧ t.kind.isConnective = false

/-- Nothing, or tokens that wait for no others. -/
def Complete (ts : List Token) : Prop := ts = [] ∨ Settled 0 ts

theorem Balanced.append {d e : Int} {ts us : List Token} (h : Balanced d ts) (h' : Balanced e us) :
    Balanced (d + e) (ts ++ us) := by
  rw [Balanced, balance_append, show balance ts = d from h, show balance us = e from h']

theorem Balanced.append_settled {d e : Int} {ts us : List Token} (h : Balanced d ts) (h' : Settled e us) :
    Settled (d + e) (ts ++ us) where
  balanced := h.append h'.balanced
  last := by
    obtain ⟨t, hl, ht⟩ := h'.last
    exact ⟨t, by rw [List.getLast?_append, hl]; rfl, ht⟩

theorem Complete.balanced {ts : List Token} (h : Complete ts) : Balanced 0 ts := by
  rcases h with rfl | h
  · rfl
  · exact h.balanced

theorem Settled.append_complete {d : Int} {ts us : List Token} (h : Settled d ts) (h' : Complete us) :
    Settled d (ts ++ us) := by
  rcases h' with rfl | h'
  · rwa [List.append_nil]
  · have := h.balanced.append_settled h'
    rwa [Int.add_zero] at this

theorem Complete.append {ts us : List Token} (h : Complete ts) (h' : Complete us) : Complete (ts ++ us) := by
  rcases h with rfl | h
  · exact h'
  · exact Or.inr (h.append_complete h')

theorem Settled.singleton {t : Token} (h : t.kind.isConnective = false) : Settled t.kind.depth [t] where
  balanced := by rw [Balanced, balance_cons, balance_nil, Int.add_zero]
  last := ⟨t, rfl, h⟩

theorem Settled.isDangling {ts : List Token} (h : Settled 0 ts) : isDangling ts = false := by
  obtain ⟨t, hl, ht⟩ := h.last
  rw [Token.isDangling, show balance ts = 0 from h.balanced, hl, Option.any_some, ht]
  rfl

end Token

namespace Production

open Token

variable {σ α β : Type} {P Q R : List Token → Prop}

/-- When the production matches, the tokens it takes are in `P`. -/
def Takes (P : List Token → Prop) (p : Production σ α) : Prop :=
  ∀ ⦃ts tr a rest tr'⦄, p ts tr = (.found a rest, tr') → ∃ used, ts = used ++ rest ∧ P used

namespace Takes

variable {p q : Production σ α} {f : α → Production σ β}

theorem mono (h : Takes P p) (hPQ : ∀ {us}, P us → Q us) : Takes Q p := by
  intro ts tr a rest tr' hp
  obtain ⟨used, hts, hu⟩ := h hp
  exact ⟨used, hts, hPQ hu⟩

theorem pure {a : α} (h : P []) : Takes P (Pure.pure a : Production σ α) := by
  intro ts tr a rest tr' hp
  cases hp
  exact ⟨[], rfl, h⟩

theorem noMatch : Takes P (Production.noMatch : Production σ α) := by
  intro ts tr a rest tr' hp
  cases hp

theorem fault {line : Nat} {problem : SyntaxProblem} :
    Takes P (Production.fault line problem : Production σ α) := by
  intro ts tr a rest tr' hp
  cases hp

theorem bind (h : Takes P p) (hf : ∀ a, Takes Q (f a)) (hR : ∀ {us vs}, P us → Q vs → R (us ++ vs)) :
    Takes R (p >>= f) := by
  intro ts tr b rest tr' hp
  rw [bind_apply] at hp
  split at hp
  · rename_i a mid tr₁ hpa
    obtain ⟨used, hts, hu⟩ := h hpa
    obtain ⟨used', hmid, hu'⟩ := hf a hp
    exact ⟨used ++ used', by rw [hts, hmid, List.append_assoc], hR hu hu'⟩
  · cases hp
  · cases hp

theorem orElse (h : Takes P p) (h' : Takes P q) : Takes P (p <|> q) := by
  intro ts tr a rest tr' hp
  rw [orElse_apply] at hp
  split at hp
  · exact h' hp
  · exact h hp

theorem demand {line : Nat} {problem : SyntaxProblem} (h : Takes P p) : Takes P (p.demand line problem) :=
  h.orElse fault

/-! ## Sequences -/

theorem skip (h : Takes (· = []) p) (hf : ∀ a, Takes P (f a)) : Takes P (p >>= f) :=
  h.bind hf fun hu hv => hu ▸ hv

theorem lead {d e c : Int} (h : Takes (Balanced d) p) (hc : d + e = c)
    (hf : ∀ a, Takes (Settled e) (f a)) : Takes (Settled c) (p >>= f) :=
  h.bind hf fun hu hv => hc ▸ hu.append_settled hv

theorem trail {d : Int} (h : Takes (Settled d) p) (hf : ∀ a, Takes Complete (f a)) :
    Takes (Settled d) (p >>= f) :=
  h.bind hf fun hu hv => hu.append_complete hv

theorem both (h : Takes Complete p) (hf : ∀ a, Takes Complete (f a)) : Takes Complete (p >>= f) :=
  h.bind hf fun hu hv => hu.append hv

theorem balanced {d : Int} (h : Takes (Settled d) p) : Takes (Balanced d) p := h.mono (·.balanced)

theorem complete (h : Takes (Settled 0) p) : Takes Complete p := h.mono Or.inr

theorem done {a : α} : Takes Complete (Pure.pure a : Production σ α) := pure (Or.inl rfl)

/-! ## Single tokens -/

theorem peek : Takes (· = []) (Production.peek : Production σ Token) := by
  rintro (_ | ⟨t, ts⟩) tr a rest tr' hp
  · cases hp
  · cases hp
    exact ⟨[], rfl, rfl⟩

theorem token {k : Kind} : Takes (fun us => ∃ t, us = [t] ∧ t.kind = k) (token k : Production σ Token) := by
  intro ts tr a rest tr' hp
  cases ts with
  | nil => cases hp
  | cons t ts =>
    simp only [Production.token] at hp
    by_cases hk : t.kind = k
    · rw [if_pos hk] at hp
      cases hp
      exact ⟨[_], rfl, _, rfl, hk⟩
    · rw [if_neg hk] at hp
      cases hp

theorem token_balanced {k : Kind} : Takes (Balanced k.depth) (Production.token k : Production σ Token) := by
  refine token.mono ?_
  rintro _ ⟨t, rfl, rfl⟩
  rw [Token.Balanced, balance_cons, balance_nil, Int.add_zero]

theorem token_settled {k : Kind} (hk : k.isConnective = false) :
    Takes (Settled k.depth) (Production.token k : Production σ Token) := by
  refine token.mono ?_
  rintro _ ⟨t, rfl, rfl⟩
  exact Settled.singleton hk

theorem symbol {select : Kind → Option β} (hl : select .leftParen = none) (hr : select .rightParen = none) :
    Takes (Balanced 0) (Production.symbol select : Production σ (β × Nat)) := by
  intro ts tr a rest tr' hp
  cases ts with
  | nil => cases hp
  | cons t ts =>
    simp only [Production.symbol] at hp
    cases hs : select t.kind with
    | none => rw [hs] at hp; cases hp
    | some b =>
      rw [hs] at hp
      cases hp
      refine ⟨[t], rfl, ?_⟩
      rw [Token.Balanced, balance_cons, balance_nil, Int.add_zero]
      cases hk : t.kind
      all_goals first | rfl | (rw [hk] at hs; simp only [hl, hr, reduceCtorEq] at hs)

theorem accepts {k : Kind} (hk : k.depth = 0) : Takes (Balanced 0) (accepts k : Production σ Bool) := by
  refine orElse (bind (Q := (· = [])) token_balanced (fun _ => pure rfl) fun hu hv => ?_) (pure rfl)
  rw [hv, List.append_nil, ← hk]
  exact hu

theorem endOfLine : Takes (· = []) (Production.endOfLine : Production σ Unit) := by
  intro ts tr a rest tr' hp
  cases ts with
  | nil => cases hp; exact ⟨[], rfl, rfl⟩
  | cons t ts => cases hp

theorem unlessNext {c : Kind → Bool} : Takes (· = []) (unlessNext c : Production σ Unit) := by
  intro ts tr a rest tr' hp
  simp only [Production.unlessNext] at hp
  split at hp
  · cases hp
  · cases hp; exact ⟨[], rfl, rfl⟩

theorem modifyScopes {g : ScopeTable → ScopeTable} : Takes (· = []) (modifyScopes g : Production σ Unit) := by
  intro ts tr a rest tr' hp
  cases hp
  exact ⟨[], rfl, rfl⟩

theorem lineAfter {t : Token} : Takes (· = []) (lineAfter t : Production σ Nat) := by
  intro ts tr a rest tr' hp
  cases hp
  exact ⟨[], rfl, rfl⟩

/-! ## Repetition -/

theorem repeated (h : Takes Complete p) : ∀ n, Takes Complete (repeated p n)
  | 0 => done
  | n + 1 => orElse (h.both fun _ => (repeated h n).both fun _ => done) done

theorem many (h : Takes Complete p) : Takes Complete (many p) :=
  fun ts _ _ _ _ hp => h.repeated ts.length hp

theorem orNil {p : Production σ (List α)} (h : Takes Complete p) : Takes Complete (orNil p) :=
  h.orElse done

theorem listOf {wanted : Wanted} (h : Takes (Settled 0) p) : Takes (Settled 0) (listOf p wanted) := by
  refine h.trail fun _ => (many (complete ?_)).both fun _ => done
  exact token_balanced.lead rfl fun _ => lineAfter.skip fun _ => h.demand

theorem inParens {list : Production σ (List α)} {line : Nat} {unclosed : SyntaxProblem}
    (h : Takes Complete list) : Takes Complete (inParens list line unclosed) := by
  refine orNil (complete (token_balanced.lead (e := -1) rfl fun _ => ?_))
  refine (h.orNil.mono (·.balanced)).lead (Int.zero_add _) fun _ => ?_
  exact (token_settled rfl).demand.trail fun _ => done

end Takes

end Production

/-! ## The grammar -/

open Production Token

/-- Whatever the rules match, a line may end behind it. -/
structure Rules.Settle {σ : Type} (r : Rules σ) : Prop where
  value : Takes (Settled 0) r.value
  lowBoolean : Takes (Settled 0) r.lowBoolean
  number : Takes (Settled 0) r.number
  numberFactor : Takes (Settled 0) r.numberFactor

namespace Production.Takes

variable {σ : Type} {p : Production σ Expr}

theorem integer : Takes (Settled 0) (Grammar.integer : Production σ Expr) := by
  refine (token_settled rfl).trail fun t => ?_
  cases Integer.read? t.text with
  | none => exact fault
  | some n => exact done

theorem float : Takes (Settled 0) (Grammar.float : Production σ Expr) := by
  refine (token_settled rfl).trail fun t => ?_
  cases FloatText.read? t.text with
  | none => exact fault
  | some x => exact done

theorem string : Takes (Settled 0) (Grammar.string : Production σ Expr) :=
  (token_settled rfl).trail fun _ => done

theorem boolean : Takes (Settled 0) (Grammar.boolean : Production σ Expr) :=
  orElse ((token_settled rfl).trail fun _ => done) ((token_settled rfl).trail fun _ => done)

theorem nil : Takes (Settled 0) (Grammar.nil : Production σ Expr) :=
  (token_settled rfl).trail fun _ => done

theorem gets : Takes (Settled 0) (Grammar.gets : Production σ Expr) :=
  (token_settled rfl).trail fun _ => done

theorem target : Takes (Settled 0) (Grammar.target : Production σ (Nat × String)) :=
  (token_settled rfl).trail fun _ => modifyScopes.skip fun _ => done

section
variable {op? : Kind → Option BinaryOp} {wanted : Wanted} (hl : op? .leftParen = none)
  (hr : op? .rightParen = none)
include hl hr

theorem chainFrom {first : Expr} (h : Takes (Settled 0) p) :
    Takes Complete (Grammar.chainFrom p op? wanted first) := by
  refine (many (complete ?_)).both fun _ => done
  exact (symbol hl hr).lead rfl fun _ => h.demand.trail fun _ => done

theorem chain (h : Takes (Settled 0) p) : Takes (Settled 0) (Grammar.chain p op? wanted) :=
  h.trail fun _ => h.chainFrom hl hr

end

theorem comparison {op? : Kind → Option Comparison} {wanted : Wanted} (hl : op? .leftParen = none)
    (hr : op? .rightParen = none) (h : Takes (Settled 0) p) :
    Takes (Settled 0) (Grammar.comparison p op? wanted) :=
  h.balanced.lead rfl fun _ => (symbol hl hr).lead rfl fun _ => h.demand.trail fun _ => done

theorem minus {wanted : Wanted} (h : Takes (Settled 0) p) : Takes (Settled 0) (Grammar.minus p wanted) :=
  token_balanced.lead rfl fun _ => h.demand.trail fun _ => done

theorem group (h : Takes (Settled 0) p) : Takes (Settled 0) (Grammar.group p) :=
  token_balanced.lead (e := -1) rfl fun _ => h.balanced.lead (Int.zero_add _) fun _ =>
    (token_settled rfl).trail fun _ => done

theorem missingFactor {negated : Bool} {op : Negation} {line : Nat} {P : List Token → Prop} :
    Takes P (Grammar.missingFactor negated op line : Production σ Expr) := by
  cases negated with
  | true => exact fault
  | false => exact noMatch

section
variable {r : Rules Unit} (hr : r.Settle)
include hr

theorem values : Takes (Settled 0) (Grammar.values r) := hr.value.listOf

theorem call : Takes (Settled 0) (Grammar.call .off r) := by
  rw [Grammar.call, memoized_off]
  exact (token_settled rfl).trail fun _ => (inParens (values hr).complete).both fun _ => done

theorem stores : Takes (Settled 0) (Grammar.stores r) := by
  refine peek.skip fun _ => target.balanced.lead (Int.zero_add _) fun _ => ?_
  refine ((many (complete ?_)).mono (·.balanced)).lead (Int.zero_add _) fun _ => ?_
  · exact token_balanced.lead rfl fun _ => target
  · exact (token_settled rfl).trail fun _ => (values hr).complete.orNil.both fun _ => done

theorem assign {line : Nat} : Takes (Settled 0) (Grammar.assign r line) := (stores hr).trail fun _ => done

theorem numberFactor : Takes (Settled 0) (Grammar.numberFactor .off r) := by
  refine integer.orElse (float.orElse ((call hr).orElse (hr.numberFactor.minus.orElse ?_)))
  exact peek.skip fun _ => group ((assign hr).orElse hr.number)

theorem numberTerm : Takes (Settled 0) (Grammar.numberTerm .off r) := (numberFactor hr).chain rfl rfl

theorem number : Takes (Settled 0) (Grammar.number .off r) := by
  rw [Grammar.number, memoized_off]
  exact ((numberTerm hr).minus.orElse (numberTerm hr)).trail fun _ => (numberTerm hr).chainFrom rfl rfl

theorem highFactor : Takes (Settled 0) (Grammar.highFactor .off r) := by
  refine peek.skip fun _ => (accepts rfl).lead (Int.zero_add _) fun _ => ?_
  refine trail (boolean.orElse (nil.orElse ((call hr).orElse (hr.lowBoolean.group.orElse ?_)))) fun _ => ?_
  · exact unlessNext.skip fun _ => missingFactor
  · exact unlessNext.skip fun _ => done

theorem highTerm : Takes (Settled 0) (Grammar.highTerm .off r) := (highFactor hr).chain rfl rfl

theorem highBoolean : Takes (Settled 0) (Grammar.highBoolean .off r) := by
  rw [Grammar.highBoolean, memoized_off]
  exact (highTerm hr).chain rfl rfl

theorem comparable : Takes (Settled 0) (Grammar.comparable .off r) :=
  (number hr).orElse ((highBoolean hr).orElse (string.orElse gets))

theorem orderable : Takes (Settled 0) (Grammar.orderable .off r) := (number hr).orElse string

theorem condition : Takes (Settled 0) (Grammar.condition .off r) :=
  ((comparable hr).comparison rfl rfl).orElse ((orderable hr).comparison rfl rfl)

theorem lowFactor : Takes (Settled 0) (Grammar.lowFactor .off r) := by
  refine peek.skip fun _ => (accepts rfl).lead (Int.zero_add _) fun _ => ?_
  refine trail ((condition hr).orElse ((assign hr).orElse ((highBoolean hr).orElse missingFactor))) ?_
  exact fun _ => done

theorem lowTerm : Takes (Settled 0) (Grammar.lowTerm .off r) := (lowFactor hr).chain rfl rfl

theorem lowBoolean : Takes (Settled 0) (Grammar.lowBoolean .off r) := (lowTerm hr).chain rfl rfl

theorem value : Takes (Settled 0) (Grammar.value .off r) := by
  rw [Grammar.value, memoized_off]
  exact (lowBoolean hr).orElse ((number hr).orElse (string.orElse gets))

/-! ## Lines -/

theorem simple : Takes (Settled 0) (Grammar.simple .off r) := by
  have hvalues := (values hr).complete.orNil
  refine ((stores hr).trail fun _ => done).orElse (orElse ?_ (orElse ?_ (orElse ?_ ?_)))
  · exact (token_settled rfl).trail fun _ => hvalues.both fun _ => done
  · exact (token_settled rfl).trail fun _ => hvalues.both fun _ => done
  · exact (token_settled rfl).trail fun _ => endOfLine.skip fun _ => done
  · exact (value hr).trail fun _ => done

theorem armHeader : Takes (Settled 0) (Grammar.armHeader .off r) := by
  have hhead : Takes (Balanced 0) (Production.token .kwIf <|> Production.token .kwElif : Production Unit _) :=
    orElse token_balanced token_balanced
  exact hhead.lead rfl fun _ => (lowBoolean hr).demand.trail fun _ => done

theorem loopHeader : Takes (Settled 0) (Grammar.loopHeader .off r) :=
  token_balanced.lead rfl fun _ => (lowBoolean hr).demand.trail fun _ => done

end

theorem functionHeader : Takes (Settled 0) (Grammar.functionHeader : Production σ _) := by
  refine token_balanced.lead rfl fun _ => (token_settled rfl).demand.trail fun _ => ?_
  exact modifyScopes.skip fun _ => (inParens target.listOf.complete).both fun _ => done

end Production.Takes

theorem Rules.settle_upTo : ∀ n, (Rules.upTo .off n).Settle
  | 0 => ⟨.noMatch, .noMatch, .noMatch, .noMatch⟩
  | n + 1 =>
    have ih := settle_upTo n
    ⟨.value ih, .lowBoolean ih, .number ih, .numberFactor ih⟩

end Sprig
