import Sprig.Proofs.Append

/-!
# Targets are declared

A production may declare names and then not match, but never the other way round: when it has found an expression,
the names that the expression stores under are declared (`Production.Declares`).
-/

namespace Sprig

/-! ## Targets -/

mutual

/-- The names an expression stores under. -/
def Expr.targets : Expr → List String
  | .literal _ _ | .gets _ => []
  | .call _ _ args => Expr.targetsAll args
  | .binary _ _ left right | .compare _ _ left right => left.targets ++ right.targets
  | .negate _ _ operand => operand.targets
  | .assign _ stores => Assign.targetsAll stores

def Expr.targetsAll : List Expr → List String
  | [] => []
  | e :: es => e.targets ++ Expr.targetsAll es

def Assign.targets : Assign → List String
  | ⟨_, name, value⟩ => name :: value.targets

def Assign.targetsAll : List Assign → List String
  | [] => []
  | a :: as => a.targets ++ Assign.targetsAll as

end

theorem Expr.mem_targetsAll {name : String} {es : List Expr} :
    name ∈ Expr.targetsAll es ↔ ∃ e ∈ es, name ∈ e.targets := by
  induction es with
  | nil => simp [Expr.targetsAll]
  | cons e es ih => simp [Expr.targetsAll, ih]

theorem Assign.mem_targetsAll {name : String} {as : List Assign} :
    name ∈ Assign.targetsAll as ↔ ∃ a ∈ as, name ∈ a.targets := by
  induction as with
  | nil => simp [Assign.targetsAll]
  | cons a as ih => simp [Assign.targetsAll, ih]

/-- Values that are dropped store nothing, and the nil of a target without a value neither. -/
theorem Assign.mem_targets_pair {name : String} {line : Nat} : ∀ {targets : List (Nat × String)} {values : List Expr},
    name ∈ Assign.targetsAll (Assign.pair line targets values) →
      (∃ t ∈ targets, t.2 = name) ∨ ∃ e ∈ values, name ∈ e.targets
  | [], _, h => by simp [Assign.pair, Assign.targetsAll] at h
  | (l, n) :: targets, [], h => by
    simp only [Assign.pair, Assign.targetsAll, Assign.targets, Expr.targets, List.mem_append, List.mem_singleton] at h
    rcases h with rfl | h
    · exact Or.inl ⟨_, List.mem_cons_self, rfl⟩
    · rcases mem_targets_pair h with ⟨t, ht, hn⟩ | ⟨e, he, _⟩
      · exact Or.inl ⟨t, List.mem_cons_of_mem _ ht, hn⟩
      · cases he
  | (l, n) :: targets, value :: values, h => by
    simp only [Assign.pair, Assign.targetsAll, Assign.targets, List.mem_append, List.mem_cons] at h
    rcases h with (rfl | h) | h
    · exact Or.inl ⟨_, List.mem_cons_self, rfl⟩
    · exact Or.inr ⟨value, List.mem_cons_self, h⟩
    · rcases mem_targets_pair h with ⟨t, ht, hn⟩ | ⟨e, he, hn⟩
      · exact Or.inl ⟨t, List.mem_cons_of_mem _ ht, hn⟩
      · exact Or.inr ⟨e, List.mem_cons_of_mem _ he, hn⟩

/-! ## Productions that declare what they find -/

namespace Production

variable {σ α β : Type} {name : String} {A : Prop}

/-- If `name` is declared before where `A` holds, it still is afterwards, and it is where an `a` in `B` was
found. -/
def Declares (name : String) (A : Prop) (p : Production σ α) (B : α → Prop) : Prop :=
  ∀ (ts : List Token) (tr : Trace σ), (A → tr.scopes.Declares name) →
    (A → (p ts tr).2.scopes.Declares name) ∧
      ∀ a rest, (p ts tr).1 = .found a rest → B a → (p ts tr).2.scopes.Declares name

namespace Declares

variable {p : Production σ α} {B : α → Prop} {C : β → Prop}

theorem pure {a : α} (h : B a → A) : Declares name A (Pure.pure a : Production σ α) B := by
  refine fun ts tr hA => ⟨hA, fun b rest hb hB => ?_⟩
  cases hb
  exact hA (h hB)

theorem fault {line : Nat} {problem : SyntaxProblem} :
    Declares name A (Production.fault line problem : Production σ α) B :=
  fun _ _ hA => ⟨hA, fun _ _ hb => by cases hb⟩

theorem noMatch : Declares name A (Production.noMatch : Production σ α) B :=
  fun _ _ hA => ⟨hA, fun _ _ hb => by cases hb⟩

theorem bind {f : α → Production σ β} (h : Declares name A p B) (hf : ∀ a, Declares name (A ∨ B a) (f a) C) :
    Declares name A (p >>= f) C := by
  intro ts tr hA
  have hp := h ts tr hA
  rw [bind_apply]
  rcases hpt : p ts tr with ⟨_ | _ | _, tr₁⟩ <;> rw [hpt] at hp
  · rename_i a rest
    have hfa := hf a rest tr₁ fun hAB => hAB.elim hp.1 (hp.2 a rest rfl)
    exact ⟨fun hA => hfa.1 (Or.inl hA), hfa.2⟩
  · exact ⟨hp.1, fun _ _ hb => by cases hb⟩
  · exact ⟨hp.1, fun _ _ hb => by cases hb⟩

theorem orElse {q : Production σ α} (h : Declares name A p B) (h' : Declares name A q B) :
    Declares name A (p <|> q) B := by
  intro ts tr hA
  have hp := h ts tr hA
  rw [orElse_apply]
  split
  · rename_i tr₁ hpt
    rw [hpt] at hp
    exact h' ts tr₁ hp.1
  · exact hp

theorem still (h : ∀ ts tr, (p ts tr).2 = tr) : Declares name A p fun _ => A := by
  intro ts tr hA
  rw [h]
  exact ⟨hA, fun _ _ _ => hA⟩

/-- A part that declares nothing. -/
theorem skip {f : α → Production σ β} (h : Declares name A p fun _ => A) (hf : ∀ a, Declares name A (f a) C) :
    Declares name A (p >>= f) C :=
  h.bind fun a => by
    rw [or_self]
    exact hf a

theorem demand {line : Nat} {problem : SyntaxProblem} (h : Declares name A p B) :
    Declares name A (p.demand line problem) B :=
  h.orElse fault

theorem peek : Declares name A (Production.peek : Production σ Token) fun _ => A :=
  still fun ts _ => by cases ts <;> rfl

theorem token {k : Kind} : Declares name A (Production.token k : Production σ Token) fun _ => A :=
  still fun ts _ => by cases ts <;> rfl

theorem symbol {select : Kind → Option β} :
    Declares name A (Production.symbol select : Production σ (β × Nat)) fun _ => A := by
  refine still fun ts _ => ?_
  cases ts with
  | nil => rfl
  | cons t ts =>
    simp only [Production.symbol]
    split <;> rfl

theorem accepts {k : Kind} : Declares name A (Production.accepts k : Production σ Bool) fun _ => A :=
  orElse (token.skip fun _ => pure id) (pure id)

theorem endOfLine : Declares name A (Production.endOfLine : Production σ Unit) fun _ => A :=
  still fun ts _ => by cases ts <;> rfl

theorem unlessNext {c : Kind → Bool} : Declares name A (Production.unlessNext c : Production σ Unit) fun _ => A :=
  still fun _ _ => rfl

theorem lineAfter {t : Token} : Declares name A (Production.lineAfter t : Production σ Nat) fun _ => A :=
  still fun _ _ => rfl

theorem target : Declares name A (Grammar.target : Production σ (Nat × String)) fun v => v.2 = name := by
  intro ts tr hA
  rw [Grammar.target, bind_apply]
  rcases ts with _ | ⟨t, ts⟩
  · exact ⟨hA, fun _ _ hv => by cases hv⟩
  by_cases ht : t.kind = .identifier
  · rw [Production.token, if_pos ht]
    refine ⟨fun h => (hA h).declare t.text, fun v rest hv hname => ?_⟩
    cases hv
    cases hname
    exact ScopeTable.declares_declare tr.scopes t.text
  · rw [Production.token, if_neg ht]
    exact ⟨hA, fun _ _ hv => by cases hv⟩

theorem repeated (h : ∀ A, Declares name A p B) : ∀ (n : Nat) (A : Prop),
    Declares name A (repeated p n) fun as => ∃ a ∈ as, B a
  | 0, _ => pure fun ⟨_, ha, _⟩ => by cases ha
  | n + 1, A => by
    refine orElse ((h A).bind fun a => (repeated h n _).bind fun as => pure ?_) (pure fun ⟨_, ha, _⟩ => by cases ha)
    rintro ⟨b, hb, hB⟩
    rcases List.mem_cons.mp hb with rfl | hb
    · exact Or.inl (Or.inr hB)
    · exact Or.inr ⟨b, hb, hB⟩

theorem many (h : ∀ A, Declares name A p B) (A : Prop) : Declares name A (many p) fun as => ∃ a ∈ as, B a :=
  fun ts tr hA => repeated h ts.length A ts tr hA

theorem listOf {wanted : Wanted} (h : ∀ A, Declares name A p B) (A : Prop) :
    Declares name A (listOf p wanted) fun as => ∃ a ∈ as, B a := by
  have hnext (A : Prop) : Declares name A (do
      let comma ← Production.token .comma
      let line ← Production.lineAfter comma
      p.demand line (.missing "," wanted)) B :=
    token.skip fun _ => lineAfter.skip fun _ => (h _).demand
  refine (h A).bind fun first => (many hnext _).bind fun others => pure ?_
  rintro ⟨a, ha, hB⟩
  rcases List.mem_cons.mp ha with rfl | ha
  · exact Or.inl (Or.inr hB)
  · exact Or.inr ⟨a, ha, hB⟩

theorem orNil {p : Production σ (List α)} (h : Declares name A p fun as => ∃ a ∈ as, B a) :
    Declares name A (orNil p) fun as => ∃ a ∈ as, B a :=
  h.orElse (pure fun ⟨_, ha, _⟩ => by cases ha)

theorem inParens {list : Production σ (List α)} {line : Nat} {unclosed : SyntaxProblem}
    (h : Declares name A list fun as => ∃ a ∈ as, B a) :
    Declares name A (inParens list line unclosed) fun as => ∃ a ∈ as, B a :=
  orNil (token.skip fun _ => (orNil h).bind fun _ => token.demand.skip fun _ => pure Or.inr)

theorem parameters (name : String) (line : Nat) (f : String) :
    Declares name A (Grammar.parameters line f : Production σ (List (Nat × String)))
      fun ps => ∃ p ∈ ps, p.2 = name :=
  inParens (listOf (fun _ => target) _)

end Declares

/-! ## Expressions -/

/-- Wherever the production matches, the targets of what it found are declared. -/
def DeclaresTargets (p : Production σ Expr) : Prop :=
  ∀ (name : String) (A : Prop), Declares name A p fun e => name ∈ e.targets

namespace DeclaresTargets

variable {p q : Production σ Expr}

theorem noMatch : DeclaresTargets (Production.noMatch : Production σ Expr) := fun _ _ => .noMatch

theorem orElse (h : DeclaresTargets p) (h' : DeclaresTargets q) : DeclaresTargets (p <|> q) :=
  fun name A => (h name A).orElse (h' name A)

theorem skip {f : α → Production σ Expr} {q : Production σ α} (h : ∀ name A, Declares name A q fun _ => A)
    (hf : ∀ a, DeclaresTargets (f a)) : DeclaresTargets (q >>= f) :=
  fun name A => (h name A).skip fun a => hf a name A

theorem pure {e : Expr} (h : e.targets = []) : DeclaresTargets (Pure.pure e : Production σ Expr) := by
  intro name A
  apply Declares.pure
  intro hn
  rw [h] at hn
  cases hn

theorem integer : DeclaresTargets (Grammar.integer : Production σ Expr) := by
  refine skip (fun _ _ => .token) fun t => ?_
  cases Integer.read? t.text with
  | none => exact fun _ _ => .fault
  | some n => exact pure rfl

theorem float : DeclaresTargets (Grammar.float : Production σ Expr) := by
  refine skip (fun _ _ => .token) fun t => ?_
  cases FloatText.read? t.text with
  | none => exact fun _ _ => .fault
  | some x => exact pure rfl

theorem string : DeclaresTargets (Grammar.string : Production σ Expr) := skip (fun _ _ => .token) fun _ => pure rfl

theorem boolean : DeclaresTargets (Grammar.boolean : Production σ Expr) :=
  orElse (skip (fun _ _ => .token) fun _ => pure rfl) (skip (fun _ _ => .token) fun _ => pure rfl)

theorem nil : DeclaresTargets (Grammar.nil : Production σ Expr) := skip (fun _ _ => .token) fun _ => pure rfl

theorem gets : DeclaresTargets (Grammar.gets : Production σ Expr) := skip (fun _ _ => .token) fun _ => pure rfl

theorem mem_targets_foldl {name : String} : ∀ {others : List (BinaryOp × Nat × Expr)} (first : Expr),
    name ∈ (others.foldl (fun left (op, line, right) => Expr.binary line op left right) first).targets →
      name ∈ first.targets ∨ ∃ o ∈ others, name ∈ o.2.2.targets
  | [], _, h => Or.inl h
  | (op, line, right) :: others, first, h => by
    rcases mem_targets_foldl (.binary line op first right) h with h | ⟨o, ho, h⟩
    · rcases List.mem_append.mp h with h | h
      · exact Or.inl h
      · exact Or.inr ⟨_, List.mem_cons_self, h⟩
    · exact Or.inr ⟨o, List.mem_cons_of_mem _ ho, h⟩

section
variable (h : DeclaresTargets p)
include h

theorem chainFrom {op? : Kind → Option BinaryOp} {wanted : Wanted} {first : Expr} {name : String} {A : Prop}
    (hfirst : name ∈ first.targets → A) :
    Declares name A (Grammar.chainFrom p op? wanted first) fun e => name ∈ e.targets := by
  refine (Declares.many (B := fun o => name ∈ o.2.2.targets) (fun A => ?_) A).bind fun others => .pure fun hn => ?_
  · exact Declares.symbol.skip fun _ => (h name A).demand.bind fun _ => .pure Or.inr
  rcases mem_targets_foldl first hn with hn | hn
  · exact Or.inl (hfirst hn)
  · exact Or.inr hn

theorem chain {op? : Kind → Option BinaryOp} {wanted : Wanted} : DeclaresTargets (Grammar.chain p op? wanted) :=
  fun name A => (h name A).bind fun _ => chainFrom h Or.inr

theorem comparison {op? : Kind → Option Comparison} {wanted : Wanted} :
    DeclaresTargets (Grammar.comparison p op? wanted) := by
  intro name A
  refine (h name A).bind fun left => Declares.symbol.skip fun o => (h name _).demand.bind fun right => .pure ?_
  intro hn
  rcases List.mem_append.mp hn with hn | hn
  · exact Or.inl (Or.inr hn)
  · exact Or.inr hn

theorem minus {wanted : Wanted} : DeclaresTargets (Grammar.minus p wanted) :=
  fun name A => Declares.token.skip fun _ => (h name A).demand.bind fun _ => .pure Or.inr

theorem group : DeclaresTargets (Grammar.group p) :=
  fun name A => Declares.token.skip fun _ => (h name A).bind fun _ => Declares.token.skip fun _ => .pure Or.inr

end

theorem missingFactor (negated : Bool) (op : Negation) (line : Nat) :
    DeclaresTargets (Grammar.missingFactor negated op line : Production σ Expr) := by
  cases negated with
  | true => exact fun _ _ => .fault
  | false => exact noMatch

end DeclaresTargets

end Production

open Production

structure Rules.DeclareTargets (r : Rules Unit) : Prop where
  value : DeclaresTargets r.value
  lowBoolean : DeclaresTargets r.lowBoolean
  number : DeclaresTargets r.number
  numberFactor : DeclaresTargets r.numberFactor

section
variable {r : Rules Unit} (hr : r.DeclareTargets)
include hr

theorem Production.Declares.values {name : String} {A : Prop} :
    Declares name A (Grammar.values r) fun es => ∃ e ∈ es, name ∈ e.targets :=
  .listOf (fun A => hr.value name A) A

theorem Production.Declares.stores {name : String} {A : Prop} :
    Declares name A (Grammar.stores r) fun as => name ∈ Assign.targetsAll as := by
  have hnext (A : Prop) : Declares name A (do
      let _ ← Production.token (σ := Unit) .comma
      Grammar.target) fun v => v.2 = name :=
    Declares.token.skip fun _ => .target
  refine Declares.peek.skip fun t => Declares.target.bind fun first => (Declares.many hnext _).bind fun others => ?_
  refine Declares.token.skip fun _ => (Declares.orNil (values hr)).bind fun vs => .pure fun hn => ?_
  rcases Assign.mem_targets_pair hn with ⟨v, hv, hname⟩ | hname
  · rcases List.mem_cons.mp hv with rfl | hv
    · exact Or.inl (Or.inl (Or.inr hname))
    · exact Or.inl (Or.inr ⟨v, hv, hname⟩)
  · exact Or.inr hname

namespace Production.DeclaresTargets

theorem call : DeclaresTargets (Grammar.call .off r) := by
  rw [Grammar.call, memoized_off]
  intro name A
  refine Declares.token.skip fun t => (Declares.inParens (.values hr)).bind fun args => .pure fun hn => ?_
  exact Or.inr (Expr.mem_targetsAll.mp hn)

theorem assign (line : Nat) : DeclaresTargets (Grammar.assign r line) :=
  fun _ _ => (Declares.stores hr).bind fun _ => .pure Or.inr

theorem numberFactor : DeclaresTargets (Grammar.numberFactor .off r) :=
  integer.orElse (float.orElse ((call hr).orElse (hr.numberFactor.minus.orElse
    (skip (fun _ _ => .peek) fun t => group ((assign hr t.line).orElse hr.number)))))

theorem numberTerm : DeclaresTargets (Grammar.numberTerm .off r) := (numberFactor hr).chain

theorem number : DeclaresTargets (Grammar.number .off r) := by
  rw [Grammar.number, memoized_off]
  exact fun name A => ((numberTerm hr).minus.orElse (numberTerm hr) name A).bind fun _ =>
    (numberTerm hr).chainFrom Or.inr

theorem highFactor : DeclaresTargets (Grammar.highFactor .off r) := by
  have hbase (negated : Bool) (line : Nat) := boolean.orElse (nil.orElse ((call hr).orElse (hr.lowBoolean.group.orElse
    (skip (fun _ _ => Declares.unlessNext (c := (· == .leftParen))) fun _ => missingFactor negated .bang line))))
  refine skip (fun _ _ => .peek) fun t => skip (fun _ _ => .accepts) fun negated name A => ?_
  refine (hbase negated t.line name A).bind fun e => Declares.unlessNext.skip fun _ => .pure ?_
  cases negated <;> exact Or.inr

theorem highTerm : DeclaresTargets (Grammar.highTerm .off r) := (highFactor hr).chain

theorem highBoolean : DeclaresTargets (Grammar.highBoolean .off r) := by
  rw [Grammar.highBoolean, memoized_off]
  exact (highTerm hr).chain

theorem condition : DeclaresTargets (Grammar.condition .off r) :=
  ((number hr).orElse ((highBoolean hr).orElse (string.orElse gets))).comparison.orElse
    ((number hr).orElse string).comparison

theorem lowFactor : DeclaresTargets (Grammar.lowFactor .off r) := by
  refine skip (fun _ _ => .peek) fun t => skip (fun _ _ => .accepts) fun negated name A => ?_
  have hbase := (condition hr).orElse ((assign hr t.line).orElse ((highBoolean hr).orElse
    (missingFactor negated .not t.line)))
  refine (hbase name A).bind fun e => .pure ?_
  cases negated <;> exact Or.inr

theorem lowBoolean : DeclaresTargets (Grammar.lowBoolean .off r) := (lowFactor hr).chain.chain

theorem value : DeclaresTargets (Grammar.value .off r) := by
  rw [Grammar.value, memoized_off]
  exact (lowBoolean hr).orElse ((number hr).orElse (string.orElse gets))

end Production.DeclaresTargets

end

theorem Rules.declareTargets_upTo : ∀ n, (Rules.upTo .off n).DeclareTargets
  | 0 => ⟨.noMatch, .noMatch, .noMatch, .noMatch⟩
  | n + 1 =>
    have ih := declareTargets_upTo n
    ⟨.value ih, .lowBoolean ih, .number ih, .numberFactor ih⟩

end Sprig
