import Sprig.Proofs.GrammarFinds
import Sprig.Proofs.Settled

/-!
# Up to a closing parenthesis

On tokens that close as many parentheses as are open, what a production makes of them is not changed by tokens
behind them that start with one more closing parenthesis: no production of the grammar goes on there.
`Local d` says so for tokens that close `d` parentheses. On tokens that close none but their own it follows
that the declared names do not matter either, and that a production finds, misses or faults.
-/

namespace Sprig

open Production Token

/-! ## Tokens -/

/-- Nothing, or tokens that start with a closing parenthesis. -/
def Token.Closing (ts : List Token) : Prop := ∀ k ∈ next ts, k = .rightParen

namespace Token

variable {ts us : List Token}

theorem closing_nil : Closing [] := nofun

theorem closing_cons {t : Token} (ht : t.kind = .rightParen) : Closing (t :: ts) := by
  rintro _ ⟨⟩
  exact ht

theorem Closing.ne (h : Closing ts) {k : Kind} (hk : k ≠ .rightParen) : next ts ≠ some k := fun he => hk (h k he)

theorem Balanced.of_append {d e : Int} (h : Balanced (d + e) (ts ++ us)) (hts : Balanced d ts) : Balanced e us := by
  rw [Token.Balanced, balance_append, show balance ts = d from hts] at h
  exact Int.add_left_cancel h

theorem Settled.ne_nil {d : Int} (h : Settled d ts) : ts ≠ [] := by
  rintro rfl
  obtain ⟨t, ht, _⟩ := h.last
  cases ht

end Token

/-! ## Outcomes -/

/-- The same outcome, with more tokens left behind what was found. Faults may differ. -/
inductive Outcome.Extends {α : Type} (more : List Token) : Outcome α → Outcome α → Prop where
  | found {a : α} {rest : List Token} : Extends more (.found a rest) (.found a (rest ++ more))
  | noMatch : Extends more .noMatch .noMatch
  | fault {f f' : Fault} : Extends more (.fault f) (.fault f')

namespace Outcome.Extends

variable {α : Type} {more rest : List Token} {o : Outcome α} {a : α} {f : Fault}

theorem eq_found (h : Extends more (.found a rest) o) : o = .found a (rest ++ more) := by
  cases h
  rfl

theorem eq_noMatch (h : Extends more .noMatch o) : o = .noMatch := by
  cases h
  rfl

theorem exists_fault (h : Extends more (.fault f) o) : ∃ f', o = .fault f' := by
  cases h
  exact ⟨_, rfl⟩

theorem exists_append (h : o.Extends more (.found a rest)) : ∃ rest', rest = rest' ++ more := by
  cases h
  exact ⟨_, rfl⟩

end Outcome.Extends

namespace Production

variable {α β : Type} {p q : Production Unit α} {f g : α → Production Unit β} {d : Nat} {ts more : List Token}

/-- With more tokens the second production finds what the first one does without them. -/
def Agrees (ts more : List Token) (p q : Production Unit α) : Prop :=
  ∀ tr tr', (p ts tr).1.Extends more (q (ts ++ more) tr').1

namespace Agrees

theorem pure {a : α} : Agrees ts more (Pure.pure a) (Pure.pure a) := fun _ _ => .found

theorem noMatch : Agrees ts more (Production.noMatch : Production Unit α) Production.noMatch := fun _ _ => .noMatch

theorem fault {line line' : Nat} {problem problem' : SyntaxProblem} :
    Agrees ts more (Production.fault line problem : Production Unit α) (Production.fault line' problem') :=
  fun _ _ => .fault

theorem of_misses (h : Misses p ts) (h' : Misses q (ts ++ more)) : Agrees ts more p q := by
  intro tr tr'
  obtain ⟨tr₁, h⟩ := h tr
  obtain ⟨tr₁', h'⟩ := h' tr'
  rw [h, h']
  exact .noMatch

theorem of_finds {a : α} {rest : List Token} (h : Finds p ts a rest) (h' : Finds q (ts ++ more) a (rest ++ more)) :
    Agrees ts more p q := by
  intro tr tr'
  obtain ⟨tr₁, h⟩ := h tr
  obtain ⟨tr₁', h'⟩ := h' tr'
  rw [h, h']
  exact .found

section
variable {a : α} {rest : List Token} {tr : Trace Unit} (h : Agrees ts more p q)
include h

theorem finds_of_run (hrun : (p ts tr).1 = .found a rest) : Finds q (ts ++ more) a (rest ++ more) := by
  intro tr'
  have hq := h tr tr'
  rw [hrun] at hq
  exact ⟨_, Prod.ext hq.eq_found rfl⟩

theorem misses_of_run (hrun : (p ts tr).1 = .noMatch) : Misses q (ts ++ more) := by
  intro tr'
  have hq := h tr tr'
  rw [hrun] at hq
  exact ⟨_, Prod.ext hq.eq_noMatch rfl⟩

theorem faults_of_run {e : Fault} (hrun : (p ts tr).1 = .fault e) : Faults q (ts ++ more) := by
  intro tr'
  have hq := h tr tr'
  rw [hrun] at hq
  obtain ⟨e', he⟩ := hq.exists_fault
  exact ⟨e', _, Prod.ext he rfl⟩

theorem finds (hp : Finds p ts a rest) : Finds q (ts ++ more) a (rest ++ more) := by
  obtain ⟨tr₁, hp⟩ := hp start
  exact h.finds_of_run (congrArg Prod.fst hp)

theorem misses (hp : Misses p ts) : Misses q (ts ++ more) := by
  obtain ⟨tr₁, hp⟩ := hp start
  exact h.misses_of_run (congrArg Prod.fst hp)

end

theorem bind (h : Agrees ts more p q)
    (hf : ∀ ⦃a rest tr tr₁⦄, p ts tr = (.found a rest, tr₁) → Agrees rest more (f a) (g a)) :
    Agrees ts more (p >>= f) (q >>= g) := by
  intro tr tr'
  have hp := h tr tr'
  rw [bind_apply, bind_apply]
  generalize hx : p ts tr = x at hp ⊢
  generalize q (ts ++ more) tr' = y at hp ⊢
  obtain ⟨o, tr₁⟩ := x
  obtain ⟨o', tr₁'⟩ := y
  cases hp with
  | found => exact hf hx tr₁ tr₁'
  | noMatch => exact .noMatch
  | fault => exact .fault

theorem orElse {p' q' : Production Unit α} (h : Agrees ts more p q) (h' : Agrees ts more p' q') :
    Agrees ts more (p <|> p') (q <|> q') := by
  intro tr tr'
  have hp := h tr tr'
  rw [orElse_apply, orElse_apply]
  generalize p ts tr = x at hp ⊢
  generalize q (ts ++ more) tr' = y at hp ⊢
  obtain ⟨o, tr₁⟩ := x
  obtain ⟨o', tr₁'⟩ := y
  cases hp with
  | found => exact .found
  | noMatch => exact h' tr₁ tr₁'
  | fault => exact .fault

theorem demand {line line' : Nat} {problem : SyntaxProblem} (h : Agrees ts more p q) :
    Agrees ts more (p.demand line problem) (q.demand line' problem) :=
  h.orElse fault

end Agrees

/-! ## Productions -/

/-- Behind tokens that close `d` parentheses nothing changes with one more that is closed. -/
def Local (d : Nat) (p : Production Unit α) : Prop :=
  ∀ ⦃ts more⦄, Balanced (-d) ts → Closing more → Agrees ts more p p

namespace Local

theorem pure {a : α} : Local d (Pure.pure a : Production Unit α) := fun _ _ _ _ => .pure

theorem noMatch : Local d (Production.noMatch : Production Unit α) := fun _ _ _ _ => .noMatch

theorem fault {line : Nat} {problem : SyntaxProblem} :
    Local d (Production.fault line problem : Production Unit α) :=
  fun _ _ _ _ => .fault

theorem orElse (h : Local d p) (h' : Local d q) : Local d (p <|> q) :=
  fun _ _ hts hmore => (h hts hmore).orElse (h' hts hmore)

theorem demand {line : Nat} {problem : SyntaxProblem} (h : Local d p) : Local d (p.demand line problem) :=
  h.orElse fault

theorem bind {e : Nat} {c : Int} (h : Local d p) (ht : Takes (Balanced c) p) (hc : (e : Int) = d + c)
    (hf : ∀ a, Local e (f a)) : Local d (p >>= f) := by
  intro ts more hts hmore
  -- what is taken first says how many parentheses the tokens behind it close
  refine (h hts hmore).bind fun a rest tr tr₁ hx => ?_
  obtain ⟨used, rfl, hused⟩ := ht hx
  rw [show -(d : Int) = c + -e by omega] at hts
  exact hf a (hts.of_append hused) hmore

theorem andThen (h : Local d p) (ht : Takes (Balanced 0) p) (hf : ∀ a, Local d (f a)) : Local d (p >>= f) :=
  h.bind ht (by omega) hf

/-! ### Tokens -/

section
variable {k : Kind}

theorem token_cons {t : Token} : Agrees (t :: ts) more (Production.token k) (Production.token k) := by
  by_cases hk : t.kind = k
  · exact .of_finds (.token hk) (.token hk)
  · exact .of_misses (.token (by simpa using hk)) (.token (by simpa using hk))

theorem token (hk : k ≠ .rightParen) : Local d (Production.token k : Production Unit Token) := by
  intro ts more _ hmore
  cases ts with
  | nil => exact .of_misses (.token nofun) (.token (hmore.ne hk))
  | cons t ts => exact token_cons

theorem rightParen : Local (d + 1) (Production.token .rightParen : Production Unit Token) := by
  intro ts more hts _
  cases ts with
  | nil =>
    -- the tokens that close a parenthesis are not all gone
    rw [Token.Balanced, balance_nil] at hts
    omega
  | cons t ts => exact token_cons

theorem opening {f : Token → Production Unit β} (hf : ∀ t, Local (d + 1) (f t)) :
    Local d (Production.token .leftParen >>= f) :=
  (token (k := .leftParen) nofun).bind .token_balanced rfl hf

theorem closing {f : Token → Production Unit β} (hf : ∀ t, Local d (f t)) :
    Local (d + 1) (Production.token .rightParen >>= f) :=
  rightParen.bind .token_balanced (Int.add_neg_cancel_right d 1).symm hf

theorem closing_demand {line : Nat} {problem : SyntaxProblem} {f : Token → Production Unit β}
    (hf : ∀ t, Local d (f t)) : Local (d + 1) ((Production.token .rightParen).demand line problem >>= f) :=
  rightParen.demand.bind Takes.token_balanced.demand (Int.add_neg_cancel_right d 1).symm hf

theorem token_bind (hk : k.depth = 0) {f : Token → Production Unit β} (hf : ∀ t, Local d (f t)) :
    Local d (Production.token k >>= f) :=
  (token (by rintro rfl; cases hk)).andThen (hk ▸ .token_balanced) hf

theorem accepts (hk : k.depth = 0) : Local d (accepts k : Production Unit Bool) :=
  (token_bind hk fun _ => pure).orElse pure

end

theorem symbol {select : Kind → Option β} (hr : select .rightParen = none) :
    Local d (Production.symbol select : Production Unit (β × Nat)) := by
  intro ts more _ hmore
  cases ts with
  | nil => exact .of_misses (.symbol nofun) (.symbol fun k hk => hmore k hk ▸ hr)
  | cons t ts =>
    cases hs : select t.kind with
    | none => exact .of_misses (.symbol (by simpa using hs)) (.symbol (by simpa using hs))
    | some b => exact .of_finds (.symbol hs) (.symbol hs)

/-- With more tokens there may be a next one where there was none. -/
theorem peek {f : Token → Production Unit β} (hnil : ∀ t, Misses (f t) []) (hf : ∀ t, Local d (f t)) :
    Local d (Production.peek >>= f) := by
  intro ts more hts hmore
  match ts, more with
  | t :: ts, _ => exact hf t hts hmore
  | [], [] => exact .of_misses Misses.peek.head Misses.peek.head
  | [], u :: more => exact .of_misses Misses.peek.head (.tail .peek ((hf u hts hmore).misses (hnil u)))

theorem unlessNext {c : Kind → Bool} (hr : c .rightParen = false) :
    Local d (unlessNext c : Production Unit Unit) := by
  intro ts more _ hmore
  cases ts with
  | nil => exact .of_finds (.unlessNext nofun) (.unlessNext fun k hk => hmore k hk ▸ hr)
  | cons t ts =>
    cases hc : c t.kind with
    | false => exact .of_finds (.unlessNext (by simpa using hc)) (.unlessNext (by simpa using hc))
    | true => exact .of_misses (.unlessNext rfl hc) (.unlessNext rfl hc)

theorem modifyScopes {g : ScopeTable → ScopeTable} : Local d (modifyScopes g : Production Unit Unit) :=
  fun _ _ _ _ _ _ => .found

theorem lineAfter {t : Token} {problem : SyntaxProblem} (h : Local d p) :
    Local d (lineAfter t >>= fun line => p.demand line problem) :=
  fun _ _ hts hmore tr tr' => (h hts hmore).demand tr tr'

/-! ### Repetition -/

section
variable (h : Local d p) (ht : Takes (Settled 0) p) (hnil : Misses p [])
include h ht hnil

theorem repeated : ∀ {m n : Nat} {ts more : List Token}, ts.length ≤ m → (ts ++ more).length ≤ n →
    Balanced (-d) ts → Closing more → Agrees ts more (Production.repeated p m) (Production.repeated p n)
  | _, _, [], _, hm, hn, hts, hmore =>
    .of_finds ((FindsAll.stop hnil).repeated hm) ((FindsAll.stop ((h hts hmore).misses hnil)).repeated hn)
  | m + 1, n + 1, t :: ts, more, hm, hn, hts, hmore => by
    -- a round takes a token at least, so that either count lasts as long as there are tokens
    refine ((h hts hmore).bind fun a rest tr tr₁ hx => ?_).orElse .pure
    obtain ⟨used, hused, hsettled⟩ := ht hx
    have hpos := List.length_pos_iff.mpr hsettled.ne_nil
    rw [hused] at hm hn hts
    simp only [List.length_append] at hm hn
    have hrest : Balanced (-d) rest := Token.Balanced.of_append (by rwa [Int.zero_add]) hsettled.balanced
    refine (repeated (by omega) (by rw [List.length_append]; omega) hrest hmore).bind fun _ _ _ _ _ => ?_
    exact .pure

theorem many {f : List α → Production Unit β} (hf : ∀ as, Local d (f as)) : Local d (Production.many p >>= f) := by
  refine andThen ?_ (ht.complete.many.mono (·.balanced)) hf
  exact fun _ _ hts hmore => h.repeated ht hnil (Nat.le_refl _) (Nat.le_refl _) hts hmore

end

theorem orNil {p : Production Unit (List α)} (h : Local d p) : Local d (orNil p) := h.orElse pure

theorem listOf {wanted : Wanted} (h : Local d p) (ht : Takes (Settled 0) p) : Local d (listOf p wanted) := by
  refine h.andThen ht.balanced fun _ => many (token_bind rfl fun _ => h.lineAfter) ?_ ?_ fun _ => pure
  · exact Takes.token_balanced.lead rfl fun _ => Takes.lineAfter.skip fun _ => ht.demand
  · exact (Misses.token (by simp)).head

theorem inParens {list : Production Unit (List α)} {line : Nat} {unclosed : SyntaxProblem}
    (h : Local (d + 1) list) (ht : Takes Complete list) : Local d (inParens list line unclosed) := by
  refine orNil (opening fun _ => h.orNil.andThen (ht.orNil.mono (·.balanced)) fun _ => ?_)
  exact closing_demand fun _ => pure

/-! ## The grammar -/

theorem group {p : Production Unit Expr} (h : Local (d + 1) p) (ht : Takes (Settled 0) p) :
    Local d (Grammar.group p) :=
  opening fun _ => h.andThen ht.balanced fun _ => closing fun _ => pure

section
variable {p : Production Unit Expr} {op? : Kind → Option BinaryOp} {wanted : Wanted} (hl : op? .leftParen = none)
  (hr : op? .rightParen = none) (h : Local d p) (ht : Takes (Settled 0) p)
include hl hr h ht

theorem chainFrom {first : Expr} : Local d (Grammar.chainFrom p op? wanted first) := by
  refine many ?_ ?_ (Misses.symbol (by simp)).head fun _ => pure
  · exact (symbol hr).andThen (.symbol hl hr) fun _ => h.demand.andThen ht.demand.balanced fun _ => pure
  · exact (Takes.symbol hl hr).lead rfl fun _ => ht.demand.trail fun _ => .done

theorem chain : Local d (Grammar.chain p op? wanted) := h.andThen ht.balanced fun _ => chainFrom hl hr h ht

end

theorem comparison {p : Production Unit Expr} {op? : Kind → Option Comparison} {wanted : Wanted}
    (hl : op? .leftParen = none) (hr : op? .rightParen = none) (h : Local d p) (ht : Takes (Settled 0) p) :
    Local d (Grammar.comparison p op? wanted) := by
  refine h.andThen ht.balanced fun _ => (symbol hr).andThen (.symbol hl hr) fun _ => ?_
  exact h.demand.andThen ht.demand.balanced fun _ => pure

theorem minus {p : Production Unit Expr} {wanted : Wanted} (h : Local d p) (ht : Takes (Settled 0) p) :
    Local d (Grammar.minus p wanted) :=
  token_bind rfl fun _ => h.demand.andThen ht.demand.balanced fun _ => pure

theorem integer : Local d (Grammar.integer : Production Unit Expr) := by
  refine token_bind rfl fun t => ?_
  cases Integer.read? t.text with
  | none => exact fault
  | some n => exact pure

theorem float : Local d (Grammar.float : Production Unit Expr) := by
  refine token_bind rfl fun t => ?_
  cases FloatText.read? t.text with
  | none => exact fault
  | some x => exact pure

theorem string : Local d (Grammar.string : Production Unit Expr) := token_bind rfl fun _ => pure

theorem boolean : Local d (Grammar.boolean : Production Unit Expr) :=
  (token_bind rfl fun _ => pure).orElse (token_bind rfl fun _ => pure)

theorem nil : Local d (Grammar.nil : Production Unit Expr) := token_bind rfl fun _ => pure

theorem gets : Local d (Grammar.gets : Production Unit Expr) := token_bind rfl fun _ => pure

theorem target : Local d (Grammar.target : Production Unit (Nat × String)) :=
  token_bind rfl fun _ => modifyScopes.andThen (Takes.modifyScopes.mono fun h => h ▸ rfl) fun _ => pure

theorem missingFactor {negated : Bool} {op : Negation} {line : Nat} :
    Local d (Grammar.missingFactor negated op line : Production Unit Expr) := by
  cases negated with
  | true => exact fault
  | false => exact noMatch

end Local

end Production

/-- The looser boolean factor behind its negation. -/
def Grammar.lowAtom (mem : Memory Unit) (r : Rules Unit) (negated : Bool) (line : Nat) : Production Unit Expr :=
  condition mem r <|> assign r line <|> highBoolean mem r <|> missingFactor negated .not line

theorem Grammar.lowFactor_eq (mem : Memory Unit) (r : Rules Unit) : lowFactor mem r = (do
    let t ← peek
    let negated ← accepts .kwNot
    let e ← lowAtom mem r negated t.line
    return if negated then .negate t.line .not e else e) := rfl

theorem Grammar.misses_lowAtom_nil {r : Rules Unit} {line : Nat} : Misses (lowAtom .off r false line) [] := by
  have hnumber : Misses (number .off r) [] := misses_number (by simp)
  have hboolean : Misses (highBoolean .off r) [] := misses_highBoolean Misses.peek.head
  have hstring : Misses (string : Production Unit _) [] := Misses.string (by simp)
  have hgets : Misses (gets : Production Unit _) [] := Misses.gets (by simp)
  refine (misses_condition hnumber.stops hboolean.stops hstring.stops hgets.stops).orElse ?_
  exact (misses_assign rfl).orElse (hboolean.orElse misses_missingFactor)

/-- Whatever the rules are asked for, a closing parenthesis behind it changes nothing. -/
structure Rules.Local (r : Rules Unit) : Prop where
  settle : r.Settle
  value (d : Nat) : r.value.Local d
  lowBoolean (d : Nat) : r.lowBoolean.Local d
  number (d : Nat) : r.number.Local d
  numberFactor (d : Nat) : r.numberFactor.Local d

namespace Production.Local

variable {d : Nat} {r : Rules Unit} (hr : r.Local)
include hr

theorem values : Local d (Grammar.values r) := (hr.value d).listOf hr.settle.value

theorem call : Local d (Grammar.call .off r) := by
  have ht := (Takes.values hr.settle).complete
  rw [Grammar.call, memoized_off]
  exact token_bind rfl fun _ => (inParens (values hr) ht).andThen (ht.inParens.mono (·.balanced)) fun _ => pure

theorem stores : Local d (Grammar.stores r) := by
  have ht := (Takes.values hr.settle).complete
  refine peek (fun _ => (Misses.target (by simp)).head) fun _ => target.andThen Takes.target.balanced fun _ => ?_
  refine many (token_bind rfl fun _ => target) ?_ (Misses.token (by simp)).head fun _ => ?_
  · exact Takes.token_balanced.lead rfl fun _ => .target
  · exact token_bind rfl fun _ => (values hr).orNil.andThen (ht.orNil.mono (·.balanced)) fun _ => pure

theorem assign {line : Nat} : Local d (Grammar.assign r line) :=
  (stores hr).andThen (Takes.stores hr.settle).balanced fun _ => pure

theorem numberFactor : Local d (Grammar.numberFactor .off r) := by
  have hminus : Local d (Grammar.minus r.numberFactor .factor) := minus (hr.numberFactor d) hr.settle.numberFactor
  refine integer.orElse (float.orElse ((call hr).orElse (hminus.orElse ?_)))
  refine peek (fun _ => Misses.group (by simp)) fun _ => ?_
  exact group ((assign hr).orElse (hr.number _)) ((Takes.assign hr.settle).orElse hr.settle.number)

theorem numberTerm : Local d (Grammar.numberTerm .off r) :=
  chain rfl rfl (numberFactor hr) (.numberFactor hr.settle)

theorem number : Local d (Grammar.number .off r) := by
  have hterm : Local d (Grammar.numberTerm .off r) := numberTerm hr
  have ht := Takes.numberTerm hr.settle
  rw [Grammar.number, memoized_off]
  exact ((minus hterm ht).orElse hterm).andThen (ht.minus.orElse ht).balanced fun _ => chainFrom rfl rfl hterm ht

theorem highFactor : Local d (Grammar.highFactor .off r) := by
  have h {negated : Bool} {line : Nat} : Local d (Grammar.highAtom .off r negated line) := by
    refine boolean.orElse (nil.orElse ((call hr).orElse ((group (hr.lowBoolean _) hr.settle.lowBoolean).orElse ?_)))
    exact (unlessNext rfl).andThen (Takes.unlessNext.mono fun h => h ▸ rfl) fun _ => missingFactor
  have ht {negated : Bool} {line : Nat} : Takes (Settled 0) (Grammar.highAtom .off r negated line) := by
    refine Takes.boolean.orElse (Takes.nil.orElse ((Takes.call hr.settle).orElse ?_))
    exact hr.settle.lowBoolean.group.orElse (Takes.unlessNext.skip fun _ => .missingFactor)
  rw [Grammar.highFactor_eq]
  refine peek (fun t => .tail (.notAccepts (by simp)) (Grammar.misses_highAtom (by simp)).head) fun t => ?_
  refine (accepts rfl).andThen (.accepts rfl) fun negated => h.andThen ht.balanced fun _ => ?_
  exact (unlessNext rfl).andThen (Takes.unlessNext.mono fun h => h ▸ rfl) fun _ => pure

theorem highTerm : Local d (Grammar.highTerm .off r) := chain rfl rfl (highFactor hr) (.highFactor hr.settle)

theorem highBoolean : Local d (Grammar.highBoolean .off r) := by
  rw [Grammar.highBoolean, memoized_off]
  exact chain rfl rfl (highTerm hr) (.highTerm hr.settle)

theorem comparable : Local d (Grammar.comparable .off r) :=
  (number hr).orElse ((highBoolean hr).orElse (string.orElse gets))

theorem orderable : Local d (Grammar.orderable .off r) := (number hr).orElse string

theorem condition : Local d (Grammar.condition .off r) :=
  (comparison rfl rfl (comparable hr) (.comparable hr.settle)).orElse
    (comparison rfl rfl (orderable hr) (.orderable hr.settle))

theorem lowFactor : Local d (Grammar.lowFactor .off r) := by
  have h {negated : Bool} {line : Nat} : Local d (Grammar.lowAtom .off r negated line) :=
    (condition hr).orElse ((assign hr).orElse ((highBoolean hr).orElse missingFactor))
  have ht {negated : Bool} {line : Nat} : Takes (Settled 0) (Grammar.lowAtom .off r negated line) :=
    (Takes.condition hr.settle).orElse
      ((Takes.assign hr.settle).orElse ((Takes.highBoolean hr.settle).orElse .missingFactor))
  rw [Grammar.lowFactor_eq]
  refine peek (fun t => .tail (.notAccepts (by simp)) Grammar.misses_lowAtom_nil.head) fun t => ?_
  exact (accepts rfl).andThen (.accepts rfl) fun negated => h.andThen ht.balanced fun _ => pure

theorem lowTerm : Local d (Grammar.lowTerm .off r) := chain rfl rfl (lowFactor hr) (.lowFactor hr.settle)

theorem lowBoolean : Local d (Grammar.lowBoolean .off r) := chain rfl rfl (lowTerm hr) (.lowTerm hr.settle)

theorem value : Local d (Grammar.value .off r) := by
  rw [Grammar.value, memoized_off]
  exact (lowBoolean hr).orElse ((number hr).orElse (string.orElse gets))

end Production.Local

/-! ## Without a bound -/

section
variable {α : Type} {p : Production Unit α} {q : Nat → Production Unit α}
  (heq : ∀ {ts : List Token} {n : Nat}, ts.length < n → q n ts = p ts)
include heq

theorem Production.Takes.of_bounded {P : List Token → Prop} (h : ∀ n, Takes P (q n)) : Takes P p := by
  intro ts tr a rest tr' hp
  rw [← heq (Nat.lt_succ_self ts.length)] at hp
  exact h _ hp

theorem Production.Local.of_bounded {d : Nat} (h : ∀ n, Local d (q n)) : Local d p := by
  -- a bound for the longer tokens does for the shorter ones too
  intro ts more hts hmore tr tr'
  have hlen : ts.length < (ts ++ more).length + 1 := by
    rw [List.length_append]
    omega
  have hagrees := h ((ts ++ more).length + 1) hts hmore tr tr'
  rwa [heq hlen, heq (Nat.lt_succ_self _)] at hagrees

end

namespace Rules

theorem local_upTo : ∀ n, (upTo .off n).Local
  | 0 => ⟨settle_upTo 0, fun _ => .noMatch, fun _ => .noMatch, fun _ => .noMatch, fun _ => .noMatch⟩
  | n + 1 =>
    have ih := local_upTo n
    ⟨settle_upTo (n + 1), fun _ => .value ih, fun _ => .lowBoolean ih, fun _ => .number ih, fun _ => .numberFactor ih⟩

open Bridge in
theorem local_full : full.Local := by
  have hvalue {ts : List Token} {n : Nat} := ((rulesSim_upTo_full ts n).value).eq_of_same Expr.mapLine_id
  have hboolean {ts : List Token} {n : Nat} := ((rulesSim_upTo_full ts n).lowBoolean).eq_of_same Expr.mapLine_id
  have hnumber {ts : List Token} {n : Nat} := ((rulesSim_upTo_full ts n).number).eq_of_same Expr.mapLine_id
  have hfactor {ts : List Token} {n : Nat} := ((rulesSim_upTo_full ts n).numberFactor).eq_of_same Expr.mapLine_id
  refine ⟨⟨?_, ?_, ?_, ?_⟩, fun d => ?_, fun d => ?_, fun d => ?_, fun d => ?_⟩
  · exact .of_bounded hvalue fun n => (settle_upTo n).value
  · exact .of_bounded hboolean fun n => (settle_upTo n).lowBoolean
  · exact .of_bounded hnumber fun n => (settle_upTo n).number
  · exact .of_bounded hfactor fun n => (settle_upTo n).numberFactor
  · exact .of_bounded hvalue fun n => (local_upTo n).value d
  · exact .of_bounded hboolean fun n => (local_upTo n).lowBoolean d
  · exact .of_bounded hnumber fun n => (local_upTo n).number d
  · exact .of_bounded hfactor fun n => (local_upTo n).numberFactor d

end Rules

/-! ## Without open parentheses -/

namespace Production

variable {α : Type} {p : Production Unit α} {ts more rest : List Token} {a : α}

theorem Takes.finds {P : List Token → Prop} (h : Takes P p) (hp : Finds p ts a rest) :
    ∃ used, ts = used ++ rest ∧ P used := by
  obtain ⟨tr₁, hp⟩ := hp start
  exact h hp

namespace Local

variable (h : Local 0 p) (hts : Balanced 0 ts)
include h hts

theorem agrees (hmore : Closing more) : Agrees ts more p p := h hts hmore

theorem finds_of_run {tr : Trace Unit} (hrun : (p ts tr).1 = .found a rest) : Finds p ts a rest := by
  simpa using (h.agrees hts closing_nil).finds_of_run hrun

theorem cases : (∃ a rest, Finds p ts a rest) ∨ Misses p ts ∨ Faults p ts := by
  have hagrees := h.agrees hts closing_nil
  cases hrun : (p ts start).1 with
  | found a rest => exact .inl ⟨a, rest, h.finds_of_run hts hrun⟩
  | noMatch => exact .inr (.inl (by simpa using hagrees.misses_of_run hrun))
  | fault e => exact .inr (.inr (by simpa using hagrees.faults_of_run hrun))

end Local

end Production

end Sprig
