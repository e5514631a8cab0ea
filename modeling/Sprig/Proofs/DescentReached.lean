import Sprig.Proofs.DescentLines

/-!
# The states that a parse comes to

`Reached` collects the states in which a parse may enter a production. A walk that starts in one of them ends in one of
them, if it ends (`Reached.of_run`). What a production does there depends on nothing but what the productions that it
enters do in such states (`Reached.body_eq`).
-/

namespace Sprig.Descent

open Move

/-- The states that a parse comes to. In the middle of a walk no more has happened than that productions on lines have
come to an end, that names were declared, and that the cursor was moved. -/
inductive Reached (lines : List LogicalLine) : State → Prop where
  | start : Reached lines ⟨⟨0, 0⟩, .initial, ∅⟩
  | moved {before : State} (position : Position) : Reached lines before → Reached lines { before with position }
  | declared {before : State} (scopes : ScopeTable) : Reached lines before → Reached lines { before with scopes }
  | walked {before after : State} {n : Nat} {opened : List (Part × Position)} {p : Nonterminal} {r : Option p.Item} :
    Reached lines before → run lines n opened (.item p) before = .ok (r, after) → Reached lines after

/-- From the states that a parse comes to, both do the same. -/
def Agree (lines : List LogicalLine) {α : Type} (c d : Move α) : Prop := ∀ s, Reached lines s → c s = d s

/-- From the states that a parse comes to, both do the same, and come to such states. -/
structure Within (lines : List LogicalLine) {α : Type} (c d : Move α) : Prop where
  agree : Agree lines c d
  reached {s s' a} : Reached lines s → c s = .ok (a, s') → Reached lines s'

variable {lines : List LogicalLine} {α β : Type}

theorem Agree.bind {c d : Move α} {f g : α → Move β} (h : Within lines c d) (hfg : ∀ a, Agree lines (f a) (g a)) :
    Agree lines (c >>= f) (d >>= g) := by
  intro s hs
  have hcd := h.agree s hs
  rcases hc : c s with e | ⟨a, s'⟩
  · rw [bind_error hc, bind_error (hcd ▸ hc)]
  · rw [bind_ok hc, bind_ok (hcd ▸ hc)]
    exact hfg a s' (h.reached hs hc)

theorem Agree.memoized {rule : Rule} {c d : Move (Option Expr)} (h : Agree lines c d) :
    Agree lines (memoized rule c) (memoized rule d) := by
  intro s hs
  rw [memoized_eq, memoized_eq]
  rcases s.memo[(rule, s.position)]? with _ | _ | _
  · exact bind_congr (h s hs)
  · rfl
  · rfl

namespace Within

/-! ## Moves that enter nothing -/

theorem pure (a : α) : Within lines (Pure.pure a) (Pure.pure a) where
  agree _ _ := rfl
  reached hs h := by
    cases h
    exact hs

theorem halt {e : Halt} : Within lines (throw e : Move α) (throw e) where
  agree _ _ := rfl
  reached _ h := by cases h

theorem fault {line : Nat} {problem : SyntaxProblem} :
    Within lines (Move.fault line problem : Move α) (Move.fault line problem) := halt

theorem get : Within lines (MonadState.get : Move State) MonadState.get where
  agree _ _ := rfl
  reached hs h := by
    cases h
    exact hs

theorem restore (position : Position) : Within lines (Move.restore position) (Move.restore position) where
  agree _ _ := rfl
  reached hs h := by
    cases h
    exact .moved position hs

theorem modifyScopes (f : ScopeTable → ScopeTable) : Within lines (Move.modifyScopes f) (Move.modifyScopes f) where
  agree _ _ := rfl
  reached hs h := by
    cases h
    exact .declared _ hs

variable {c c' : Move α} {f f' : α → Move β}

theorem bind (h : Within lines c c') (hf : ∀ a, Within lines (f a) (f' a)) :
    Within lines (c >>= f) (c' >>= f') where
  agree := Agree.bind h fun a => (hf a).agree
  reached {s s' b} hs hb := by
    rcases hc : c s with e | ⟨a, s₁⟩
    · rw [bind_error hc] at hb
      cases hb
    · rw [bind_ok hc] at hb
      exact (hf a).reached (h.reached hs hc) hb

theorem ite {b : Prop} [Decidable b] {d d' : Move α} (h : Within lines c c') (h' : Within lines d d') :
    Within lines (if b then c else d) (if b then c' else d') := by
  split
  · exact h
  · exact h'

theorem snapshot : Within lines snapshot snapshot := get.bind fun _ => pure _

theorem back (start : Position) : Within lines (back start : Move (Option α)) (back start) :=
  (restore start).bind fun _ => pure _

theorem peek : Within lines (peek lines) (peek lines) := snapshot.bind fun _ => pure _

theorem peekKind : Within lines (peekKind lines) (peekKind lines) := peek.bind fun _ => pure _

theorem check (k : Kind) : Within lines (check lines k) (check lines k) := peekKind.bind fun _ => pure _

theorem lineNumber : Within lines (lineNumber lines) (lineNumber lines) := snapshot.bind fun _ => pure _

theorem toLineStart : Within lines toLineStart toLineStart := snapshot.bind fun _ => restore _

theorem toNextLine : Within lines toNextLine toNextLine := snapshot.bind fun _ => restore _

theorem advance : Within lines (advance lines) (advance lines) := by
  refine snapshot.bind fun start => peek.bind fun t => ?_
  cases t with
  | none => exact pure _
  | some t => exact (restore _).bind fun _ => pure _

theorem matchKind (k : Kind) : Within lines (matchKind lines k) (matchKind lines k) :=
  (check k).bind fun _ => ite (advance.bind fun _ => pure _) (pure _)

theorem expectLineEnd : Within lines (expectLineEnd lines) (expectLineEnd lines) := by
  refine peek.bind fun t => ?_
  cases t with
  | none => exact pure _
  | some t => exact fault

theorem terminal (k : Kind) (make : Token → Expr) : Within lines (terminal lines k make) (terminal lines k make) :=
  (check k).bind fun _ => ite (advance.bind fun _ => pure _) (pure _)

theorem numeral : Within lines (numeral lines) (numeral lines) := by
  refine peek.bind fun t => ?_
  rcases t with _ | t
  · exact pure _
  · refine ite ?_ (ite ?_ (pure _))
    · cases Integer.read? t.text with
      | none => exact fault
      | some n => exact advance.bind fun _ => pure _
    · cases FloatText.read? t.text with
      | none => exact fault
      | some x => exact advance.bind fun _ => pure _

theorem target : Within lines (target lines) (target lines) := by
  refine (check _).bind fun _ => ite (advance.bind fun t => ?_) (pure _)
  cases t with
  | none => exact pure _
  | some t => exact (modifyScopes _).bind fun _ => pure _

/-! ## Moves made of others -/

section
variable {d d' : Move (Option α)} {o o' : Move (Option α)}

theorem orTry (h : Within lines d d') (ho : Within lines o o') : Within lines (d.orTry o) (d'.orTry o') := by
  refine h.bind fun a => ?_
  cases a with
  | none => exact ho
  | some a => exact pure _

theorem andThen {k k' : α → Move (Option β)} (h : Within lines d d') (hk : ∀ a, Within lines (k a) (k' a)) :
    Within lines (d.andThen k) (d'.andThen k') := by
  refine h.bind fun a => ?_
  cases a with
  | none => exact pure _
  | some a => exact hk a

theorem as (h : Within lines d d') (f : α → β) : Within lines (d.as f) (d'.as f) := h.bind fun _ => pure _

theorem demand (h : Within lines d d') {line : Nat} {problem : SyntaxProblem} :
    Within lines (d.demand line problem) (d'.demand line problem) := by
  refine h.bind fun a => ?_
  cases a with
  | none => exact fault
  | some a => exact pure _

theorem orNil {d d' : Move (Option (List α))} (h : Within lines d d') : Within lines d.orNil d'.orNil :=
  h.bind fun _ => pure _

/-- By induction on the rounds. -/
theorem loop {round round' : α → Move (β ⊕ α)} (h : ∀ a, Within lines (round a) (round' a)) (rounds : Nat) :
    ∀ a, Within lines (loop round rounds a) (loop round' rounds a) := by
  induction rounds with
  | zero => exact fun _ => halt
  | succ rounds ih =>
    refine fun a => snapshot.bind fun start => (h a).bind fun r => ?_
    cases r with
    | inl b => exact pure b
    | inr a => exact snapshot.bind fun stop => ite (ih a) halt

end

/-! ## Productions on a line -/

section
variable {d d' : Move (Option Expr)} {rounds : Nat} {op? : Kind → Option BinaryOp} {wanted : Wanted}

theorem chainFrom (h : Within lines d d') (first : Expr) :
    Within lines (chainFrom lines rounds d op? wanted first) (chainFrom lines rounds d' op? wanted first) := by
  refine (loop (fun left => peekKind.bind fun k => ?_) rounds first).bind fun _ => pure _
  cases k.bind op? with
  | none => exact pure _
  | some op => exact lineNumber.bind fun _ => advance.bind fun _ => h.demand.bind fun _ => pure _

theorem chain (h : Within lines d d') :
    Within lines (chain lines rounds d op? wanted) (chain lines rounds d' op? wanted) := h.andThen h.chainFrom

theorem comparison {op? : Kind → Option Comparison} (h : Within lines d d') :
    Within lines (comparison lines d op? wanted) (comparison lines d' op? wanted) := by
  refine snapshot.bind fun start => h.andThen fun left => peekKind.bind fun k => ?_
  cases k.bind op? with
  | none => exact back _
  | some op => exact lineNumber.bind fun _ => advance.bind fun _ => h.demand.bind fun _ => pure _

theorem minus (h : Within lines d d') : Within lines (minus lines d wanted) (minus lines d' wanted) :=
  lineNumber.bind fun _ => advance.bind fun _ => h.demand.bind fun _ => pure _

theorem closed (h : Within lines d d') (start : Position) :
    Within lines (closed lines start d) (closed lines start d') := by
  refine h.bind fun e => ?_
  cases e with
  | none => exact back _
  | some e => exact (matchKind _).bind fun _ => ite (pure _) (back _)

theorem listOf {d d' : Move (Option α)} (h : Within lines d d') :
    Within lines (listOf lines rounds d wanted) (listOf lines rounds d' wanted) := by
  refine h.andThen fun first => (loop (fun items => ?_) rounds [first]).bind fun _ => pure _
  exact (matchKind _).bind fun _ => ite (lineNumber.bind fun _ => h.demand.bind fun _ => pure _) (pure _)

theorem nextTarget {d d' : Move (Option α)} (h : Within lines d d') (targets : List α) :
    Within lines (nextTarget lines d targets) (nextTarget lines d' targets) := by
  refine (matchKind _).bind fun _ => ite (h.bind fun a => ?_) (pure _)
  cases a with
  | none => exact pure _
  | some a => exact pure _

theorem inParens {d d' : Move (Option (List α))} (h : Within lines d d') {line : Nat} {unclosed : SyntaxProblem} :
    Within lines (inParens lines d line unclosed) (inParens lines d' line unclosed) :=
  (matchKind _).bind fun _ => ite (h.orNil.bind fun _ => (matchKind _).bind fun _ => ite (pure _) fault) (pure _)

theorem negated {start : Position} {op : Negation} {line : Nat} {isNegated : Bool} (e : Option Expr) :
    Within lines (negated start op line isNegated e) (negated start op line isNegated e) := by
  cases e with
  | none => exact ite fault (back _)
  | some e => exact pure _

theorem parenthesized (h : Within lines d d') {start : Position} {line : Nat} {isNegated : Bool} :
    Within lines (parenthesized lines start line isNegated d) (parenthesized lines start line isNegated d') :=
  (matchKind _).bind fun _ => ite (h.closed start) (ite fault (pure _))

theorem unlessArithmetic {start : Position} {line : Nat} {isNegated : Bool} (e : Option Expr) :
    Within lines (unlessArithmetic lines start line isNegated e) (unlessArithmetic lines start line isNegated e) := by
  cases e with
  | none => exact back _
  | some e => exact peekKind.bind fun _ => ite (back _) (pure _)

end

end Within

section
variable {enter enter' : (p : Nonterminal) → Move (Option p.Item)} {rounds : Nat}
  (h : ∀ q, Within lines (enter q) (enter' q))
include h

theorem Agree.number : Agree lines (Nonterminal.body lines rounds enter .number)
    (Nonterminal.body lines rounds enter' .number) := by
  refine .memoized (Within.agree ?_)
  refine .bind .peek fun _ => .ite (.bind .snapshot fun start => .andThen ?_ (h _).chainFrom) (.pure _)
  exact .bind (.check _) fun _ => .ite (.bind (h _).minus fun _ => .pure _) (.orTry (h _) (.back _))

theorem Agree.call : Agree lines (Nonterminal.body lines rounds enter .call)
    (Nonterminal.body lines rounds enter' .call) := by
  refine .memoized (Within.agree ?_)
  refine .bind (.check _) fun _ => .ite (.bind .lineNumber fun _ => .bind .advance fun _ => ?_) (.pure _)
  exact (h _).inParens.bind fun _ => .pure _

theorem Within.lowFactor : Within lines (Nonterminal.body lines rounds enter .lowFactor)
    (Nonterminal.body lines rounds enter' .lowFactor) := by
  refine .bind .snapshot fun _ => .bind .lineNumber fun _ => .bind (.matchKind _) fun _ => ?_
  exact .bind ((h _).orTry (((h _).as _).orTry (h _))) .negated

theorem Within.highFactor : Within lines (Nonterminal.body lines rounds enter .highFactor)
    (Nonterminal.body lines rounds enter' .highFactor) := by
  refine .bind .peek fun _ => .ite ?_ (.pure _)
  refine .bind .snapshot fun _ => .bind .lineNumber fun _ => .bind (.matchKind _) fun _ => ?_
  exact .bind ((h _).orTry ((h _).orTry ((h _).orTry (h _).parenthesized))) .unlessArithmetic

theorem Within.numberFactor : Within lines (Nonterminal.body lines rounds enter .numberFactor)
    (Nonterminal.body lines rounds enter' .numberFactor) := by
  refine .orTry (h _) (.orTry (h _) (.bind (.check _) fun _ => .ite (.bind (h _).minus fun _ => .pure _) ?_))
  refine .bind (.check _) fun _ => .ite ?_ (.pure _)
  refine .bind .snapshot fun _ => .bind .lineNumber fun _ => .bind .advance fun _ => ?_
  exact .closed (((h _).as _).orTry (h _)) _

theorem Within.assign : Within lines (Nonterminal.body lines rounds enter .assign)
    (Nonterminal.body lines rounds enter' .assign) := by
  refine .bind .snapshot fun _ => .bind .lineNumber fun _ => .bind (h _) fun targets => ?_
  cases targets with
  | none => exact .back _
  | some targets => exact .bind (.matchKind _) fun _ => .ite (.bind (h _).orNil fun _ => .pure _) (.back _)

/-- What a production on a line does depends on no more than what those it enters do. -/
theorem Agree.item (p : Nonterminal) :
    Agree lines (p.body lines rounds enter) (p.body lines rounds enter') := by
  cases p with
  | value => exact .memoized (Within.agree (.orTry (h _) (.orTry (h _) (.orTry (h _) (h _)))))
  | highBoolean => exact .memoized (h _).chain.agree
  | number => exact .number h
  | call => exact .call h
  | lowBoolean => exact (h .lowTerm).chain.agree
  | lowTerm => exact (h .lowFactor).chain.agree
  | highTerm => exact (h .highFactor).chain.agree
  | numberTerm => exact (h .numberFactor).chain.agree
  | lowFactor => exact (Within.lowFactor h).agree
  | highFactor => exact (Within.highFactor h).agree
  | numberFactor => exact (Within.numberFactor h).agree
  | condition => exact Within.agree (.orTry (h _) (h _))
  | valueCondition => exact (h .conditionValue).comparison.agree
  | numberCondition => exact (h .orderingOperand).comparison.agree
  | conditionValue => exact Within.agree (.orTry (h _) (.orTry (h _) (.orTry (h _) (h _))))
  | orderingOperand => exact Within.agree (.orTry (h _) (h _))
  | literal => exact Within.numeral.agree
  | string => exact (Within.terminal _ _).agree
  | boolean => exact Within.agree (.orTry (.terminal _ _) (.terminal _ _))
  | nil => exact (Within.terminal _ _).agree
  | gets => exact (Within.terminal _ _).agree
  | var => exact Within.target.agree
  | assign => exact (Within.assign h).agree
  | leftValues => exact ((h .var).andThen fun first => .loop (h .var).nextTarget rounds [first]).agree
  | valueList => exact (h .value).listOf.agree
  | varList => exact (h .var).listOf.agree

end

/-! ## Lines and blocks -/

section
variable {enter enter' : (p : Part) → Move p.Result} {rounds : Nat} (h : ∀ p, Within lines (enter p) (enter' p))
include h

theorem Within.under : Within lines (under lines enter) (under lines enter') :=
  .bind .expectLineEnd fun _ => .bind .toNextLine fun _ => h _

omit h in
theorem Within.close {keyword : String} {line : Nat} :
    Within lines (close lines keyword line) (close lines keyword line) :=
  .bind (.matchKind _) fun _ => .ite (.pure _) .fault

theorem Within.listing {k : Kind} {make : Nat → List Expr → Stmt} :
    Within lines (listing lines enter k make) (listing lines enter' k make) := by
  refine .bind (.check _) fun _ => .ite (.bind .lineNumber fun _ => .bind .advance fun _ => ?_) (.pure _)
  exact .bind (.orNil (h (.item .valueList))) fun _ => .pure _

theorem Within.nextArm (arms : List Arm) : Within lines (nextArm enter arms) (nextArm enter' arms) := by
  refine .bind (h _) fun r => ?_
  rcases r with _ | ⟨arm, _⟩
  · exact .pure _
  · exact .pure _

theorem Within.nextStatements (stmts : List Stmt) :
    Within lines (nextStatements lines enter stmts) (nextStatements lines enter' stmts) := by
  refine .bind .snapshot fun _ => .ite (.bind .toLineStart fun _ => .bind (h _) fun more => ?_) (.pure _)
  cases more with
  | none => exact .pure _
  | some more => exact .bind .expectLineEnd fun _ => .bind .toNextLine fun _ => .pure _

theorem Within.ifStatement (keyword : Kind) : Within lines (Part.body lines rounds enter (.ifStatement keyword))
    (Part.body lines rounds enter' (.ifStatement keyword)) := by
  refine .bind (.check _) fun _ => .ite ?_ (.pure _)
  refine .bind .lineNumber fun _ => .bind .advance fun _ => ?_
  refine .bind (.demand (h (.item .lowBoolean))) fun _ => .bind (.under h) fun _ => .ite ?_ (.pure _)
  refine .bind (.loop (.nextArm h) _ _) fun _ => .bind (.matchKind _) fun _ => ?_
  split
  · exact .bind (.under h) fun _ => .bind (.pure _) fun _ => .bind .close fun _ => .pure _
  · exact .bind (.pure _) fun _ => .bind .close fun _ => .pure _

theorem Within.whileStatement : Within lines (Part.body lines rounds enter .whileStatement)
    (Part.body lines rounds enter' .whileStatement) := by
  refine .bind (.check _) fun _ => .ite (.bind .lineNumber fun _ => .bind .advance fun _ => ?_) (.pure _)
  refine .bind (.demand (h (.item .lowBoolean))) fun _ => .bind (.under h) fun _ => ?_
  exact .bind .close fun _ => .pure _

theorem Within.functionDefinition : Within lines (Part.body lines rounds enter .functionDefinition)
    (Part.body lines rounds enter' .functionDefinition) := by
  refine .bind (.check _) fun _ => .ite (.bind .lineNumber fun _ => .bind .advance fun _ => ?_) (.pure _)
  refine .bind (.check _) fun _ => .ite (.bind .advance fun _ => .bind (.modifyScopes _) fun _ => ?_) .fault
  refine .bind (.inParens (h (.item .varList))) fun _ => .bind (.under h) fun _ => .bind .close fun _ => ?_
  exact .bind .get fun _ => .bind (.modifyScopes _) fun _ => .pure _

omit h in
theorem Within.getsStatement : Within lines (Part.body lines rounds enter .getsStatement)
    (Part.body lines rounds enter .getsStatement) := by
  refine .bind (.check _) fun _ => .ite (.bind .snapshot fun _ => .ite ?_ (.pure _)) (.pure _)
  exact .bind .lineNumber fun _ => .bind .advance fun _ => .pure _

theorem Within.instructions : Within lines (Part.body lines rounds enter .instructions)
    (Part.body lines rounds enter' .instructions) :=
  .bind .lineNumber fun _ => .bind (.loop (.nextStatements h) _ _) fun _ => .bind .toLineStart fun _ => .pure _

theorem Within.instruction : Within lines (Part.body lines rounds enter .instruction)
    (Part.body lines rounds enter' .instruction) := by
  refine .orTry (.as (h (.item .assign)) _) (.orTry (.as (h _) _) (.orTry (.as (h _) _) ?_))
  refine .orTry (.as (h (.ifStatement .kwIf)) _) (.orTry (.as (h _) _) (.orTry (.as (h _) _) ?_))
  exact .orTry (.as (h _) _) (.as (h (.item .value)) _)

theorem Within.block {p : Part} (hp : ∀ q, p ≠ .item q) :
    Within lines (p.body lines rounds enter) (p.body lines rounds enter') := by
  cases p with
  | item p => exact absurd rfl (hp p)
  | instructions => exact .instructions h
  | instruction => exact .instruction h
  | ifStatement keyword => exact .ifStatement h keyword
  | whileStatement => exact .whileStatement h
  | functionDefinition => exact .functionDefinition h
  | printStatement => exact .listing h
  | putsStatement => exact .listing h
  | getsStatement => exact .getsStatement

end

/-! ## The walk -/

theorem Within.run (n : Nat) (opened : List (Part × Position)) (p : Part) :
    Within lines (run lines n opened p) (run lines n opened p) := by
  induction n generalizing opened p with
  | zero => exact .halt
  | succ n ih =>
    by_cases hp : ∃ q, p = .item q
    · obtain ⟨q, rfl⟩ := hp
      exact ⟨fun _ _ => rfl, .walked⟩
    · exact .bind .snapshot fun start => .ite .halt (.block (ih _) (not_exists.mp hp))

/-- A walk that starts in a state that a parse comes to ends in one. -/
theorem Reached.of_run {n : Nat} {opened : List (Part × Position)} {p : Part} {s s' : State} {r : p.Result}
    (hs : Reached lines s) (h : run lines n opened p s = .ok (r, s')) : Reached lines s' :=
  (Within.run n opened p).reached hs h

/-- What a production does in a state that a parse comes to depends on nothing but what those it enters do in such
states. -/
theorem Reached.body_eq {rounds n : Nat} {opened : List (Part × Position)} {enter : (p : Part) → Move p.Result}
    {s : State} (hs : Reached lines s) (h : ∀ q s, Reached lines s → run lines n opened q s = enter q s) (p : Part) :
    p.body lines rounds (run lines n opened) s = p.body lines rounds enter s := by
  have henter (q : Part) : Within lines (run lines n opened q) (enter q) :=
    ⟨h q, (Within.run n opened q).reached⟩
  by_cases hp : ∃ q, p = .item q
  · obtain ⟨q, rfl⟩ := hp
    exact Agree.item (fun q => henter (.item q)) q s hs
  · exact (Within.block henter (not_exists.mp hp)).agree s hs

end Sprig.Descent
