import Sprig.Proofs.DescentRules
import Sprig.Proofs.DescentWeights

/-!
# The walk on a line

Production by production, the walk with a cursor comes to what the grammar says (`Calls.of_run`). No more is asked of
the productions it enters than that they do so from positions of less weight, which counts the tokens left and, among
productions at one position, how tight they are. So no production is entered where it is still open, and the depth of
the walk is bounded.
-/

namespace Sprig.Descent

open Move

variable {lines : List LogicalLine} {s s' : State} {ts : List Token} {t : Token} {tr tr' : Trace Table} {α β : Type}

/-! ## At the end of a line -/

/-- There is no match at the end of a line, which leaves no more behind than a note of that. -/
def Quits (p : Production Table α) : Prop :=
  ∀ tr : Trace Table, tr.memory.FailsAtEnds →
    ∃ table, p [] tr = (.noMatch, ⟨tr.scopes, table⟩) ∧ Idle tr.memory table

namespace Quits

variable {p q : Production Table α}

theorem of_noMatch (h : ∀ tr, p [] tr = (.noMatch, tr)) : Quits p := fun tr htr => ⟨tr.memory, h tr, .refl htr⟩

theorem bind (h : Quits p) {f : α → Production Table β} : Quits (p >>= f) := by
  intro tr htr
  obtain ⟨table, hp, hidle⟩ := h tr htr
  refine ⟨table, ?_, hidle⟩
  rw [Production.bind_apply, hp]

theorem orElse (h : Quits p) (h' : Quits q) : Quits (p <|> q) := by
  intro tr htr
  obtain ⟨table, hp, hidle⟩ := h tr htr
  obtain ⟨table', hq, hidle'⟩ := h' ⟨tr.scopes, table⟩ hidle.ends
  refine ⟨table', ?_, hidle.trans hidle'⟩
  rw [Production.orElse_apply, hp]
  exact hq

theorem memoized {p : Production Table Expr} (h : Quits p) (line : Nat) (rule : Rule) :
    Quits (Production.memoized (pageOf lines line) rule p) := by
  intro tr htr
  obtain ⟨table, hp, hidle⟩ := h tr htr
  have hends : ∀ a, (pageOf lines line).find? tr.memory rule 0 = some a → a = none := fun a ha => htr ha
  rw [Production.memoized, List.length_nil, hp]
  generalize (pageOf lines line).find? tr.memory rule 0 = a at hends
  rcases a with _ | _ | _
  · exact ⟨_, rfl, hidle.insert _⟩
  · exact ⟨_, rfl, .refl htr⟩
  · cases hends _ rfl

theorem token {k : Kind} : Quits (Production.token k) := of_noMatch fun _ => rfl

theorem peek : Quits Production.peek := of_noMatch fun _ => rfl

theorem noMatch : Quits (Production.noMatch : Production Table α) := of_noMatch fun _ => rfl

section
variable {line : Nat} {r : Rules Table}

theorem call : Quits (Grammar.call (pageOf lines line) r) := token.bind.memoized line .call

theorem numberTerm : Quits (Grammar.numberTerm (pageOf lines line) r) := by
  refine bind (token.bind.orElse (token.bind.orElse (call.orElse (orElse ?_ ?_))))
  · exact token.bind
  · exact peek.bind

theorem number : Quits (Grammar.number (pageOf lines line) r) :=
  ((token.bind.orElse numberTerm).bind).memoized line .number

theorem highTerm : Quits (Grammar.highTerm (pageOf lines line) r) := peek.bind.bind

theorem highBoolean : Quits (Grammar.highBoolean (pageOf lines line) r) := highTerm.bind.memoized line .highBoolean

theorem condition : Quits (Grammar.condition (pageOf lines line) r) :=
  (bind (number.orElse (highBoolean.orElse (token.bind.orElse token.bind)))).orElse (bind (number.orElse token.bind))

theorem assign {l : Nat} : Quits (Grammar.assign r l) := peek.bind.bind

theorem lowFactor : Quits (Grammar.lowFactor (pageOf lines line) r) := peek.bind

end

end Quits

theorem Answer.at_end {tight : Prop} {p : Production Table α} {x : Except Halt (Option α × State)}
    (hs : Sees lines s [] tr) (hq : Quits p) :
    Answer tight lines s.position x (p [] tr) ↔ Answer tight lines s.position x (.noMatch, tr) := by
  obtain ⟨table, hp, hidle⟩ := hq tr hs.noted.ends
  rw [hp]
  constructor
  · intro h
    cases h with
    | noMatch hpos hknows => exact .noMatch hpos ⟨hknows.scopes, hknows.noted.of_idle hidle hs.noted.ends⟩
    | halted ht => exact .halted ht
  · intro h
    cases h with
    | noMatch hpos hknows => exact .noMatch hpos ⟨hknows.scopes, hknows.noted.idle hidle⟩
    | halted ht => exact .halted ht

/-! ## Attempts that are kept -/

section
variable {rule : Rule} {c : Move (Option Expr)} {e : Expr} {stop : Position}

theorem memoized_eq : Move.memoized rule c s = replay rule s.position c s.memo[(rule, s.position)]? s := by
  rw [Move.memoized, snapshot_bind]
  rfl

theorem memoized_found (h : s.memo[(rule, s.position)]? = some (some (e, stop))) :
    Move.memoized rule c s = .ok (some e, { s with position := stop }) := by
  rw [memoized_eq, h]
  rfl

theorem memoized_failed (h : s.memo[(rule, s.position)]? = some none) : Move.memoized rule c s = .ok (none, s) := by
  rw [memoized_eq, h]
  rfl

theorem memoized_new (h : s.memo[(rule, s.position)]? = none) :
    Move.memoized rule c s = (c >>= keep rule s.position) s := by
  rw [memoized_eq, h]
  rfl

end

theorem Follows.memoized {tight : Prop} {start : Position} {rule : Rule} {c : Move (Option Expr)}
    {p : Production Table Expr} (hq : Quits p) (hp : Follows tight lines start ts c p) :
    Follows tight lines start ts (Move.memoized rule c)
      (Production.memoized (pageOf lines start.line) rule p) := by
  rintro s tr rfl hs
  have h := hp rfl hs
  cases ts with
  | nil =>
    rw [Answer.at_end hs hq] at h
    rw [Answer.at_end hs (hq.memoized _ _)]
    rcases hm : s.memo[(rule, s.position)]? with _ | _ | ⟨e, stop⟩
    · rw [memoized_new hm]
      generalize hc : c s = x at h
      cases h with
      | noMatch hpos hknows =>
        rw [bind_ok hc]
        exact .noMatch rfl ⟨hknows.scopes, hknows.noted.insert_end hs.not_inside⟩
      | halted ht =>
        rw [bind_error hc]
        exact .halted ht
    · rw [memoized_failed hm]
      exact .noMatch rfl hs.toKnows
    · have hbeyond := hs.noted.beyond hm
      exact absurd (Nat.lt_of_lt_of_le hbeyond.index hbeyond.within) hs.not_inside
  | cons t ts =>
    have hfind : (pageOf lines s.position.line).find? tr.memory rule (t :: ts).length =
        (s.memo[(rule, s.position)]?).map (attemptOn (lineAt lines s.position.line)) := by
      rw [hs.length]
      exact hs.noted.same hs.inside
    rw [Production.memoized, hfind]
    rcases hm : s.memo[(rule, s.position)]? with _ | _ | ⟨e, stop⟩
    · rw [memoized_new hm]
      generalize hc : c s = x at h
      generalize p (t :: ts) tr = y at h
      cases h with
      | @found e s' rest tr' hbeyond hsees =>
        rw [bind_ok hc]
        have hrest : attemptOn (lineAt lines s.position.line) (some (e, s'.position)) = some (e, rest) := by
          rw [← hsees.left, hbeyond.line]
          rfl
        refine .found hbeyond ⟨⟨hsees.scopes, ?_⟩, hsees.left⟩
        rw [← hrest, hs.length]
        refine hsees.noted.insert hs.inside fun e' stop he => ?_
        cases he
        exact hbeyond
      | noMatch hpos hknows =>
        rw [bind_ok hc]
        refine .noMatch rfl ⟨hknows.scopes, ?_⟩
        rw [hs.length]
        exact hknows.noted.insert hs.inside (by simp)
      | fault =>
        rw [bind_error hc]
        exact .fault
      | halted ht =>
        rw [bind_error hc]
        exact .halted ht
    · rw [memoized_failed hm]
      exact .noMatch rfl hs.toKnows
    · have hbeyond := hs.noted.beyond hm
      rw [memoized_found hm]
      exact .found hbeyond ⟨hs.toKnows.at _, by rw [hbeyond.line]⟩

/-! ## The grammar -/

/-- Names with commas in between, as far as they go. -/
def leftTargets : Production Table (List (Nat × String)) := do
  let first ← Grammar.target
  let others ← Production.many do
    let _ ← Production.token .comma
    Grammar.target
  return first :: others

theorem stores_eq (r : Rules Table) : Grammar.stores r = (do
    let t ← Production.peek
    let names ← leftTargets
    let _ ← Production.token .equal
    return Assign.pair t.line names (← Production.orNil (Grammar.values r))) := by
  simp only [leftTargets, Production.bind_bind]
  rfl

/-- What the grammar says that a production takes. -/
def Nonterminal.grammar (mem : Memory Table) (r : Rules Table) : (p : Nonterminal) → Production Table p.Item
  | .value => Grammar.value mem r
  | .lowBoolean => Grammar.lowBoolean mem r
  | .lowTerm => Grammar.lowTerm mem r
  | .lowFactor => Grammar.lowFactor mem r
  | .condition => Grammar.condition mem r
  | .valueCondition => Grammar.comparison (Grammar.comparable mem r) Grammar.equalityOp .expression
  | .numberCondition => Grammar.comparison (Grammar.orderable mem r) Grammar.orderingOp .numberExpression
  | .conditionValue => Grammar.comparable mem r
  | .orderingOperand => Grammar.orderable mem r
  | .highBoolean => Grammar.highBoolean mem r
  | .highTerm => Grammar.highTerm mem r
  | .highFactor => Grammar.highFactor mem r
  | .number => Grammar.number mem r
  | .numberTerm => Grammar.numberTerm mem r
  | .numberFactor => Grammar.numberFactor mem r
  | .call => Grammar.call mem r
  | .literal => Grammar.integer <|> Grammar.float
  | .string => Grammar.string
  | .boolean => Grammar.boolean
  | .nil => Grammar.nil
  | .gets => Grammar.gets
  | .var => Grammar.target
  | .assign => Grammar.stores r
  | .leftValues => leftTargets
  | .valueList => Production.listOf (Grammar.value mem r) .value
  | .varList => Production.listOf Grammar.target .parameter

/-- Targets that end in front of a comma are no match, and the cursor stays where it came to. -/
inductive TargetsAnswer (tight : Prop) (lines : List LogicalLine) (start : Position) :
    Except Halt (Option (List (Nat × String)) × State) → Outcome (List (Nat × String)) × Trace Table → Prop where
  | found {names stop rest trace} : Beyond lines start stop.position → Sees lines stop rest trace →
    Token.next rest ≠ some .comma → TargetsAnswer tight lines start (.ok (some names, stop)) (.found names rest, trace)
  | comma {names stop rest trace} : Knows lines stop trace → Token.next rest = some .comma →
    TargetsAnswer tight lines start (.ok (none, stop)) (.found names rest, trace)
  | noMatch {stop trace} : Knows lines stop trace →
    TargetsAnswer tight lines start (.ok (none, stop)) (.noMatch, trace)
  | fault {f trace} : TargetsAnswer tight lines start (.error (.fault f)) (.fault f, trace)
  | halted {h o} : ¬tight → TargetsAnswer tight lines start (.error h) o

/-- The productions do what the grammar says at positions of less than this weight. -/
structure Calls (tight : Prop) (lines : List LogicalLine) (w : Nat)
    (enter : (p : Nonterminal) → Move (Option p.Item)) : Prop where
  follows : ∀ {p : Nonterminal} {start : Position} {ts : List Token} {k : Nat}, p ≠ .leftValues →
    left lines start ≤ k → weight lines (.item p) start < w →
    Follows tight lines start ts (enter p) (p.grammar (pageOf lines start.line) (.upTo (pageOf lines start.line) k))
  targets : ∀ {s : State} {ts : List Token} {tr : Trace Table}, Sees lines s ts tr →
    weight lines (.item .leftValues) s.position < w →
    TargetsAnswer tight lines s.position (enter .leftValues s) (leftTargets ts tr)

section
variable {tight : Prop} {w k rounds : Nat} {enter : (p : Nonterminal) → Move (Option p.Item)} {p q : Nonterminal}
  {start stop : Position} (h : Calls tight lines w enter) (hw : weight lines (.item p) start ≤ w)
  (hk : left lines start ≤ k)
include h hw hk

theorem Calls.here (hq : q ≠ .leftValues ∧ q.rank < p.rank) : Follows tight lines start ts (enter q)
    (q.grammar (pageOf lines start.line) (.upTo (pageOf lines start.line) k)) :=
  h.follows hq.1 hk (Nat.lt_of_lt_of_le (weight_lt hq.2) hw)

variable (q) in
theorem Calls.further (hq : q ≠ .leftValues) (hbeyond : Beyond lines start stop) : Follows tight lines stop ts (enter q)
    (q.grammar (pageOf lines start.line) (.upTo (pageOf lines start.line) k)) := by
  rw [← hbeyond.line]
  exact h.follows hq (Nat.le_trans (Nat.le_of_lt (left_lt hbeyond)) hk)
    (Nat.lt_of_lt_of_le (weight_lt_of_beyond hbeyond) hw)

theorem Calls.onward (hq : q ≠ .leftValues ∧ q.rank < p.rank) (honward : Onward lines start stop) :
    Follows tight lines stop ts (enter q)
      (q.grammar (pageOf lines start.line) (.upTo (pageOf lines start.line) k)) := by
  rcases honward with rfl | hbeyond
  · exact h.here hw hk hq
  · exact h.further q hw hk hq.1 hbeyond

variable (q) in
omit hk in
/-- Where a production comes back to a looser one. -/
theorem Calls.again (hk : left lines start ≤ k + 1) (hq : q ≠ .leftValues) (hbeyond : Beyond lines start stop) :
    Follows tight lines stop ts (enter q)
      (q.grammar (pageOf lines start.line) (.upTo (pageOf lines start.line) k)) := by
  rw [← hbeyond.line]
  exact h.follows hq (Nat.le_of_lt_succ (Nat.lt_of_lt_of_le (left_lt hbeyond) hk))
    (Nat.lt_of_lt_of_le (weight_lt_of_beyond hbeyond) hw)

end

section
variable {tight : Prop} {w k rounds : Nat} {enter : (p : Nonterminal) → Move (Option p.Item)} {p : Nonterminal}
  {start : Position} (h : Calls tight lines w enter) (hk : left lines start ≤ k)
  (hr : tight → left lines start < rounds)

/-- What is shown of each production. -/
def Nonterminal.Follows (tight : Prop) (lines : List LogicalLine) (rounds : Nat)
    (enter : (p : Nonterminal) → Move (Option p.Item)) (start : Position) (ts : List Token) (k : Nat)
    (p : Nonterminal) : Prop :=
  Descent.Follows tight lines start ts (p.body lines rounds enter)
    (p.grammar (pageOf lines start.line) (.upTo (pageOf lines start.line) k))

include h hk

theorem Calls.value (hw : weight lines (.item .value) start ≤ w) :
    Nonterminal.value.Follows tight lines rounds enter start ts k := by
  refine .memoized ?_ ?_
  · exact .orElse (.bind (.bind .lowFactor)) (.orElse .number (.orElse (.bind .token) (.bind .token)))
  · refine .orTry (h.here hw hk (by decide)) (.orTry (h.here hw hk (by decide)) ?_)
    exact .orTry (h.here hw hk (by decide)) (h.here hw hk (by decide))

theorem Calls.lowFactor (hw : weight lines (.item .lowFactor) start ≤ w) :
    Nonterminal.lowFactor.Follows tight lines rounds enter start ts k := by
  have hfactor (line : Nat) {stop us} (honward : Onward lines start stop) : Follows tight lines stop us
      ((enter .condition).orTry (((enter .assign).as (.assign line)).orTry (enter .highBoolean)))
      (Grammar.condition (pageOf lines start.line) (.upTo (pageOf lines start.line) k) <|>
        Grammar.assign (.upTo (pageOf lines start.line) k) line <|>
        Grammar.highBoolean (pageOf lines start.line) (.upTo (pageOf lines start.line) k)) := by
    refine .orTry (h.onward hw hk (by decide) honward) (.orTry ?_ (h.onward hw hk (by decide) honward))
    exact .as (h.onward (q := .assign) hw hk (by decide) honward)
  rintro s tr rfl hs
  show Answer _ _ _ ((snapshot >>= _) s) _
  rw [snapshot_bind, lineNumber_bind]
  cases ts with
  | nil =>
    -- the grammar asks for a token first, where the walk tries all that a factor can be
    rw [matchKind_bind_of_ne (by simp [hs.tokenAt])]
    have hanswer := (hfactor (lineNumberAt lines s.position) .refl).negated .not (lineNumberAt lines s.position) false
      .refl hs rfl
    exact (Answer.at_end hs (.bind (.orElse (.orElse .condition (.orElse .assign .highBoolean)) .noMatch))).mp hanswer
  | cons t us =>
    show Answer _ _ _ _ ((Production.accepts .kwNot >>= _) (t :: us) tr)
    rw [hs.lineNumberAt]
    by_cases ht : t.kind = .kwNot
    · rw [matchKind_bind hs.tokenAt ht, Production.accepts_bind ht]
      have hanswer := (hfactor t.line (.inr hs.beyond)).negated .not t.line true (.inr hs.beyond) hs.step rfl
      rw [Production.orElse_assoc, Production.orElse_assoc] at hanswer
      exact hanswer
    · rw [matchKind_bind_of_ne (by simpa [hs.tokenAt] using ht), Production.accepts_bind_of_ne (by simpa using ht)]
      have hanswer := (hfactor t.line .refl).negated .not t.line false .refl hs rfl
      rw [Production.orElse_assoc, Production.orElse_assoc] at hanswer
      exact hanswer

theorem Calls.number (hr : tight → left lines start < rounds) (hw : weight lines (.item .number) start ≤ w) :
    Nonterminal.number.Follows tight lines rounds enter start ts k := by
  refine .memoized (.bind (.orElse (.bind .token) .numberTerm)) ?_
  rintro s tr rfl hs
  rw [peek_bind, hs.tokenAt]
  cases ts with
  | nil =>
    refine (Answer.at_end hs ?_).mpr (.noMatch rfl hs.toKnows)
    exact .bind (.orElse (.bind .token) .numberTerm)
  | cons t ts =>
    have hterm {stop : Position} {us : List Token} (hbeyond : Beyond lines s.position stop) :
        Follows tight lines stop us (enter .numberTerm) (Grammar.numberTerm _ _) :=
      h.further .numberTerm hw hk (by decide) hbeyond
    rw [List.head?_cons, Option.isSome_some, if_pos rfl, snapshot_bind]
    show Answer _ _ _ _
      (((Grammar.minus _ .term <|> Grammar.numberTerm _ _ : Production Table Expr) >>= _) (t :: ts) tr)
    refine Answer.andThen ?_ fun hbeyond hs' => Follows.chainFrom hterm hr hbeyond hs' rfl
    rw [check_bind, hs.next]
    by_cases ht : t.kind = .minus
    · rw [if_pos (by simp [ht])]
      exact Goes.answer (Goes.orElse (Follows.minus hterm ht hs rfl)) hs.beyond
    · rw [if_neg (by simpa using ht), Production.orElse_apply, Grammar.minus,
        Production.token_bind_of_ne (by simpa using ht)]
      exact (h.here (q := .numberTerm) hw hk (by decide)).orBack rfl hs

theorem Calls.numberFactor (hw : weight lines (.item .numberFactor) start ≤ w) :
    Nonterminal.numberFactor.Follows tight lines rounds enter start ts k := by
  show Descent.Follows _ _ _ _ _ (Grammar.integer <|> Grammar.float <|> Grammar.call _ _ <|> _)
  rw [← Production.orElse_assoc]
  refine .orTry (h.here hw hk (by decide)) (.orTry (h.here hw hk (by decide)) ?_)
  rintro s tr rfl hs
  rw [check_bind, hs.next]
  cases ts with
  | nil =>
    rw [if_neg (by decide), check_bind, hs.next, if_neg (by decide)]
    exact .noMatch rfl hs.toKnows
  | cons t us =>
    obtain ⟨m, rfl⟩ := hs.exists_rules hk
    by_cases hminus : t.kind = .minus
    · rw [if_pos (by simp [hminus])]
      have hfactor {stop : Position} {us : List Token} (hbeyond : Beyond lines s.position stop) :
          Follows tight lines stop us (enter .numberFactor) (Grammar.numberFactor _ _) :=
        h.again .numberFactor hw hk (by decide) hbeyond
      exact Goes.answer (Goes.orElse (Follows.minus hfactor hminus hs rfl)) hs.beyond
    · rw [if_neg (by simpa using hminus), Production.orElse_apply, Grammar.minus,
        Production.token_bind_of_ne (by simpa using hminus), check_bind, hs.next]
      show Answer _ _ _ _ (Grammar.group _ (t :: us) tr)
      by_cases hparen : t.kind = .leftParen
      · rw [if_pos (by simp [hparen]), snapshot_bind, lineNumber_bind, hs.lineNumberAt, advance_bind hs.tokenAt,
          Grammar.group, Production.token_bind hparen]
        refine Follows.closed ?_ hs.beyond hs.step rfl
        refine .orTry (.as (h.further .assign hw hk (by decide) hs.beyond)) ?_
        exact h.again .number hw hk (by decide) hs.beyond
      · rw [if_neg (by simpa using hparen), Grammar.group, Production.token_bind_of_ne (by simpa using hparen)]
        exact .noMatch rfl hs.toKnows

theorem Calls.call (hw : weight lines (.item .call) start ≤ w) :
    Nonterminal.call.Follows tight lines rounds enter start ts k := by
  refine .memoized (.bind .token) ?_
  rintro s tr rfl hs
  rw [check_bind, hs.next]
  obtain ⟨t, us, rfl, ht⟩ | hne := Production.next_cases ts .identifier
  · obtain ⟨m, rfl⟩ := hs.exists_rules hk
    rw [Production.token_bind ht, if_pos (by simp [ht]), lineNumber_bind, hs.lineNumberAt, advance_bind hs.tokenAt]
    refine (Goes.inParens hs.step fun hbeyond => ?_).bind fun honward hs' => .found (hs.beyond.onward honward) hs'
    exact h.again .valueList hw hk (by decide) (hs.beyond.trans hbeyond)
  · rw [Production.token_bind_of_ne hne, if_neg (by simpa using hne)]
    exact .noMatch rfl hs.toKnows

omit hk in
theorem Calls.negatable (hk : left lines start ≤ k + 1) (hw : weight lines (.item .highFactor) start ≤ w) {line : Nat}
    {isNegated : Bool} (honward : Onward lines start s.position) (hs : Sees lines s ts tr) :
    Answer tight lines start
      (((enter .boolean).orTry ((enter .nil).orTry ((enter .call).orTry
        (parenthesized lines start line isNegated (enter .lowBoolean)))) >>=
          unlessArithmetic lines start line isNegated) s)
      (((Grammar.boolean <|> Grammar.nil <|>
        Grammar.call (pageOf lines start.line) (.upTo (pageOf lines start.line) (k + 1)) <|>
        Grammar.group (Rules.upTo (pageOf lines start.line) (k + 1)).lowBoolean <|>
        (Production.unlessNext (· == Kind.leftParen) >>= fun _ => Grammar.missingFactor isNegated .bang line)) >>=
          fun e => Production.unlessNext Kind.isArithmetic >>= fun _ =>
            (pure (if isNegated then .negate line .bang e else e) : Production Table Expr)) ts tr) := by
  have hend {e s' rest tr'} (hbeyond : Beyond lines start s'.position) (hs' : Sees lines s' rest tr') :
      Answer tight lines start (unlessArithmetic lines start line isNegated (some e) s') _ :=
    Follows.unlessArithmetic hbeyond hs'
  refine (h.onward hw hk (q := .boolean) (by decide) honward rfl hs).orTry_bind
    (fun hbeyond hs' => hend (honward.beyond hbeyond) hs') fun hp hknows => ?_
  have hs₁ := hknows.sees hs hp
  refine (h.onward hw hk (q := .nil) (by decide) honward hp hs₁).orTry_bind
    (fun hbeyond hs' => hend (honward.beyond hbeyond) hs') fun hp hknows => ?_
  have hs₂ := hknows.sees hs hp
  refine (h.onward hw hk (q := .call) (by decide) honward hp hs₂).orTry_bind
    (fun hbeyond hs' => hend (honward.beyond hbeyond) hs') fun hp hknows => ?_
  have hs₃ := hknows.sees hs hp
  exact Follows.parenthesized (hp ▸ honward) hs₃ (h.again .lowBoolean hw hk (by decide)) hend rfl

theorem Calls.highFactor (hw : weight lines (.item .highFactor) start ≤ w) :
    Nonterminal.highFactor.Follows tight lines rounds enter start ts k := by
  rintro s tr rfl hs
  show Answer _ _ _ ((peek lines >>= _) s) _
  rw [peek_bind, hs.tokenAt]
  cases ts with
  | nil => exact .noMatch rfl hs.toKnows
  | cons t us =>
    obtain ⟨m, rfl⟩ := hs.exists_rules hk
    rw [List.head?_cons, Option.isSome_some, if_pos rfl, snapshot_bind, lineNumber_bind, hs.lineNumberAt]
    show Answer _ _ _ _ ((Production.accepts .bang >>= _) (t :: us) tr)
    by_cases ht : t.kind = .bang
    · rw [matchKind_bind hs.tokenAt ht, Production.accepts_bind ht]
      exact h.negatable hk hw (.inr hs.beyond) hs.step
    · rw [matchKind_bind_of_ne (by simpa [hs.tokenAt] using ht), Production.accepts_bind_of_ne (by simpa using ht)]
      exact h.negatable hk hw .refl hs

theorem Calls.assign (hw : weight lines (.item .assign) start ≤ w) :
    Nonterminal.assign.Follows tight lines rounds enter start ts k := by
  rintro s tr rfl hs
  show Answer _ _ _ ((snapshot >>= _) s) (Grammar.stores _ ts tr)
  rw [snapshot_bind, lineNumber_bind]
  have htargets := h.targets hs (Nat.lt_of_lt_of_le (weight_lt (by decide)) hw)
  generalize hc : enter .leftValues s = x at htargets
  cases ts with
  | nil =>
    change TargetsAnswer _ _ _ _ (.noMatch, tr) at htargets
    cases htargets with
    | noMatch hknows =>
      rw [bind_ok hc]
      exact .back hknows rfl
    | halted ht =>
      rw [bind_error hc]
      exact .halted ht
  | cons t us =>
    obtain ⟨m, rfl⟩ := hs.exists_rules hk
    rw [hs.lineNumberAt, stores_eq]
    show Answer _ _ _ _ ((leftTargets >>= _) (t :: us) tr)
    rw [Production.bind_apply]
    generalize leftTargets (t :: us) tr = y at htargets
    cases htargets with
    | @found names s' rest tr' hbeyond hs' hnext =>
      rw [bind_ok hc]
      simp only
      obtain ⟨u, us, rfl, hu⟩ | hne := Production.next_cases rest .equal
      · rw [matchKind_bind hs'.tokenAt hu, Production.token_bind hu]
        have hvalues := h.again .valueList hw hk (by decide) (hbeyond.trans hs'.beyond) rfl hs'.step
        exact (hvalues.orNil hs'.step).bind fun honward hs'' =>
          .found ((hbeyond.trans hs'.beyond).onward honward) hs''
      · rw [matchKind_bind_of_ne (hs'.next ▸ hne), Production.token_bind_of_ne hne]
        exact .back hs'.toKnows rfl
    | comma hknows hnext =>
      rw [bind_ok hc]
      simp only
      rw [Production.token_bind_of_ne (by simp [hnext])]
      exact .back hknows rfl
    | noMatch hknows =>
      rw [bind_ok hc]
      exact .back hknows rfl
    | fault =>
      rw [bind_error hc]
      exact .fault
    | halted ht =>
      rw [bind_error hc]
      exact .halted ht

omit h hk in
/-- Targets from a comma on, behind those that came before. -/
theorem TargetsAnswer.loop {target : Move (Option (Nat × String))}
    (htarget : ∀ {stop us}, Beyond lines start stop → Follows tight lines stop us target Grammar.target) :
    ∀ {m n : Nat} (names : List (Nat × String)) {s : State} {ts : List Token} {tr : Trace Table}, ts.length ≤ m →
      (tight → ts.length < n) → Beyond lines start s.position → Sees lines s ts tr →
      TargetsAnswer tight lines start (Move.loop (nextTarget lines target) n names s)
        ((do
          let others ← Production.repeated (do let _ ← Production.token .comma; Grammar.target) m
          return names ++ others) ts tr) := by
  intro m n
  induction n generalizing m with
  | zero =>
    intro names s ts tr _ hn _ _
    exact .halted fun ht => absurd (hn ht) (Nat.not_lt_zero _)
  | succ n ih =>
    intro names s ts tr hm hn hbeyond hs
    rw [Move.loop, snapshot_bind, nextTarget, Move.bind_bind]
    obtain ⟨t, us, rfl, ht⟩ | hne := Production.next_cases ts .comma
    · obtain ⟨m, rfl⟩ : ∃ m', m = m' + 1 := Nat.exists_eq_add_one_of_ne_zero (Nat.ne_zero_of_lt hm)
      rw [List.length_cons] at hm hn
      have h := htarget (hbeyond.trans hs.beyond) rfl hs.step
      rw [matchKind_bind hs.tokenAt ht, if_pos rfl, Move.bind_bind]
      rw [← Production.token_bind (f := fun _ => Grammar.target) ht] at h
      generalize hc : target _ = x at h
      generalize ho : (Production.token .comma >>= fun _ => Grammar.target) (t :: us) tr = y at h
      cases h with
      | @found name s' rest tr' hstep hs' =>
        have hforward := hs.beyond.trans hstep
        have hlen : rest.length < us.length + 1 := hs.shorter hs' hforward
        have hrest := ih (m := m) (names ++ [name]) (by omega) (fun ht => by have := hn ht; omega)
          (hbeyond.trans hforward) hs'
        rw [bind_ok hc, Production.repeated_bind ho]
        simp only [pure_bind, snapshot_bind, if_pos hforward.before]
        simp only [List.append_assoc, List.singleton_append] at hrest
        exact hrest
      | noMatch hp hknows =>
        rw [bind_ok hc, Production.repeated_bind_of_noMatch ho]
        exact .comma hknows (congrArg some ht)
      | fault =>
        rw [bind_error hc, Production.repeated_bind_of_fault ho]
        exact .fault
      | halted ht =>
        rw [bind_error hc]
        exact .halted ht
    · rw [matchKind_bind_of_ne (hs.next ▸ hne)]
      have hdone : TargetsAnswer tight lines start (.ok (some names, s)) (.found names ts, tr) :=
        .found hbeyond hs hne
      cases m with
      | zero =>
        rw [Production.bind_apply]
        show TargetsAnswer _ _ _ _ (.found (names ++ []) ts, tr)
        rwa [List.append_nil]
      | succ m =>
        rw [Production.repeated_bind_of_noMatch (Production.token_bind_of_ne hne)]
        show TargetsAnswer _ _ _ _ (.found (names ++ []) ts, tr)
        rwa [List.append_nil]

omit hk in
theorem Calls.leftValues {s : State} (hk : left lines s.position ≤ k) (hr : tight → left lines s.position < rounds)
    (hw : weight lines (.item .leftValues) s.position ≤ w) (hs : Sees lines s ts tr) :
    TargetsAnswer tight lines s.position (Nonterminal.leftValues.body lines rounds enter s) (leftTargets ts tr) := by
  have hfirst := h.here hw hk (q := .var) (by decide) rfl hs
  show TargetsAnswer _ _ _ ((Move.andThen (enter .var) _) s) ((Grammar.target >>= _) ts tr)
  rw [Production.bind_apply]
  change Answer _ _ _ _ (Grammar.target ts tr) at hfirst
  generalize Grammar.target ts tr = y at hfirst
  apply hfirst.continued (Q := TargetsAnswer tight lines s.position)
  · intro first s' rest tr' hbeyond hs'
    refine TargetsAnswer.loop (h.further .var hw hk (by decide)) [first] (Nat.le_refl _) (fun ht => ?_) hbeyond hs'
    rw [hs'.length]
    exact Nat.lt_trans (left_lt hbeyond) (hr ht)
  · exact fun _ hknows => .noMatch hknows
  · exact .fault
  · exact .halted

theorem Calls.production (hr : tight → left lines start < rounds) (hp : p ≠ .leftValues)
    (hw : weight lines (.item p) start ≤ w) : p.Follows tight lines rounds enter start ts k := by
  cases p with
  | leftValues => exact absurd rfl hp
  | value => exact h.value hk hw
  | lowFactor => exact h.lowFactor hk hw
  | highFactor => exact h.highFactor hk hw
  | number => exact h.number hk hr hw
  | numberFactor => exact h.numberFactor hk hw
  | call => exact h.call hk hw
  | assign => exact h.assign hk hw
  | lowBoolean => exact .chain (h.further .lowTerm hw hk (by decide)) hr (h.here hw hk (by decide))
  | lowTerm => exact .chain (h.further .lowFactor hw hk (by decide)) hr (h.here hw hk (by decide))
  | highTerm => exact .chain (h.further .highFactor hw hk (by decide)) hr (h.here hw hk (by decide))
  | numberTerm => exact .chain (h.further .numberFactor hw hk (by decide)) hr (h.here hw hk (by decide))
  | highBoolean =>
    refine .memoized Quits.highTerm.bind ?_
    exact .chain (h.further .highTerm hw hk (by decide)) hr (h.here hw hk (by decide))
  | condition => exact .orTry (h.here hw hk (by decide)) (h.here hw hk (by decide))
  | valueCondition => exact .comparison (h.further .conditionValue hw hk (by decide)) (h.here hw hk (by decide))
  | numberCondition => exact .comparison (h.further .orderingOperand hw hk (by decide)) (h.here hw hk (by decide))
  | conditionValue =>
    refine .orTry (h.here hw hk (by decide)) (.orTry (h.here hw hk (by decide)) ?_)
    exact .orTry (h.here hw hk (by decide)) (h.here hw hk (by decide))
  | orderingOperand => exact .orTry (h.here hw hk (by decide)) (h.here hw hk (by decide))
  | literal => exact .numeral
  | string => exact .terminal
  | boolean => exact .orTry .terminal .terminal
  | nil => exact .terminal
  | gets => exact .terminal
  | var => exact .target
  | valueList => exact .listOf (h.further .value hw hk (by decide)) hr (h.here hw hk (by decide))
  | varList => exact .listOf (h.further .var hw hk (by decide)) hr (h.here hw hk (by decide))

end

/-! ## The walk -/

section
variable {tight : Prop} {opened : List (Part × Position)} {w n : Nat}

theorem run_entered {p : Part} (hopened : (p, s.position) ∉ opened) :
    run lines (n + 1) opened p s = p.body lines n (run lines n ((p, s.position) :: opened)) s := by
  rw [run, snapshot_bind, if_neg hopened]

theorem run_reentered {p : Part} (hopened : (p, s.position) ∈ opened) :
    run lines (n + 1) opened p s = .error (.reentered p s.position) := by
  rw [run, snapshot_bind, if_pos hopened]
  rfl

/-- With as much fuel as a production weighs, and where all that are open weigh more, the watch does not halt it. -/
theorem Calls.of_run (hn : tight → w ≤ n) (hopened : tight → ∀ o ∈ opened, w ≤ weight lines o.1 o.2) :
    Calls tight lines w fun p => run lines n opened (.item p) := by
  induction n generalizing w opened with
  | zero =>
    refine ⟨fun _ _ hlt s tr hp hs => .halted fun ht => ?_, fun _ hlt => .halted fun ht => ?_⟩
    · exact Nat.not_lt_zero _ (Nat.lt_of_lt_of_le hlt (hn ht))
    · exact Nat.not_lt_zero _ (Nat.lt_of_lt_of_le hlt (hn ht))
  | succ n ih =>
    -- what is entered from here weighs less than this production, and so than all that are open then
    have hinner (p : Nonterminal) {position : Position} (hlt : weight lines (.item p) position < w) :
        Calls tight lines (weight lines (.item p) position)
          fun q => run lines n ((.item p, position) :: opened) (.item q) := by
      refine ih (fun ht => Nat.le_of_lt_succ (Nat.lt_of_lt_of_le hlt (hn ht))) fun ht o ho => ?_
      rcases List.mem_cons.mp ho with rfl | ho
      · exact Nat.le_refl _
      · exact Nat.le_of_lt (Nat.lt_of_lt_of_le hlt (hopened ht o ho))
    have hrounds {p : Nonterminal} {position : Position} (hlt : weight lines (.item p) position < w) (ht : tight) :
        left lines position < n :=
      Nat.lt_of_lt_of_le left_lt_weight (Nat.le_of_lt_succ (Nat.lt_of_lt_of_le hlt (hn ht)))
    have hnot {p : Nonterminal} {position : Position} (hlt : weight lines (.item p) position < w)
        (ho : (.item p, position) ∈ opened) : ¬tight := fun ht => Nat.not_lt_of_le (hopened ht _ ho) hlt
    constructor
    · rintro p start ts k hp hk hlt s tr rfl hs
      by_cases ho : (.item p, s.position) ∈ opened
      · rw [run_reentered ho]
        exact .halted (hnot hlt ho)
      · rw [run_entered ho]
        exact (hinner p hlt).production hk (hrounds hlt) hp (Nat.le_refl _) rfl hs
    · intro s ts tr hs hlt
      by_cases ho : (.item .leftValues, s.position) ∈ opened
      · rw [run_reentered ho]
        exact .halted (hnot hlt ho)
      · rw [run_entered ho]
        exact (hinner .leftValues hlt).leftValues (Nat.le_refl _) (hrounds hlt) (Nat.le_refl _) hs

end

end Sprig.Descent
