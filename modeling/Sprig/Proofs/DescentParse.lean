import Sprig.Proofs.DescentBlocks

/-!
# The walk comes to an end

Statement by statement, a production reads what the reader of lines reads if those it enters do (`Entered.body`). With
enough fuel the watch halts none of them (`Entered.of_run`), and the whole walk comes to the program on the lines
(`parse_eq_ofLines`).
-/

namespace Sprig.Descent

open Move

variable {lines : List LogicalLine} {s s' : State} {ts us : List Token} {t : Token} {tr tr' : Trace Table} {l : Nat}
  {α β γ δ : Type}

/-! ## Statements on a line -/

theorem stores_of_ne {r : Rules Table} (hne : Token.next ts ≠ some .identifier) :
    Grammar.stores r ts tr = (.noMatch, tr) := by
  cases ts with
  | nil => rfl
  | cons t ts =>
    show (Grammar.target >>= _) (t :: ts) tr = _
    exact Production.bind_of_noMatch (Production.token_bind_of_ne hne)

theorem statement?_of_ne {body : Reader.Body Table} {rest : List LogicalLine} (hif : Token.next ts ≠ some .kwIf)
    (hwhile : Token.next ts ≠ some .kwWhile) (hdef : Token.next ts ≠ some .kwDef) :
    Reader.statement? .table body ts rest = do return (← Reader.line? .table Grammar.simple ts rest).map (·, rest) := by
  unfold Reader.statement?
  generalize hk : ts.head?.map Token.kind = k
  split
  · exact absurd hk hif
  · exact absurd hk hwhile
  · exact absurd hk hdef
  · rfl

/-- What matches nothing leaves the alternative in front of the same tokens. -/
theorem Follows.passed {c : Move (Option α)} {p : Production Table α} (hc : Follows True lines start ts c p)
    (hp : p ts tr = (.noMatch, tr)) (hstart : s.position = start) (hs : Sees lines s ts tr) :
    ∃ s₁, s₁.position = start ∧ Sees lines s₁ ts tr ∧ ∀ d, c.orTry d s = d s₁ := by
  have hanswer := hc hstart hs
  rw [hp] at hanswer
  generalize hx : c s = x at hanswer
  cases hanswer with
  | @noMatch s₁ tr₁ hpos hknows =>
    refine ⟨s₁, hpos, hknows.sees hs (hpos.trans hstart.symm), fun d => ?_⟩
    rw [Move.orTry, bind_ok hx]
  | halted ht => exact absurd trivial ht

theorem Follows.orTry_right {c d : Move (Option α)} {p q : Production Table α} (hc : Follows True lines start ts c p)
    (hp : ∀ tr, p ts tr = (.noMatch, tr)) (hd : Follows True lines start ts d q) :
    Follows True lines start ts (c.orTry d) q := by
  intro s tr hstart hs
  obtain ⟨s₁, hstart₁, hs₁, hd₁⟩ := hc.passed (hp tr) hstart hs
  rw [hd₁]
  exact hd hstart₁ hs₁

theorem passes_unless {k : Kind} {c : Move (Option α)} (hne : Token.next ts ≠ some k) :
    Follows True lines start ts (do if ← check lines k then c else return none) Production.noMatch := by
  rintro s tr rfl hs
  rw [check_bind, hs.next, if_neg (by simpa using hne)]
  exact .noMatch rfl hs.toKnows

theorem reads_getsStatement : Follows True lines start ts
    ((Part.body lines rounds enter .getsStatement).as ([·])) (do
      let t ← Production.token .kwGets
      Production.endOfLine
      return [.gets t.line]) := by
  rintro s tr rfl hs
  rw [Move.as, Part.body, Move.bind_bind, check_bind, hs.next]
  obtain ⟨t, us, rfl, ht⟩ | hne := Production.next_cases ts .kwGets
  · rw [Production.token_bind ht, if_pos (by simp [ht]), Move.bind_bind, snapshot_bind]
    have hnext := hs.step.tokenAt
    cases us with
    | nil =>
      rw [if_pos (by rw [hnext]; rfl), Move.bind_bind, lineNumber_bind, hs.lineNumberAt, Move.bind_bind,
        advance_bind hs.tokenAt]
      exact .found hs.beyond hs.step
    | cons u us =>
      rw [if_neg (by simp [hnext])]
      exact .noMatch rfl hs.toKnows
  · rw [Production.token_bind_of_ne hne, if_neg (by simpa using hne)]
    exact .noMatch rfl hs.toKnows

section
variable {w n rounds : Nat} {enter : (p : Part) → Move p.Result} {start : Position}
  (h : Entered lines w enter)
include h

theorem Entered.listing {k : Kind} {make : Nat → List Expr → Stmt}
    (hw : ∀ {stop}, Beyond lines start stop → weight lines (.item .valueList) stop < w) :
    Follows True lines start ts ((listing lines enter k make).as ([·])) (do
      let t ← Production.token k
      return [make t.line (← Production.orNil (Grammar.values (rulesOf lines start.line)))]) := by
  rintro s tr rfl hs
  rw [Move.as, Descent.listing, bind_bind, check_bind, hs.next]
  obtain ⟨t, us, rfl, ht⟩ | hne := Production.next_cases ts k
  · rw [Production.token_bind ht, if_pos (by simp [ht]), Move.bind_bind, lineNumber_bind, hs.lineNumberAt,
      Move.bind_bind, advance_bind hs.tokenAt, Move.bind_bind]
    have hvalues := h.values hs.beyond (hw hs.beyond) rfl hs.step
    exact (hvalues.orNil hs.step).bind fun honward hs' => .found (hs.beyond.onward honward) hs'
  · rw [Production.token_bind_of_ne hne, if_neg (by simpa using hne)]
    exact .noMatch rfl hs.toKnows

/-! ## Statements with blocks -/

section
variable {p : Part} (hw : weight lines p s.position ≤ w) (hknows : Knows lines s tr) (hindex : s.position.index = 0)
  (hl : lineAt lines s.position.line = t :: us) (hn : lines.length - (s.position.line + 1) ≤ n)
include hw hknows hindex hl hn

/-- The condition of an arm and the block under it, with the keyword behind. -/
theorem Entered.arm {K : Expr → Block → Move γ} {K' : Option ((Nat × Expr) × Block × List LogicalLine) → Reader Table δ}
    {R : γ → State → δ → Trace Table → Prop} (ht : t.kind = .kwIf ∨ t.kind = .kwElif)
    (hk : ∀ {condition block s' tr'}, Knows lines s' tr' → s'.position.index = 0 → s.position.line < s'.position.line →
      Alike R (K condition block s') (K' (some ((t.line, condition), block, lines.drop s'.position.line)) tr')) :
    Alike R (((enter (.item .lowBoolean)).demand t.line (.missing t.text .booleanExpression) >>= fun condition =>
        under lines enter >>= fun block => K condition block) { s with position := s.position.step })
      ((Reader.headed? .table (Reader.body .table n) Grammar.armHeader (lineAt lines s.position.line)
        (lines.drop (s.position.line + 1)) >>= K') tr) := by
  obtain ⟨hs, -⟩ := hknows.cons hindex hl
  have hbeyond := hs.beyond
  have hcondition : Follows True lines s.position.step us (enter (.item .lowBoolean)) _ :=
    h.follows (l := s.position.line) (by decide) rfl (Nat.lt_of_lt_of_le (weight_item_lt hindex hbeyond) hw)
  have hstart : s.position = ⟨s.position.line, 0⟩ := by rw [← hindex]
  refine h.headed (f := fun condition => (t.line, condition)) (hcondition rfl hs.step).demand (hstart ▸ hbeyond) ?_
    (fun hlt => Nat.lt_of_lt_of_le (weight_lt_of_line hindex (index_lt_of_line hs.inside) hlt) hw) hn hk
  rw [hl, Grammar.armHeader, Production.bind_apply, Production.orElse_apply]
  rcases ht with ht | ht
  · simp only [Production.token, if_pos ht]
    rfl
  · simp only [Production.token, ht, reduceCtorEq, if_false, if_true]
    rfl

end

theorem Entered.ifStatement (hr : start.index = 0 → lines.length - start.line < rounds)
    (hw : weight lines (.ifStatement .kwIf) start ≤ w) :
    Part.Reads lines start (.ifStatement .kwIf) (Part.body lines rounds enter (.ifStatement .kwIf)) := by
  refine ⟨passes_unless, ?_⟩
  · rintro s tr n rfl hknows hindex hnext hn
    obtain ⟨t, us, hl, ht⟩ := (Production.next_cases _ _).resolve_right (absurd hnext)
    obtain ⟨hs, -⟩ := hknows.cons hindex hl
    rw [Part.body, Move.bind_bind, check_bind, hs.next, if_pos (by simp [ht])]
    simp only [Move.bind_bind]
    rw [lineNumber_bind, hs.lineNumberAt, advance_bind hs.tokenAt]
    simp only [Option.map_some, Option.getD_some, if_true, Reader.statement?, hl, List.head?_cons, ht, Move.bind_bind]
    rw [← hl]
    refine h.arm hw hknows hindex hl hn (.inl ht) fun {condition block s' tr'} hknows' hindex' hline' => ?_
    have hlines := index_lt_of_line hs.inside
    have hlater {q : Part} {position : Position} (hlt : s.position.line < position.line) :
        weight lines q position < w :=
      Nat.lt_of_lt_of_le (weight_lt_of_line hindex hlines hlt) hw
    have harms := h.arms hlater hn (m := (lines.drop s'.position.line).length) [] hknows' hindex' hline'
      (Nat.lt_of_le_of_lt (Nat.sub_le_sub_left (Nat.le_of_lt hline') _) (hr hindex))
      (Nat.le_of_eq List.length_drop.symm)
    simp only [List.nil_append, Prod.eta, bind_pure] at harms
    refine harms.bind fun {others s₁ b tr₁} hstops => ?_
    obtain ⟨rfl, hindex₁, hline₁, hknows₁⟩ := hstops
    refine h.otherwise hknows₁ hindex₁ (fun hlt => hlater (by omega)) (by omega)
      (K := fun last => close lines "if" t.line >>= fun _ =>
        (return some (⟨t.line, condition, block⟩, others, last)) >>=
          turn lines chosen) ?_ ?_ ?_
    · simp only [if_true, Move.bind_bind, pure_bind]
    · simp only [Bool.false_eq_true, if_false, Move.bind_bind, pure_bind]
    · intro last s₂ tr₂ hknows₂ hindex₂ hline₂
      exact Alike.close (fun _ => [.choose ⟨t.line, condition, block⟩ others last]) id hknows₂ hindex₂ (by omega)
        (fun _ => rfl) fun _ _ => rfl

theorem Entered.elifArm (hw : weight lines (.ifStatement .kwElif) start ≤ w) :
    Part.Reads lines start (.ifStatement .kwElif) (Part.body lines rounds enter (.ifStatement .kwElif)) := by
  refine ⟨passes_unless, ?_⟩
  rintro s tr n rfl hknows hindex hnext hn
  obtain ⟨t, us, hl, ht⟩ := (Production.next_cases _ _).resolve_right (absurd hnext)
  obtain ⟨hs, -⟩ := hknows.cons hindex hl
  rw [Part.body, check_bind, hs.next, if_pos (by simp [ht]), lineNumber_bind, hs.lineNumberAt, advance_bind hs.tokenAt]
  refine Alike.of_bind_pure ?_
  refine h.arm hw hknows hindex hl hn (.inr ht) fun hknows' hindex' hline' => ?_
  exact .ok ⟨⟨⟨_, _, _⟩, rfl, rfl⟩, hindex', hline', hknows'⟩

theorem Entered.whileStatement (hw : weight lines .whileStatement start ≤ w) :
    Part.Reads lines start .whileStatement (Part.body lines rounds enter .whileStatement) := by
  refine ⟨passes_unless, ?_⟩
  rintro s tr n rfl hknows hindex hnext hn
  obtain ⟨t, us, hl, ht⟩ := (Production.next_cases _ _).resolve_right (absurd hnext)
  obtain ⟨hs, -⟩ := hknows.cons hindex hl
  have hbeyond := hs.beyond
  have hstart : s.position = ⟨s.position.line, 0⟩ := by rw [← hindex]
  have hcondition : Follows True lines s.position.step us (enter (.item .lowBoolean)) _ :=
    h.follows (l := s.position.line) (by decide) rfl (Nat.lt_of_lt_of_le (weight_item_lt hindex hbeyond) hw)
  rw [Part.body, Move.bind_bind, check_bind, hs.next, if_pos (by simp [ht])]
  simp only [Move.bind_bind]
  rw [lineNumber_bind, hs.lineNumberAt, advance_bind hs.tokenAt]
  simp only [Reader.statement?, hl, List.head?_cons, Option.map_some, ht]
  rw [← hl]
  refine h.headed (f := fun condition => (t.line, condition)) (hcondition rfl hs.step).demand (hstart ▸ hbeyond) ?_
    (fun hlt => Nat.lt_of_lt_of_le (weight_lt_of_line hindex (index_lt_of_line hs.inside) hlt) hw) hn
    fun {condition block s' tr'} hknows' hindex' hline' => ?_
  · rw [hl, Grammar.loopHeader, Production.token_bind ht]
    rfl
  · exact Alike.close (fun _ => [.loop t.line condition block]) id hknows' hindex' (Nat.le_of_lt hline') (fun _ => rfl)
      fun _ _ => rfl

theorem Entered.functionDefinition (hw : weight lines .functionDefinition start ≤ w) :
    Part.Reads lines start .functionDefinition (Part.body lines rounds enter .functionDefinition) := by
  refine ⟨passes_unless, ?_⟩
  rintro s tr n rfl hknows hindex hnext hn
  obtain ⟨t, us, hl, ht⟩ := (Production.next_cases _ _).resolve_right (absurd hnext)
  obtain ⟨hs, -⟩ := hknows.cons hindex hl
  have hbeyond := hs.beyond
  have hstart : s.position = ⟨s.position.line, 0⟩ := by rw [← hindex]
  rw [Part.body, Move.bind_bind, check_bind, hs.next, if_pos (by simp [ht])]
  simp only [Move.bind_bind]
  rw [lineNumber_bind, hs.lineNumberAt, advance_bind hs.tokenAt]
  simp only [Reader.statement?, hl, List.head?_cons, Option.map_some, ht]
  rw [← hl, check_bind]
  obtain ⟨u, us, rfl, hu⟩ | hne := Production.next_cases us .identifier
  · have hs' := hs.step.step
    have hs₃ : Sees lines ⟨s.position.step.step, (s.scopes.declare u.text).push u.text, s.memo⟩ us
        { tr with scopes := (tr.scopes.declare u.text).push u.text } :=
      ⟨⟨congrArg (fun scopes => (scopes.declare u.text).push u.text) hs.scopes, hs.noted⟩, hs'.left⟩
    have hparams {stop : Position} {us : List Token} (hstop : Beyond lines s.position.step.step stop) :
        Follows True lines stop us (enter (.item .varList)) (Production.listOf Grammar.target .parameter) :=
      h.follows (by decide) rfl (Nat.lt_of_lt_of_le
        (weight_item_lt hindex (hbeyond.trans (hs.step.beyond.trans hstop))) hw)
    rw [hs.step.next, if_pos (by simp [hu])]
    simp only [Move.bind_bind]
    rw [advance_bind hs.step.tokenAt]
    simp only [Option.map_some, Option.getD_some]
    rw [modifyScopes_bind]
    refine h.headed (f := fun params : List (Nat × String) => (t.line, u.text, params.map (·.2)))
      (Goes.inParens hs₃ hparams) (hstart ▸ hbeyond.trans hs.step.beyond) ?_
      (fun hlt => Nat.lt_of_lt_of_le (weight_lt_of_line hindex (index_lt_of_line hs.inside) hlt) hw) hn
      fun {params block s' tr'} hknows' hindex' hline' => ?_
    · rw [hl, Grammar.functionHeader_named ht hu]
      rfl
    · exact Alike.close (fun scopes => [.define ⟨u.text, params.map (·.2), t.line, block, scopes.current⟩]) (·.leave)
        hknows' hindex' (Nat.le_of_lt hline') (fun _ => rfl) fun _ _ => rfl
  · have hfault : Grammar.functionHeader (t :: us) tr =
        (.fault ⟨t.line, .syntactic (.missing "def" .functionName)⟩, tr) := by
      cases us with
      | nil => exact Grammar.functionHeader_alone ht tr
      | cons u us => exact Grammar.functionHeader_unnamed ht (by simpa using hne) us tr
    rw [hs.step.next, if_neg (by simpa using hne), Reader.headed?, bind_assoc]
    have hline := line?_eq lines s.position.line tr fun _ _ => Grammar.functionHeader
    rw [hl, hfault] at hline
    rw [hl, Reader.bind_of_error hline]
    exact .fault

/-! ## Any statement -/

theorem Entered.instruction (hw : weight lines .instruction start ≤ w) :
    Part.Reads lines start .instruction (Part.body lines rounds enter .instruction) := by
  rintro s tr n rfl hknows hindex hline hn
  have hs := hknows.sees_line hindex
  obtain ⟨ts, hts⟩ : ∃ ts, lineAt lines s.position.line = ts := ⟨_, rfl⟩
  rw [hts] at hs ⊢
  have hlt {p : Part} (hp : weight lines p s.position < weight lines .instruction s.position) :
      weight lines p s.position < w := Nat.lt_of_lt_of_le hp hw
  have hassign : Follows True lines s.position ts (enter (.item .assign)) _ :=
    h.follows (by decide) rfl (hlt (Nat.add_lt_add_left (by decide) _))
  have hassign := hassign.as (f := fun assigns => assigns.map Stmt.assign)
  have hprint := h.reads (p := .printStatement) (hlt (Nat.add_lt_add_left (by decide) _)) ts
  have hputs := h.reads (p := .putsStatement) (hlt (Nat.add_lt_add_left (by decide) _)) ts
  have hif := h.reads (p := .ifStatement .kwIf) (hlt (Nat.add_lt_add_left (by decide) _))
  have hwhile := h.reads (p := .whileStatement) (hlt (Nat.add_lt_add_left (by decide) _))
  have hdef := h.reads (p := .functionDefinition) (hlt (Nat.add_lt_add_left (by decide) _))
  have hgets := h.reads (p := .getsStatement) (hlt (Nat.add_lt_add_left (by decide) _)) ts
  have hvalue : Follows True lines s.position ts (enter (.item .value)) _ :=
    h.follows (by decide) rfl (hlt (Nat.add_lt_add_left (by decide) _))
  -- a header keyword is passed by what comes before it
  have hfront {k : Kind} (hk : Token.next ts = some k) (hkind : k = .kwIf ∨ k = .kwWhile ∨ k = .kwDef) :
      ∃ s₁, s₁.position = s.position ∧ Sees lines s₁ ts tr ∧ ∀ d : Move (Option (List Stmt)),
        (((enter (.item .assign)).as (·.map Stmt.assign)).orTry <| ((enter .printStatement).as ([·])).orTry <|
          ((enter .putsStatement).as ([·])).orTry d) s = d s₁ := by
    have hne {k' : Kind} (hk' : k' = .identifier ∨ k' = .kwPrint ∨ k' = .kwPuts) : Token.next ts ≠ some k' := by
      rw [hk]
      rcases hkind with rfl | rfl | rfl <;> rcases hk' with rfl | rfl | rfl <;> nofun
    obtain ⟨s₁, hpos₁, hs₁, hd₁⟩ :=
      hassign.passed (Production.bind_of_noMatch (stores_of_ne (hne (.inl rfl)))) rfl hs
    obtain ⟨s₂, hpos₂, hs₂, hd₂⟩ := hprint.passed (Production.token_bind_of_ne (hne (.inr (.inl rfl)))) hpos₁ hs₁
    obtain ⟨s₃, hpos₃, hs₃, hd₃⟩ := hputs.passed (Production.token_bind_of_ne (hne (.inr (.inr rfl)))) hpos₂ hs₂
    exact ⟨s₃, hpos₃, hs₃, fun d => by rw [hd₁, hd₂, hd₃]⟩
  by_cases hisIf : Token.next ts = some .kwIf
  · obtain ⟨s₁, hpos₁, hs₁, hd₁⟩ := hfront hisIf (.inl rfl)
    have hreads := hif.reads hpos₁ hs₁.toKnows hindex (hts ▸ hisIf) hn
    rw [hts] at hreads
    rw [Part.body, bind_congr (hd₁ _)]
    exact hreads.turned
  have hpassIf := (hif.passes hisIf).as (f := chosen)
  by_cases hisWhile : Token.next ts = some .kwWhile
  · obtain ⟨s₁, hpos₁, hs₁, hd₁⟩ := hfront hisWhile (.inr (.inl rfl))
    obtain ⟨s₂, hpos₂, hs₂, hd₂⟩ := hpassIf.passed rfl hpos₁ hs₁
    have hreads := hwhile.reads hpos₂ hs₂.toKnows hindex (hts ▸ hisWhile) hn
    rw [hts] at hreads
    rw [Part.body, bind_congr (hd₁ _), bind_congr (hd₂ _)]
    exact hreads.turned
  have hpassWhile := (hwhile.passes hisWhile).as (f := fun stmt => [stmt])
  by_cases hisDef : Token.next ts = some .kwDef
  · obtain ⟨s₁, hpos₁, hs₁, hd₁⟩ := hfront hisDef (.inr (.inr rfl))
    obtain ⟨s₂, hpos₂, hs₂, hd₂⟩ := hpassIf.passed rfl hpos₁ hs₁
    obtain ⟨s₃, hpos₃, hs₃, hd₃⟩ := hpassWhile.passed rfl hpos₂ hs₂
    have hreads := hdef.reads hpos₃ hs₃.toKnows hindex (hts ▸ hisDef) hn
    rw [hts] at hreads
    rw [Part.body, bind_congr (hd₁ _), bind_congr (hd₂ _), bind_congr (hd₃ _)]
    exact hreads.turned
  have hpassDef := (hdef.passes hisDef).as (f := fun stmt => [stmt])
  have hsimple : Follows True lines s.position ts (Part.body lines rounds enter .instruction)
      (Grammar.simple (pageOf lines s.position.line) (rulesOf lines s.position.line)) := by
    refine hassign.orTry (hprint.orTry (hputs.orTry ?_))
    refine hpassIf.orTry_right (fun _ => rfl) (hpassWhile.orTry_right (fun _ => rfl) ?_)
    exact hpassDef.orTry_right (fun _ => rfl) (hgets.orTry hvalue.as)
  have hline? := line?_eq lines s.position.line tr Grammar.simple
  rw [hts] at hline?
  rw [statement?_of_ne hisIf hisWhile hisDef]
  exact (hsimple rfl hs).turns hline?

theorem Entered.instructions (hr : lines.length - start.line < rounds) (hw : weight lines .instructions start ≤ w) :
    Part.Reads lines start .instructions (Part.body lines rounds enter .instructions) := by
  rintro s tr header n rfl hknows hheader hn
  have hinstruction {position : Position} (hline : s.position.line ≤ position.line) (hindex : position.index = 0) :
      weight lines .instruction position < w := by
    have hstart : position.lineStart = position := by
      cases position
      exact congrArg _ hindex.symm
    have hahead : ahead lines position.lineStart ≤ ahead lines s.position.lineStart := ahead_le hline
    rw [hstart] at hahead
    refine Nat.lt_of_lt_of_le ?_ hw
    show ahead lines position * 18 + 16 < ahead lines s.position.lineStart * 18 + 17
    omega
  have hstmts := h.statements hinstruction [] hknows (Nat.le_refl _) hr hn
  simp only [List.nil_append, Prod.eta, bind_pure] at hstmts
  rw [Part.body, lineNumber_bind, hheader]
  refine hstmts.bind fun {stmts s' b tr'} hstops => ?_
  obtain ⟨rfl, hindex, hline, hknows'⟩ := hstops
  exact .ok ⟨rfl, rfl, hline, hknows'⟩

theorem Entered.body {p : Part} (hw : weight lines p start ≤ w) (hr : weight lines p start ≤ rounds) :
    p.Reads lines start (p.body lines rounds enter) := by
  have hlines (hindex : start.index = 0) : lines.length - start.line ≤ ahead lines start := by
    have hstart : start = ⟨start.line, 0⟩ := by rw [← hindex]
    rw [hstart]
    exact length_le_ahead
  have hvalues {stop : Position} (hle : ahead lines start * 18 + 15 ≤ w) (hbeyond : Beyond lines start stop) :
      weight lines (.item .valueList) stop < w :=
    Nat.lt_of_lt_of_le (weight_lt_of_beyond (p := .valueList) hbeyond)
      (Nat.le_trans (Nat.add_le_add_left (by decide) _) hle)
  cases p with
  | item p => trivial
  | instructions =>
    refine h.instructions (Nat.lt_of_lt_of_le ?_ hr) hw
    have hle : lines.length - start.line ≤ ahead lines start.lineStart := length_le_ahead
    show lines.length - start.line < ahead lines start.lineStart * 18 + 17
    omega
  | instruction => exact h.instruction hw
  | ifStatement keyword =>
    cases keyword with
    | kwIf =>
      refine h.ifStatement (fun hindex => Nat.lt_of_lt_of_le ?_ hr) hw
      have hle := hlines hindex
      show lines.length - start.line < ahead lines start * 18 + 15
      omega
    | kwElif => exact h.elifArm hw
    | _ => trivial
  | whileStatement => exact h.whileStatement hw
  | functionDefinition => exact h.functionDefinition hw
  | printStatement => exact fun _ => h.listing (hvalues hw)
  | putsStatement => exact fun _ => h.listing (hvalues hw)
  | getsStatement => exact fun _ => reads_getsStatement

end

/-! ## The walk -/

/-- What is read depends on no more than what the production does from where it is entered. -/
theorem Part.Reads.congr {p : Part} {c d : Move p.Result} (hcd : ∀ s, s.position = start → c s = d s)
    (hd : p.Reads lines start d) : p.Reads lines start c := by
  have hfollows {α : Type} {c d : Move (Option α)} {ts : List Token} {p : Production Table α}
      (hcd : ∀ s, s.position = start → c s = d s) (hd : Follows True lines start ts d p) :
      Follows True lines start ts c p := fun s tr hs => hcd s hs ▸ hd hs
  have hopens {k : Kind} {α : Type} {f : α → List Stmt} {c d : Move (Option α)}
      (hcd : ∀ s, s.position = start → c s = d s) (hd : OpensStatement lines start k f d) :
      OpensStatement lines start k f c := by
    refine ⟨fun hne => hfollows hcd (hd.passes hne), fun {s tr n} hs => ?_⟩
    rw [bind_congr (hcd s hs)]
    exact hd.reads hs
  cases p with
  | item p => trivial
  | instructions =>
    intro s tr header n hs
    rw [hcd s hs]
    exact hd hs
  | instruction =>
    intro s tr n hs
    rw [bind_congr (hcd s hs)]
    exact hd hs
  | ifStatement keyword =>
    cases keyword with
    | kwIf => exact hopens hcd hd
    | kwElif =>
      refine ⟨fun hne => hfollows hcd (hd.passes hne), fun {s tr n} hs => ?_⟩
      rw [hcd s hs]
      exact hd.reads hs
    | _ => trivial
  | whileStatement => exact hopens hcd hd
  | functionDefinition => exact hopens hcd hd
  | printStatement => exact fun ts => hfollows (fun s hs => bind_congr (hcd s hs)) (hd ts)
  | putsStatement => exact fun ts => hfollows (fun s hs => bind_congr (hcd s hs)) (hd ts)
  | getsStatement => exact fun ts => hfollows (fun s hs => bind_congr (hcd s hs)) (hd ts)

theorem Entered.of_run {w n : Nat} {opened : List (Part × Position)} (hn : w ≤ n)
    (hopened : ∀ o ∈ opened, w ≤ weight lines o.1 o.2) : Entered lines w (run lines n opened) := by
  induction n generalizing w opened with
  | zero =>
    refine ⟨.of_run (fun _ => hn) fun _ => hopened, fun hlt => ?_⟩
    exact absurd (Nat.lt_of_lt_of_le hlt hn) (Nat.not_lt_zero _)
  | succ n ih =>
    refine ⟨.of_run (fun _ => hn) fun _ => hopened, fun {p start} hlt => ?_⟩
    have hinner : Entered lines (weight lines p start) (run lines n ((p, start) :: opened)) := by
      refine ih (Nat.le_of_lt_succ (Nat.lt_of_lt_of_le hlt hn)) fun o ho => ?_
      rcases List.mem_cons.mp ho with rfl | ho
      · exact Nat.le_refl _
      · exact Nat.le_of_lt (Nat.lt_of_lt_of_le hlt (hopened o ho))
    have hbody := hinner.body (Nat.le_refl _) (Nat.le_of_lt_succ (Nat.lt_of_lt_of_le hlt hn))
    refine Part.Reads.congr (fun s hs => ?_) hbody
    subst hs
    exact run_entered fun ho => Nat.not_lt_of_le (hopened _ ho) hlt

/-- The watched walk comes to an end on all lines, and to what the reader of lines says. -/
theorem parse_eq_ofLines (lines : List LogicalLine) (extra : Nat) :
    parse (depth lines + extra) lines = (Program.ofLines lines).mapError .fault := by
  have hentered : Entered lines (depth lines) (run lines (depth lines + extra) []) :=
    .of_run (Nat.le_add_right _ _) fun o ho => absurd ho List.not_mem_nil
  have hknows : Knows lines ⟨⟨0, 0⟩, .initial, ∅⟩ ⟨.initial, ∅⟩ := ⟨rfl, .empty⟩
  have hblock := hentered.reads (p := .instructions) weight_lt_depth (n := lines.length) rfl hknows
    lineNumberAt_start (Nat.sub_le _ _)
  rw [Reader.body] at hblock
  rw [parse, Program.ofLines, Program.ofLinesWith]
  simp only [StateT.run]
  match hm : Reader.statements .table lines.length lines ⟨.initial, ∅⟩ with
  | .error f =>
    rw [Reader.bind_of_error (by exact hm)] at hblock
    generalize hx : run lines _ _ _ _ = x at hblock
    cases hblock
    rfl
  | .ok ((stmts, rest), tr) =>
    rw [Reader.bind_of_ok (by exact hm)] at hblock
    generalize hx : run lines _ _ _ _ = x at hblock
    cases hblock with
    | @ok block s b tr hstops =>
      obtain ⟨hfound, -, -, hknows⟩ := hstops
      obtain ⟨rfl, rfl⟩ := Prod.mk.inj hfound
      have hleft := (hknows.at s.position.lineStart).sees_line rfl
      have htoken : tokenAt lines ⟨s.position.line, 0⟩ = (lineAt lines s.position.line).head? := hleft.tokenAt
      show Except.bind (.ok _) _ = Except.mapError _ (Except.bind (.ok _) _)
      simp only [Except.bind, htoken]
      rw [← hknows.scopes]
      by_cases hline : s.position.line < lines.length
      · rw [drop_eq_cons hline]
        cases lineAt lines s.position.line <;> rfl
      · rw [List.drop_eq_nil_of_le (Nat.le_of_not_lt hline), lineAt_of_le (Nat.le_of_not_lt hline)]
        rfl

end Sprig.Descent
