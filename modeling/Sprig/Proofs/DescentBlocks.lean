import Sprig.Proofs.DescentLines
import Sprig.Proofs.Reading

/-!
# The walk over lines

Lines are read to their ends, headers with the blocks under them, and blocks up to the keyword that closes them. Each of
these walks comes to what the reader of lines comes to (`Alike`), if that can be said of the productions it enters
(`Entered`).
-/

namespace Sprig.Descent

open Move

variable {lines : List LogicalLine} {s s' : State} {ts us : List Token} {t : Token} {tr tr' : Trace Table} {l : Nat}
  {α β γ δ : Type}

/-- A walk comes to what a reading of lines comes to. What they find is related. -/
inductive Alike (related : α → State → β → Trace Table → Prop) :
    Except Halt (α × State) → Except Fault (β × Trace Table) → Prop where
  | ok {a s b tr} : related a s b tr → Alike related (.ok (a, s)) (.ok (b, tr))
  | fault {f} : Alike related (.error (.fault f)) (.error f)

section
variable {R : α → State → β → Trace Table → Prop} {Q : γ → State → δ → Trace Table → Prop}

theorem Alike.bind {c : Move α} {m : Reader Table β} {K : α → Move γ} {K' : β → Reader Table δ}
    (h : Alike R (c s) (m tr)) (hk : ∀ {a s' b tr'}, R a s' b tr' → Alike Q (K a s') (K' b tr')) :
    Alike Q ((c >>= K) s) ((m >>= K') tr) := by
  generalize hc : c s = x at h
  generalize hm : m tr = y at h
  cases h with
  | ok hr =>
    rw [bind_ok hc, Reader.bind_of_ok hm]
    exact hk hr
  | fault =>
    rw [bind_error hc, Reader.bind_of_error hm]
    exact .fault

theorem Alike.mono {Q : α → State → β → Trace Table → Prop} {x : Except Halt (α × State)}
    {y : Except Fault (β × Trace Table)} (h : Alike R x y) (hQ : ∀ {a s b tr}, R a s b tr → Q a s b tr) :
    Alike Q x y := by
  cases h with
  | ok hr => exact .ok (hQ hr)
  | fault => exact .fault

theorem Alike.of_bind_pure {m : Reader Table β} {x : Except Halt (α × State)} (h : Alike R x ((m >>= pure) tr)) :
    Alike R x (m tr) := by rwa [bind_pure] at h

end

/-! ## Steps -/

theorem Move.expectLineEnd_bind {f : Unit → Move β} (h : tokenAt lines s.position = none) :
    (expectLineEnd lines >>= f) s = f () s := by
  refine bind_ok ?_
  rw [expectLineEnd, peek_bind, h]
  rfl

theorem Move.expectLineEnd_bind_of_token {f : Unit → Move β} (h : tokenAt lines s.position = some t) :
    (expectLineEnd lines >>= f) s = .error (.fault ⟨t.line, .syntactic (.unexpectedToken t.text)⟩) := by
  refine bind_error ?_
  rw [expectLineEnd, peek_bind, h]
  rfl

theorem Move.toNextLine_bind {f : Unit → Move β} :
    (toNextLine >>= f) s = f () { s with position := s.position.nextLine } := rfl

theorem Move.modifyScopes_bind {f : ScopeTable → ScopeTable} {g : Unit → Move β} :
    (modifyScopes f >>= g) s = g () { s with scopes := f s.scopes } := rfl

theorem Move.toLineStart_bind {f : Unit → Move β} :
    (toLineStart >>= f) s = f () { s with position := s.position.lineStart } := rfl

/-! ## Ends of lines -/

def lineEnd (lines : List LogicalLine) (l : Nat) : Position := ⟨l, (lineAt lines l).length⟩

theorem Knows.sees_line (h : Knows lines s tr) (hindex : s.position.index = 0) :
    Sees lines s (lineAt lines s.position.line) tr where
  toKnows := h
  left := by rw [hindex, List.drop_zero]

theorem Knows.cons (hknows : Knows lines s tr) (hindex : s.position.index = 0)
    (hl : lineAt lines s.position.line = t :: us) :
    Sees lines s (t :: us) tr ∧ lines.drop s.position.line = (t :: us) :: lines.drop (s.position.line + 1) := by
  have hs := hknows.sees_line hindex
  rw [hl] at hs
  exact ⟨hs, hl ▸ drop_eq_cons (index_lt_of_line hs.inside)⟩

theorem Sees.position_eq {start : Position} (h : Sees lines s [] tr) (hbeyond : Beyond lines start s.position) :
    s.position = lineEnd lines start.line := by
  have hend := h.not_inside
  have hwithin := hbeyond.within
  have hline := hbeyond.line
  rw [hline] at hend
  obtain ⟨position, _, _⟩ := s
  cases position
  simp only [lineEnd, Position.mk.injEq] at *
  omega

/-- What a reading of a whole line makes of the outcome of a production. -/
def ended : Outcome α × Trace Table → Except Fault (Option α × Trace Table)
  | (.found a [], tr) => .ok (some a, tr)
  | (.found _ (t :: _), _) => .error ⟨t.line, .syntactic (.unexpectedToken t.text)⟩
  | (.noMatch, tr) => .ok (none, tr)
  | (.fault f, _) => .error f

/-- The rules for the line. -/
def rulesOf (lines : List LogicalLine) (l : Nat) : Rules Table := .upTo (pageOf lines l) (lineAt lines l).length

theorem line?_eq (lines : List LogicalLine) (l : Nat) (tr : Trace Table)
    (p : Memory Table → Rules Table → Production Table α) :
    Reader.line? .table p (lineAt lines l) (lines.drop (l + 1)) tr =
      ended (p (pageOf lines l) (rulesOf lines l) (lineAt lines l) tr) := by
  have hpage : Notebook.table.page (lines.drop (l + 1)).length = pageOf lines l := by
    rw [pageOf, List.length_drop, Nat.sub_sub, Nat.add_comm]
  rw [Reader.line?]
  simp only [hpage]
  generalize hy : p (pageOf lines l) (.upTo _ _) (lineAt lines l) tr = y
  have hy' : p (pageOf lines l) (rulesOf lines l) (lineAt lines l) tr = y := hy
  rw [hy']
  obtain ⟨o, tr'⟩ := y
  rcases o with ⟨a, _ | ⟨t, rest⟩⟩ | _ | _ <;> rfl

section
variable {R : γ → State → δ → Trace Table → Prop}

/-- A line that has to end behind what is found. -/
theorem Goes.line_end {c : Move α} {p₁ : Production Table α} {start : Position} (f : α → β) {K : α → Move γ}
    {m : Reader Table (Option β)} {K' : Option β → Reader Table δ} {tr₀ : Trace Table}
    (h : Goes True lines start (c s) (p₁ us tr)) (hstart : Beyond lines ⟨l, 0⟩ start)
    (hm : m tr₀ = ended ((p₁ >>= fun a => pure (f a)) us tr))
    (hk : ∀ {a s' tr'}, s'.position = lineEnd lines l → Knows lines s' tr' →
      Alike R (K a s') (K' (some (f a)) tr')) :
    Alike R ((c >>= fun a => expectLineEnd lines >>= fun _ => K a) s) ((m >>= K') tr₀) := by
  rw [Production.bind_apply] at hm
  generalize hc : c s = x at h
  generalize p₁ us tr = y at h hm
  cases h with
  | @found a s' rest tr' honward hs =>
    rw [bind_ok hc]
    cases rest with
    | nil =>
      rw [expectLineEnd_bind hs.tokenAt, Reader.bind_of_ok hm]
      exact hk (hs.position_eq (hstart.onward honward)) hs.toKnows
    | cons t rest =>
      rw [expectLineEnd_bind_of_token hs.tokenAt, Reader.bind_of_error hm]
      exact .fault
  | fault =>
    rw [bind_error hc, Reader.bind_of_error hm]
    exact .fault
  | halted ht => exact absurd trivial ht

end

/-- What the line of a block is taken from. -/
theorem lineNumberAt_nextLine (h : l < lines.length) :
    lineNumberAt lines (lineEnd lines l).nextLine = Reader.blockLine (lineAt lines l) (lines.drop (l + 1)) := by
  by_cases hnext : l + 1 < lines.length
  · rw [drop_eq_cons hnext, Reader.blockLine, lineNumberAt, tokenAt]
    simp only [lineEnd, Position.nextLine, List.getElem?_eq_getElem hnext, Option.some_or, Option.bind_some]
    rw [lineAt, lineAt, List.getElem?_eq_getElem hnext]
    rfl
  · have hlast : lines.getLast? = some (lineAt lines l) := by
      rw [lineAt, List.getElem?_eq_getElem h, Option.getD_some, List.getLast?_eq_getElem?,
        List.getElem?_eq_getElem (by omega)]
      congr 2
      omega
    rw [List.drop_eq_nil_of_le (Nat.le_of_not_lt hnext), Reader.blockLine, lineNumberAt, tokenAt]
    simp only [lineEnd, Position.nextLine, lineAt_of_le (Nat.le_of_not_lt hnext),
      List.getElem?_eq_none (Nat.le_of_not_lt hnext), Option.none_or, hlast, List.getElem?_nil, Option.bind_some]

theorem lineNumberAt_start : lineNumberAt lines ⟨0, 0⟩ = Reader.blockLine [] lines := by
  cases lines <;> rfl

/-! ## What is shown -/

/-- The walk has come to the start of a line that is not before this one, and the lines from there on are left. -/
structure Stops (lines : List LogicalLine) (first : Nat) (a : α) (s : State) (b : α × List LogicalLine)
    (tr : Trace Table) : Prop where
  found : b = (a, lines.drop s.position.line)
  index : s.position.index = 0
  line : first ≤ s.position.line
  knows : Knows lines s tr

theorem Stops.of_le {first first' : Nat} {a : α} {b : α × List LogicalLine} (h : Stops lines first' a s b tr)
    (hle : first ≤ first') : Stops lines first a s b tr := ⟨h.found, h.index, Nat.le_trans hle h.line, h.knows⟩

/-- Something was found that starts on this line, and the lines behind it are left. -/
structure Turned (lines : List LogicalLine) (first : Nat) (o : Option α) (s : State)
    (o' : Option (α × List LogicalLine)) (tr : Trace Table) : Prop where
  found : ∃ a, o = some a ∧ o' = some (a, lines.drop s.position.line)
  line : first < s.position.line
  knows : Knows lines s tr

/-- The same, or nothing was found and the walk is back where it started. -/
inductive Turns (lines : List LogicalLine) (start : Position) : Option α → State →
    Option (α × List LogicalLine) → Trace Table → Prop where
  | found {o stop o' trace} : Turned lines start.line o stop o' trace → Turns lines start o stop o' trace
  | none {stop trace} : stop.position = start → Knows lines stop trace → Turns lines start none stop none trace

/-- Goes on to the next line behind what was found. -/
def turn (lines : List LogicalLine) (f : α → β) : Option α → Move (Option β)
  | some a => do
    expectLineEnd lines
    toNextLine
    return some (f a)
  | none => return none

/-- At the keyword it reads the statement that starts there. -/
structure OpensStatement (lines : List LogicalLine) (start : Position) (k : Kind) (f : α → List Stmt)
    (c : Move (Option α)) : Prop where
  passes : ∀ {ts}, Token.next ts ≠ some k → Follows True lines start ts c Production.noMatch
  reads : ∀ {s tr n}, s.position = start → Knows lines s tr → start.index = 0 →
    Token.next (lineAt lines start.line) = some k → lines.length - (start.line + 1) ≤ n →
    Alike (Turned lines start.line) ((c >>= turn lines f) s)
      (Reader.statement? .table (Reader.body .table n) (lineAt lines start.line) (lines.drop (start.line + 1)) tr)

/-- The walk and the reader have the same `elif` arm. -/
structure IsArm (lines : List LogicalLine) (first : Nat) (o : Option (Arm × List Arm × Option Block)) (s : State)
    (o' : Option ((Nat × Expr) × Block × List LogicalLine)) (tr : Trace Table) : Prop where
  found : ∃ arm : Arm, o = some (arm, [], none) ∧
    o' = some ((arm.line, arm.condition), arm.body, lines.drop s.position.line)
  index : s.position.index = 0
  line : first < s.position.line
  knows : Knows lines s tr

structure OpensArm (lines : List LogicalLine) (start : Position) (c : Move (Option (Arm × List Arm × Option Block))) :
    Prop where
  passes : ∀ {ts}, Token.next ts ≠ some .kwElif → Follows True lines start ts c Production.noMatch
  reads : ∀ {s tr n}, s.position = start → Knows lines s tr → start.index = 0 →
    Token.next (lineAt lines start.line) = some .kwElif → lines.length - (start.line + 1) ≤ n →
    Alike (IsArm lines start.line) (c s) (Reader.headed? .table (Reader.body .table n) Grammar.armHeader
      (lineAt lines start.line) (lines.drop (start.line + 1)) tr)

/-- What is shown of a production that is entered at a position. -/
def Part.Reads (lines : List LogicalLine) (start : Position) : (p : Part) → Move p.Result → Prop
  | .instructions, c => ∀ ⦃s tr header n⦄, s.position = start → Knows lines s tr →
    lineNumberAt lines start = Reader.blockLine header (lines.drop start.line) → lines.length - start.line ≤ n →
    Alike (Stops lines start.line) (c s) (Reader.body .table n header (lines.drop start.line) tr)
  | .instruction, c => ∀ ⦃s tr n⦄, s.position = start → Knows lines s tr → start.index = 0 → start.line < lines.length →
    lines.length - (start.line + 1) ≤ n → Alike (Turns lines start) ((c >>= turn lines id) s)
      (Reader.statement? .table (Reader.body .table n) (lineAt lines start.line) (lines.drop (start.line + 1)) tr)
  | .ifStatement .kwIf, c => OpensStatement lines start .kwIf chosen c
  | .ifStatement .kwElif, c => OpensArm lines start c
  | .whileStatement, c => OpensStatement lines start .kwWhile ([·]) c
  | .functionDefinition, c => OpensStatement lines start .kwDef ([·]) c
  | .printStatement, c => ∀ ts, Follows True lines start ts (c.as ([·])) (do
    let t ← Production.token .kwPrint
    return [.print t.line (← Production.orNil (Grammar.values (rulesOf lines start.line)))])
  | .putsStatement, c => ∀ ts, Follows True lines start ts (c.as ([·])) (do
    let t ← Production.token .kwPuts
    return [.puts t.line (← Production.orNil (Grammar.values (rulesOf lines start.line)))])
  | .getsStatement, c => ∀ ts, Follows True lines start ts (c.as ([·])) (do
    let t ← Production.token .kwGets
    Production.endOfLine
    return [.gets t.line])
  | _, _ => True

/-- The productions read what is there at positions of less than this weight. -/
structure Entered (lines : List LogicalLine) (w : Nat) (enter : (p : Part) → Move p.Result) : Prop where
  calls : Calls True lines w fun p => enter (.item p)
  reads : ∀ {p start}, weight lines p start < w → p.Reads lines start (enter p)

/-! ## Keywords -/

theorem keyword?_of_ne {k : Kind} (hk : Token.next (lineAt lines l) ≠ some k) :
    Reader.keyword? k (lines.drop l) tr = .ok (none, tr) := by
  by_cases hl : l < lines.length
  · rw [drop_eq_cons hl]
    generalize lineAt lines l = ts at hk
    cases ts with
    | nil => rfl
    | cons t ts =>
      have hk : t.kind ≠ k := by simpa using hk
      simp only [Reader.keyword?, if_neg hk]
      rfl
  · rw [List.drop_eq_nil_of_le (Nat.le_of_not_lt hl)]
    rfl

theorem keyword?_alone {k : Kind} {rest : List LogicalLine} (ht : t.kind = k) :
    Reader.keyword? k ([t] :: rest) tr = .ok (some ([t], rest), tr) := by
  simp only [Reader.keyword?, if_pos ht]
  rfl

theorem keyword?_more {k : Kind} {u : Token} {rest : List LogicalLine} (ht : t.kind = k) :
    Reader.keyword? k ((t :: u :: us) :: rest) tr = .error ⟨u.line, .syntactic (.unexpectedToken u.text)⟩ := by
  simp only [Reader.keyword?, if_pos ht]
  rfl

theorem arms_of_ne {body : Reader.Body Table} {m : Nat} (hne : Token.next (lineAt lines l) ≠ some .kwElif) :
    Reader.arms .table body m (lines.drop l) = pure ([], lines.drop l) := by
  cases m with
  | zero => rfl
  | succ m =>
    by_cases hl : l < lines.length
    · rw [drop_eq_cons hl]
      generalize lineAt lines l = ts at hne
      cases ts with
      | nil => rfl
      | cons t ts => rw [Reader.arms, if_neg (by simpa using hne)]
    · rw [List.drop_eq_nil_of_le (Nat.le_of_not_lt hl)]
      rfl

/-- The line that closes a block, to its end. -/
theorem Alike.close (g : ScopeTable → α) (leave : ScopeTable → ScopeTable) {K : Unit → Move (Option α)}
    {K' : List LogicalLine → Reader Table (Option (α × List LogicalLine))} {keyword : String} {line first : Nat}
    (hknows : Knows lines s tr) (hindex : s.position.index = 0) (hfirst : first ≤ s.position.line)
    (hK : ∀ s₁, K () s₁ = turn lines id (some (g s₁.scopes)) { s₁ with scopes := leave s₁.scopes })
    (hK' : ∀ rest tr₁, K' rest tr₁ = .ok (some (g tr₁.scopes, rest), { tr₁ with scopes := leave tr₁.scopes })) :
    Alike (Turned lines first) ((close lines keyword line >>= K) s)
      ((Reader.close keyword line (lines.drop s.position.line) >>= K') tr) := by
  rw [Descent.close, Move.bind_bind, Reader.close, bind_assoc]
  obtain ⟨t, us, hl, ht⟩ | hne := Production.next_cases (lineAt lines s.position.line) .kwEnd
  · obtain ⟨hs, hdrop⟩ := hknows.cons hindex hl
    rw [matchKind_bind hs.tokenAt ht, hdrop, if_pos rfl, pure_bind, hK, turn]
    have hlater := hs.step.tokenAt
    cases us with
    | nil =>
      rw [expectLineEnd_bind (by exact hlater), Reader.bind_of_ok (keyword?_alone ht), pure_bind, hK', hknows.scopes]
      refine .ok ⟨⟨_, rfl, rfl⟩, Nat.lt_succ_of_le hfirst, rfl, hknows.noted⟩
    | cons u us =>
      rw [expectLineEnd_bind_of_token (by exact hlater), Reader.bind_of_error (keyword?_more ht)]
      exact .fault
  · have hs := hknows.sees_line hindex
    rw [matchKind_bind_of_ne (hs.next ▸ hne), Reader.bind_of_ok (keyword?_of_ne hne)]
    exact .fault

/-- A line that has to end behind what is found, or starts no statement. -/
theorem Answer.turns {c : Move (Option α)} {p₁ : Production Table α}
    {m : Reader Table (Option α)} (hanswer : Answer True lines start (c s) (p₁ ts tr)) (hm : m tr = ended (p₁ ts tr)) :
    Alike (Turns lines start) ((c >>= turn lines id) s)
      ((do return (← m).map (·, lines.drop (start.line + 1))) tr) := by
  generalize hc : c s = x at hanswer
  generalize p₁ ts tr = y at hanswer hm
  cases hanswer with
  | @found a s' rest tr' hbeyond hs' =>
    rw [bind_ok hc, turn]
    cases rest with
    | nil =>
      rw [expectLineEnd_bind hs'.tokenAt, toNextLine_bind, Reader.bind_of_ok hm]
      refine .ok (.found ⟨⟨a, rfl, ?_⟩, ?_, hs'.toKnows.at _⟩)
      · rw [← hbeyond.line]
        rfl
      · exact Nat.lt_succ_of_le (Nat.le_of_eq hbeyond.line.symm)
    | cons t rest =>
      rw [expectLineEnd_bind_of_token hs'.tokenAt, Reader.bind_of_error hm]
      exact .fault
  | noMatch hpos hknows =>
    rw [bind_ok hc, Reader.bind_of_ok hm]
    exact .ok (.none hpos hknows)
  | fault =>
    rw [bind_error hc, Reader.bind_of_error hm]
    exact .fault
  | halted ht => exact absurd trivial ht

theorem Alike.turned {c : Move (Option α)} {d : Move (Option β)} {f : α → β}
    {y : Except Fault (Option (β × List LogicalLine) × Trace Table)}
    (hturned : Alike (Turned lines start.line) ((c >>= turn lines f) s) y) :
    Alike (Turns lines start) (((c.as f).orTry d >>= turn lines id) s) y := by
  rw [Move.orTry, Move.as, Move.bind_bind, Move.bind_bind]
  rcases hc : c s with e | ⟨_ | a, s'⟩
  · rw [bind_error hc] at hturned ⊢
    cases hturned
    exact .fault
  · rw [bind_ok hc] at hturned
    cases hturned with
    | ok hr =>
      obtain ⟨a, ha, -⟩ := hr.found
      cases ha
  · rw [bind_ok hc] at hturned ⊢
    exact hturned.mono .found

/-! ## Blocks -/

theorem nextStatements_eq (stmts : List Stmt) : nextStatements lines enter stmts = (do
    if (← snapshot).line < lines.length then
      toLineStart
      match ← enter .instruction >>= turn lines id with
      | some more => return .inr (stmts ++ more)
      | none => return .inl stmts
    else return .inl stmts) := by
  have hround (o : Option (List Stmt)) : (match o with
      | some more => do
        expectLineEnd lines
        toNextLine
        return .inr (stmts ++ more)
      | none => return .inl stmts : Move (List Stmt ⊕ List Stmt)) = turn lines id o >>= fun o =>
        match o with
        | some more => return .inr (stmts ++ more)
        | none => return .inl stmts := by
    cases o with
    | none => rfl
    | some more => simp only [turn, Move.bind_bind, pure_bind, id]
  rw [nextStatements]
  simp only [Move.bind_bind, ← hround]
  rfl

section
variable {w n rounds : Nat} {enter : (p : Part) → Move p.Result} {start : Position}
  (h : Entered lines w enter)
include h

theorem Entered.follows {p : Nonterminal} (hp : p ≠ .leftValues) (hline : start.line = l)
    (hw : weight lines (.item p) start < w) :
    Follows True lines start ts (enter (.item p)) (p.grammar (pageOf lines l) (rulesOf lines l)) := by
  subst hline
  exact h.calls.follows hp (Nat.sub_le _ _) hw

theorem Entered.values {stop : Position} (hbeyond : Beyond lines start stop)
    (hw : weight lines (.item .valueList) stop < w) :
    Follows True lines stop ts (enter (.item .valueList)) (Grammar.values (rulesOf lines start.line)) := by
  obtain ⟨m, hm⟩ : ∃ m, (lineAt lines start.line).length = m + 1 :=
    Nat.exists_eq_add_one_of_ne_zero (Nat.ne_zero_of_lt (Nat.lt_of_lt_of_le hbeyond.index hbeyond.within))
  have hleft : left lines stop ≤ m := by
    have hindex := hbeyond.index
    rw [left, hbeyond.line]
    omega
  rw [rulesOf, hm, ← hbeyond.line]
  exact h.calls.follows (by decide) hleft hw

theorem Entered.block (hpos : s.position = lineEnd lines l) (hl : l < lines.length) (hknows : Knows lines s tr)
    (hw : ∀ {q position}, l < position.line → weight lines q position < w) (hn : lines.length - (l + 1) ≤ n) :
    Alike (Stops lines (l + 1)) ((toNextLine >>= fun _ => enter .instructions) s)
      (Reader.body .table n (lineAt lines l) (lines.drop (l + 1)) tr) := by
  rw [toNextLine_bind, hpos]
  exact h.reads (p := .instructions) (hw (Nat.lt_succ_self l)) rfl (hknows.at _) (lineNumberAt_nextLine hl) hn

/-- A header to the end of its line, and the block under it. -/
theorem Entered.headed {c : Move α} {p₁ : Production Table α} {p : Memory Table → Rules Table → Production Table β}
    {f : α → β} {K : α → Block → Move γ} {K' : Option (β × Block × List LogicalLine) → Reader Table δ} {stop : Position}
    {tr₀ : Trace Table} {R : γ → State → δ → Trace Table → Prop} (hg : Goes True lines stop (c s) (p₁ us tr))
    (hstop : Beyond lines ⟨l, 0⟩ stop)
    (hp : p (pageOf lines l) (rulesOf lines l) (lineAt lines l) tr₀ = (p₁ >>= fun a => pure (f a)) us tr)
    (hw : ∀ {q position}, l < position.line → weight lines q position < w) (hn : lines.length - (l + 1) ≤ n)
    (hk : ∀ {a block s' tr'}, Knows lines s' tr' → s'.position.index = 0 → l < s'.position.line →
      Alike R (K a block s') (K' (some (f a, block, lines.drop s'.position.line)) tr')) :
    Alike R ((c >>= fun a => under lines enter >>= fun block => K a block) s)
      ((Reader.headed? .table (Reader.body .table n) p (lineAt lines l) (lines.drop (l + 1)) >>= K') tr₀) := by
  have hl : l < lines.length := index_lt_of_line (Nat.lt_of_lt_of_le hstop.index hstop.within)
  simp only [under, Reader.headed?, Move.bind_bind, bind_assoc]
  refine hg.line_end f hstop ((line?_eq lines l tr₀ p).trans (congrArg ended hp)) fun {a s' tr'} hpos hknows => ?_
  simp only [bind_assoc, pure_bind]
  rw [← Move.bind_bind]
  refine (h.block hpos hl hknows hw hn).bind fun {block s'' b tr''} hstops => ?_
  obtain ⟨rfl, hindex', hline', hknows'⟩ := hstops
  exact hk hknows' hindex' hline'

/-- An `else` line with the block under it, where there is one. -/
theorem Entered.otherwise {J : Bool → Move γ} {K : Option Block → Move γ}
    {K' : Option Block × List LogicalLine → Reader Table δ} {R : γ → State → δ → Trace Table → Prop}
    (hknows : Knows lines s tr) (hindex : s.position.index = 0)
    (hw : ∀ {q position}, s.position.line < position.line → weight lines q position < w)
    (hn : lines.length - (s.position.line + 1) ≤ n)
    (htrue : J true = under lines enter >>= fun block => K (some block)) (hfalse : J false = K none)
    (hk : ∀ {o s' tr'}, Knows lines s' tr' → s'.position.index = 0 → s.position.line ≤ s'.position.line →
      Alike R (K o s') (K' (o, lines.drop s'.position.line) tr')) :
    Alike R ((matchKind lines .kwElse >>= J) s)
      ((Reader.otherwise (Reader.body .table n) (lines.drop s.position.line) >>= K') tr) := by
  rw [Reader.otherwise, bind_assoc]
  obtain ⟨t, us, hl, ht⟩ | hne := Production.next_cases (lineAt lines s.position.line) .kwElse
  · obtain ⟨hs, hdrop⟩ := hknows.cons hindex hl
    have hlater := hs.step.tokenAt
    rw [matchKind_bind hs.tokenAt ht, hdrop, htrue]
    simp only [under, Move.bind_bind]
    cases us with
    | nil =>
      rw [expectLineEnd_bind hlater, Reader.bind_of_ok (keyword?_alone ht)]
      simp only [bind_assoc]
      rw [← Move.bind_bind]
      have hpos : s.position.step = lineEnd lines s.position.line := by
        rw [lineEnd, hl, Position.step, hindex]
        rfl
      have hblock := h.block (s := { s with position := s.position.step }) hpos (index_lt_of_line hs.inside)
        (hknows.at _) hw hn
      rw [hl] at hblock
      refine hblock.bind fun {block s' b tr'} hstops => ?_
      obtain ⟨rfl, hindex', hline', hknows'⟩ := hstops
      exact hk hknows' hindex' (Nat.le_of_succ_le hline')
    | cons u us =>
      rw [expectLineEnd_bind_of_token hlater, Reader.bind_of_error (keyword?_more ht)]
      exact .fault
  · have hs := hknows.sees_line hindex
    rw [matchKind_bind_of_ne (hs.next ▸ hne), Reader.bind_of_ok (keyword?_of_ne hne), hfalse]
    exact hk hknows hindex (Nat.le_refl _)

/-- The arms that come next, behind those that came before. -/
theorem Entered.arms (hw : ∀ {q position}, l < position.line → weight lines q position < w)
    (hn : lines.length - (l + 1) ≤ n) {m : Nat} (arms : List Arm) (hknows : Knows lines s tr)
    (hindex : s.position.index = 0) (hl : l < s.position.line) (hr : lines.length - s.position.line < rounds)
    (hm : lines.length - s.position.line ≤ m) : Alike (Stops lines s.position.line) (loop (nextArm enter) rounds arms s)
      ((do
        let (others, rest) ← Reader.arms .table (Reader.body .table n) m (lines.drop s.position.line)
        return (arms ++ others, rest)) tr) := by
  -- on the rounds: each arm ends on a later line, which lowers the bound of the reader as well
  induction rounds generalizing m arms s tr with
  | zero => exact absurd hr (Nat.not_lt_zero _)
  | succ rounds ih =>
    have harm := h.reads (p := .ifStatement .kwElif) (hw hl)
    rw [loop, snapshot_bind, nextArm, Move.bind_bind]
    obtain ⟨t, us, hline, ht⟩ | hne := Production.next_cases (lineAt lines s.position.line) .kwElif
    · obtain ⟨hs, hdrop⟩ := hknows.cons hindex hline
      have hlines := index_lt_of_line hs.inside
      obtain ⟨m, rfl⟩ : ∃ m', m = m' + 1 := Nat.exists_eq_add_one_of_ne_zero (by omega)
      have hheaded := harm.reads (n := n) rfl hknows hindex (hline ▸ congrArg some ht) (by omega)
      rw [hline] at hheaded
      rw [hdrop, Reader.arms, if_pos ht]
      simp only [bind_assoc]
      refine hheaded.bind fun {o s' o' tr'} hisArm => ?_
      obtain ⟨⟨⟨line, condition, body⟩, rfl, rfl⟩, hindex', hline', hknows'⟩ := hisArm
      have hrest := ih (m := m) (arms ++ [⟨line, condition, body⟩]) hknows' hindex' (Nat.lt_trans hl hline')
        (by omega) (by omega)
      have hbefore : s.position.Before s'.position := .inl hline'
      simp only [pure_bind, bind_assoc, snapshot_bind, if_pos hbefore]
      simp only [List.append_assoc, List.singleton_append] at hrest
      exact hrest.mono fun hstops => hstops.of_le (Nat.le_of_lt hline')
    · have hs := hknows.sees_line hindex
      have hnone := harm.passes hne rfl hs
      rw [arms_of_ne hne]
      generalize hc : enter (.ifStatement .kwElif) s = x at hnone
      cases hnone with
      | @noMatch s' tr' hpos hknows' =>
        rw [bind_ok hc]
        refine .ok ⟨?_, hpos ▸ hindex, Nat.le_of_eq (congrArg _ hpos.symm), hknows'⟩
        rw [hpos, List.append_nil]
      | halted ht => exact absurd trivial ht

/-- The statements that come next, behind those that came before. -/
theorem Entered.statements (hw : ∀ {position}, l ≤ position.line → position.index = 0 →
      weight lines .instruction position < w) {m : Nat} (stmts : List Stmt) (hknows : Knows lines s tr)
    (hl : l ≤ s.position.line) (hr : lines.length - s.position.line < rounds)
    (hm : lines.length - s.position.line ≤ m) :
    -- the walk leaves the index where the last statement ended, and goes to the start of the line behind the loop
    Alike (fun a s' b tr' => Stops lines s.position.line a { s' with position := s'.position.lineStart } b tr')
      (loop (nextStatements lines enter) rounds stmts s) ((do
        let (others, rest) ← Reader.statements .table m (lines.drop s.position.line)
        return (stmts ++ others, rest)) tr) := by
  induction rounds generalizing m stmts s tr with
  | zero => exact absurd hr (Nat.not_lt_zero _)
  | succ rounds ih =>
    rw [loop, snapshot_bind, nextStatements_eq, Move.bind_bind, snapshot_bind]
    by_cases hline : s.position.line < lines.length
    · obtain ⟨m, rfl⟩ : ∃ m', m = m' + 1 := Nat.exists_eq_add_one_of_ne_zero (by omega)
      have hm : lines.length - (s.position.line + 1) ≤ m := by omega
      have hlt : weight lines .instruction s.position.lineStart < w := hw hl rfl
      have hreads := h.reads hlt (s := { s with position := s.position.lineStart }) rfl (hknows.at _) rfl hline hm
      rw [drop_eq_cons hline, Reader.statements_cons, if_pos hline, Move.bind_bind, toLineStart_bind, Move.bind_bind,
        bind_assoc (m := Reader Table)]
      refine hreads.bind fun {o s' o' tr'} hturns => ?_
      cases hturns with
      | found hturned =>
        obtain ⟨⟨more, rfl, rfl⟩, hline', hknows'⟩ := hturned
        have hline' : s.position.line < s'.position.line := hline'
        have hbefore : s.position.Before s'.position := .inl hline'
        have hrest := ih (m := m) (stmts ++ more) hknows' (by omega) (by omega) (by omega)
        simp only [pure_bind, bind_assoc, snapshot_bind, if_pos hbefore]
        simp only [List.append_assoc] at hrest
        exact hrest.mono fun hstops => hstops.of_le (Nat.le_of_lt hline')
      | none hpos hknows' =>
        refine .ok ⟨?_, rfl, Nat.le_of_eq (congrArg Position.line hpos).symm, hknows'.at _⟩
        rw [hpos, List.append_nil, ← drop_eq_cons hline]
        rfl
    · rw [if_neg hline, List.drop_eq_nil_of_le (Nat.le_of_not_lt hline)]
      have hnil : Reader.statements .table m [] = pure ([], []) := by cases m <;> rfl
      rw [hnil]
      refine .ok ⟨?_, rfl, Nat.le_refl _, hknows.at _⟩
      rw [List.append_nil]
      exact congrArg _ (List.drop_eq_nil_of_le (Nat.le_of_not_lt hline)).symm

end

end Sprig.Descent
