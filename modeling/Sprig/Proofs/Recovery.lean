import Sprig.Proofs.Cuts
import Sprig.Proofs.Phrases

/-!
# Printed programs are recovered

Printed lines read as the program they were printed from, up to its lines and the scopes its functions keep.
Expressions are found whole, so every line is read to its end, and a block stops in front of the keyword that is
printed behind it.
-/

namespace Sprig

open Production

/-! ## Lines -/

section
variable {α : Type} {p : Memory Unit → Rules Unit → Production Unit α} {ts : LogicalLine} {a : α}

theorem ReadsLine.of_finds (hp : p .off (.upTo .off ts.length) ts = p .off .full ts)
    (h : Finds (p .off .full) ts a []) (s : ScopeTable) : ∃ s', ReadsLine p s ts (some a) s' := by
  obtain ⟨⟨s', ⟨⟩⟩, h⟩ := h ⟨s, ()⟩
  refine ⟨s', ?_⟩
  rw [← hp] at h
  simp only [ReadsLine, Reader.line?, Notebook.off, h]

theorem ReadsLine.of_misses (hp : p .off (.upTo .off ts.length) ts = p .off .full ts)
    (h : Misses (p .off .full) ts) (s : ScopeTable) : ∃ s', ReadsLine p s ts none s' := by
  obtain ⟨⟨s', ⟨⟩⟩, h⟩ := h ⟨s, ()⟩
  refine ⟨s', ?_⟩
  rw [← hp] at h
  simp only [ReadsLine, Reader.line?, Notebook.off, h]

end

/-- No statement starts on the first line, if there is one. -/
def Stands (lines : List LogicalLine) : Prop := ∀ s, ∃ s', ReadsBlock s lines [] lines s'

theorem stands_nil : Stands [] := fun s => ⟨s, .nil⟩

/-- The keywords that go on with a block statement or end it. -/
def Kind.goesOn : Kind → Bool
  | kwElif | kwElse | kwEnd => true
  | _ => false

theorem stands_of_goesOn {t : Token} {ts : List Token} {rest : List LogicalLine} (h : t.kind.goesOn = true) :
    Stands ((t :: ts) :: rest) := by
  intro s
  have hk : t.kind = .kwElif ∨ t.kind = .kwElse ∨ t.kind = .kwEnd := by
    revert h
    cases t.kind <;> simp [Kind.goesOn]
  have hmiss : Misses (Grammar.simple .off .full) (t :: ts) := by
    refine Grammar.misses_simple_of_next ?_ ?_ ?_
    all_goals rcases hk with hk | hk | hk <;> simp [hk, Kind.opensExpr, Kind.opensOperand]
  obtain ⟨s', hread⟩ := ReadsLine.of_misses (Bridge.simple_upTo _) hmiss s
  refine ⟨s', .stop ?_ hread⟩
  rcases hk with hk | hk | hk <;> simp [LogicalLine.isHeader, hk]

/-! ### Header lines -/

section
variable {e : Expr} {es : List Expr} (bare : Bool)

theorem Expr.Tiered.armHeader (h : e.Tiered) (hb : e.isBoolean = true) {t : Token}
    (ht : t.kind = .kwIf ∨ t.kind = .kwElif) (s : ScopeTable) :
    ∃ s', ReadsLine Grammar.armHeader s (t :: e.whole bare) (some (t.line, e.unlined)) s' := by
  refine ReadsLine.of_finds (Bridge.armHeader_upTo _) ?_ s
  have htoken : Finds (token .kwIf <|> token .kwElif : Production Unit Token) (t :: e.whole bare) t
      (e.whole bare) := by
    rcases ht with ht | ht
    · exact .left (.token ht)
    · exact .right (Misses.token (by simp [ht])) (.token ht)
  exact htoken.bind (.bind (.demand (h.lowBoolean bare hb)) .pure)

theorem Expr.Tiered.loopHeader (h : e.Tiered) (hb : e.isBoolean = true) {t : Token} (ht : t.kind = .kwWhile)
    (s : ScopeTable) : ∃ s', ReadsLine Grammar.loopHeader s (t :: e.whole bare) (some (t.line, e.unlined)) s' := by
  refine ReadsLine.of_finds (Bridge.loopHeader_upTo _) ?_ s
  exact (Finds.token ht).bind (.bind (.demand (h.lowBoolean bare hb)) .pure)

end

theorem Production.Finds.parameters {unclosed : SyntaxProblem} {line : Nat} (params : List String) :
    Finds (Production.inParens (Production.listOf Grammar.target .parameter) line unclosed : Production Unit _)
      (if params.isEmpty then [] else Token.enclosed (Token.separated (params.map fun p => [.name p])))
      (params.map fun p => (0, p)) [] := by
  cases params with
  | nil => exact inParens_nil (by simp)
  | cons p ps =>
    have hlist : Finds (Production.listOf Grammar.target .parameter : Production Unit _)
        (Token.separated ((p :: ps).map fun p => [.name p]) ++ [Token.closing]) ((p :: ps).map fun p => (0, p))
        [.closing] :=
      Finds.separated (E := fun _ => True) (by simp) trivial (List.cons_ne_nil p ps)
        fun _ _ => ⟨fun _ => .target rfl, fun _ => trivial⟩
    exact inParens (t := .opening) (u := .closing) rfl hlist rfl

theorem Production.Finds.functionHeader (name : String) (params : List String) :
    Finds (Grammar.functionHeader : Production Unit (Nat × String × List String))
      (.unlined .kwDef "def" :: .name name ::
        if params.isEmpty then [] else Token.enclosed (Token.separated (params.map fun p => [.name p])))
      (0, name, params) [] := by
  have hnames : (params.map fun p => (0, p)).map Prod.snd = params := by simp [Function.comp_def]
  refine (token (k := .kwDef) rfl).bind ((demand (token (k := .identifier) rfl)).bind (modifyScopes.bind ?_))
  refine (parameters params).bind ?_
  rw [hnames]
  exact pure

/-! ### Statements of one line -/

namespace Grammar

/-- `gets` is a statement of its own only where nothing comes behind it. -/
def getsLine : Production Unit (List Stmt) := do
  let t ← token .kwGets
  endOfLine
  return [.gets t.line]

theorem misses_getsLine {l : Expr} {t : Token} {ts : List Token} : Misses getsLine (l.operand ++ t :: ts) := by
  by_cases hl : l.opening = .kwGets
  · obtain ⟨line, rfl⟩ := Expr.gets_of_opening hl
    exact .tail (Finds.token rfl) (Misses.endOfLine (List.cons_ne_nil t ts)).head
  · exact (Misses.token (by simpa [Expr.next_operand] using hl)).head

theorem misses_getsLine_whole {e : Expr} (he : e.isGets = false) (bare : Bool) :
    Misses getsLine (e.whole bare) := by
  rcases e.whole_cases bare with hw | ⟨hc, ha, hw⟩
  · have hopening : e.opening ≠ .kwGets := by
      intro ho
      obtain ⟨line, rfl⟩ := Expr.gets_of_opening ho
      cases he
    rw [hw, ← List.append_nil e.operand]
    refine (Misses.token ?_).head
    rw [Expr.next_operand]
    simpa using hopening
  · rw [hw]
    match e, hc, ha with
    | .binary _ _ left _, _, _ =>
      rw [Expr.text_binary]
      exact misses_getsLine
    | .compare _ _ left _, _, _ =>
      rw [Expr.text_compare]
      exact misses_getsLine
    | .negate _ op _, _, _ => exact (Misses.token (by cases op <;> simp [Negation.kind])).head

end Grammar

namespace Production.Finds

variable (bare : Bool)

theorem simple_assign {store : Assign} (h : store.value.Tiered) : Finds (Grammar.simple .off .full)
    (.name store.name :: .equalSign :: store.value.whole bare) [.assign store.unlined] [] := by
  have hwritten : ∀ a ∈ [store], a.value.Written (a.value.whole bare) := by simpa using h.written bare
  have hend : Token.next [] ≠ some .comma := by simp
  have hstores : Finds (Grammar.stores .full) (.name store.name :: .equalSign :: store.value.whole bare)
      [store.unlined] [] := by
    simpa [Token.separated] using Finds.stores hwritten (List.cons_ne_nil _ _) .nil hend
  exact .left (hstores.bind pure)

theorem simple_print {values : List Expr} (h : Expr.TieredAll values) :
    Finds (Grammar.simple .off .full)
      (.unlined .kwPrint "print" :: Token.separated (values.map (Expr.whole bare)))
      [.print 0 (values.map Expr.unlined)] [] := by
  refine .right (Grammar.misses_stores rfl).head (.left ?_)
  exact (token (k := .kwPrint) rfl).bind (.bind (values_orNil (h.written bare)) pure)

theorem simple_puts {values : List Expr} (h : Expr.TieredAll values) :
    Finds (Grammar.simple .off .full)
      (.unlined .kwPuts "puts" :: Token.separated (values.map (Expr.whole bare)))
      [.puts 0 (values.map Expr.unlined)] [] := by
  refine .right (Grammar.misses_stores rfl).head (.right (Misses.token (by simp)).head (.left ?_))
  exact (token (k := .kwPuts) rfl).bind (.bind (values_orNil (h.written bare)) pure)

theorem simple_gets : Finds (Grammar.simple .off .full) [.unlined .kwGets "gets"] [.gets 0] [] := by
  refine .right (Grammar.misses_stores rfl).head (.right (Misses.token (by simp)).head ?_)
  refine .right (Misses.token (by simp)).head (.left ?_)
  exact (token (k := .kwGets) rfl).bind (endOfLine.bind pure)

theorem simple_value {ts rest : List Token} {e : Expr} (hs : Token.startsStores ts = false)
    (hts : ∀ k ∈ Token.next ts, k.opensExpr = true) (hgets : Misses Grammar.getsLine ts)
    (h : Finds (Grammar.value .off .full) ts e rest) : Finds (Grammar.simple .off .full) ts [.expr e] rest := by
  have hne {k : Kind} (hk : k.opensExpr = false) : Token.next ts ≠ some k := by
    intro hnext
    rw [hts k hnext] at hk
    cases hk
  refine .right (Grammar.misses_stores hs).head (.right (Misses.token (hne rfl)).head ?_)
  exact .right (Misses.token (hne rfl)).head (.right hgets (h.bind pure))

theorem simple_expr {e : Expr} (h : e.Tiered) (he : e.isGets = false) :
    Finds (Grammar.simple .off .full) (e.whole bare) [.expr e.unlined] [] := by
  have hstores : Token.startsStores (e.whole bare) = false := by
    have hcomma := (h.written bare).behindComma (Token.Ends.nil (n := 1))
    simpa [Token.storesAhead_cons] using hcomma.stores
  have hvalue : Finds (Grammar.value .off .full) (e.whole bare) e.unlined [] := by
    simpa using (h.written bare).found .nil
  exact simple_value hstores (e.opensExpr_whole bare) (Grammar.misses_getsLine_whole he bare) hvalue

end Production.Finds

/-! ## Blocks -/

theorem isHeader_of_opensExpr {ts : LogicalLine} (h : ∀ k ∈ Token.next ts, k.opensExpr = true) :
    ts.isHeader = false := by
  unfold LogicalLine.isHeader
  split
  all_goals first
    | rfl
    | exact absurd (h _ ‹_›) (by decide)

theorem ReadsStmt.of_finds {ts : LogicalLine} {ss : List Stmt} (hts : ts.isHeader = false)
    (h : Finds (Grammar.simple .off .full) ts ss []) (t : ScopeTable) (rest : List LogicalLine) :
    ∃ t', ReadsStmt t ts rest ss rest t' := by
  obtain ⟨t', h⟩ := ReadsLine.of_finds (Bridge.simple_upTo _) h t
  exact ⟨t', .simple hts h⟩

/-- On the lines the statement is read, whatever comes behind it. -/
def Stmt.ReadFrom (s : Stmt) (lines : List LogicalLine) : Prop :=
  ∀ t rest, ∃ header tail s₂ t', lines = header :: tail ∧ ReadsStmt t header (tail ++ rest) [s₂] rest t' ∧
    s₂.shape = s.shape

theorem Stmt.ReadFrom.of_finds {s s₂ : Stmt} {ts : LogicalLine} (hts : ts.isHeader = false)
    (h : Finds (Grammar.simple .off .full) ts [s₂] []) (hs : s₂.shape = s.shape) : s.ReadFrom [ts] := by
  intro t rest
  obtain ⟨t', h⟩ := ReadsStmt.of_finds hts h t rest
  exact ⟨ts, [], s₂, t', rfl, h, hs⟩

section
variable (bare : Bool)

theorem startsWith_otherwise (o : Option Block) (rest : List LogicalLine) :
    startsWith .kwElif (Block.linesElse bare o ++ [.endKeyword] :: rest) = false := by
  cases o <;> rfl

theorem stands_end (rest : List LogicalLine) : Stands ([.endKeyword] :: rest) := stands_of_goesOn rfl

theorem stands_otherwise (o : Option Block) (rest : List LogicalLine) :
    Stands (Block.linesElse bare o ++ [.endKeyword] :: rest) := by
  cases o <;> exact stands_of_goesOn rfl

theorem stands_arms (as : List Arm) {rest : List LogicalLine} (h : Stands rest) :
    Stands (Arm.linesAll bare as ++ rest) := by
  cases as with
  | nil => exact h
  | cons a as =>
    obtain ⟨_, _, _⟩ := a
    exact stands_of_goesOn (t := .unlined .kwElif "elif") rfl

mutual

theorem Stmt.Tiered.readFrom : ∀ {s : Stmt}, s.Tiered → s.ReadFrom (s.lines bare)
  | .assign store, h => .of_finds rfl (.simple_assign bare h) (by simp [Stmt.shape])
  | .print _ values, h => .of_finds rfl (.simple_print bare h) (by simp [Stmt.shape])
  | .puts _ values, h => .of_finds rfl (.simple_puts bare h) (by simp [Stmt.shape])
  | .gets _, _ => .of_finds rfl .simple_gets rfl
  | .expr e, ⟨he, h⟩ =>
    .of_finds (isHeader_of_opensExpr (e.opensExpr_whole bare)) (.simple_expr bare h he) (by simp [Stmt.shape])
  | .loop _ condition body, ⟨⟨hb, hc⟩, h⟩ => by
    intro t rest
    obtain ⟨t₁, hheader⟩ := hc.loopHeader bare hb (t := .unlined .kwWhile "while") rfl t
    obtain ⟨ss, t', hread, hshape⟩ := h.reads t₁ (stands_end rest)
    have hbody : ReadsBlock t₁ (body.lines bare ++ [[.endKeyword]] ++ rest) ss ([.endKeyword] :: rest) t' := by
      simpa using hread
    exact ⟨_, _, _, t', rfl, .loop rfl hheader hbody rfl, by simp [Stmt.shape, hshape]⟩
  | .define ⟨name, params, _, body, _⟩, h => by
    intro t rest
    obtain ⟨t₁, hheader⟩ := ReadsLine.of_finds (p := fun _ _ => Grammar.functionHeader) rfl
      (Finds.functionHeader name params) t
    obtain ⟨ss, t', hread, hshape⟩ := Block.Tiered.reads h t₁ (stands_end rest)
    have hbody : ReadsBlock t₁ (body.lines bare ++ [[.endKeyword]] ++ rest) ss ([.endKeyword] :: rest) t' := by
      simpa using hread
    exact ⟨_, _, _, t'.leave, rfl, .define rfl hheader hbody rfl, by simp [Stmt.shape, Func.shape, hshape]⟩
  | .choose ⟨_, condition, body⟩ others otherwise, ⟨⟨⟨hb, hc⟩, h⟩, hothers, hotherwise⟩ => by
    intro t rest
    obtain ⟨t₁, hheader⟩ := hc.armHeader bare hb (t := .unlined .kwIf "if") (.inl rfl) t
    obtain ⟨ss, t₂, hread, hshape⟩ := h.reads t₁
      (stands_arms bare others (stands_otherwise bare otherwise rest))
    obtain ⟨others₂, t₃, harms, hshapes⟩ := Arm.TieredAll.reads hothers t₂
      (stands_otherwise bare otherwise rest) (startsWith_otherwise bare otherwise rest)
    obtain ⟨otherwise₂, t', hlast, hshape'⟩ := Block.TieredOption.reads hotherwise t₃ (stands_end rest) rfl
    have hbody : ReadsBlock t₁ (body.lines bare ++ (Arm.linesAll bare others ++
        (Block.linesElse bare otherwise ++ [[.endKeyword]])) ++ rest) ss
        (Arm.linesAll bare others ++ (Block.linesElse bare otherwise ++ [.endKeyword] :: rest)) t₂ := by
      simpa using hread
    refine ⟨_, _, _, t', rfl, .choose rfl hheader hbody harms hlast rfl, ?_⟩
    simp [Stmt.shape, Arm.shape, hshape, hshapes, hshape']

theorem Block.Tiered.reads : ∀ {b : Block}, b.Tiered → ∀ (t : ScopeTable) {rest : List LogicalLine}, Stands rest →
    ∃ ss t', ReadsBlock t (b.lines bare ++ rest) ss rest t' ∧ ∀ line, Block.shape ⟨line, ss⟩ = b.shape
  | ⟨_, stmts⟩, h, t, rest, hrest => by
    obtain ⟨ss, t', hread, hshape⟩ := Stmt.TieredAll.reads h t hrest
    exact ⟨ss, t', hread, fun line => by simp [Block.shape, hshape]⟩

theorem Stmt.TieredAll.reads : ∀ {ss : List Stmt}, Stmt.TieredAll ss → ∀ (t : ScopeTable)
    {rest : List LogicalLine}, Stands rest → ∃ ss₂ t', ReadsBlock t (Stmt.linesAll bare ss ++ rest) ss₂ rest t' ∧
      ss₂.map Stmt.shape = ss.map Stmt.shape
  | [], _, t, rest, hrest => by
    obtain ⟨t', h⟩ := hrest t
    exact ⟨[], t', h, rfl⟩
  | s :: ss, ⟨hs, hss⟩, t, rest, hrest => by
    obtain ⟨header, tail, s₂, t₁, hlines, hread, hshape⟩ := hs.readFrom t (Stmt.linesAll bare ss ++ rest)
    obtain ⟨ss₂, t', hreads, hshapes⟩ := Stmt.TieredAll.reads hss t₁ hrest
    refine ⟨s₂ :: ss₂, t', ?_, by simp [hshape, hshapes]⟩
    rw [Stmt.linesAll, hlines, List.append_assoc, List.cons_append]
    exact .cons hread hreads

theorem Arm.TieredAll.reads : ∀ {as : List Arm}, Arm.TieredAll as → ∀ (t : ScopeTable) {rest : List LogicalLine},
    Stands rest → startsWith .kwElif rest = false →
      ∃ as₂ t', ReadsArms t (Arm.linesAll bare as ++ rest) as₂ rest t' ∧ as₂.map Arm.shape = as.map Arm.shape
  | [], _, t, rest, _, hstart => ⟨[], t, .nil hstart, rfl⟩
  | ⟨_, condition, body⟩ :: as, ⟨⟨⟨hb, hc⟩, h⟩, has⟩, t, rest, hrest, hstart => by
    obtain ⟨t₁, hheader⟩ := hc.armHeader bare hb (t := .unlined .kwElif "elif") (.inr rfl) t
    obtain ⟨ss, t₂, hread, hshape⟩ := h.reads t₁ (stands_arms bare as hrest)
    obtain ⟨as₂, t', harms, hshapes⟩ := Arm.TieredAll.reads has t₂ hrest hstart
    rw [Arm.linesAll, List.cons_append, List.append_assoc]
    exact ⟨_, t', .cons rfl hheader hread harms, by simp [Arm.shape, hshape, hshapes]⟩

theorem Block.TieredOption.reads : ∀ {o : Option Block}, Block.TieredOption o → ∀ (t : ScopeTable)
    {rest : List LogicalLine}, Stands rest → startsWith .kwElse rest = false →
      ∃ o₂ t', ReadsOtherwise t (Block.linesElse bare o ++ rest) o₂ rest t' ∧
        o₂.map Block.shape = o.map Block.shape
  | none, _, t, rest, _, hstart => ⟨none, t, .none hstart, rfl⟩
  | some b, h, t, rest, hrest, _ => by
    obtain ⟨ss, t', hread, hshape⟩ := Block.Tiered.reads h t hrest
    exact ⟨some ⟨_, ss⟩, t', .some rfl hread, by simp [hshape]⟩

end

end

/-! ## Programs -/

namespace Program

/-- Lines on other physical lines read as the same statements or are at the same fault. -/
theorem ofLines_mapLines (g : Nat → Nat) {lines : List LogicalLine} (hlines : ∀ ts ∈ lines, ts ≠ []) :
    (∃ f, ofLines lines = .error f ∧ ofLines (mapLines g lines) = .error (f.mapLine g)) ∨
      ∃ p q, ofLines lines = .ok p ∧ ofLines (mapLines g lines) = .ok q ∧
        q.body.stmts = p.body.stmts.map (Stmt.mapLine g) := by
  have hmoved := ofLines_renumbered g hlines
  cases hp : ofLines lines with
  | error f =>
    rw [hp] at hmoved
    exact .inl ⟨f, rfl, hmoved⟩
  | ok p =>
    rw [hp] at hmoved
    exact .inr ⟨p, _, rfl, hmoved, rfl⟩

/-- **Printed programs are recovered.** Lines that are, but for the physical lines they stand on, those that a
program of the tiered grammar is printed as, read as that program, up to its own lines and the scopes of its
functions. -/
theorem ofLines_printed (bare : Bool) {stmts : List Stmt} (h : Stmt.TieredAll stmts) {lines : List LogicalLine}
    (hlines : mapLines (fun _ => 0) lines = Stmt.linesAll bare stmts) :
    ∃ p, ofLines lines = .ok p ∧ p.body.stmts.map Stmt.shape = stmts.map Stmt.shape := by
  obtain ⟨ss, t, hread, hshape⟩ := Stmt.TieredAll.reads bare h .initial stands_nil
  rw [List.append_nil, ← hlines] at hread
  have hne : ∀ ts ∈ lines, ts ≠ [] := by
    obtain ⟨used, hused, hsettled⟩ := hread.passes
    rintro _ hts rfl
    have hmem : [] ∈ used ++ [] := hused ▸ List.mem_map_of_mem hts
    obtain ⟨t, hlast, _⟩ := (hsettled [] (by simpa using hmem)).last
    cases hlast
  have hprinted := ofLines_of_readsBlock hread
  rcases ofLines_mapLines (fun _ => 0) hne with ⟨f, _, hmoved⟩ | ⟨p, q, hp, hmoved, hstmts⟩
  · rw [hprinted] at hmoved
    cases hmoved
  · rw [hprinted] at hmoved
    cases hmoved
    refine ⟨p, hp, ?_⟩
    rw [← hshape, show ss = p.body.stmts.map (Stmt.mapLine fun _ => 0) from hstmts, Stmt.map_shape_mapLine]

theorem ofLines_printed_while :
    Stmt.TieredAll [.loop 7 (.compare 7 .greater (.call 7 "n" []) (.literal 7 (.integer 0)))
      ⟨8, [.assign ⟨8, "n", .binary 8 (.arithmetic .subtract) (.call 8 "n" []) (.literal 8 (.integer 1))⟩]⟩] ∧
    mapLines (fun _ => 0)
      [[⟨.kwWhile, "while", 1⟩, ⟨.identifier, "n", 1⟩, ⟨.greater, ">", 1⟩, ⟨.integer, "0", 1⟩],
        [⟨.identifier, "n", 2⟩, ⟨.equal, "=", 2⟩, ⟨.identifier, "n", 2⟩, ⟨.minus, "-", 2⟩, ⟨.integer, "1", 2⟩],
        [⟨.kwEnd, "end", 3⟩]] =
      Stmt.linesAll true [.loop 7 (.compare 7 .greater (.call 7 "n" []) (.literal 7 (.integer 0)))
        ⟨8, [.assign ⟨8, "n", .binary 8 (.arithmetic .subtract) (.call 8 "n" []) (.literal 8 (.integer 1))⟩]⟩] ∧
    ∃ p, ofLines [[⟨.kwWhile, "while", 1⟩, ⟨.identifier, "n", 1⟩, ⟨.greater, ">", 1⟩, ⟨.integer, "0", 1⟩],
        [⟨.identifier, "n", 2⟩, ⟨.equal, "=", 2⟩, ⟨.identifier, "n", 2⟩, ⟨.minus, "-", 2⟩, ⟨.integer, "1", 2⟩],
        [⟨.kwEnd, "end", 3⟩]] = .ok p ∧
      p.body.stmts.map Stmt.shape = [.loop 0 (.compare 0 .greater (.call 0 "n" []) (.literal 0 (.integer 0)))
        ⟨0, [.assign ⟨0, "n", .binary 0 (.arithmetic .subtract) (.call 0 "n" []) (.literal 0 (.integer 1))⟩]⟩] := by
  have htiered : Stmt.TieredAll [.loop 7 (.compare 7 .greater (.call 7 "n" []) (.literal 7 (.integer 0)))
      ⟨8, [.assign ⟨8, "n", .binary 8 (.arithmetic .subtract) (.call 8 "n" []) (.literal 8 (.integer 1))⟩]⟩] := by
    simp [Stmt.TieredAll, Stmt.Tiered, Block.Tiered, Expr.Tiered, Expr.TieredAll, Expr.isBoolean, Comparison.takes,
      BinaryOp.takes, Expr.isNumber, Literal.Plain]
  refine ⟨htiered, rfl, ?_⟩
  exact ofLines_printed true htiered rfl

end Program

end Sprig
