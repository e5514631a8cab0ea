import Sprig.Proofs.Commas
import Sprig.Proofs.Equalities
import Sprig.Proofs.Parentheses
import Sprig.Proofs.RunRelation

/-!
# Several targets

A line with several targets and values is as many stores as it has targets. The commas behind the `=` part its values,
also where a value starts with a name: no store starts there, so long as no further `=` stands outside of parentheses.
The run of the line goes from target to target, and a value that no target is left for has no part in it.

Main statement: `Reader.statement?_targets`.
-/

namespace Sprig

open Production Token

/-! ## Lists of tokens -/

/-- The tokens are these parts, with a comma between each two. -/
inductive Token.Lists : List (List Token) → List Token → Prop where
  | none : Lists [] []
  | one {part} : Lists [part] part
  | comma {part next parts t ts} : t.kind = .comma → Lists (next :: parts) ts →
    Lists (part :: next :: parts) (part ++ t :: ts)

/-- What stands behind the first part. -/
inductive Token.ListsMore : List (List Token) → List Token → Prop where
  | none : ListsMore [] []
  | comma {next parts t ts} : t.kind = .comma → Lists (next :: parts) ts → ListsMore (next :: parts) (t :: ts)

namespace Token

variable {part ts rest : List Token} {parts : List (List Token)}

theorem Lists.behind_first (h : Lists (part :: parts) ts) : ∃ rest, ts = part ++ rest ∧ ListsMore parts rest := by
  cases h with
  | one => exact ⟨[], (List.append_nil _).symm, .none⟩
  | comma ht h => exact ⟨_, rfl, .comma ht h⟩

theorem ListsMore.parting (h : ListsMore parts ts) : Parting ts := by
  cases h with
  | none => exact parting_nil
  | comma ht _ => exact parting_cons ht

theorem bare_of_parts (hparts : ∀ part ∈ parts, Bare part ∧ Balanced 0 part) (h : ListsMore parts ts) : Bare ts := by
  induction parts generalizing ts with
  | nil =>
    cases h
    exact bare_nil
  | cons part parts ih =>
    cases h with
    | comma ht h =>
      obtain ⟨rest, rfl, hrest⟩ := h.behind_first
      obtain ⟨hpart, hparts⟩ := List.forall_mem_cons.mp hparts
      have hbare := hpart.1.append hpart.2 (ih hparts hrest)
      exact hbare.cons (by rw [ht]; rfl) (by rw [ht]; decide)

end Token

/-! ## Values -/

/-- On a line of their own the tokens are this value. -/
def Token.IsValue (ts : List Token) (e : Expr) : Prop :=
  ∃ tr, Reader.line? .table Grammar.value ts [] ⟨.initial, Notebook.table.empty⟩ = .ok (some e, tr)

theorem Token.isValue_iff {ts : List Token} {e : Expr} :
    IsValue ts e ↔ (Grammar.value .off .full ts start).1 = .found e [] := by
  have hrecalls : Notebook.table.Recalls ([] : List LogicalLine).length ts ⟨.initial, Notebook.table.empty⟩ :=
    .of_blank fun line _ rule n => Notebook.table_lawful.find_empty line rule n
  rw [IsValue, Reader.line?_eq_some_iff, hrecalls.value_eq Notebook.table_lawful]
  rfl

theorem Token.IsValue.finds {ts : List Token} {e : Expr} (h : IsValue ts e) :
    Finds (Grammar.value .off .full) ts e [] :=
  Grammar.finds_value_of_run (isValue_iff.mp h)

section
variable {values : List (List Token × Expr)} (h : ∀ v ∈ values, Finds (Grammar.value .off .full) v.1 v.2 [] ∧ Bare v.1)
include h

theorem Token.bare_of_values {ts : List Token} (hts : ListsMore (values.map (·.1)) ts) : Bare ts := by
  refine bare_of_parts ?_ hts
  intro part hpart
  obtain ⟨v, hv, rfl⟩ := List.mem_map.mp hpart
  exact ⟨(h v hv).2, (h v hv).1.settled_value.balanced⟩

theorem Production.Finds.first_value {v : List Token × Expr} {ts : List Token}
    (hv : Finds (Grammar.value .off .full) v.1 v.2 [] ∧ Bare v.1) (hts : ListsMore (values.map (·.1)) ts) :
    Finds (Grammar.value .off .full) (v.1 ++ ts) v.2 ts :=
  hv.1.value_in_list hts.parting (hv.2.append hv.1.settled_value.balanced (bare_of_values h hts))

theorem Production.FindsAll.listed_values {ts : List Token} (hts : ListsMore (values.map (·.1)) ts) :
    FindsAll (nextItem (Grammar.value .off .full) .value) ts (values.map (·.2)) [] := by
  induction values generalizing ts with
  | nil =>
    cases hts
    exact .noComma (by simp)
  | cons v values ih =>
    obtain ⟨hv, hvalues⟩ := List.forall_mem_cons.mp h
    cases hts with
    | comma ht hts =>
      obtain ⟨rest, rfl, hrest⟩ := hts.behind_first
      refine .comma ht (.first_value hvalues hv hrest) ?_ (ih hvalues hrest)
      rw [List.length_append]
      exact Nat.le_add_left _ _

theorem Production.Finds.listed_values {ts : List Token} (hts : Lists (values.map (·.1)) ts) :
    Finds (Production.orNil (Grammar.values .full)) ts (values.map (·.2)) [] := by
  rw [Grammar.values, Rules.full_value]
  cases values with
  | nil =>
    cases hts
    exact orNil_nil (Grammar.misses_value_of_next (by simp)).head
  | cons v values =>
    obtain ⟨hv, hvalues⟩ := List.forall_mem_cons.mp h
    obtain ⟨rest, rfl, hrest⟩ := hts.behind_first
    exact orNil ((Finds.first_value hvalues hv hrest).listOf (.listed_values hvalues hrest))

end

/-! ## Targets -/

/-- The name that a token is, with its line. -/
def Token.target (t : Token) : Nat × String := (t.line, t.text)

section
variable {names : List Token} (hnames : ∀ t ∈ names, t.kind = .identifier)
include hnames

theorem Production.FindsAll.listed_names {ts more : List Token} (hts : ListsMore (names.map ([·])) ts)
    (hmore : Token.next more ≠ some .comma) :
    FindsAll Grammar.nextTarget (ts ++ more) (names.map Token.target) more := by
  induction names generalizing ts with
  | nil =>
    cases hts
    exact .stop (Misses.token hmore).head
  | cons t names ih =>
    obtain ⟨ht, hnames⟩ := List.forall_mem_cons.mp hnames
    cases hts with
    | comma hcomma hts =>
      obtain ⟨rest, rfl, hrest⟩ := hts.behind_first
      refine .step ((Finds.token hcomma).bind (.target ht)) ?_ (ih hnames hrest)
      exact Nat.lt_succ_of_lt (Nat.lt_succ_self _)

theorem Production.Finds.stores_of_lists {values : List (List Token × Expr)} {first equal : Token} {ts vs : List Token}
    (hfirst : first.kind = .identifier) (hts : ListsMore (names.map ([·])) ts) (hequal : equal.kind = .equal)
    (hvalues : ∀ v ∈ values, Finds (Grammar.value .off .full) v.1 v.2 [] ∧ Bare v.1)
    (hvs : Lists (values.map (·.1)) vs) :
    Finds (Grammar.stores .full) (first :: (ts ++ equal :: vs))
      (Assign.pair first.line (first.target :: names.map Token.target) (values.map (·.2))) [] := by
  have hstop : Token.next (equal :: vs) ≠ some .comma := by simp [hequal]
  have htargets := FindsAll.listed_names hnames hts hstop
  refine peek.bind ((target hfirst).bind ((many htargets).bind ((token hequal).bind ?_)))
  exact (Finds.listed_values hvalues hvs).bind .pure

end

theorem Production.Finds.simple {ts rest : List Token} {as : List Assign}
    (h : Finds (Grammar.stores .full) ts as rest) :
    Finds (Grammar.simple .off .full) ts (as.map .assign) rest :=
  Finds.left (h.bind (f := fun as => Pure.pure (as.map Stmt.assign)) .pure)

theorem Assign.length_pair (line : Nat) : ∀ (names : List (Nat × String)) (values : List Expr),
    (pair line names values).length = names.length
  | [], _ => rfl
  | (_, _) :: names, [] => congrArg (· + 1) (Assign.length_pair line names [])
  | (_, _) :: names, _ :: values => congrArg (· + 1) (Assign.length_pair line names values)

theorem Assign.getElem?_pair (line : Nat) : ∀ (names : List (Nat × String)) (values : List Expr) (i : Nat),
    (pair line names values)[i]? =
      names[i]?.map fun name => ⟨name.1, name.2, values[i]?.getD (.literal line .nil)⟩
  | [], _, _ => rfl
  | (_, _) :: _, [], 0 => rfl
  | (_, _) :: _, _ :: _, 0 => rfl
  | (_, _) :: names, [], i + 1 => Assign.getElem?_pair line names [] i
  | (_, _) :: names, _ :: values, i + 1 => Assign.getElem?_pair line names values i

/-! ## The run of a line -/

/-- One name after another, from this state on: a value is evaluated, and what it evaluates to is stored before the next
value is looked at. A name without a value gets nil. Values without a name are not looked at. -/
inductive StoresInTurn (call : Caller) :
    List (Nat × String) → List Expr → Machine → EStateM.Result Stop Machine Unit → Prop where
  | done {values m} : StoresInTurn call [] values m (.ok () m)
  | value {line name names e values m v m₁ m₂ result} : e.eval call m = .ok v m₁ →
    Eval.store line name v m₁ = .ok () m₂ → StoresInTurn call names values m₂ result →
    StoresInTurn call ((line, name) :: names) (e :: values) m result
  | valueStops {line name names e values m stop m₁} : e.eval call m = .error stop m₁ →
    StoresInTurn call ((line, name) :: names) (e :: values) m (.error stop m₁)
  | storeStops {line name names e values m v m₁ stop m₂} : e.eval call m = .ok v m₁ →
    Eval.store line name v m₁ = .error stop m₂ →
    StoresInTurn call ((line, name) :: names) (e :: values) m (.error stop m₂)
  | nil {line name names m m₁ result} : Eval.store line name .nil { m with last := .nil } = .ok () m₁ →
    StoresInTurn call names [] m₁ result → StoresInTurn call ((line, name) :: names) [] m result
  | nilStops {line name names m stop m₁} : Eval.store line name .nil { m with last := .nil } = .error stop m₁ →
    StoresInTurn call ((line, name) :: names) [] m (.error stop m₁)

section
variable {call : Caller} {fuel line : Nat} {name : String} {e : Expr} {m m₁ m₂ : Machine} {v : Value} {stop : Stop}

theorem Stmt.exec_assign (he : e.eval call m = .ok v m₁) :
    (Stmt.assign ⟨line, name, e⟩).exec call fuel m = Eval.store line name v m₁ := by
  show (Functor.discard _ : Eval Unit) m = _
  rw [Eval.discard_eq]
  show EStateM.bind (EStateM.bind (e.eval call) fun v => EStateM.bind (Eval.store line name v) fun _ => pure v)
    (fun _ => pure ()) m = _
  simp only [EStateM.bind, he]
  cases Eval.store line name v m₁ <;> rfl

theorem Stmt.exec_assign_error (he : e.eval call m = .error stop m₁) :
    (Stmt.assign ⟨line, name, e⟩).exec call fuel m = .error stop m₁ := by
  show (Functor.discard _ : Eval Unit) m = _
  rw [Eval.discard_eq]
  show EStateM.bind (EStateM.bind (e.eval call) fun v => EStateM.bind (Eval.store line name v) fun _ => pure v)
    (fun _ => pure ()) m = _
  simp only [EStateM.bind, he]

end

theorem storesInTurn_pair (call : Caller) (fuel line : Nat) : ∀ (names : List (Nat × String)) (values : List Expr)
    (m : Machine), StoresInTurn call names values m
      (Stmt.execAll call fuel ((Assign.pair line names values).map .assign) m)
  | [], _, _ => .done
  | (l, name) :: names, [], m => by
    have hexec : (Stmt.assign ⟨l, name, .literal line .nil⟩).exec call fuel m =
        Eval.store l name .nil { m with last := .nil } := Stmt.exec_assign rfl
    rw [Assign.pair, List.map_cons]
    cases hstore : Eval.store l name .nil { m with last := .nil } with
    | ok _ m₁ =>
      rw [Stmt.execAll_ok (hexec.trans hstore)]
      exact .nil hstore (storesInTurn_pair call fuel line names [] m₁)
    | error stop m₁ =>
      rw [Stmt.execAll_error (hexec.trans hstore)]
      exact .nilStops hstore
  | (l, name) :: names, e :: values, m => by
    rw [Assign.pair, List.map_cons]
    cases he : e.eval call m with
    | ok v m₁ =>
      have hexec : (Stmt.assign ⟨l, name, e⟩).exec call fuel m = Eval.store l name v m₁ := Stmt.exec_assign he
      cases hstore : Eval.store l name v m₁ with
      | ok _ m₂ =>
        rw [Stmt.execAll_ok (hexec.trans hstore)]
        exact .value he hstore (storesInTurn_pair call fuel line names values m₂)
      | error stop m₂ =>
        rw [Stmt.execAll_error (hexec.trans hstore)]
        exact .storeStops he hstore
    | error stop m₁ =>
      rw [Stmt.execAll_error (Stmt.exec_assign_error he)]
      exact .valueStops he

/-! ## Lines -/

/-- Notes that only recall what was found leave a line of statements as it is without them. -/
theorem Notebook.Recalls.simple_eq {σ : Type} {notes : Notebook σ} {k : Nat} {ts : LogicalLine} {tr : Trace σ}
    (h : notes.Recalls k ts tr) (hn : notes.Lawful) :
    (Grammar.simple (notes.page k) (.upTo (notes.page k) ts.length) ts tr).1 =
      (Grammar.simple .off .full ts ⟨tr.scopes, ()⟩).1 := by
  have hmemory := Bridge.memorySim_recalling hn k ts
  have hmatches := Bridge.Sim.simple hmemory (Bridge.rulesSim_full hmemory ts.length) (List.suffix_refl ts)
    (Nat.lt_succ_self _) (show (Bridge.recalling notes k ts).traces tr ⟨tr.scopes, ()⟩ from ⟨rfl, h⟩)
  rw [show (Bridge.recalling notes k ts).mapLine = id from rfl, Token.map_mapLine_id] at hmatches
  generalize Grammar.simple (notes.page k) _ ts tr = y at hmatches ⊢
  generalize Grammar.simple .off .full ts _ = y' at hmatches ⊢
  cases hmatches with
  | found => rw [Stmt.map_mapLine_id, show (Bridge.recalling notes k ts).mapLine = id from rfl, Token.map_mapLine_id]
  | noMatch => rfl
  | fault => rfl

theorem Reader.statement?_of_finds {ts : LogicalLine} {ss : List Stmt} (hheader : ts.isHeader = false)
    (h : Finds (Grammar.simple .off .full) ts ss []) (body : Body _) (after : List LogicalLine) {tr : Trace _}
    (hblank : Notebook.table.Blank (after.length + 1) tr.memory) :
    ∃ tr₁, statement? .table body ts after tr = .ok (some (ss, after), tr₁) := by
  obtain ⟨tr₁, hline⟩ : ∃ tr₁, line? .table Grammar.simple ts after tr = .ok (some ss, tr₁) := by
    refine line?_eq_some_iff.mpr ?_
    rw [(Notebook.Recalls.of_blank hblank).simple_eq Notebook.table_lawful]
    obtain ⟨tr₁, h⟩ := h ⟨tr.scopes, ()⟩
    rw [h]
  refine ⟨tr₁, ?_⟩
  unfold LogicalLine.isHeader at hheader
  unfold statement?
  generalize ts.head?.map Token.kind = k at hheader ⊢
  split
  · cases hheader
  · cases hheader
  · cases hheader
  · exact congrArg (Except.map _) hline

/-- **A line with several targets is one store for each of them.** Wherever the line stands, it is read as one store for
every name, in their order: of the value in the same place, or of nil where there is none. Values beyond the names are
not part of it. Its run evaluates the values that have a name, each once and from left to right, and stores each before
it comes to the next. -/
theorem Reader.statement?_targets {first equal : Token} {names targets items : List Token}
    {values : List (List Token × Expr)} (hnames : ∀ t ∈ first :: names, t.kind = .identifier)
    (hvalues : ∀ v ∈ values, IsValue v.1 v.2 ∧ Bare v.1) (htargets : Lists ((first :: names).map ([·])) targets)
    (hequal : equal.kind = .equal) (hitems : Lists (values.map (·.1)) items) :
    ∃ stmts : List Stmt,
      (∃ p, Program.ofLines [targets ++ equal :: items] = .ok p ∧ p.body.stmts = stmts) ∧
      (∀ (body : Body _) (after : List LogicalLine) (tr : Trace _),
        Notebook.table.Blank (after.length + 1) tr.memory →
        ∃ tr₁, statement? .table body (targets ++ equal :: items) after tr = .ok (some (stmts, after), tr₁)) ∧
      stmts.length = (first :: names).length ∧
      (∀ (i : Nat) (t : Token), (first :: names)[i]? = some t →
        stmts[i]? = some (Stmt.assign ⟨t.line, t.text, (values.map (·.2))[i]?.getD (.literal first.line .nil)⟩)) ∧
      ∀ call fuel m, StoresInTurn call ((first :: names).map Token.target) (values.map (·.2)) m
        (Stmt.execAll call fuel stmts m) := by
  obtain ⟨rest, rfl, hrest⟩ := htargets.behind_first
  obtain ⟨hfirst, hnames⟩ := List.forall_mem_cons.mp hnames
  have hfinds : ∀ v ∈ values, Finds (Grammar.value .off .full) v.1 v.2 [] ∧ Bare v.1 :=
    fun v hv => ⟨(hvalues v hv).1.finds, (hvalues v hv).2⟩
  have hstores := Finds.stores_of_lists hnames hfirst hrest hequal hfinds hitems
  have hsimple : Finds (Grammar.simple .off .full) (first :: (rest ++ equal :: items))
      ((Assign.pair first.line ((first :: names).map Token.target) (values.map (·.2))).map Stmt.assign) [] :=
    hstores.simple
  have hheader : LogicalLine.isHeader (first :: (rest ++ equal :: items)) = false := by
    simp [LogicalLine.isHeader, hfirst]
  refine ⟨_, Program.ofLines_line hheader hsimple, ?_, ?_, ?_, ?_⟩
  · exact fun body after tr hblank => statement?_of_finds hheader hsimple body after hblank
  · rw [List.length_map, Assign.length_pair, List.length_map]
  · intro i t hi
    simp only [List.getElem?_map, Assign.getElem?_pair, hi, Option.map_some, target]
  · exact fun call fuel m => storesInTurn_pair call fuel first.line _ _ m

/-- The line `a, b = f(1, c), (d = 2), 3`. -/
theorem Reader.statement?_targets_surplus :
    ∃ p, Program.ofLines [[⟨.identifier, "a", 1⟩, ⟨.comma, ",", 1⟩, ⟨.identifier, "b", 1⟩, ⟨.equal, "=", 1⟩,
      ⟨.identifier, "f", 1⟩, ⟨.leftParen, "(", 1⟩, ⟨.integer, "1", 1⟩, ⟨.comma, ",", 1⟩, ⟨.identifier, "c", 1⟩,
      ⟨.rightParen, ")", 1⟩, ⟨.comma, ",", 1⟩, ⟨.leftParen, "(", 1⟩, ⟨.identifier, "d", 1⟩, ⟨.equal, "=", 1⟩,
      ⟨.integer, "2", 1⟩, ⟨.rightParen, ")", 1⟩, ⟨.comma, ",", 1⟩, ⟨.integer, "3", 1⟩]] = .ok p ∧
      p.body.stmts = [.assign ⟨1, "a", .call 1 "f" [.literal 1 (.integer 1), .call 1 "c" []]⟩,
        .assign ⟨1, "b", .assign 1 [⟨1, "d", .literal 1 (.integer 2)⟩]⟩] := by
  let a : Token := ⟨.identifier, "a", 1⟩
  let b : Token := ⟨.identifier, "b", 1⟩
  let called : List Token := [⟨.identifier, "f", 1⟩, ⟨.leftParen, "(", 1⟩, ⟨.integer, "1", 1⟩, ⟨.comma, ",", 1⟩,
    ⟨.identifier, "c", 1⟩, ⟨.rightParen, ")", 1⟩]
  let stored : List Token := [⟨.leftParen, "(", 1⟩, ⟨.identifier, "d", 1⟩, ⟨.equal, "=", 1⟩, ⟨.integer, "2", 1⟩,
    ⟨.rightParen, ")", 1⟩]
  let three : List Token := [⟨.integer, "3", 1⟩]
  have hvalue {ts : List Token} {e : Expr} (h : (Rules.full.value ts start).1 = .found e []) : IsValue ts e :=
    isValue_iff.mpr (Rules.full_value ▸ h)
  have hvalues : ∀ v ∈ [(called, Expr.call 1 "f" [.literal 1 (.integer 1), .call 1 "c" []]),
      (stored, .assign 1 [⟨1, "d", .literal 1 (.integer 2)⟩]), (three, .literal 1 (.integer 3))],
      IsValue v.1 v.2 ∧ Bare v.1 := by
    simp only [List.forall_mem_cons]
    exact ⟨⟨hvalue rfl, bare_of_take (by decide)⟩, ⟨hvalue rfl, bare_of_take (by decide)⟩,
      ⟨hvalue rfl, bare_of_take (by decide)⟩, nofun⟩
  have hcomma : (⟨.comma, ",", 1⟩ : Token).kind = .comma := rfl
  have hnames : ∀ t ∈ [a, b], t.kind = .identifier := by decide
  have hequal : (⟨.equal, "=", 1⟩ : Token).kind = .equal := rfl
  obtain ⟨stmts, ⟨p, hp, rfl⟩, -, hlength, hstmts, -⟩ := Reader.statement?_targets hnames hvalues
    (.comma hcomma .one) hequal (.comma hcomma (.comma hcomma .one))
  refine ⟨p, hp, ?_⟩
  match hp : p.body.stmts, hlength with
  | [s₁, s₂], _ =>
    rw [hp] at hstmts
    rw [Option.some.inj (hstmts 0 a rfl), Option.some.inj (hstmts 1 b rfl)]
    rfl

end Sprig
