import Sprig.Proofs.Extent
import Sprig.Proofs.MemoSound

/-!
# Texts put together

A statement ends with its own line or with the `end` of its own block, so lines that come after do not change
how it is read (`ReadsStmt.append`). And what comes after is read as it would be on its own: names that are
declared already stay where they are (`ScopeTable.after`), and lines have other numbers.

Main statement: `Program.ofLines_append`.
-/

namespace Sprig

/-! ## Invariants of readings -/

/-- A reading beside itself, with what is known of the scopes while `d` functions are open. -/
def TextBridge.keeping (I : Nat → ScopeTable → Prop) (declare : ∀ {d t} name, I d t → I d (t.declare name))
    (push : ∀ {d t} name, I d t → I (d + 1) (t.push name)) (leave : ∀ {d t}, I (d + 1) t → I d t.leave) :
    TextBridge Unit where
  notes := .off
  mapLine := id
  traces d _ tr tr' := tr' = tr ∧ I d tr.scopes
  fresh d _ tr tr' := tr' = tr ∧ I d tr.scopes
  declare name h := ⟨by rw [h.1], declare name h.2⟩
  declare_fresh name h := ⟨by rw [h.1], declare name h.2⟩
  traces_of_fresh h := h
  fresh_of_traces h := h
  push name h := ⟨by rw [h.1], push name h.2⟩
  current h := by rw [h.1]
  leave h := ⟨by rw [h.1], leave h.2⟩
  blockLine := by
    intro d header lines tr tr' _ _
    rw [Token.map_mapLine_id, mapLines_id]
    rfl
  memory d ts rest := Bridge.memorySim_off _ _

namespace Reader

variable {I : Nat → ScopeTable → Prop} {n : Nat} {lines : List LogicalLine} {tr : Trace Unit}

/-- What declaring names and opening and closing scopes preserve is preserved by reading a block. -/
theorem statements_keep (declare : ∀ {d t} name, I d t → I d (t.declare name))
    (push : ∀ {d t} name, I d t → I (d + 1) (t.push name)) (leave : ∀ {d t}, I (d + 1) t → I d t.leave)
    {d : Nat} (hI : I d tr.scopes) (hn : lines.length ≤ n) {r : List Stmt × List LogicalLine}
    {tr' : Trace Unit} (h : statements .off n lines tr = .ok (r, tr')) : I d tr'.scopes := by
  let T := TextBridge.keeping I declare push leave
  have hs := T.sim_statements n n d lines hn hn (show T.fresh d lines tr tr from ⟨rfl, hI⟩)
  rw [show T.notes = .off from rfl, h] at hs
  generalize statements .off n (mapLines _ lines) tr = y at hs
  cases hs with
  | ok hp => exact hp.1.2

theorem statements_bound {m : Nat} (hn : lines.length ≤ n) (hm : lines.length ≤ m) :
    statements .off n lines tr = statements .off m lines tr := by
  let T := TextBridge.keeping (fun _ _ => True) (fun _ h => h) (fun _ h => h) (fun h => h)
  have hs := T.sim_statements n m 0 lines hn hm (show T.fresh 0 lines tr tr from ⟨rfl, trivial⟩)
  rw [show T.notes = .off from rfl, show T.mapLine = id from rfl, mapLines_id] at hs
  generalize statements .off n lines tr = x at hs ⊢
  generalize statements .off m lines tr = y at hs ⊢
  cases hs with
  | ok hp =>
    rw [Stmt.map_mapLine_id, mapLines_id, show _ = _ from hp.1.1]
  | error => rfl

end Reader

/-! ## Names that are declared already -/

/-- The scope with the names of `base` before its own. -/
def Scope.after (s base : Scope) : Scope :=
  { s with names := base.names ++ s.names.filter fun n => !base.names.contains n }

theorem Scope.after_declare (s base : Scope) (name : String) :
    (s.declare name).after base = (s.after base).declare name := by
  have hmem : name ∈ (s.after base).names ↔ name ∈ base.names ∨ name ∈ s.names := by
    simp only [after, List.mem_append, List.mem_filter, Bool.not_eq_true', List.contains_eq_mem,
      decide_eq_false_iff_not]
    by_cases hb : name ∈ base.names <;> simp only [hb, true_or, false_or, not_false_eq_true, and_true]
  by_cases hs : name ∈ s.names
  · rw [declare_of_mem hs, declare_of_mem (hmem.mpr (Or.inr hs))]
  rw [declare_of_not_mem hs]
  by_cases hb : name ∈ base.names
  · rw [declare_of_mem (hmem.mpr (Or.inl hb))]
    simp only [after, List.filter_append, List.filter_cons, List.contains_eq_mem, hb, decide_true, Bool.not_true,
      Bool.false_eq_true, if_false, List.filter_nil, List.append_nil]
  · rw [declare_of_not_mem (fun h => (hmem.mp h).elim hb hs)]
    simp only [after, List.filter_append, List.filter_cons, List.contains_eq_mem, hb, decide_false,
      Bool.not_false, if_true, List.filter_nil, List.append_assoc]

namespace ScopeTable

/-- The table with the global and program names of `base` before its own. -/
def after (t base : ScopeTable) : ScopeTable :=
  { t with globals := t.globals.after base.globals, program := t.program.after base.program }

theorem after_declare (t base : ScopeTable) (name : String) :
    (t.declare name).after base = (t.after base).declare name := by
  unfold declare
  by_cases hg : isGlobalName name = true
  · rw [if_pos hg, if_pos hg, declareGlobal, declareGlobal, after, after, Scope.after_declare]
  · rw [if_neg hg, if_neg hg]
    rcases t with ⟨globals, program, _ | ⟨f, fs⟩⟩
    · simp only [declareLocal, after, Scope.after_declare]
    · rfl

theorem length_declare (t : ScopeTable) (name : String) :
    (t.declare name).functions.length = t.functions.length := by
  unfold declare
  split
  · rfl
  · exact length_declareLocal t name

theorem current_after {t : ScopeTable} (base : ScopeTable) {d : Nat} (h : t.functions.length = d + 1) :
    (t.after base).current = t.current := by
  rcases t with ⟨globals, program, _ | ⟨f, fs⟩⟩
  · cases h
  · rfl

theorem push_after (t base : ScopeTable) (name : String) : (t.push name).after base = (t.after base).push name := by
  rcases t with ⟨globals, program, _ | ⟨f, fs⟩⟩ <;> rfl

/-- All global and program names of the one table are names of the other. -/
structure Within (t t' : ScopeTable) : Prop where
  globals : ∀ name ∈ t.globals.names, name ∈ t'.globals.names
  program : ∀ name ∈ t.program.names, name ∈ t'.program.names

theorem Within.refl (t : ScopeTable) : t.Within t := ⟨fun _ h => h, fun _ h => h⟩

theorem Within.trans {t t' t'' : ScopeTable} (h : t.Within t') (h' : t'.Within t'') : t.Within t'' :=
  ⟨fun name hn => h'.globals name (h.globals name hn), fun name hn => h'.program name (h.program name hn)⟩

theorem within_after (t base : ScopeTable) : base.Within (t.after base) :=
  ⟨fun _ h => List.mem_append_left _ h, fun _ h => List.mem_append_left _ h⟩

/-- The number of open functions and the names of the base scopes, which are not the names in them. -/
def Opens (d : Nat) (t : ScopeTable) : Prop :=
  t.functions.length = d ∧ { t.globals with names := [] } = initial.globals ∧
    { t.program with names := [] } = initial.program

theorem Opens.declare {d : Nat} {t : ScopeTable} (name : String) (h : t.Opens d) : (t.declare name).Opens d := by
  have hscope (s : Scope) : ({ s.declare name with names := [] } : Scope) = { s with names := [] } := by
    by_cases hn : name ∈ s.names
    · rw [Scope.declare_of_mem hn]
    · rw [Scope.declare_of_not_mem hn]
  refine ⟨(length_declare t name).trans h.1, ?_⟩
  unfold ScopeTable.declare
  by_cases hg : isGlobalName name = true
  · rw [if_pos hg]
    exact ⟨(hscope _).trans h.2.1, h.2.2⟩
  · rw [if_neg hg]
    rcases t with ⟨globals, program, _ | ⟨f, fs⟩⟩
    · exact ⟨h.2.1, (hscope _).trans h.2.2⟩
    · exact h.2

theorem Opens.push {d : Nat} {t : ScopeTable} (name : String) (h : t.Opens d) : (t.push name).Opens (d + 1) :=
  ⟨congrArg (· + 1) h.1, h.2⟩

theorem Opens.leave {d : Nat} {t : ScopeTable} (h : t.Opens (d + 1)) : t.leave.Opens d :=
  ⟨by rw [ScopeTable.leave, List.length_tail, h.1]; rfl, h.2⟩

/-- With no function open, a table is what remains of it before anything is read. -/
theorem initial_after {t : ScopeTable} (h : t.Opens 0) : initial.after t = t := by
  obtain ⟨hf, hg, hp⟩ := h
  rcases t with ⟨⟨gn, gp, gs⟩, ⟨pn, pp, ps⟩, fs⟩
  cases List.length_eq_zero_iff.mp hf
  cases hg
  cases hp
  simp only [after, Scope.after, initial, Scope.empty, List.filter_nil, List.append_nil]

end ScopeTable

theorem Scope.after_empty (s : Scope) (name : String) (parent : Option String) : s.after (.empty name parent) = s := by
  have hnames : s.names.filter (fun _ => true) = s.names := List.filter_eq_self.mpr fun _ _ => rfl
  simp [Scope.after, Scope.empty, hnames]

theorem ScopeTable.after_initial (t : ScopeTable) : t.after initial = t := by
  simp only [after, initial, Scope.after_empty]

/-! ## The second text -/

/-- A trace of a reading of these lines on their own, and of one behind a text that declared `base`. -/
structure Behind (base : ScopeTable) (d : Nat) (lines : List LogicalLine) (tr tr' : Trace Unit) : Prop where
  scopes : tr'.scopes = tr.scopes.after base
  opens : tr.scopes.functions.length = d
  lines : ∀ ts ∈ lines, ts ≠ []

theorem Behind.declare {base : ScopeTable} {d : Nat} {lines : List LogicalLine} {tr tr' : Trace Unit}
    (name : String) (h : Behind base d lines tr tr') :
    Behind base d lines { tr with scopes := tr.scopes.declare name }
      { tr' with scopes := tr'.scopes.declare name } where
  scopes := by rw [h.scopes, ScopeTable.after_declare]
  opens := by rw [ScopeTable.length_declare, h.opens]
  lines := h.lines

theorem Behind.blockLine {g : Nat → Nat} {header : LogicalLine} (hh : header ≠ []) :
    ∀ {lines : List LogicalLine}, (∀ ts ∈ lines, ts ≠ []) →
      Reader.blockLine (header.map (Token.mapLine g)) (mapLines g lines) = g (Reader.blockLine header lines)
  | [], _ => by
    have hlast : header.getLast? = some (header.getLast hh) := List.getLast?_eq_some_getLast hh
    simp only [mapLines, List.map_nil, Reader.blockLine, List.getLast?_map, hlast, Option.map_some,
      Option.getD_some, Token.mapLine_line]
  | ts :: rest, h => by
    have hts : ts ≠ [] := h ts List.mem_cons_self
    have hlast : ts.getLast? = some (ts.getLast hts) := List.getLast?_eq_some_getLast hts
    simp only [mapLines, List.map_cons, Reader.blockLine, List.length_map, List.getElem?_map, List.getLast?_map,
      hlast]
    cases ts[header.length]? <;> rfl

def TextBridge.behind (g : Nat → Nat) (base : ScopeTable) : TextBridge Unit where
  notes := .off
  mapLine := g
  traces := Behind base
  fresh := Behind base
  declare := Behind.declare
  declare_fresh := Behind.declare
  traces_of_fresh h := h
  fresh_of_traces h := ⟨h.scopes, h.opens, fun ts hts => h.lines ts (List.mem_cons_of_mem _ hts)⟩
  push name h := ⟨by rw [h.scopes, ScopeTable.push_after], congrArg (· + 1) h.opens, h.lines⟩
  current h := by rw [h.scopes, ScopeTable.current_after base h.opens]
  leave h := ⟨by rw [h.scopes]; rfl, by rw [ScopeTable.leave, List.length_tail, h.opens]; rfl, h.lines⟩
  blockLine hh h := Behind.blockLine hh h.lines
  memory d ts rest := Bridge.memorySim_off _ _

open Reader in
/-- Behind a reading that leaves no lines, the reading goes on from the scopes it left. -/
theorem ReadsBlock.statements_append {s s' : ScopeTable} {lines : List LogicalLine} {ss : List Stmt}
    {more : List LogicalLine} {m : Nat} (hm : more.length ≤ m) : ReadsBlock s lines ss [] s' →
      ∀ {n : Nat}, (lines ++ more).length ≤ n → statements .off n (lines ++ more) ⟨s, ()⟩ =
        (statements .off m more ⟨s', ()⟩).map fun r => ((ss ++ r.1.1, r.1.2), r.2)
  | .nil, n, hn => by
    have hn : more.length ≤ n := hn
    rw [List.nil_append, statements_bound hn hm]
    cases statements .off m more ⟨s, ()⟩ <;> rfl
  | .cons h hs, n + 1, hn => by
    have hlen := h.passes.2.length_le
    simp only [List.cons_append, List.length_cons, List.length_append] at hn
    have ih := hs.statements_append hm (n := n) (by rw [List.length_append]; omega)
    -- the statement does not look at the lines behind its own
    have hst := (h.append more).statement_eq (n := n) (by rw [List.length_append]; omega)
    rw [List.cons_append, statements_cons]
    refine (bind_of_ok hst).trans ?_
    show (statements .off n _ ⟨_, ()⟩ >>= fun r => _) = _
    rw [ih]
    generalize statements .off m more ⟨s', ()⟩ = x
    cases x with
    | error f => rfl
    | ok r => exact congrArg (fun l => Except.ok ((l, r.1.2), r.2)) (List.append_assoc ..).symm

namespace Program

theorem ofLines_eq (lines : List LogicalLine) : ofLines lines =
    Reader.statements .off lines.length lines ⟨.initial, ()⟩ >>= fun r =>
      match r.1.2 with
      | (t :: _) :: _ => throw ⟨t.line, .syntactic (stray t)⟩
      | _ => return ⟨⟨Reader.blockLine [] lines, r.1.1⟩, r.2.scopes⟩ := by
  rw [ofLines_eq_off]
  rfl

theorem readsBlock_of_ofLines {lines : List LogicalLine} {p : Program} (h : ofLines lines = .ok p)
    (hlines : ∀ ts ∈ lines, ts ≠ []) :
    p.body.line = Reader.blockLine [] lines ∧ ReadsBlock .initial lines p.body.stmts [] p.scopes := by
  rw [ofLines_eq] at h
  cases hs : Reader.statements .off lines.length lines ⟨.initial, ()⟩ with
  | error f => rw [hs] at h; cases h
  | ok r =>
    rw [hs] at h
    obtain ⟨⟨ss, rest⟩, tr⟩ := r
    have hr := ReadsBlock.of_statements (Nat.le_refl _) hs
    rcases rest with _ | ⟨_ | ⟨t, ts⟩, rest⟩
    · cases h
      exact ⟨rfl, hr⟩
    · obtain ⟨used, hused, _⟩ := hr.passes
      refine absurd rfl (hlines [] ?_)
      rw [hused]
      exact List.mem_append_right _ List.mem_cons_self
    · cases h

theorem opens_of_ofLines {lines : List LogicalLine} {p : Program} (h : ofLines lines = .ok p)
    (hlines : ∀ ts ∈ lines, ts ≠ []) : p.scopes.Opens 0 := by
  have hr := (readsBlock_of_ofLines h hlines).2.statements_eq (Nat.le_refl _)
  exact Reader.statements_keep (I := fun d t => t.Opens d) (fun n h => h.declare n) (fun n h => h.push n)
    (fun h => h.leave) ⟨rfl, rfl, rfl⟩ (Nat.le_refl _) hr

/-- **Texts put together.** Behind lines that read as a program, other lines are at the same fault as on their
own, or their statements come after those of the program and new names after the names it declares. -/
theorem ofLines_append (g : Nat → Nat) {lines more : List LogicalLine} {p : Program} (h : ofLines lines = .ok p)
    (hlines : ∀ ts ∈ lines, ts ≠ []) (hmore : ∀ ts ∈ more, ts ≠ []) :
    ofLines (lines ++ mapLines g more) = match ofLines more with
      | .error f => .error (f.mapLine g)
      | .ok q => .ok ⟨⟨Reader.blockLine [] (lines ++ mapLines g more),
          p.body.stmts ++ q.body.stmts.map (Stmt.mapLine g)⟩, q.scopes.after p.scopes⟩ := by
  have hr := (readsBlock_of_ofLines h hlines).2
  let T := TextBridge.behind g p.scopes
  have hstart : T.fresh 0 more ⟨.initial, ()⟩ ⟨p.scopes, ()⟩ :=
    ⟨(ScopeTable.initial_after (opens_of_ofLines h hlines)).symm, rfl, hmore⟩
  have hb := T.sim_statements more.length more.length 0 more (Nat.le_refl _) (Nat.le_refl _) hstart
  rw [ofLines_eq, ofLines_eq more, hr.statements_append (Nat.le_of_eq (List.length_map _))
      (Nat.le_refl _)]
  rw [show T.notes = .off from rfl, show T.mapLine = g from rfl] at hb
  generalize Reader.statements .off more.length more ⟨.initial, ()⟩ = x at hb ⊢
  generalize Reader.statements .off more.length (mapLines g more) ⟨p.scopes, ()⟩ = y at hb ⊢
  cases hb with
  | error => rfl
  | ok hp =>
    rename_i r tr tr'
    obtain ⟨stmts, rest⟩ := r
    obtain ⟨scopes', ⟨⟩⟩ := tr'
    cases (show scopes' = tr.scopes.after p.scopes from hp.1.scopes)
    rcases rest with _ | ⟨_ | ⟨t, ts⟩, rest⟩ <;> rfl

/-- Lines on other physical lines read as the same program or are at the same fault. -/
theorem ofLines_renumbered (g : Nat → Nat) {lines : List LogicalLine} (hlines : ∀ ts ∈ lines, ts ≠ []) :
    ofLines (mapLines g lines) = match ofLines lines with
      | .error f => .error (f.mapLine g)
      | .ok p => .ok ⟨⟨Reader.blockLine [] (mapLines g lines), p.body.stmts.map (Stmt.mapLine g)⟩, p.scopes⟩ := by
  have hnothing : ofLines ([] : List LogicalLine) = .ok ⟨⟨1, []⟩, .initial⟩ := rfl
  have hmoved := ofLines_append g hnothing (by simp) hlines
  simp only [List.nil_append, ScopeTable.after_initial] at hmoved
  exact hmoved

end Program

end Sprig
