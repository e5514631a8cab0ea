import Sprig.Proofs.DescentParse
import Sprig.Proofs.DescentReached

/-!
# Where the productions leave the cursor

Wherever a parse has come to, a production on a line is a fault, or it matches nothing and leaves the cursor where it
was, or it leaves the cursor further on the line, in front of the tokens that the grammar says are left
(`Reached.run_contract`). Only the targets of an assignment are left where they came to.
-/

namespace Sprig.Descent

variable {lines : List LogicalLine} {s : State} {p : Nonterminal}

/-- Where a production has to leave the cursor, by the outcome that the grammar has. -/
inductive Contract (lines : List LogicalLine) (start : Position) {α : Type} :
    Except Halt (Option α × State) → Outcome α → Prop where
  | found {a stop} : Beyond lines start stop.position →
    Contract lines start (.ok (some a, stop)) (.found a ((lineAt lines start.line).drop stop.position.index))
  | noMatch {stop} : stop.position = start → Contract lines start (.ok (none, stop)) .noMatch
  | fault {f} : Contract lines start (.error (.fault f)) (.fault f)

theorem Answer.knows {tight : Prop} {start : Position} {α : Type} {o : Option α} {y : Outcome α × Trace Table}
    (h : Answer tight lines start (.ok (o, s)) y) : ∃ tr, Knows lines s tr := by
  cases h with
  | found _ hs => exact ⟨_, hs.toKnows⟩
  | noMatch _ hknows => exact ⟨_, hknows⟩

theorem TargetsAnswer.knows {tight : Prop} {start : Position} {o : Option (List (Nat × String))}
    {y : Outcome (List (Nat × String)) × Trace Table} (h : TargetsAnswer tight lines start (.ok (o, s)) y) :
    ∃ tr, Knows lines s tr := by
  cases h with
  | found _ hs => exact ⟨_, hs.toKnows⟩
  | comma hknows => exact ⟨_, hknows⟩
  | noMatch hknows => exact ⟨_, hknows⟩

/-- What is kept of attempts is sound. -/
theorem Reached.knows (h : Reached lines s) : ∃ tr, Knows lines s tr := by
  induction h with
  | start => exact ⟨⟨.initial, ∅⟩, rfl, .empty⟩
  | moved position _ ih =>
    obtain ⟨tr, hknows⟩ := ih
    exact ⟨tr, hknows.at position⟩
  | declared scopes _ ih =>
    obtain ⟨tr, hknows⟩ := ih
    exact ⟨⟨scopes, tr.memory⟩, rfl, hknows.noted⟩
  | @walked before after n opened p r _ hrun ih =>
    obtain ⟨tr, hknows⟩ := ih
    have hcalls : Calls False lines (weight lines (.item p) before.position + 1)
        fun p => run lines n opened (.item p) := .of_run nofun nofun
    have hsees : Sees lines before ((lineAt lines before.position.line).drop before.position.index) tr := ⟨hknows, rfl⟩
    by_cases hp : p = .leftValues
    · subst hp
      have htargets := hcalls.targets hsees (Nat.lt_succ_self _)
      exact TargetsAnswer.knows (hrun ▸ htargets)
    · have hanswer := hcalls.follows hp (Nat.le_refl _) (Nat.lt_succ_self _) rfl hsees
      exact Answer.knows (hrun ▸ hanswer)

theorem Answer.contract {start : Position} {α : Type} {x : Except Halt (Option α × State)}
    {y : Outcome α × Trace Table} (h : Answer True lines start x y) : Contract lines start x y.1 := by
  cases h with
  | found hbeyond hs =>
    rw [← hs.left, hbeyond.line]
    exact .found hbeyond
  | noMatch hp _ => exact .noMatch hp
  | fault => exact .fault
  | halted ht => exact absurd trivial ht

theorem Reached.run_contract (h : Reached lines s) (hp : p ≠ .leftValues) (extra : Nat) : ∃ tr, Knows lines s tr ∧
    Contract lines s.position (run lines (depth lines + extra) [] (.item p) s)
      (p.grammar (pageOf lines s.position.line) (rulesOf lines s.position.line)
        ((lineAt lines s.position.line).drop s.position.index) tr).1 := by
  obtain ⟨tr, hknows⟩ := h.knows
  have hentered : Entered lines (depth lines) (run lines (depth lines + extra) []) :=
    .of_run (Nat.le_add_right _ _) fun o ho => absurd ho List.not_mem_nil
  exact ⟨tr, hknows, (hentered.follows hp rfl weight_lt_depth rfl ⟨hknows, rfl⟩).contract⟩

/-- Behind an opening parenthesis, with a name declared. -/
theorem Reached.run_contract_in_parens :
    let lines : List LogicalLine :=
      [[⟨.leftParen, "(", 1⟩, ⟨.identifier, "a", 1⟩, ⟨.plus, "+", 1⟩, ⟨.integer, "1", 1⟩, ⟨.rightParen, ")", 1⟩]]
    let s : State := ⟨⟨0, 1⟩, ScopeTable.initial.declare "a", ∅⟩
    Reached lines s ∧ Nonterminal.number ≠ .leftValues ∧ ∃ tr, Knows lines s tr ∧
      Contract lines ⟨0, 1⟩ (run lines (depth lines + 0) [] (.item .number) s)
        (Grammar.number (pageOf lines 0) (rulesOf lines 0) ((lineAt lines 0).drop 1) tr).1 := by
  have h (lines : List LogicalLine) : Reached lines ⟨⟨0, 1⟩, ScopeTable.initial.declare "a", ∅⟩ :=
    .declared _ (.moved ⟨0, 1⟩ .start)
  exact ⟨h _, by decide, (h _).run_contract (p := .number) (by decide) 0⟩

end Sprig.Descent
