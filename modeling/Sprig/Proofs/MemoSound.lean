import Sprig.Proofs.ScopeLemmas
import Sprig.Proofs.TextBridge

/-!
# Keeping attempts changes nothing

An attempt that is made anew on the same tokens finds the same, and declares names that are declared already
(`Bridge.ofRule_again`). So a memory in which every attempt on the line agrees with a fresh one
(`Notebook.Recalls`) can replay attempts. The invariant is kept when names are declared and when attempts are
noted; it is lost when a scope is opened or closed, but then the line is done with, and the next line has a
page of its own.

Main statement: a reading with a table of attempts is a reading without one.
-/

namespace Sprig

open Production

/-! ## Attempts made anew -/

namespace Bridge

/-- The same reading from two scope tables. -/
def beside (line : List Token) (s s' : ScopeTable) : Bridge Unit Unit where
  line := line
  mapLine := id
  traces tr tr' := ∃ names, tr.scopes = s.declareAll names ∧ tr'.scopes = s'.declareAll names
  declare := by
    rintro tr tr' name ⟨names, h, h'⟩
    refine ⟨names ++ [name], ?_, ?_⟩
    · rw [ScopeTable.declareAll_append, h]; rfl
    · rw [ScopeTable.declareAll_append, h']; rfl

theorem sim_ofRule (B : Bridge Unit Unit) (n : Nat) (rule : Rule) :
    B.Sim n (Expr.mapLine B.mapLine) (Grammar.ofRule .off .full rule) (Grammar.ofRule .off .full rule) := by
  have hm := memorySim_off B Rules.full
  have hr := rulesSim_full_full B n
  cases rule with
  | value => exact (Sim.value hm hr).mono (Nat.le_succ n)
  | highBoolean => exact (Sim.highBoolean hm hr).mono (Nat.le_succ n)
  | number => exact (Sim.number hm hr).mono (Nat.le_succ n)
  | call => exact (Sim.call hm hr).mono (Nat.le_succ n)

variable {rule : Rule} {us : List Token} {s s₁ s' : ScopeTable} {o : Outcome Expr}

/-- An attempt finds the same from any scope table, and declares the same names. -/
theorem ofRule_beside (h : Grammar.ofRule .off .full rule us ⟨s, ()⟩ = (o, ⟨s₁, ()⟩)) (s' : ScopeTable) :
    ∃ names, s₁ = s.declareAll names ∧
      Grammar.ofRule .off .full rule us ⟨s', ()⟩ = (o, ⟨s'.declareAll names, ()⟩) := by
  have hm := @sim_ofRule (beside us s s') (us.length + 1) rule us ⟨s, ()⟩ ⟨s', ()⟩ (List.suffix_refl us)
    (Nat.lt_succ_self _) ⟨[], rfl, rfl⟩
  rw [show (beside us s s').mapLine = id from rfl, Token.map_mapLine_id, h] at hm
  generalize Grammar.ofRule .off .full rule us ⟨s', ()⟩ = y at hm ⊢
  cases hm with
  | found _ htr =>
    obtain ⟨names, h₁, h₂⟩ := htr
    refine ⟨names, h₁, ?_⟩
    rw [Expr.mapLine_id, ← h₂, show (beside us s s').mapLine = id from rfl, Token.map_mapLine_id]
  | noMatch htr =>
    obtain ⟨names, h₁, h₂⟩ := htr
    exact ⟨names, h₁, by rw [← h₂]⟩
  | fault htr =>
    obtain ⟨names, h₁, h₂⟩ := htr
    exact ⟨names, h₁, by rw [← h₂]; rfl⟩

theorem ofRule_again (h : Grammar.ofRule .off .full rule us ⟨s, ()⟩ = (o, ⟨s₁, ()⟩)) :
    Grammar.ofRule .off .full rule us ⟨s₁, ()⟩ = (o, ⟨s₁, ()⟩) := by
  obtain ⟨names, hs, hr⟩ := ofRule_beside h s₁
  rw [hr, hs, ScopeTable.declareAll_declareAll]

theorem ofRule_declare (h : Grammar.ofRule .off .full rule us ⟨s, ()⟩ = (o, ⟨s, ()⟩)) (name : String) :
    Grammar.ofRule .off .full rule us ⟨s.declare name, ()⟩ = (o, ⟨s.declare name, ()⟩) := by
  obtain ⟨names, hs, hr⟩ := ofRule_beside h (s.declare name)
  have hd := ScopeTable.declares_of_declareAll hs.symm
  rw [hr, ScopeTable.declareAll_of_declares fun n hn => (hd n hn).declare name]

end Bridge

/-! ## What is remembered -/

/-- The outcome of an attempt that was kept. -/
def Attempt.outcome : Attempt → Outcome Expr
  | some (e, rest) => .found e rest
  | none => .noMatch

namespace Notebook

variable {σ : Type} {notes : Notebook σ}

/-- Nothing is found but what was noted. -/
structure Lawful (notes : Notebook σ) : Prop where
  find_empty : ∀ (line : Nat) (rule : Rule) (n : Nat), (notes.page line).find? notes.empty rule n = none
  find_insert : ∀ {m : σ} {line line' : Nat} {rule rule' : Rule} {n n' : Nat} {a b : Attempt},
    (notes.page line').find? ((notes.page line).insert m rule n a) rule' n' = some b →
      (line' = line ∧ rule' = rule ∧ n' = n ∧ b = a) ∨ (notes.page line').find? m rule' n' = some b

theorem table_lawful : table.Lawful where
  find_empty line rule n := Std.HashMap.getElem?_empty
  find_insert := by
    intro m line line' rule rule' n n' a b h
    simp only [table, Std.HashMap.getElem?_insert] at h
    split at h
    · rename_i heq
      simp only [beq_iff_eq, Prod.mk.injEq] at heq
      obtain ⟨rfl, rfl, rfl⟩ := heq
      exact Or.inl ⟨rfl, rfl, rfl, (Option.some.inj h).symm⟩
    · exact Or.inr h

/-- The pages of the lines with fewer than `k` lines after them are blank. -/
def Blank (notes : Notebook σ) (k : Nat) (m : σ) : Prop :=
  ∀ line < k, ∀ (rule : Rule) (n : Nat), (notes.page line).find? m rule n = none

/-- What is known of the line with `k` lines after it is what a fresh attempt finds, which declares no new
name. Nothing is known of later lines. -/
structure Recalls (notes : Notebook σ) (k : Nat) (line : List Token) (tr : Trace σ) : Prop where
  blank : notes.Blank k tr.memory
  sound : ∀ {rule : Rule} {a : Attempt} {us : List Token}, us <:+ line →
    (notes.page k).find? tr.memory rule us.length = some a →
    (∀ e rest, a = some (e, rest) → rest <:+ us) ∧
      Grammar.ofRule .off .full rule us ⟨tr.scopes, ()⟩ = (a.outcome, ⟨tr.scopes, ()⟩)

variable {k : Nat} {line : List Token} {tr : Trace σ}

theorem Recalls.of_blank (h : notes.Blank (k + 1) tr.memory) : notes.Recalls k line tr where
  blank l hl := h l (Nat.lt_succ_of_lt hl)
  sound _ hf := by
    rw [h k (Nat.lt_succ_self k)] at hf
    cases hf

theorem Recalls.declare (h : notes.Recalls k line tr) (name : String) :
    notes.Recalls k line { tr with scopes := tr.scopes.declare name } where
  blank := h.blank
  sound hus hf := ⟨(h.sound hus hf).1, Bridge.ofRule_declare (h.sound hus hf).2 name⟩

theorem Recalls.insert (hn : notes.Lawful) (h : notes.Recalls k line tr) {rule : Rule} {us : List Token}
    {a : Attempt} (hus : us <:+ line) (hrest : ∀ e rest, a = some (e, rest) → rest <:+ us)
    (hrun : Grammar.ofRule .off .full rule us ⟨tr.scopes, ()⟩ = (a.outcome, ⟨tr.scopes, ()⟩)) :
    notes.Recalls k line { tr with memory := (notes.page k).insert tr.memory rule us.length a } where
  blank := by
    intro l hl rule' n
    cases hf : (notes.page l).find? ((notes.page k).insert tr.memory rule us.length a) rule' n with
    | none => rfl
    | some b =>
      rcases hn.find_insert hf with ⟨hlk, _⟩ | hf
      · omega
      · rw [h.blank l hl] at hf
        cases hf
  sound := by
    intro rule' b us' hus' hf
    rcases hn.find_insert hf with ⟨_, rfl, hlen, rfl⟩ | hf
    · have he : us' = us :=
        (List.suffix_of_suffix_length_le hus' hus (Nat.le_of_eq hlen)).eq_of_length hlen
      rw [he]
      exact ⟨hrest, hrun⟩
    · exact h.sound hus' hf

end Notebook

namespace Bridge

variable {σ : Type}

/-- A reading with sound notes and one without notes. -/
def recalling (notes : Notebook σ) (k : Nat) (line : List Token) : Bridge σ Unit where
  line := line
  mapLine := id
  traces tr tr' := tr'.scopes = tr.scopes ∧ notes.Recalls k line tr
  declare name h := ⟨by rw [h.1], h.2.declare name⟩

theorem memorySim_recalling {notes : Notebook σ} (hn : notes.Lawful) (k : Nat) (line : List Token) :
    (recalling notes k line).MemorySim (notes.page k) .off Rules.full := by
  intro n rule p q hq h ts tr tr' hts hlen htr
  rw [memoized_off] at hq ⊢
  have hm := h hts hlen htr
  obtain ⟨scopes', ⟨⟩⟩ := tr'
  obtain ⟨hscopes, hrec⟩ := htr
  cases (show scopes' = tr.scopes from hscopes)
  rw [show (recalling notes k line).mapLine = id from rfl, Token.map_mapLine_id] at hm ⊢
  simp only [memoized]
  cases hf : (notes.page k).find? tr.memory rule ts.length with
  | some a =>
    -- a plain attempt finds what was noted, and declares nothing that is not declared already
    obtain ⟨hrest, hrun⟩ := hrec.sound hts hf
    rw [hq, hrun]
    rcases a with _ | ⟨e, rest⟩
    · exact .noMatch ⟨rfl, hrec⟩
    · have := Matches.found (B := recalling notes k line) (u := Expr.mapLine id) (a := e)
        (hrest e rest rfl) (show (recalling notes k line).traces tr ⟨tr.scopes, ()⟩ from ⟨rfl, hrec⟩)
      rwa [Expr.mapLine_id, show (recalling notes k line).mapLine = id from rfl, Token.map_mapLine_id] at this
  | none =>
    simp only
    generalize hy : q ts ⟨tr.scopes, ()⟩ = y at hm ⊢
    rw [hq] at hy
    generalize p ts tr = x at hm ⊢
    cases hm with
    | found hrest htr =>
      rename_i e rest tr₁ tr₁'
      obtain ⟨scopes₁, ⟨⟩⟩ := tr₁'
      obtain ⟨hscopes₁, hrec₁⟩ := htr
      cases (show scopes₁ = tr₁.scopes from hscopes₁)
      rw [Expr.mapLine_id, show (recalling notes k line).mapLine = id from rfl, Token.map_mapLine_id] at hy
      -- made again from the scopes it left, the attempt finds the same and leaves them alone
      refine .found hrest ⟨rfl, hrec₁.insert hn hts ?_ (ofRule_again hy)⟩
      intro e' rest' he
      cases he
      exact hrest
    | noMatch htr =>
      rename_i tr₁ tr₁'
      obtain ⟨scopes₁, ⟨⟩⟩ := tr₁'
      obtain ⟨hscopes₁, hrec₁⟩ := htr
      cases (show scopes₁ = tr₁.scopes from hscopes₁)
      refine .noMatch ⟨rfl, hrec₁.insert hn hts ?_ (ofRule_again hy)⟩
      intro e' rest' he
      cases he
    | fault htr => exact .fault htr

end Bridge

/-! ## Whole texts -/

/-- A reading of a text with sound notes and one without notes. -/
def TextBridge.recalling {σ : Type} {notes : Notebook σ} (hn : notes.Lawful) : TextBridge σ where
  notes := notes
  mapLine := id
  fresh _ lines tr tr' := tr'.scopes = tr.scopes ∧ notes.Blank lines.length tr.memory
  traces _ lines tr tr' := tr'.scopes = tr.scopes ∧
    match lines with
    | [] => True
    | ts :: rest => notes.Recalls rest.length ts tr
  declare := by
    intro d lines tr tr' name h
    refine ⟨by rw [h.1], ?_⟩
    cases lines with
    | nil => trivial
    | cons ts rest => exact h.2.declare name
  declare_fresh name h := ⟨by rw [h.1], h.2⟩
  traces_of_fresh := by
    intro d lines tr tr' h
    refine ⟨h.1, ?_⟩
    cases lines with
    | nil => trivial
    | cons ts rest => exact .of_blank h.2
  fresh_of_traces h := ⟨h.1, h.2.blank⟩
  push name h := ⟨by rw [h.1], h.2⟩
  current h := by rw [h.1]
  leave h := ⟨by rw [h.1], h.2⟩
  blockLine := by
    intro d header lines tr tr' _ _
    rw [Token.map_mapLine_id, mapLines_id]
    rfl
  memory d ts rest := Bridge.memorySim_recalling hn rest.length ts

namespace Program

theorem ofLinesWith_eq_off {σ : Type} {notes : Notebook σ} (hn : notes.Lawful) (lines : List LogicalLine) :
    ofLinesWith notes lines = ofLinesWith .off lines := by
  have hstart : (TextBridge.recalling hn).fresh 0 lines ⟨.initial, notes.empty⟩ ⟨.initial, ()⟩ :=
    ⟨rfl, fun line _ rule n => hn.find_empty line rule n⟩
  have h := (TextBridge.recalling hn).sim_statements lines.length lines.length 0 lines (Nat.le_refl _)
    (Nat.le_refl _) hstart
  rw [show (TextBridge.recalling hn).mapLine = id from rfl, mapLines_id] at h
  simp only [ofLinesWith, StateT.run]
  rw [show (TextBridge.recalling hn).notes = notes from rfl] at h
  rw [show Notebook.off.empty = () from rfl]
  generalize Reader.statements notes lines.length lines ⟨.initial, notes.empty⟩ = x at h ⊢
  generalize Reader.statements .off lines.length lines ⟨.initial, ()⟩ = y at h ⊢
  cases h with
  | error => rfl
  | ok hp =>
    rename_i r tr tr'
    obtain ⟨stmts, rest⟩ := r
    obtain ⟨scopes', ⟨⟩⟩ := tr'
    cases (show scopes' = tr.scopes from hp.1.1)
    simp only [Stmt.map_mapLine_id, mapLines_id]
    rcases rest with _ | ⟨_ | ⟨t, ts⟩, rest⟩ <;> rfl

theorem ofLines_eq_off (lines : List LogicalLine) : ofLines lines = ofLinesWith .off lines :=
  ofLinesWith_eq_off Notebook.table_lawful lines

/-- **Keeping attempts changes nothing.** Without memory every rule is tried anew wherever it is asked for, and
the reading that keeps all attempts in one table has the same answer on all lines. -/
theorem ofLines_table_transparent :
    (∀ (rule : Rule) (p : Production Unit Expr), memoized .off rule p = p) ∧
      ∀ lines : List LogicalLine, ofLines lines = ofLinesWith .off lines :=
  ⟨memoized_off, ofLines_eq_off⟩

end Program

end Sprig
