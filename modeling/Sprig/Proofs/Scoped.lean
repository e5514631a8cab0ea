import Sprig.Proofs.Compositional
import Sprig.Proofs.Declared
import Sprig.Proofs.Kept

/-!
# Programs declare what they store under

Every name a program may store under is declared where a store looks for it: a global name among the global names,
any other among the names of the function whose body it is in (`Stmt.Scoped`). Names stay declared while a program
is read, so it is enough that they are when the statement or header that mentions them is.
-/

namespace Sprig

/-- A store finds the name: it is declared where it belongs. -/
def Bound (G L : List String) (name : String) : Prop := if isGlobalName name then name ∈ G else name ∈ L

/-- No name is listed twice, and all are global or none is. -/
structure Scope.Holds (s : Scope) (global : Bool) : Prop where
  nodup : s.names.Nodup
  sort : ∀ name ∈ s.names, isGlobalName name = global

section
variable (G : List String)

mutual

/-- The targets are bound, where the global names are `G` and the names of the frame are `L`. -/
def Stmt.Scoped (L : List String) : Stmt → Prop
  | .assign a => ∀ n ∈ a.targets, Bound G L n
  | .print _ es | .puts _ es => ∀ n ∈ Expr.targetsAll es, Bound G L n
  | .choose first others otherwise => first.Scoped L ∧ Arm.AllScoped L others ∧ Block.ScopedOption L otherwise
  | .loop _ condition body => (∀ n ∈ condition.targets, Bound G L n) ∧ body.Scoped L
  | .define f => Bound G L f.name ∧ f.Scoped
  | .gets _ => True
  | .expr e => ∀ n ∈ e.targets, Bound G L n

def Stmt.AllScoped (L : List String) : List Stmt → Prop
  | [] => True
  | s :: ss => s.Scoped L ∧ Stmt.AllScoped L ss

def Arm.Scoped (L : List String) : Arm → Prop
  | ⟨_, condition, body⟩ => (∀ n ∈ condition.targets, Bound G L n) ∧ body.Scoped L

def Arm.AllScoped (L : List String) : List Arm → Prop
  | [] => True
  | a :: as => a.Scoped L ∧ Arm.AllScoped L as

def Block.Scoped (L : List String) : Block → Prop
  | ⟨_, stmts⟩ => Stmt.AllScoped L stmts

def Block.ScopedOption (L : List String) : Option Block → Prop
  | none => True
  | some b => b.Scoped L

/-- A function has names of its own, its parameters among them. -/
def Func.Scoped : Func → Prop
  | ⟨_, params, _, body, scope⟩ =>
    scope.Holds false ∧ (∀ p ∈ params, Bound G scope.names p) ∧ body.Scoped scope.names

end

end

structure Program.Scoped (p : Program) : Prop where
  body : p.body.Scoped p.scopes.globals.names p.scopes.program.names
  globals : p.scopes.globals.Holds true
  program : p.scopes.program.Holds false
  depth : p.scopes.depth = 2

/-! ## More names -/

theorem Bound.mono {G H L M : List String} {n : String} (hG : ∀ n ∈ G, n ∈ H) (hL : ∀ n ∈ L, n ∈ M)
    (h : Bound G L n) : Bound H M n := by
  unfold Bound at h ⊢
  split
  · rw [if_pos ‹_›] at h
    exact hG n h
  · rw [if_neg ‹_›] at h
    exact hL n h

theorem Stmt.allScoped_append {G L : List String} {ss ss' : List Stmt} :
    Stmt.AllScoped G L (ss ++ ss') ↔ Stmt.AllScoped G L ss ∧ Stmt.AllScoped G L ss' := by
  induction ss with
  | nil => simp [Stmt.AllScoped]
  | cons s ss ih => simp [Stmt.AllScoped, ih, and_assoc]

section
variable {G H : List String}

mutual

theorem Stmt.Scoped.mono {L M : List String} (hG : ∀ n ∈ G, n ∈ H) (hL : ∀ n ∈ L, n ∈ M) : ∀ {s : Stmt},
    s.Scoped G L → s.Scoped H M
  | .assign _, h | .print _ _, h | .puts _ _, h | .expr _, h => fun n hn => (h n hn).mono hG hL
  | .choose _ _ _, h =>
    ⟨Arm.Scoped.mono hG hL h.1, Arm.AllScoped.mono hG hL h.2.1, Block.ScopedOption.mono hG hL h.2.2⟩
  | .loop _ _ _, h => ⟨fun n hn => (h.1 n hn).mono hG hL, Block.Scoped.mono hG hL h.2⟩
  | .define _, h => ⟨h.1.mono hG hL, Func.Scoped.mono hG h.2⟩
  | .gets _, _ => trivial

theorem Stmt.AllScoped.mono {L M : List String} (hG : ∀ n ∈ G, n ∈ H) (hL : ∀ n ∈ L, n ∈ M) : ∀ {ss : List Stmt},
    Stmt.AllScoped G L ss → Stmt.AllScoped H M ss
  | [], _ => trivial
  | _ :: _, h => ⟨Stmt.Scoped.mono hG hL h.1, Stmt.AllScoped.mono hG hL h.2⟩

theorem Arm.Scoped.mono {L M : List String} (hG : ∀ n ∈ G, n ∈ H) (hL : ∀ n ∈ L, n ∈ M) : ∀ {a : Arm},
    a.Scoped G L → a.Scoped H M
  | ⟨_, _, _⟩, h => ⟨fun n hn => (h.1 n hn).mono hG hL, Block.Scoped.mono hG hL h.2⟩

theorem Arm.AllScoped.mono {L M : List String} (hG : ∀ n ∈ G, n ∈ H) (hL : ∀ n ∈ L, n ∈ M) : ∀ {as : List Arm},
    Arm.AllScoped G L as → Arm.AllScoped H M as
  | [], _ => trivial
  | _ :: _, h => ⟨Arm.Scoped.mono hG hL h.1, Arm.AllScoped.mono hG hL h.2⟩

theorem Block.Scoped.mono {L M : List String} (hG : ∀ n ∈ G, n ∈ H) (hL : ∀ n ∈ L, n ∈ M) : ∀ {b : Block},
    b.Scoped G L → b.Scoped H M
  | ⟨_, _⟩, h => Stmt.AllScoped.mono hG hL h

theorem Block.ScopedOption.mono {L M : List String} (hG : ∀ n ∈ G, n ∈ H) (hL : ∀ n ∈ L, n ∈ M) :
    ∀ {b : Option Block}, Block.ScopedOption G L b → Block.ScopedOption H M b
  | none, _ => trivial
  | some _, h => Block.Scoped.mono hG hL h

/-- The names of a function are its own, wherever it is. -/
theorem Func.Scoped.mono (hG : ∀ n ∈ G, n ∈ H) : ∀ {f : Func}, f.Scoped G → f.Scoped H
  | ⟨_, _, _, _, _⟩, h =>
    ⟨h.1, fun p hp => (h.2.1 p hp).mono hG fun _ hn => hn, Block.Scoped.mono hG (fun _ hn => hn) h.2.2⟩

end

end

/-! ## Scope tables -/

theorem Scope.holds_empty (name : String) (parent : Option String) (global : Bool) :
    (Scope.empty name parent).Holds global :=
  ⟨List.nodup_nil, fun _ h => by cases h⟩

theorem Scope.Holds.declare {s : Scope} {global : Bool} {name : String} (h : s.Holds global)
    (hname : isGlobalName name = global) : (s.declare name).Holds global := by
  by_cases hm : name ∈ s.names
  · rw [Scope.declare_of_mem hm]
    exact h
  rw [Scope.declare_of_not_mem hm]
  refine ⟨?_, fun n hn => ?_⟩
  · rw [List.nodup_append]
    refine ⟨h.nodup, List.pairwise_singleton _ _, fun a ha b hb hab => hm ?_⟩
    rwa [← List.mem_singleton.mp hb, ← hab]
  · rcases List.mem_append.mp hn with hn | hn
    · exact h.sort n hn
    · rw [List.mem_singleton.mp hn]
      exact hname

namespace ScopeTable

/-- Global names are in the global scope and nowhere else, and no name is listed twice. -/
structure Proper (t : ScopeTable) : Prop where
  globals : t.globals.Holds true
  program : t.program.Holds false
  functions : ∀ s ∈ t.functions, s.Holds false

variable {t : ScopeTable}

theorem proper_initial : initial.Proper :=
  ⟨Scope.holds_empty _ _ _, Scope.holds_empty _ _ _, fun _ h => by cases h⟩

theorem Proper.current (h : t.Proper) : t.current.Holds false := by
  unfold ScopeTable.current
  cases hf : t.functions with
  | nil => exact h.program
  | cons f fs => exact h.functions f (hf ▸ List.mem_cons_self)

theorem Proper.declare (name : String) (h : t.Proper) : (t.declare name).Proper := by
  unfold ScopeTable.declare
  by_cases hg : isGlobalName name = true
  · rw [if_pos hg]
    exact ⟨h.globals.declare hg, h.program, h.functions⟩
  rw [if_neg hg]
  have hg := Bool.eq_false_iff.mpr hg
  rcases t with ⟨globals, program, _ | ⟨f, fs⟩⟩
  · exact ⟨h.globals, h.program.declare hg, h.functions⟩
  · refine ⟨h.globals, h.program, fun s hs => ?_⟩
    rcases List.mem_cons.mp hs with rfl | hs
    · exact (h.functions f List.mem_cons_self).declare hg
    · exact h.functions s (List.mem_cons_of_mem _ hs)

theorem kept_proper : Kept fun _ t => t.Proper where
  declare := Proper.declare
  push _ h := by
    refine ⟨h.globals, h.program, fun s hs => ?_⟩
    rcases List.mem_cons.mp hs with rfl | hs
    · exact Scope.holds_empty _ _ _
    · exact h.functions s hs
  leave h := ⟨h.globals, h.program, fun s hs => h.functions s (List.mem_of_mem_tail hs)⟩

theorem kept_bound (n : String) : Kept fun k t => Bound t.globals.names (t.below k).names n where
  declare name h := h.mono (fun _ => mem_globals_declare name) fun _ => mem_below_declare name
  push _ h := h
  leave h := by rwa [below_leave]

end ScopeTable

/-! ## Lines -/

open Production

theorem Grammar.parameters_scopes {line : Nat} {name : String} {us rest : List Token} {tr tr' : Trace Unit}
    {ps : List (Nat × String)} (h : Grammar.parameters line name us tr = (.found ps rest, tr')) :
    ∃ names, tr'.scopes = tr.scopes.declareAll names := by
  let B := Bridge.beside us tr.scopes tr.scopes
  have hsim : B.Sim (us.length + 1) _ (Grammar.parameters line name) (Grammar.parameters line name) :=
    Bridge.Sim.parameters (show line = id line from rfl)
  have hm := hsim (List.suffix_refl us) (Nat.lt_succ_self _) (show B.traces tr tr from ⟨[], rfl, rfl⟩)
  rw [h] at hm
  generalize Grammar.parameters line name (us.map _) tr = y at hm
  cases hm with
  | found _ htr =>
    obtain ⟨names, hnames, -⟩ := htr
    exact ⟨names, hnames⟩

section
variable {s s' : ScopeTable} {ts : LogicalLine}

/-- What a line stores under is bound after it. -/
theorem ReadsLine.bound {α : Type} {p : Memory Unit → Rules Unit → Production Unit α} {a : α} {n : String}
    {B : α → Prop} (h : ReadsLine p s ts (some a) s')
    (hp : Declares n False (p .off (.upTo .off ts.length)) B) (ha : B a) :
    Bound s'.globals.names s'.current.names n := by
  have hrun := readsLine_some h
  have hd := (hp ts ⟨s, ()⟩ False.elim).2 a [] (congrArg Prod.fst hrun) ha
  rwa [hrun] at hd

/-- What a statement of one line stores under. -/
def Stmt.targets : Stmt → List String
  | .assign a => a.targets
  | .print _ es | .puts _ es => Expr.targetsAll es
  | .expr e => e.targets
  | _ => []

/-- Statements that fit on one line. -/
def Stmt.isSimple : Stmt → Bool
  | .choose _ _ _ | .loop _ _ _ | .define _ => false
  | _ => true

theorem Stmt.allScoped_of_simple {G L : List String} : ∀ {ss : List Stmt}, (∀ x ∈ ss, x.isSimple = true) →
    (∀ n, (∃ x ∈ ss, n ∈ x.targets) → Bound G L n) → Stmt.AllScoped G L ss
  | [], _, _ => trivial
  | x :: ss, hs, hn => by
    have hx := hs x List.mem_cons_self
    have hbound (n : String) (h : n ∈ x.targets) : Bound G L n := hn n ⟨x, List.mem_cons_self, h⟩
    refine ⟨?_, allScoped_of_simple (fun y hy => hs y (List.mem_cons_of_mem _ hy))
      fun n ⟨y, hy, h⟩ => hn n ⟨y, List.mem_cons_of_mem _ hy, h⟩⟩
    cases x with
    | assign | print | puts | expr => exact hbound
    | gets => trivial
    | choose | loop | define => cases hx

/-- Whatever the production finds is in `P`. -/
def Production.Yields {σ α : Type} (P : α → Prop) (p : Production σ α) : Prop :=
  ∀ ⦃ts tr a rest tr'⦄, p ts tr = (.found a rest, tr') → P a

section
variable {σ α β : Type} {P : α → Prop}

theorem Production.Yields.pure {a : α} (h : P a) : Yields P (Pure.pure a : Production σ α) := by
  intro ts tr b rest tr' hb
  cases hb
  exact h

theorem Production.Yields.bind {p : Production σ β} {f : β → Production σ α} (hf : ∀ b, Yields P (f b)) :
    Yields P (p >>= f) := by
  intro ts tr a rest tr' h
  rw [bind_apply] at h
  split at h
  · exact hf _ h
  · cases h
  · cases h

theorem Production.Yields.orElse {p q : Production σ α} (h : Yields P p) (h' : Yields P q) :
    Yields P (p <|> q) := by
  intro ts tr a rest tr' ha
  rw [orElse_apply] at ha
  split at ha
  · exact h' ha
  · exact h ha

end

theorem Grammar.yields_simple {r : Rules Unit} :
    Yields (fun ss => ∀ x ∈ ss, x.isSimple = true) (Grammar.simple .off r) := by
  have hone {x : Stmt} (hx : x.isSimple = true) : ∀ y ∈ [x], y.isSimple = true := by
    intro y hy
    rwa [List.mem_singleton.mp hy]
  refine .orElse (.bind fun as => .pure fun x hx => ?_) (.orElse (.bind fun _ => .bind fun _ => .pure (hone rfl))
    (.orElse (.bind fun _ => .bind fun _ => .pure (hone rfl))
      (.orElse (.bind fun _ => .bind fun _ => .pure (hone rfl)) (.bind fun _ => .pure (hone rfl)))))
  obtain ⟨a, -, rfl⟩ := List.mem_map.mp hx
  rfl

theorem Production.Declares.simple {r : Rules Unit} (hr : r.DeclareTargets) {n : String} {A : Prop} :
    Declares n A (Grammar.simple .off r) fun ss => ∃ x ∈ ss, n ∈ x.targets := by
  have hvalues : Declares n A (Production.orNil (Grammar.values r)) fun es => ∃ e ∈ es, n ∈ e.targets :=
    .orNil (.values hr)
  refine .orElse ?_ (.orElse ?_ (.orElse ?_ (.orElse ?_ ?_)))
  · refine (Declares.stores hr).bind fun as => .pure ?_
    rintro ⟨x, hx, hn⟩
    obtain ⟨a, ha, rfl⟩ := List.mem_map.mp hx
    exact Or.inr (Assign.mem_targetsAll.mpr ⟨a, ha, hn⟩)
  · refine Declares.token.skip fun _ => hvalues.bind fun es => .pure ?_
    rintro ⟨x, hx, hn⟩
    rw [List.mem_singleton.mp hx] at hn
    exact Or.inr (Expr.mem_targetsAll.mp hn)
  · refine Declares.token.skip fun _ => hvalues.bind fun es => .pure ?_
    rintro ⟨x, hx, hn⟩
    rw [List.mem_singleton.mp hx] at hn
    exact Or.inr (Expr.mem_targetsAll.mp hn)
  · refine Declares.token.skip fun _ => Declares.endOfLine.skip fun _ => .pure ?_
    rintro ⟨x, hx, hn⟩
    rw [List.mem_singleton.mp hx] at hn
    cases hn
  · refine (DeclaresTargets.value hr n A).bind fun e => .pure ?_
    rintro ⟨x, hx, hn⟩
    rw [List.mem_singleton.mp hx] at hn
    exact Or.inr hn

theorem ReadsLine.scoped_simple {ss : List Stmt} (h : ReadsLine Grammar.simple s ts (some ss) s') :
    Stmt.AllScoped s'.globals.names s'.current.names ss :=
  Stmt.allScoped_of_simple (Grammar.yields_simple (readsLine_some h)) fun _ hn =>
    h.bound (.simple (Rules.declareTargets_upTo _)) hn

theorem ReadsLine.bound_armHeader {line : Nat} {condition : Expr}
    (h : ReadsLine Grammar.armHeader s ts (some (line, condition)) s') :
    ∀ n ∈ condition.targets, Bound s'.globals.names s'.current.names n := by
  intro n hn
  have hlow := DeclaresTargets.lowBoolean (Rules.declareTargets_upTo ts.length) n False
  exact h.bound (B := fun a => n ∈ a.2.targets)
    (((Declares.token.orElse .token).skip fun _ => hlow.demand.bind fun _ => .pure Or.inr)) hn

theorem ReadsLine.bound_loopHeader {line : Nat} {condition : Expr}
    (h : ReadsLine Grammar.loopHeader s ts (some (line, condition)) s') :
    ∀ n ∈ condition.targets, Bound s'.globals.names s'.current.names n := by
  intro n hn
  have hlow := DeclaresTargets.lowBoolean (Rules.declareTargets_upTo ts.length) n False
  exact h.bound (B := fun a => n ∈ a.2.targets)
    (Declares.token.skip fun _ => hlow.demand.bind fun _ => .pure Or.inr) hn

/-- The name of a function is bound outside of it, and its parameters are bound in it. -/
theorem ReadsLine.bound_functionHeader {line : Nat} {f : String} {params : List String}
    (h : ReadsLine (fun _ _ => Grammar.functionHeader) s ts (some (line, f, params)) s') :
    Bound s'.globals.names (s'.below 1).names f ∧ ∀ p ∈ params, Bound s'.globals.names s'.current.names p := by
  have hf := readsLine_some h
  rcases ts with _ | ⟨t, _ | ⟨u, us⟩⟩
  · cases hf
  · by_cases ht : t.kind = .kwDef
    · rw [Grammar.functionHeader_alone ht] at hf
      cases hf
    · rw [Grammar.functionHeader_of_ne ht] at hf
      cases hf
  by_cases ht : t.kind = .kwDef
  · by_cases hu : u.kind = .identifier
    · rw [Grammar.functionHeader_named ht hu, bind_apply] at hf
      split at hf
      · rename_i ps rest tr₁ hps
        cases hf
        constructor
        · obtain ⟨names, hnames⟩ := Grammar.parameters_scopes hps
          simp only at hnames
          rw [hnames]
          apply (ScopeTable.kept_bound u.text).declareAll
          exact ScopeTable.declares_declare s u.text
        · intro p hp
          obtain ⟨v, hv, rfl⟩ := List.mem_map.mp hp
          have hd := (Declares.parameters (A := False) v.2 t.line u.text us _ False.elim).2 ps []
            (congrArg Prod.fst hps) ⟨v, hv, rfl⟩
          rwa [hps] at hd
      · cases hf
      · cases hf
    · rw [Grammar.functionHeader_unnamed ht hu] at hf
      cases hf
  · rw [Grammar.functionHeader_of_ne ht] at hf
    cases hf

end

/-! ## Readings -/

mutual

theorem ReadsBlock.scoped {s s' : ScopeTable} {lines rest : List LogicalLine} {ss : List Stmt} :
    ReadsBlock s lines ss rest s' → s.Proper → Stmt.AllScoped s'.globals.names s'.current.names ss
  | .nil, _ | .stop _ _, _ => trivial
  | .cons h hb, hs => by
    have hs₁ := h.keeps ScopeTable.kept_proper (k := 0) hs
    refine Stmt.allScoped_append.mpr ⟨(h.scoped hs).mono ?_ ?_, hb.scoped hs₁⟩
    · exact fun n hn => hb.keeps (ScopeTable.kept_mem_globals n) (k := 0) hn
    · exact fun n hn => hb.keeps (ScopeTable.kept_mem_below n) (k := 0) hn

theorem ReadsStmt.scoped {s s' : ScopeTable} {ts : LogicalLine} {rest rest' : List LogicalLine} {ss : List Stmt} :
    ReadsStmt s ts rest ss rest' s' → s.Proper → Stmt.AllScoped s'.globals.names s'.current.names ss
  | .simple _ hl, _ => hl.scoped_simple
  | .loop _ hl hb _, hs => by
    have hs₁ := hl.keeps_loopHeader ScopeTable.kept_proper (k := 0) hs
    refine ⟨⟨fun n hn => ?_, hb.scoped hs₁⟩, trivial⟩
    exact hb.keeps (ScopeTable.kept_bound n) (k := 0) (hl.bound_loopHeader n hn)
  | .define _ hl hb _, hs => by
    have hs₁ := hl.keeps_functionHeader ScopeTable.kept_proper (k := 0) hs
    obtain ⟨hname, hparams⟩ := hl.bound_functionHeader
    refine ⟨⟨?_, (hb.keeps ScopeTable.kept_proper (k := 1) hs₁).current, fun p hp => ?_, hb.scoped hs₁⟩, trivial⟩
    · exact (ScopeTable.kept_bound _).leave (hb.keeps (ScopeTable.kept_bound _) (k := 1) hname)
    · exact hb.keeps (ScopeTable.kept_bound p) (k := 0) (hparams p hp)
  | .choose _ hl hb has ho _, hs => by
    have hs₁ := hl.keeps_armHeader ScopeTable.kept_proper (k := 0) hs
    have hs₂ := hb.keeps ScopeTable.kept_proper (k := 0) hs₁
    have hs₃ := has.keeps ScopeTable.kept_proper (k := 0) hs₂
    refine ⟨⟨⟨fun n hn => ?_, (hb.scoped hs₁).mono ?_ ?_⟩, (has.scoped hs₂).mono ?_ ?_, ho.scoped hs₃⟩, trivial⟩
    · have hkept := ScopeTable.kept_bound n
      exact ho.keeps hkept (k := 0) (has.keeps hkept (hb.keeps hkept (hl.bound_armHeader n hn)))
    · have hkept := ScopeTable.kept_mem_globals
      exact fun n hn => ho.keeps (hkept n) (k := 0) (has.keeps (hkept n) (k := 0) hn)
    · have hkept := ScopeTable.kept_mem_below
      exact fun n hn => ho.keeps (hkept n) (k := 0) (has.keeps (hkept n) (k := 0) hn)
    · exact fun n hn => ho.keeps (ScopeTable.kept_mem_globals n) (k := 0) hn
    · exact fun n hn => ho.keeps (ScopeTable.kept_mem_below n) (k := 0) hn

theorem ReadsArms.scoped {s s' : ScopeTable} {lines rest : List LogicalLine} {as : List Arm} :
    ReadsArms s lines as rest s' → s.Proper → Arm.AllScoped s'.globals.names s'.current.names as
  | .nil _, _ => trivial
  | .cons _ hl hb has, hs => by
    have hs₁ := hl.keeps_armHeader ScopeTable.kept_proper (k := 0) hs
    have hs₂ := hb.keeps ScopeTable.kept_proper (k := 0) hs₁
    refine ⟨⟨fun n hn => ?_, (hb.scoped hs₁).mono ?_ ?_⟩, has.scoped hs₂⟩
    · have hkept := ScopeTable.kept_bound n
      exact has.keeps hkept (k := 0) (hb.keeps hkept (hl.bound_armHeader n hn))
    · exact fun n hn => has.keeps (ScopeTable.kept_mem_globals n) (k := 0) hn
    · exact fun n hn => has.keeps (ScopeTable.kept_mem_below n) (k := 0) hn

theorem ReadsOtherwise.scoped {s s' : ScopeTable} {lines rest : List LogicalLine} {o : Option Block} :
    ReadsOtherwise s lines o rest s' → s.Proper → Block.ScopedOption s'.globals.names s'.current.names o
  | .none _, _ => trivial
  | .some _ hb, hs => hb.scoped hs

end

theorem Program.scoped_of_ofSource {text : String} {p : Program} (h : ofSource text = .ok p) : p.Scoped := by
  obtain ⟨lines, hl, hp⟩ := ofSource_ok h
  have hlines := LogicalLine.ne_nil_of_ofSource hl
  have hread := (readsBlock_of_ofLines hp hlines).2
  have hproper := hread.keeps ScopeTable.kept_proper (k := 0) ScopeTable.proper_initial
  have hfunctions := List.length_eq_zero_iff.mp (opens_of_ofLines hp hlines).1
  have hbody := hread.scoped ScopeTable.proper_initial
  rw [ScopeTable.current, hfunctions] at hbody
  obtain ⟨⟨line, stmts⟩, scopes⟩ := p
  exact ⟨hbody, hproper.globals, hproper.program, by rw [ScopeTable.depth, hfunctions]; rfl⟩

end Sprig
