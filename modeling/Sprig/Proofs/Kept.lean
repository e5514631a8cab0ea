import Sprig.Proofs.Append

/-!
# What readings keep

A reading of lines does nothing to the scopes but declare names, open a scope behind the name of a function and
close it behind the function's block. So what these three keep is kept by every reading (`ReadsBlock.keeps`).
Invariants may speak of `k`, the number of functions that were opened since.
-/

namespace Sprig

/-- Declaring a name, opening a function and closing it keep the invariant. -/
structure ScopeTable.Kept (I : Nat → ScopeTable → Prop) : Prop where
  declare : ∀ {k t} name, I k t → I k (t.declare name)
  push : ∀ {k t} name, I k t → I (k + 1) (t.push name)
  leave : ∀ {k t}, I (k + 1) t → I k t.leave

theorem ScopeTable.Kept.declareAll {I : Nat → ScopeTable → Prop} (hI : Kept I) {k : Nat} (names : List String) :
    ∀ {t : ScopeTable}, I k t → I k (t.declareAll names) := by
  induction names with
  | nil => exact id
  | cons name names ih => exact fun ht => ih (hI.declare name ht)

section
variable {I : Nat → ScopeTable → Prop} (hI : ScopeTable.Kept I)
include hI

/-- A reading beside itself, where the invariant is known to hold. -/
def TextBridge.kept : TextBridge Unit := .keeping I hI.declare hI.push hI.leave

variable {k k' : Nat} {s s' : ScopeTable} {ts : LogicalLine}

theorem ReadsLine.keeps {α : Type} {u : α → α} {p : Memory Unit → Rules Unit → Production Unit α} {a : Option α}
    (hp : (TextBridge.kept hI).Sim ((TextBridge.kept hI).traces k [ts]) (Option.map u)
      ((TextBridge.kept hI).lineDone k k' ts []) (Reader.line? .off p ts [])
      (Reader.line? .off p (ts.map (Token.mapLine id)) []))
    (h : ReadsLine p s ts a s') (hs : I k s) : match a with
      | none => I k s'
      | some _ => I k' s' := by
  have hline := hp (show (TextBridge.kept hI).traces k [ts] ⟨s, ()⟩ ⟨s, ()⟩ from ⟨rfl, hs⟩)
  rw [h] at hline
  generalize Reader.line? .off p (ts.map (Token.mapLine id)) [] ⟨s, ()⟩ = y at hline
  cases hline with
  | ok hpost =>
    cases a with
    | none => exact hpost.2
    | some a => exact hpost.2

theorem ReadsLine.keeps_simple {a : Option (List Stmt)} (h : ReadsLine Grammar.simple s ts a s') (hs : I k s) :
    I k s' := by
  have hk := ReadsLine.keeps hI ((TextBridge.kept hI).sim_simple k ts []) h hs
  cases a <;> exact hk

theorem ReadsLine.keeps_armHeader {a : Nat × Expr} (h : ReadsLine Grammar.armHeader s ts (some a) s')
    (hs : I k s) : I k s' :=
  ReadsLine.keeps hI ((TextBridge.kept hI).sim_armHeader k ts []) h hs

theorem ReadsLine.keeps_loopHeader {a : Nat × Expr} (h : ReadsLine Grammar.loopHeader s ts (some a) s')
    (hs : I k s) : I k s' :=
  ReadsLine.keeps hI ((TextBridge.kept hI).sim_loopHeader k ts []) h hs

theorem ReadsLine.keeps_functionHeader {a : Nat × String × List String}
    (h : ReadsLine (fun _ _ => Grammar.functionHeader) s ts (some a) s') (hs : I k s) : I (k + 1) s' :=
  ReadsLine.keeps hI ((TextBridge.kept hI).sim_functionHeader k ts []) h hs

end

section
variable {I : Nat → ScopeTable → Prop}

mutual

theorem ReadsBlock.keeps (hI : ScopeTable.Kept I) {k : Nat} {s s' : ScopeTable} {lines rest : List LogicalLine}
    {ss : List Stmt} : ReadsBlock s lines ss rest s' → I k s → I k s'
  | .nil, hs => hs
  | .stop _ hl, hs => hl.keeps_simple hI hs
  | .cons h hb, hs => hb.keeps hI (h.keeps hI hs)

theorem ReadsStmt.keeps (hI : ScopeTable.Kept I) {k : Nat} {s s' : ScopeTable} {ts : LogicalLine}
    {rest rest' : List LogicalLine} {ss : List Stmt} : ReadsStmt s ts rest ss rest' s' → I k s → I k s'
  | .simple _ hl, hs => hl.keeps_simple hI hs
  | .loop _ hl hb _, hs => hb.keeps hI (hl.keeps_loopHeader hI hs)
  | .define _ hl hb _, hs => hI.leave (hb.keeps hI (hl.keeps_functionHeader hI hs))
  | .choose _ hl hb has ho _, hs => ho.keeps hI (has.keeps hI (hb.keeps hI (hl.keeps_armHeader hI hs)))

theorem ReadsArms.keeps (hI : ScopeTable.Kept I) {k : Nat} {s s' : ScopeTable} {lines rest : List LogicalLine}
    {as : List Arm} : ReadsArms s lines as rest s' → I k s → I k s'
  | .nil _, hs => hs
  | .cons _ hl hb has, hs => has.keeps hI (hb.keeps hI (hl.keeps_armHeader hI hs))

theorem ReadsOtherwise.keeps (hI : ScopeTable.Kept I) {k : Nat} {s s' : ScopeTable}
    {lines rest : List LogicalLine} {o : Option Block} : ReadsOtherwise s lines o rest s' → I k s → I k s'
  | .none _, hs => hs
  | .some _ hb, hs => hb.keeps hI hs

end

end

/-! ## Names that stay declared -/

namespace ScopeTable

variable {t : ScopeTable} {n : String}

/-- The scope that is current when the innermost `k` functions are closed. -/
def below (k : Nat) (t : ScopeTable) : Scope := (t.functions.drop k).headD t.program

theorem below_leave (k : Nat) (t : ScopeTable) : t.leave.below k = t.below (k + 1) := by
  rw [below, below, leave, List.drop_tail]

theorem mem_below_declare {k : Nat} (name : String) (h : n ∈ (t.below k).names) :
    n ∈ ((t.declare name).below k).names := by
  unfold declare
  by_cases hg : isGlobalName name = true
  · rw [if_pos hg]
    exact h
  rw [if_neg hg]
  obtain ⟨globals, program, _ | ⟨f, fs⟩⟩ := t
  · simp only [below, declareLocal, List.drop_nil, List.headD_nil] at h ⊢
    exact Scope.mem_declare.mpr (Or.inl h)
  · cases k with
    | zero => exact Scope.mem_declare.mpr (Or.inl h)
    | succ k => exact h

theorem mem_globals_declare (name : String) (h : n ∈ t.globals.names) : n ∈ (t.declare name).globals.names := by
  unfold declare
  by_cases hg : isGlobalName name = true
  · rw [if_pos hg]
    exact Scope.mem_declare.mpr (Or.inl h)
  · rw [if_neg hg, globals_declareLocal]
    exact h

theorem kept_mem_globals (n : String) : Kept fun _ t => n ∈ t.globals.names where
  declare := mem_globals_declare
  push _ h := h
  leave h := h

theorem kept_mem_below (n : String) : Kept fun k t => n ∈ (t.below k).names where
  declare := mem_below_declare
  push _ h := h
  leave h := by rwa [below_leave]

end ScopeTable

end Sprig
