import Sprig.Proofs.Settled

/-!
# Readings of blocks

`ReadsBlock s lines stmts rest s'` says that the lines begin with a block of these statements, that `rest` is
left of them, and that the scopes go from `s` to `s'`. It is the reader without memory, freed from its bounds:
what the reader finds is a reading (`ReadsBlock.of_statements`), and every reading is found under any bound
that the lines do not exceed (`ReadsBlock.statements_eq`).
-/

namespace Sprig

/-- A production reads a whole line, or does not match it. -/
def ReadsLine {α : Type} (p : Memory Unit → Rules Unit → Production Unit α) (s : ScopeTable)
    (ts : LogicalLine) (a : Option α) (s' : ScopeTable) : Prop :=
  Reader.line? .off p ts [] ⟨s, ()⟩ = .ok (a, ⟨s', ()⟩)

/-- The line starts an `if`, `while` or `def`. -/
def LogicalLine.isHeader (ts : LogicalLine) : Bool :=
  match ts.head?.map Token.kind with
  | some .kwIf | some .kwWhile | some .kwDef => true
  | _ => false

/-- The first line starts with this keyword. -/
def startsWith (k : Kind) (lines : List LogicalLine) : Bool :=
  lines.head?.any fun ts => ts.head?.any (·.kind == k)

mutual

inductive ReadsBlock : ScopeTable → List LogicalLine → List Stmt → List LogicalLine → ScopeTable → Prop where
  | nil {s} : ReadsBlock s [] [] [] s
  | stop {s ts rest s'} : ts.isHeader = false → ReadsLine Grammar.simple s ts none s' →
    ReadsBlock s (ts :: rest) [] (ts :: rest) s'
  | cons {s ts rest ss rest₁ s₁ ss' rest₂ s₂} : ReadsStmt s ts rest ss rest₁ s₁ →
    ReadsBlock s₁ rest₁ ss' rest₂ s₂ → ReadsBlock s (ts :: rest) (ss ++ ss') rest₂ s₂

/-- The statements that start on a line, with the lines after it. -/
inductive ReadsStmt : ScopeTable → LogicalLine → List LogicalLine → List Stmt → List LogicalLine →
    ScopeTable → Prop where
  | simple {s ts rest ss s'} : ts.isHeader = false → ReadsLine Grammar.simple s ts (some ss) s' →
    ReadsStmt s ts rest ss rest s'
  | loop {s ts rest line condition s₁ ss e rest' s'} : ts.head?.map Token.kind = some .kwWhile →
    ReadsLine Grammar.loopHeader s ts (some (line, condition)) s₁ →
    ReadsBlock s₁ rest ss ([e] :: rest') s' → e.kind = .kwEnd →
    ReadsStmt s ts rest [.loop line condition ⟨Reader.blockLine ts rest, ss⟩] rest' s'
  | define {s ts rest line name params s₁ ss e rest' s'} : ts.head?.map Token.kind = some .kwDef →
    ReadsLine (fun _ _ => Grammar.functionHeader) s ts (some (line, name, params)) s₁ →
    ReadsBlock s₁ rest ss ([e] :: rest') s' → e.kind = .kwEnd →
    ReadsStmt s ts rest [.define ⟨name, params, line, ⟨Reader.blockLine ts rest, ss⟩, s'.current⟩] rest' s'.leave
  | choose {s ts rest line condition s₁ ss rest₁ s₂ others rest₂ s₃ last e rest' s'} :
    ts.head?.map Token.kind = some .kwIf →
    ReadsLine Grammar.armHeader s ts (some (line, condition)) s₁ →
    ReadsBlock s₁ rest ss rest₁ s₂ → ReadsArms s₂ rest₁ others rest₂ s₃ →
    ReadsOtherwise s₃ rest₂ last ([e] :: rest') s' → e.kind = .kwEnd →
    ReadsStmt s ts rest [.choose ⟨line, condition, ⟨Reader.blockLine ts rest, ss⟩⟩ others last] rest' s'

inductive ReadsArms : ScopeTable → List LogicalLine → List Arm → List LogicalLine → ScopeTable → Prop where
  | nil {s lines} : startsWith .kwElif lines = false → ReadsArms s lines [] lines s
  | cons {s ts rest line condition s₁ ss rest₁ s₂ others rest₂ s₃} : startsWith .kwElif (ts :: rest) = true →
    ReadsLine Grammar.armHeader s ts (some (line, condition)) s₁ → ReadsBlock s₁ rest ss rest₁ s₂ →
    ReadsArms s₂ rest₁ others rest₂ s₃ →
    ReadsArms s (ts :: rest) (⟨line, condition, ⟨Reader.blockLine ts rest, ss⟩⟩ :: others) rest₂ s₃

inductive ReadsOtherwise : ScopeTable → List LogicalLine → Option Block → List LogicalLine → ScopeTable →
    Prop where
  | none {s lines} : startsWith .kwElse lines = false → ReadsOtherwise s lines none lines s
  | some {s t rest ss rest₁ s₁} : t.kind = .kwElse → ReadsBlock s rest ss rest₁ s₁ →
    ReadsOtherwise s ([t] :: rest) (some ⟨Reader.blockLine [t] rest, ss⟩) rest₁ s₁

end

/-! ## The lines that were read -/

/-- The first lines are done with, and none of them waits for more tokens. -/
def Passes (lines rest : List LogicalLine) : Prop :=
  ∃ used, lines = used ++ rest ∧ ∀ ts ∈ used, Token.Settled 0 ts

namespace Passes

variable {lines rest rest' : List LogicalLine} {ts : LogicalLine}

theorem refl : Passes lines lines := ⟨[], rfl, fun _ h => by cases h⟩

theorem trans (h : Passes lines rest) (h' : Passes rest rest') : Passes lines rest' := by
  obtain ⟨used, rfl, hu⟩ := h
  obtain ⟨used', rfl, hu'⟩ := h'
  refine ⟨used ++ used', (List.append_assoc ..).symm, fun ts hts => ?_⟩
  exact (List.mem_append.mp hts).elim (hu ts) (hu' ts)

theorem cons (ht : Token.Settled 0 ts) (h : Passes rest rest') : Passes (ts :: rest) rest' := by
  obtain ⟨used, rfl, hu⟩ := h
  refine ⟨ts :: used, rfl, fun us hus => ?_⟩
  rcases List.mem_cons.mp hus with rfl | hus
  · exact ht
  · exact hu us hus

theorem length_le (h : Passes lines rest) : rest.length ≤ lines.length := by
  obtain ⟨used, rfl, _⟩ := h
  rw [List.length_append]
  exact Nat.le_add_left _ _

theorem closing {e : Token} (he : e.kind = .kwEnd) : Passes ([e] :: rest) rest := by
  have h := Token.Settled.singleton (t := e) (by rw [he]; rfl)
  rw [he] at h
  exact cons h refl

end Passes

theorem readsLine_some {α : Type} {p : Memory Unit → Rules Unit → Production Unit α} {s s' : ScopeTable}
    {ts : LogicalLine} {a : α} (h : ReadsLine p s ts (some a) s') :
    p .off (.upTo .off ts.length) ts ⟨s, ()⟩ = (.found a [], ⟨s', ()⟩) := by
  simp only [ReadsLine, Reader.line?, Notebook.off] at h
  split at h
  · rename_i hp
    cases h
    exact hp
  · cases h
  · cases h
  · cases h

/-- A line that a production has read to its end waits for nothing. -/
theorem ReadsLine.settled {α : Type} {p : Memory Unit → Rules Unit → Production Unit α} {s s' : ScopeTable}
    {ts : LogicalLine} {a : α} (h : ReadsLine p s ts (some a) s')
    (hp : Production.Takes (Token.Settled 0) (p .off (.upTo .off ts.length))) : Token.Settled 0 ts := by
  obtain ⟨used, hts, hu⟩ := hp (readsLine_some h)
  rw [List.append_nil] at hts
  exact hts ▸ hu

section
open Production

theorem ReadsLine.settled_simple {s s' : ScopeTable} {ts : LogicalLine} {ss : List Stmt}
    (h : ReadsLine Grammar.simple s ts (some ss) s') : Token.Settled 0 ts :=
  h.settled (Takes.simple (Rules.settle_upTo _))

theorem ReadsLine.settled_armHeader {s s' : ScopeTable} {ts : LogicalLine} {a : Nat × Expr}
    (h : ReadsLine Grammar.armHeader s ts (some a) s') : Token.Settled 0 ts :=
  h.settled (Takes.armHeader (Rules.settle_upTo _))

theorem ReadsLine.settled_loopHeader {s s' : ScopeTable} {ts : LogicalLine} {a : Nat × Expr}
    (h : ReadsLine Grammar.loopHeader s ts (some a) s') : Token.Settled 0 ts :=
  h.settled (Takes.loopHeader (Rules.settle_upTo _))

theorem ReadsLine.settled_functionHeader {s s' : ScopeTable} {ts : LogicalLine} {a : Nat × String × List String}
    (h : ReadsLine (fun _ _ => Grammar.functionHeader) s ts (some a) s') : Token.Settled 0 ts :=
  h.settled Takes.functionHeader

end

mutual

theorem ReadsBlock.passes {s s' : ScopeTable} {lines rest : List LogicalLine} {ss : List Stmt} :
    ReadsBlock s lines ss rest s' → Passes lines rest
  | .nil | .stop _ _ => .refl
  | .cons h hs => .cons h.passes.1 (h.passes.2.trans hs.passes)

theorem ReadsStmt.passes {s s' : ScopeTable} {ts : LogicalLine} {rest rest' : List LogicalLine}
    {ss : List Stmt} : ReadsStmt s ts rest ss rest' s' → Token.Settled 0 ts ∧ Passes rest rest'
  | .simple _ h => ⟨h.settled_simple, .refl⟩
  | .loop _ h hs he => ⟨h.settled_loopHeader, hs.passes.trans (.closing he)⟩
  | .define _ h hs he => ⟨h.settled_functionHeader, hs.passes.trans (.closing he)⟩
  | .choose _ h hs has ho he =>
    ⟨h.settled_armHeader, ((hs.passes.trans has.passes).trans ho.passes).trans (.closing he)⟩

theorem ReadsArms.passes {s s' : ScopeTable} {lines rest : List LogicalLine} {as : List Arm} :
    ReadsArms s lines as rest s' → Passes lines rest
  | .nil _ => .refl
  | .cons _ h hs has => .cons h.settled_armHeader (hs.passes.trans has.passes)

theorem ReadsOtherwise.passes {s s' : ScopeTable} {lines rest : List LogicalLine} {o : Option Block} :
    ReadsOtherwise s lines o rest s' → Passes lines rest
  | .none _ => .refl
  | .some (t := t) ht hs => by
    have h := Token.Settled.singleton (t := t) (by rw [ht]; rfl)
    rw [ht] at h
    exact .cons h hs.passes

end

/-! ## The reader finds readings -/

namespace Production

variable {σ α β : Type}

theorem demand_ne_noMatch (p : Production σ α) (line : Nat) (problem : SyntaxProblem) (ts : List Token)
    (tr tr' : Trace σ) : p.demand line problem ts tr ≠ (.noMatch, tr') := by
  rw [demand, orElse_apply]
  split
  · intro h; cases h
  · rename_i hne
    exact fun h => hne _ h

theorem demand_bind_ne_noMatch (p : Production σ α) (line : Nat) (problem : SyntaxProblem) (f : α → β)
    (ts : List Token) (tr tr' : Trace σ) :
    (p.demand line problem >>= fun a => pure (f a)) ts tr ≠ (.noMatch, tr') := by
  rw [bind_apply]
  split
  · intro h; cases h
  · rename_i hd
    exact absurd hd (demand_ne_noMatch p line problem ts tr _)
  · intro h; cases h

end Production

section
open Production

theorem readsLine_none {α : Type} {p : Memory Unit → Rules Unit → Production Unit α} {s s' : ScopeTable}
    {ts : LogicalLine} (h : ReadsLine p s ts none s') :
    p .off (.upTo .off ts.length) ts ⟨s, ()⟩ = (.noMatch, ⟨s', ()⟩) := by
  simp only [ReadsLine, Reader.line?, Notebook.off] at h
  split at h
  · cases h
  · cases h
  · rename_i hp
    cases h
    exact hp
  · cases h

theorem not_readsLine_armHeader {s s' : ScopeTable} {ts : LogicalLine}
    (hk : ts.head?.map Token.kind = some .kwIf ∨ ts.head?.map Token.kind = some .kwElif) :
    ¬ ReadsLine Grammar.armHeader s ts none s' := by
  intro h
  have hp := readsLine_none h
  rcases ts with _ | ⟨t, ts⟩
  · rcases hk with hk | hk <;> cases hk
  have ht : (Production.token .kwIf <|> Production.token .kwElif : Production Unit Token) (t :: ts) ⟨s, ()⟩ =
      (.found t ts, ⟨s, ()⟩) := by
    rcases hk with hk | hk
    · have hk : t.kind = .kwIf := Option.some.inj hk
      simp only [orElse_apply, Production.token, hk, if_true]
    · have hk : t.kind = .kwElif := Option.some.inj hk
      simp only [orElse_apply, Production.token, hk, if_true, reduceCtorEq, if_false]
  rw [Grammar.armHeader, bind_apply, ht] at hp
  exact demand_bind_ne_noMatch _ _ _ _ _ _ _ hp

theorem not_readsLine_loopHeader {s s' : ScopeTable} {ts : LogicalLine}
    (hk : ts.head?.map Token.kind = some .kwWhile) : ¬ ReadsLine Grammar.loopHeader s ts none s' := by
  intro h
  have hp := readsLine_none h
  rcases ts with _ | ⟨t, ts⟩
  · cases hk
  have hk : t.kind = .kwWhile := Option.some.inj hk
  rw [Grammar.loopHeader, bind_apply, Production.token, if_pos hk] at hp
  exact demand_bind_ne_noMatch _ _ _ _ _ _ _ hp

theorem not_readsLine_functionHeader {s s' : ScopeTable} {ts : LogicalLine}
    (hk : ts.head?.map Token.kind = some .kwDef) :
    ¬ ReadsLine (fun _ _ => Grammar.functionHeader) s ts none s' := by
  intro h
  have hp := readsLine_none h
  rcases ts with _ | ⟨t, _ | ⟨u, ts⟩⟩
  · cases hk
  · rw [Grammar.functionHeader_alone (Option.some.inj hk)] at hp
    cases hp
  · by_cases hu : u.kind = .identifier
    · rw [Grammar.functionHeader_named (Option.some.inj hk) hu] at hp
      exact Grammar.parameters_bind_ne_noMatch _ _ _ _ _ _ hp
    · rw [Grammar.functionHeader_unnamed (Option.some.inj hk) hu] at hp
      cases hp

end

namespace Reader

variable {σ α β : Type}

theorem bind_ok {x : Reader σ α} {f : α → Reader σ β} {tr tr₂ : Trace σ} {b : β}
    (h : (x >>= f) tr = .ok (b, tr₂)) : ∃ a tr₁, x tr = .ok (a, tr₁) ∧ f a tr₁ = .ok (b, tr₂) := by
  change (x tr >>= fun r => f r.1 r.2) = .ok (b, tr₂) at h
  cases hx : x tr with
  | error => rw [hx] at h; cases h
  | ok r => rw [hx] at h; exact ⟨r.1, r.2, rfl, h⟩

theorem pure_ok {a b : α} {tr tr₁ : Trace σ} (h : (pure a : Reader σ α) tr = .ok (b, tr₁)) :
    b = a ∧ tr₁ = tr := by
  cases h
  exact ⟨rfl, rfl⟩

theorem bind_of_ok {x : Reader σ α} {f : α → Reader σ β} {tr tr₁ : Trace σ} {a : α}
    (h : x tr = .ok (a, tr₁)) : (x >>= f) tr = f a tr₁ := by
  change (x tr >>= fun r => f r.1 r.2) = f a tr₁
  rw [h]
  rfl

theorem bind_of_error {x : Reader σ α} {f : α → Reader σ β} {tr : Trace σ} {e : Fault} (h : x tr = .error e) :
    (x >>= f) tr = .error e := by
  change (x tr >>= fun r => f r.1 r.2) = .error e
  rw [h]
  rfl

/-- The blocks that are read under the headers of a block. -/
def body (notes : Notebook σ) (n : Nat) : Body σ := fun header lines => do
  let (stmts, rest) ← statements notes n lines
  return (⟨blockLine header lines, stmts⟩, rest)

theorem statements_cons (notes : Notebook σ) (n : Nat) (ts : LogicalLine) (rest : List LogicalLine) :
    statements notes (n + 1) (ts :: rest) = (do
      match ← statement? notes (body notes n) ts rest with
      | some (stmts, rest) =>
        let (others, rest) ← statements notes n rest
        return (stmts ++ others, rest)
      | none => return ([], ts :: rest)) := rfl

theorem of_keyword {k : Kind} {lines : List LogicalLine} {tr tr' : Trace σ}
    {o : Option (LogicalLine × List LogicalLine)} (h : keyword? k lines tr = .ok (o, tr')) :
    tr' = tr ∧ ((o = none ∧ startsWith k lines = false) ∨
      ∃ t rest, o = some ([t], rest) ∧ t.kind = k ∧ lines = [t] :: rest) := by
  rcases lines with _ | ⟨_ | ⟨t, ts⟩, rest⟩
  · cases h; exact ⟨rfl, Or.inl ⟨rfl, rfl⟩⟩
  · cases h; exact ⟨rfl, Or.inl ⟨rfl, rfl⟩⟩
  · simp only [keyword?] at h
    by_cases hk : t.kind = k
    · rw [if_pos hk] at h
      cases ts with
      | nil => cases h; exact ⟨rfl, Or.inr ⟨t, rest, rfl, hk, rfl⟩⟩
      | cons u us => cases h
    · rw [if_neg hk] at h
      cases h
      refine ⟨rfl, Or.inl ⟨rfl, ?_⟩⟩
      simp only [startsWith, List.head?_cons, Option.any_some, beq_eq_false_iff_ne]
      exact hk

theorem of_close {keyword : String} {line : Nat} {lines rest : List LogicalLine} {tr tr' : Trace σ}
    (h : close keyword line lines tr = .ok (rest, tr')) :
    tr' = tr ∧ ∃ e, e.kind = .kwEnd ∧ lines = [e] :: rest := by
  obtain ⟨o, tr₁, hk, h₁⟩ := bind_ok h
  obtain ⟨rfl, ⟨rfl, _⟩ | ⟨e, rest', rfl, he, rfl⟩⟩ := of_keyword hk
  · cases h₁
  · obtain ⟨rfl, rfl⟩ := pure_ok h₁
    exact ⟨rfl, e, he, rfl⟩

/-- On up to `n` lines the body finds readings. -/
def Sound (n : Nat) (body : Body Unit) : Prop :=
  ∀ ⦃header lines s b rest tr⦄, lines.length ≤ n → body header lines ⟨s, ()⟩ = .ok ((b, rest), tr) →
    ∃ ss, b = ⟨blockLine header lines, ss⟩ ∧ ReadsBlock s lines ss rest tr.scopes

section
variable {n : Nat} {body : Body Unit} (hbody : Sound n body) {s : ScopeTable} {ts : LogicalLine}
  {rest rest' : List LogicalLine} {tr : Trace Unit}
include hbody

theorem of_headed {p : Memory Unit → Rules Unit → Production Unit α} (hn : rest.length ≤ n)
    {o : Option (α × Block × List LogicalLine)} (h : headed? .off body p ts rest ⟨s, ()⟩ = .ok (o, tr)) :
    (o = none ∧ ReadsLine p s ts none tr.scopes) ∨
      ∃ a ss rest' s₁, o = some (a, ⟨blockLine ts rest, ss⟩, rest') ∧ ReadsLine p s ts (some a) s₁ ∧
        ReadsBlock s₁ rest ss rest' tr.scopes := by
  obtain ⟨a?, tr₁, hl, h⟩ := bind_ok h
  cases a? with
  | none => cases h; exact Or.inl ⟨rfl, hl⟩
  | some a =>
    obtain ⟨⟨b, rest'⟩, tr₂, hb, h⟩ := bind_ok h
    cases h
    obtain ⟨ss, rfl, hs⟩ := hbody hn hb
    exact Or.inr ⟨a, ss, rest', tr₁.scopes, rfl, hl, hs⟩

theorem of_arms : ∀ {k : Nat} {lines : List LogicalLine} {s : ScopeTable} {as : List Arm} {tr : Trace Unit},
    lines.length ≤ n + 1 → lines.length ≤ k → arms .off body k lines ⟨s, ()⟩ = .ok ((as, rest'), tr) →
      ReadsArms s lines as rest' tr.scopes
  | 0, [], s, as, tr, _, _, h => by
    cases h
    exact .nil rfl
  | k + 1, [], s, as, tr, _, _, h => by
    cases h
    exact .nil rfl
  | k + 1, [] :: rest, s, as, tr, _, _, h => by
    cases h
    exact .nil rfl
  | k + 1, (t :: ts) :: rest, s, as, tr, hn, hk, h => by
    have hn : rest.length ≤ n := Nat.le_of_succ_le_succ hn
    rw [arms] at h
    by_cases ht : t.kind = .kwElif
    · rw [if_pos ht] at h
      have hstart : startsWith .kwElif ((t :: ts) :: rest) = true := by
        simp only [startsWith, List.head?_cons, Option.any_some, beq_iff_eq]
        exact ht
      obtain ⟨o, tr₁, hh, h⟩ := bind_ok h
      obtain ⟨rfl, hl⟩ | ⟨⟨line, condition⟩, ss, rest₁, s₁, rfl, hl, hs⟩ := of_headed hbody hn hh
      · exact absurd hl (not_readsLine_armHeader (Or.inr (congrArg some ht)))
      · obtain ⟨⟨others, rest₂⟩, tr₂, ha, h⟩ := bind_ok h
        cases h
        have hlen := hs.passes.length_le
        have hk := Nat.le_of_succ_le_succ hk
        exact .cons hstart hl hs (of_arms (by omega) (by omega) ha)
    · rw [if_neg ht] at h
      cases h
      refine .nil ?_
      simp only [startsWith, List.head?_cons, Option.any_some, beq_eq_false_iff_ne]
      exact ht

theorem of_otherwise {lines : List LogicalLine} (hn : lines.length ≤ n + 1) {o : Option Block}
    (h : otherwise body lines ⟨s, ()⟩ = .ok ((o, rest'), tr)) : ReadsOtherwise s lines o rest' tr.scopes := by
  obtain ⟨o', tr₁, hk, h⟩ := bind_ok h
  obtain ⟨rfl, ⟨rfl, hstart⟩ | ⟨t, rest, rfl, ht, rfl⟩⟩ := of_keyword hk
  · cases h
    exact .none hstart
  · obtain ⟨⟨b, rest₁⟩, tr₂, hb, h⟩ := bind_ok h
    cases h
    obtain ⟨ss, rfl, hs⟩ := hbody (Nat.le_of_succ_le_succ hn) hb
    exact .some ht hs

theorem of_statement (hn : rest.length ≤ n) {o : Option (List Stmt × List LogicalLine)}
    (h : statement? .off body ts rest ⟨s, ()⟩ = .ok (o, tr)) :
    (o = none ∧ ts.isHeader = false ∧ ReadsLine Grammar.simple s ts none tr.scopes) ∨
      ∃ ss rest', o = some (ss, rest') ∧ ReadsStmt s ts rest ss rest' tr.scopes := by
  generalize hx : statement? .off body ts rest = x at h
  simp only [statement?] at hx
  split at hx
  all_goals subst hx
  -- an `if` with its arms, a `while`, a `def`, and anything else
  · rename_i hk
    obtain ⟨o₁, tr₁, hh, h₁⟩ := bind_ok h
    obtain ⟨rfl, hl⟩ | ⟨⟨line, condition⟩, ss, rest₁, s₁, rfl, hl, hs⟩ := of_headed hbody hn hh
    · exact absurd hl (not_readsLine_armHeader (Or.inl hk))
    · have hlen₁ := hs.passes.length_le
      obtain ⟨⟨others, rest₂⟩, tr₂, ha, h₂⟩ := bind_ok h₁
      have ha := of_arms hbody (by omega) (Nat.le_refl _) ha
      have hlen₂ := ha.passes.length_le
      have hn₂ : rest₂.length ≤ n + 1 := by omega
      obtain ⟨⟨last, rest₃⟩, tr₃, ho, h₃⟩ := bind_ok h₂
      have ho := of_otherwise hbody hn₂ ho
      obtain ⟨rest₄, tr₄, hc, h₄⟩ := bind_ok h₃
      obtain ⟨rfl, e, he, rfl⟩ := of_close hc
      obtain ⟨rfl, rfl⟩ := pure_ok h₄
      exact Or.inr ⟨_, _, rfl, .choose hk hl hs ha ho he⟩
  · rename_i hk
    obtain ⟨o₁, tr₁, hh, h₁⟩ := bind_ok h
    obtain ⟨rfl, hl⟩ | ⟨⟨line, condition⟩, ss, rest₁, s₁, rfl, hl, hs⟩ := of_headed hbody hn hh
    · exact absurd hl (not_readsLine_loopHeader hk)
    · obtain ⟨rest₂, tr₂, hc, h₂⟩ := bind_ok h₁
      obtain ⟨rfl, e, he, rfl⟩ := of_close hc
      obtain ⟨rfl, rfl⟩ := pure_ok h₂
      exact Or.inr ⟨_, _, rfl, .loop hk hl hs he⟩
  · rename_i hk
    obtain ⟨o₁, tr₁, hh, h₁⟩ := bind_ok h
    obtain ⟨rfl, hl⟩ | ⟨⟨line, name, params⟩, ss, rest₁, s₁, rfl, hl, hs⟩ := of_headed hbody hn hh
    · exact absurd hl (not_readsLine_functionHeader hk)
    · obtain ⟨rest₂, tr₂, hc, h₂⟩ := bind_ok h₁
      obtain ⟨rfl, e, he, rfl⟩ := of_close hc
      cases h₂
      exact Or.inr ⟨_, _, rfl, .define hk hl hs he⟩
  · rename_i hif hwhile hdef
    have hts : ts.isHeader = false := by
      unfold LogicalLine.isHeader
      split
      · rename_i hk; exact absurd hk hif
      · rename_i hk; exact absurd hk hwhile
      · rename_i hk; exact absurd hk hdef
      · rfl
    obtain ⟨o₁, tr₁, hl, h₁⟩ := bind_ok h
    cases o₁ with
    | none => cases h₁; exact Or.inl ⟨rfl, hts, hl⟩
    | some ss => cases h₁; exact Or.inr ⟨ss, rest, rfl, .simple hts hl⟩

end

end Reader

open Reader in
theorem ReadsBlock.of_statements : ∀ {n : Nat} {lines : List LogicalLine} {s : ScopeTable} {ss : List Stmt}
    {rest : List LogicalLine} {tr : Trace Unit}, lines.length ≤ n →
      statements .off n lines ⟨s, ()⟩ = .ok ((ss, rest), tr) → ReadsBlock s lines ss rest tr.scopes
  | 0, [], s, ss, rest, tr, _, h => by
    cases h
    exact .nil
  | n + 1, [], s, ss, rest, tr, _, h => by
    cases h
    exact .nil
  | n + 1, ts :: rest₀, s, ss, rest, tr, hn, h => by
    have hn : rest₀.length ≤ n := Nat.le_of_succ_le_succ hn
    have hbody : Sound n (body .off n) := by
      intro header lines s b rest tr hlen hb
      obtain ⟨⟨ss, rest₁⟩, tr₁, hs, hb⟩ := bind_ok hb
      cases hb
      exact ⟨ss, rfl, of_statements hlen hs⟩
    rw [statements_cons] at h
    obtain ⟨o, tr₁, hst, h⟩ := bind_ok h
    obtain ⟨rfl, hts, hl⟩ | ⟨ss₁, rest₁, rfl, hs⟩ := of_statement hbody hn hst
    · cases h
      exact .stop hts hl
    · obtain ⟨⟨others, rest₂⟩, tr₂, ho, h⟩ := bind_ok h
      cases h
      have hlen := hs.passes.2.length_le
      exact .cons hs (of_statements (by omega) ho)

/-! ## Every reading is found -/

namespace Reader

theorem keyword_none {k : Kind} {lines : List LogicalLine} {tr : Trace Unit}
    (h : startsWith k lines = false) : keyword? k lines tr = .ok (none, tr) := by
  rcases lines with _ | ⟨_ | ⟨t, ts⟩, rest⟩
  · rfl
  · rfl
  · have hk : t.kind ≠ k := by
      simpa only [startsWith, List.head?_cons, Option.any_some, beq_eq_false_iff_ne] using h
    simp only [keyword?, if_neg hk]
    rfl

theorem keyword_some {k : Kind} {t : Token} (h : t.kind = k) (rest : List LogicalLine) (tr : Trace Unit) :
    keyword? k ([t] :: rest) tr = .ok (some ([t], rest), tr) := by
  simp only [keyword?, if_pos h]
  rfl

theorem close_eq (keyword : String) (line : Nat) {e : Token} (he : e.kind = .kwEnd)
    (rest : List LogicalLine) (tr : Trace Unit) : close keyword line ([e] :: rest) tr = .ok (rest, tr) :=
  bind_of_ok (keyword_some he rest tr)

variable {α : Type} {s s₁ s' : ScopeTable} {ts : LogicalLine} {rest rest' : List LogicalLine} {ss : List Stmt}

theorem statement_simple (hts : ts.isHeader = false) (body : Body Unit) (rest : List LogicalLine) :
    statement? .off body ts rest = do return (← line? .off Grammar.simple ts []).map (·, rest) := by
  unfold LogicalLine.isHeader at hts
  unfold statement?
  generalize ts.head?.map Token.kind = k at hts ⊢
  split
  · cases hts
  · cases hts
  · cases hts
  · rfl

theorem arms_none {body : Body Unit} {lines : List LogicalLine} (h : startsWith .kwElif lines = false) :
    ∀ {k : Nat}, arms .off body k lines ⟨s, ()⟩ = .ok (([], lines), ⟨s, ()⟩)
  | 0 => rfl
  | k + 1 => by
    rcases lines with _ | ⟨_ | ⟨t, ts⟩, rest⟩
    · rfl
    · rfl
    · have ht : t.kind ≠ .kwElif := by
        simpa only [startsWith, List.head?_cons, Option.any_some, beq_eq_false_iff_ne] using h
      rw [arms, if_neg ht]
      rfl

theorem arms_cons {body : Body Unit} {k : Nat} (h : startsWith .kwElif (ts :: rest) = true) :
    arms .off body (k + 1) (ts :: rest) = (do
      match ← headed? .off body Grammar.armHeader ts rest with
      | some ((line, condition), block, rest) =>
        let (others, rest) ← arms .off body k rest
        return (⟨line, condition, block⟩ :: others, rest)
      | none => return ([], ts :: rest)) := by
  rcases ts with _ | ⟨t, ts⟩
  · cases h
  · have ht : t.kind = .kwElif := by
      simpa only [startsWith, List.head?_cons, Option.any_some, beq_iff_eq] using h
    rw [arms]
    exact if_pos ht

theorem body_eq {n : Nat}
    (h : statements .off n rest ⟨s, ()⟩ = .ok ((ss, rest'), ⟨s', ()⟩)) :
    body .off n ts rest ⟨s, ()⟩ = .ok ((⟨blockLine ts rest, ss⟩, rest'), ⟨s', ()⟩) :=
  bind_of_ok h

theorem headed_eq {n : Nat} {p : Memory Unit → Rules Unit → Production Unit α} {a : α}
    (hl : ReadsLine p s ts (some a) s₁)
    (h : statements .off n rest ⟨s₁, ()⟩ = .ok ((ss, rest'), ⟨s', ()⟩)) :
    headed? .off (body .off n) p ts rest ⟨s, ()⟩ =
      .ok (some (a, ⟨blockLine ts rest, ss⟩, rest'), ⟨s', ()⟩) := by
  refine (bind_of_ok hl).trans ?_
  exact bind_of_ok (x := body .off n ts rest) (body_eq h)

end Reader

open Reader

mutual

theorem ReadsBlock.statements_eq {s s' : ScopeTable} {lines rest : List LogicalLine} {ss : List Stmt} :
    ReadsBlock s lines ss rest s' → ∀ {n : Nat}, lines.length ≤ n →
      statements .off n lines ⟨s, ()⟩ = .ok ((ss, rest), ⟨s', ()⟩)
  | .nil, 0, _ => rfl
  | .nil, _ + 1, _ => rfl
  | .stop hts hl, n + 1, _ => by
    rw [statements_cons, statement_simple hts]
    exact bind_of_ok (a := none) (bind_of_ok hl)
  | .cons h hs, n + 1, hn => by
    have hn := Nat.le_of_succ_le_succ hn
    have hlen := h.passes.2.length_le
    rw [statements_cons]
    exact (bind_of_ok (h.statement_eq hn)).trans (bind_of_ok (hs.statements_eq (Nat.le_trans hlen hn)))

theorem ReadsStmt.statement_eq {s s' : ScopeTable} {ts : LogicalLine} {rest rest' : List LogicalLine}
    {ss : List Stmt} : ReadsStmt s ts rest ss rest' s' → ∀ {n : Nat}, rest.length ≤ n →
      statement? .off (body .off n) ts rest ⟨s, ()⟩ = .ok (some (ss, rest'), ⟨s', ()⟩)
  | .simple hts hl, n, _ => by
    rw [statement_simple hts]
    exact bind_of_ok hl
  | .loop hk hl hs he, n, hn => by
    simp only [statement?, hk]
    exact (bind_of_ok (headed_eq hl (hs.statements_eq hn))).trans (bind_of_ok (close_eq _ _ he _ _))
  | .define hk hl hs he, n, hn => by
    simp only [statement?, hk]
    exact (bind_of_ok (headed_eq hl (hs.statements_eq hn))).trans (bind_of_ok (close_eq _ _ he _ _))
  | .choose hk hl hs has ho he, n, hn => by
    -- every part passes lines, so the bounds are enough for what is left of them
    have hlen := hs.passes.length_le
    have hlen' := has.passes.length_le
    simp only [statement?, hk]
    refine (bind_of_ok (headed_eq hl (hs.statements_eq hn))).trans ?_
    refine (bind_of_ok (has.arms_eq (by omega) (Nat.le_refl _))).trans ?_
    refine (bind_of_ok (ho.otherwise_eq (by omega))).trans ?_
    exact bind_of_ok (close_eq _ _ he _ _)

theorem ReadsArms.arms_eq {s s' : ScopeTable} {lines rest : List LogicalLine} {as : List Arm} :
    ReadsArms s lines as rest s' → ∀ {n k : Nat}, lines.length ≤ n → lines.length ≤ k →
      arms .off (body .off n) k lines ⟨s, ()⟩ = .ok ((as, rest), ⟨s', ()⟩)
  | .nil hstart, _, _, _, _ => arms_none hstart
  | .cons hstart hl hs has, n, k + 1, hn, hk => by
    have hlen := hs.passes.length_le
    have hn := Nat.le_of_succ_le hn
    have hk := Nat.le_of_succ_le_succ hk
    rw [arms_cons hstart]
    refine (bind_of_ok (headed_eq hl (hs.statements_eq hn))).trans ?_
    exact bind_of_ok (has.arms_eq (Nat.le_trans hlen hn) (Nat.le_trans hlen hk))

theorem ReadsOtherwise.otherwise_eq {s s' : ScopeTable} {lines rest : List LogicalLine} {o : Option Block} :
    ReadsOtherwise s lines o rest s' → ∀ {n : Nat}, lines.length ≤ n →
      otherwise (body .off n) lines ⟨s, ()⟩ = .ok ((o, rest), ⟨s', ()⟩)
  | .none hstart, _, _ => bind_of_ok (keyword_none hstart)
  | .some ht hs, n, hn => by
    refine (bind_of_ok (keyword_some ht _ _)).trans ?_
    exact bind_of_ok (x := body .off n [_] _) (body_eq (hs.statements_eq (Nat.le_of_succ_le hn)))

end

end Sprig
