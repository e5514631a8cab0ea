import Sprig.Proofs.Recovery

/-!
# What an equality compares

Truth values joined by `&&` and `||` can stand on both sides of `is`, `==` and `!=`, but numbers are looked for
first. Where the first factor can be a number, as names and calls can, it is taken for all of the side, and
the `&&` or `||` behind it is unexpected.
-/

namespace Sprig

open Production

/-! ## Tight boolean expressions -/

/-- A literal, a name or call, or a compound expression in parentheses, that may be negated. -/
structure HighFactor where
  negated : Bool
  atom : Expr
  boolean : atom.isBoolean = true
  tiered : atom.Tiered

/-- Operands with the same operator in between. -/
structure Joined (α : Type) where
  first : α
  others : List α

/-- Factors joined by `&&`. -/
abbrev HighTerm := Joined HighFactor

/-- Terms joined by `||`. -/
abbrev HighBoolean := Joined HighTerm

namespace Joined

variable {α : Type} (op : BinaryOp) (text : α → List Token) (expr : α → Expr) (j : Joined α)

def tail : List Token := j.others.flatMap fun a => op.token :: text a

def tokens : List Token := text j.first ++ j.tail op text

def fold : Expr := Grammar.linked (expr j.first) (j.others.map fun a => (op, 0, expr a))

theorem tail_cases : j.others = [] ∧ j.tail op text = [] ∨ ∃ ts, j.tail op text = op.token :: ts := by
  obtain ⟨first, _ | ⟨a, as⟩⟩ := j
  · exact .inl ⟨rfl, rfl⟩
  · exact .inr ⟨_, rfl⟩

section
variable {op text expr j} {p : Production Unit Expr} {op? : Kind → Option BinaryOp} {wanted : Wanted} {n : Nat}
  {rest : List Token} (hop : op? op.kind = some op) (htier : ∀ {k}, (op? k).isSome = true → k.tier = n)
include hop htier

theorem below_tail (hrest : Token.Below n rest) : Token.Below (n + 1) (j.tail op text ++ rest) := by
  rcases j.tail_cases op text with ⟨_, h⟩ | ⟨ts, h⟩
  · rw [h]
    exact hrest.mono (Nat.le_succ n)
  · rw [h]
    exact .cons (t := op.token) hop htier (Nat.lt_succ_self n)

variable (h : ∀ a {rest}, Token.Below (n + 1) rest → Finds p (text a ++ rest) (expr a) rest)
include h

theorem findsAll (hrest : Token.Below n rest) : ∀ as : List α,
    FindsAll (Grammar.link p op? wanted) (as.flatMap (fun a => op.token :: text a) ++ rest)
      (as.map fun a => (op, 0, expr a)) rest
  | [] => .noLink (hrest.none htier)
  | a :: as => by
    have hbelow : Token.Below (n + 1) (as.flatMap (fun a => op.token :: text a) ++ rest) :=
      below_tail (j := ⟨a, as⟩) hop htier hrest
    rw [List.flatMap_cons, List.cons_append, List.cons_append, List.append_assoc, List.map_cons]
    exact .link (t := op.token) hop (h a hbelow) (by simp) (findsAll hrest as)

theorem finds (hrest : Token.Below n rest) :
    Finds (Grammar.chain p op? wanted) (j.tokens op text ++ rest) (j.fold op expr) rest := by
  rw [tokens, List.append_assoc]
  exact (h j.first (below_tail hop htier hrest)).chain (findsAll hop htier h hrest j.others)

end

end Joined

/-! ### Text and meaning -/

namespace HighFactor

variable (f : HighFactor)

def text : List Token := if f.negated then Negation.bang.token :: f.atom.operand else f.atom.operand

def expr : Expr := if f.negated then .negate 0 .bang f.atom.unlined else f.atom.unlined

def name (n : String) : HighFactor := ⟨false, .call 0 n [], rfl, trivial⟩

def isNumber : Bool := !f.negated && f.atom.isNumber

theorem finds {rest : List Token} (hrest : Token.Below 6 rest) :
    Finds (Grammar.highFactor .off .full) (f.text ++ rest) f.expr rest := by
  have h := f.tiered.operand
  unfold text expr
  cases f.negated with
  | false => exact h.highFactor f.boolean hrest
  | true => exact .highFactor_negated rfl (fun _ => h.highAtom f.boolean (hrest.mono (by decide))) hrest

end HighFactor

def HighTerm.text (t : HighTerm) : List Token := t.tokens (.boolean .andAnd) HighFactor.text

def HighTerm.expr (t : HighTerm) : Expr := t.fold (.boolean .andAnd) HighFactor.expr

theorem HighTerm.finds (t : HighTerm) {rest : List Token} (hrest : Token.Below 5 rest) :
    Finds (Grammar.highTerm .off .full) (t.text ++ rest) t.expr rest :=
  Joined.finds rfl Grammar.tier_andAndOp (fun f _ => f.finds) hrest

namespace HighBoolean

variable (h : HighBoolean)

def text : List Token := h.tokens (.boolean .orOr) HighTerm.text

def expr : Expr := h.fold (.boolean .orOr) HighTerm.expr

theorem finds {rest : List Token} (hrest : Token.Below 4 rest) :
    Finds (Grammar.highBoolean .off .full) (h.text ++ rest) h.expr rest := by
  rw [Grammar.highBoolean, memoized_off]
  exact Joined.finds rfl Grammar.tier_orOrOp (fun t _ => t.finds) hrest

def factor : HighFactor := h.first.first

/-- What comes behind the first factor. -/
def behind : List Token := h.first.tail (.boolean .andAnd) HighFactor.text ++ h.tail (.boolean .orOr) HighTerm.text

theorem text_eq : h.text = h.factor.text ++ h.behind := by
  rw [text, Joined.tokens, HighTerm.text, Joined.tokens, List.append_assoc]
  rfl

theorem behind_cases : h.behind = [] ∧ h.expr = h.factor.expr ∨
    ∃ op ts, (op = .andAnd ∨ op = .orOr) ∧ h.behind = (BinaryOp.boolean op).token :: ts := by
  obtain ⟨⟨f, _ | ⟨g, gs⟩⟩, _ | ⟨t, ts⟩⟩ := h
  · exact .inl ⟨rfl, rfl⟩
  · exact .inr ⟨.orOr, _, .inr rfl, rfl⟩
  · exact .inr ⟨.andAnd, _, .inl rfl, rfl⟩
  · exact .inr ⟨.andAnd, _, .inl rfl, rfl⟩

/-- A number is found in front of a part of it. -/
def splits : Bool := h.factor.isNumber && !h.behind.isEmpty

variable {h} {rest : List Token}

theorem below_behind (hrest : Token.Below 6 rest) : Token.Below 6 (h.behind ++ rest) := by
  rcases h.behind_cases with ⟨hb, _⟩ | ⟨op, ts, hop, hb⟩
  · rwa [hb]
  · rw [hb]
    rcases hop with rfl | rfl <;> simp [BinaryOp.kind, Kind.tier]

/-! ### Numbers in front -/

theorem number (hf : h.factor.isNumber = true) (hrest : Token.Below 6 rest) :
    Finds (Grammar.number .off .full) (h.text ++ rest) h.factor.expr (h.behind ++ rest) := by
  obtain ⟨hplain, hn⟩ := Bool.and_eq_true_iff.mp hf
  rw [text_eq, List.append_assoc, HighFactor.text, HighFactor.expr]
  rw [Bool.not_eq_true'] at hplain
  simp only [hplain]
  exact h.factor.tiered.operand.number hn (below_behind hrest)

theorem noNumber (hf : h.factor.isNumber = false) : Misses (Grammar.number .off .full) (h.text ++ rest) := by
  rw [text_eq, List.append_assoc, HighFactor.text]
  cases hneg : h.factor.negated with
  | true => exact Grammar.misses_number (by rintro _ ⟨⟩; rfl)
  | false => exact h.factor.tiered.operand.noNumber (by simpa [HighFactor.isNumber, hneg] using hf)

theorem comparable (hs : h.splits = false) (hrest : Token.Below 4 rest) :
    Finds (Grammar.comparable .off .full) (h.text ++ rest) h.expr rest := by
  cases hf : h.factor.isNumber with
  | false => exact .right (noNumber hf) (.left (h.finds hrest))
  | true =>
    have hb : h.behind = [] := by simpa [splits, hf] using hs
    have hn := number hf (hrest.mono (by decide) : Token.Below 6 rest)
    rcases h.behind_cases with ⟨_, he⟩ | ⟨op, ts, _, hb'⟩
    · rw [hb, ← he] at hn
      exact hn.left
    · rw [hb] at hb'
      cases hb'

theorem comparable_of_splits (hs : h.splits = true) (hrest : Token.Below 6 rest) :
    Finds (Grammar.comparable .off .full) (h.text ++ rest) h.factor.expr (h.behind ++ rest) :=
  (number (Bool.and_eq_true_iff.mp hs).1 hrest).left

theorem behind_of_splits (hs : h.splits = true) :
    ∃ op ts, (op = .andAnd ∨ op = .orOr) ∧ h.behind = (BinaryOp.boolean op).token :: ts := by
  rcases h.behind_cases with ⟨hb, _⟩ | hb
  · simp [splits, hb] at hs
  · exact hb

theorem storesAhead_behind (hrest : Token.storesAhead rest = false) :
    Token.storesAhead (h.behind ++ rest) = false := by
  rcases h.behind_cases with ⟨hb, _⟩ | ⟨op, ts, _, hb⟩
  · rwa [hb]
  · rw [hb]
    exact BinaryOp.storesAhead_token _ _

theorem startsStores_text (hrest : Token.storesAhead rest = false) :
    Token.startsStores (h.text ++ rest) = false := by
  rw [text_eq, List.append_assoc, HighFactor.text]
  cases h.factor.negated with
  | true => rfl
  | false => exact Expr.startsStores_operand (storesAhead_behind hrest)

theorem next_text : ∃ k, Token.next (h.text ++ rest) = some k ∧ k.opensExpr = true ∧ k ≠ .kwNot ∧ k ≠ .kwGets := by
  rw [text_eq, List.append_assoc, HighFactor.text]
  cases h.factor.negated with
  | true => exact ⟨.bang, rfl, rfl, nofun, nofun⟩
  | false =>
    refine ⟨_, Expr.next_operand _ _, by simp [Kind.opensExpr, Expr.opensOperand_opening], Expr.opening_ne rfl, ?_⟩
    intro hgets
    obtain ⟨line, he⟩ := Expr.gets_of_opening hgets
    have hb := h.factor.boolean
    rw [he] at hb
    cases hb

theorem opensExpr_text : ∀ k ∈ Token.next (h.text ++ rest), k.opensExpr = true := by
  obtain ⟨k, hk, hopens, _⟩ := h.next_text
  rw [hk]
  rintro _ ⟨⟩
  exact hopens

theorem simple {e : Expr} {back : List Token} (hrest : Token.storesAhead rest = false)
    (hfound : Finds (Grammar.lowBoolean .off .full) (h.text ++ rest) e back) :
    Finds (Grammar.simple .off .full) (h.text ++ rest) [.expr e] back := by
  obtain ⟨k, hk, _, _, hgets⟩ := h.next_text
  have hline : Misses Grammar.getsLine (h.text ++ rest) := by
    refine (Misses.token ?_).head
    rw [hk]
    exact fun he => hgets (Option.some.inj he)
  exact .simple_value (startsStores_text hrest) opensExpr_text hline hfound.value_lowBoolean

end HighBoolean

/-! ## Equalities -/

/-- The loose tiers do not go on in front of what is left of the line. -/
theorem Production.Finds.lowBoolean_before {ts rest : List Token} {t : Token} {e : Expr}
    (h : Finds (Grammar.lowFactor .off .full) ts e (t :: rest)) (ha : Grammar.andOp t.kind = none)
    (ho : Grammar.orOp t.kind = none) : Finds (Grammar.lowBoolean .off .full) ts e (t :: rest) :=
  (h.alone (by simpa using ha)).alone (by simpa using ho)

section
variable {h₁ h₂ : HighBoolean} {op : Comparison} (hop : Grammar.equalityOp op.kind = some op)
include hop

theorem finds_equality (hs₁ : h₁.splits = false) (hs₂ : h₂.splits = false) :
    Finds (Grammar.simple .off .full) (h₁.text ++ op.token :: h₂.text) [.expr (.compare 0 op h₁.expr h₂.expr)]
      [] := by
  have hnext : Token.Below 4 (op.token :: h₂.text) := .cons hop Grammar.tier_equalityOp (by decide)
  have hright : Finds (Grammar.comparable .off .full) h₂.text h₂.expr [] := by
    simpa using HighBoolean.comparable hs₂ Token.below_nil
  have hcondition : Finds (Grammar.condition .off .full) (h₁.text ++ op.token :: h₂.text)
      (.compare 0 op h₁.expr h₂.expr) [] :=
    .left (.comparison (HighBoolean.comparable hs₁ hnext) hop hright)
  obtain ⟨k, hk, _, hnot, _⟩ := h₁.next_text
  have hfactor := Finds.lowFactor_condition hk hnot hcondition
  exact HighBoolean.simple (op.storesAhead_token _) (hfactor.lowBoolean Token.below_nil)

/-- A left side that splits is not compared with anything: what is read ends in front of the operator. -/
theorem finds_left_side (hs₁ : h₁.splits = true) :
    Finds (Grammar.simple .off .full) (h₁.text ++ op.token :: h₂.text) [.expr h₁.expr] (op.token :: h₂.text) := by
  have hnext : Token.Below 4 (op.token :: h₂.text) := .cons hop Grammar.tier_equalityOp (by decide)
  have hnumber := HighBoolean.number (Bool.and_eq_true_iff.mp hs₁).1 (hnext.mono (by decide))
  have hcondition : Misses (Grammar.condition .off .full) (h₁.text ++ op.token :: h₂.text) := by
    obtain ⟨conn, ts, hconn, hb⟩ := HighBoolean.behind_of_splits hs₁
    rw [hb] at hnumber
    -- the number is followed by `&&` or `||`, and no comparison
    refine Misses.orElse (.comparison (Finds.stops hnumber.left ?_)) (.comparison (Finds.stops hnumber.left ?_))
    all_goals
      rintro _ ⟨⟩
      rcases hconn with rfl | rfl <;> simp [BinaryOp.kind, Grammar.equalityOp, Grammar.orderingOp]
  obtain ⟨k, hk, _, hnot, _⟩ := h₁.next_text
  have hfactor := Finds.lowFactor_highBoolean hk hnot hcondition
    (HighBoolean.startsStores_text (op.storesAhead_token _)) (h₁.finds hnext)
  refine HighBoolean.simple (op.storesAhead_token _) (hfactor.lowBoolean_before ?_ ?_)
  all_goals
    revert hop
    cases op <;> simp [Comparison.kind, Grammar.andOp, Grammar.orOp, Grammar.equalityOp]

/-- Of a right side that splits only the first factor is compared. -/
theorem finds_right_side (hs₁ : h₁.splits = false) (hs₂ : h₂.splits = true) :
    Finds (Grammar.simple .off .full) (h₁.text ++ op.token :: h₂.text)
      [.expr (.compare 0 op h₁.expr h₂.factor.expr)] h₂.behind := by
  have hnext : Token.Below 4 (op.token :: h₂.text) := .cons hop Grammar.tier_equalityOp (by decide)
  have hright : Finds (Grammar.comparable .off .full) h₂.text h₂.factor.expr h₂.behind := by
    simpa using HighBoolean.comparable_of_splits hs₂ Token.below_nil
  have hcondition : Finds (Grammar.condition .off .full) (h₁.text ++ op.token :: h₂.text)
      (.compare 0 op h₁.expr h₂.factor.expr) h₂.behind :=
    .left (.comparison (HighBoolean.comparable hs₁ hnext) hop hright)
  obtain ⟨k, hk, _, hnot, _⟩ := h₁.next_text
  obtain ⟨conn, ts, hconn, hb⟩ := HighBoolean.behind_of_splits hs₂
  rw [hb] at hcondition ⊢
  have hfactor := Finds.lowFactor_condition hk hnot hcondition
  refine HighBoolean.simple (op.storesAhead_token _) (hfactor.lowBoolean_before ?_ ?_)
  all_goals rcases hconn with rfl | rfl <;> rfl

end

/-! ## Lines -/

namespace Program

variable {ts : LogicalLine} {ss : List Stmt}

theorem ofLines_line (hts : ts.isHeader = false) (h : Finds (Grammar.simple .off .full) ts ss []) :
    ∃ p, ofLines [ts] = .ok p ∧ p.body.stmts = ss := by
  obtain ⟨t, hread⟩ := ReadsStmt.of_finds hts h .initial []
  have hblock := ofLines_of_readsBlock (.cons hread .nil)
  exact ⟨_, hblock, List.append_nil ss⟩

theorem ofLines_line_unexpected {t : Token} {rest : List Token} (hts : ts.isHeader = false)
    (h : Finds (Grammar.simple .off .full) ts ss (t :: rest)) :
    ofLines [ts] = .error ⟨t.line, .syntactic (.unexpectedToken t.text)⟩ := by
  obtain ⟨tr, h⟩ := h ⟨.initial, ()⟩
  rw [← Bridge.simple_upTo] at h
  have hline : Reader.line? .off Grammar.simple ts [] ⟨.initial, ()⟩ =
      .error ⟨t.line, .syntactic (.unexpectedToken t.text)⟩ := by
    simp only [Reader.line?, Notebook.off, h]
  rw [ofLines_eq, List.length_singleton, Reader.statements_cons, Reader.statement_simple hts,
    Reader.bind_of_error (Reader.bind_of_error hline)]
  rfl

/-- **What an equality compares.** On a line of its own, an equality of truth values joined by `&&` and `||`, where
literals, names and calls stand without parentheses of their own, reads as the comparison of both sides, unless
one of them splits. The left side then ends at the equality, and the right side at its first operator, which is
unexpected. -/
theorem ofLines_equality (h₁ h₂ : HighBoolean) {op : Comparison} (hop : Grammar.equalityOp op.kind = some op)
    {ts : LogicalLine} (hts : ts.map (Token.mapLine fun _ => 0) = h₁.text ++ op.token :: h₂.text) :
    (h₁.splits = false → h₂.splits = false →
      ∃ p, ofLines [ts] = .ok p ∧ p.body.stmts.map Stmt.unlined = [.expr (.compare 0 op h₁.expr h₂.expr)]) ∧
    (h₁.splits = true →
      ∃ line, ofLines [ts] = .error ⟨line, .syntactic (.unexpectedToken op.symbol)⟩) ∧
    (h₁.splits = false → h₂.splits = true →
      ∃ conn line, (conn = .andAnd ∨ conn = .orOr) ∧ h₂.behind.head? = some (BinaryOp.boolean conn).token ∧
        ofLines [ts] = .error ⟨line, .syntactic (.unexpectedToken conn.symbol)⟩) := by
  have hne : ∀ us ∈ [ts], us ≠ [] := by
    rintro us hus rfl
    rw [← List.mem_singleton.mp hus] at hts
    simp at hts
  have hheader : LogicalLine.isHeader (h₁.text ++ op.token :: h₂.text) = false :=
    isHeader_of_opensExpr h₁.opensExpr_text
  have hlines : mapLines (fun _ => 0) [ts] = [h₁.text ++ op.token :: h₂.text] := congrArg (fun us => [us]) hts
  have hfault {problem : SyntaxProblem}
      (h : ofLines [h₁.text ++ op.token :: h₂.text] = .error ⟨0, .syntactic problem⟩) :
      ∃ line, ofLines [ts] = .error ⟨line, .syntactic problem⟩ := by
    rcases ofLines_mapLines (fun _ => 0) hne with ⟨⟨line, what⟩, hf, hmoved⟩ | ⟨p, q, _, hmoved, _⟩
    · rw [hlines, h] at hmoved
      cases hmoved
      exact ⟨line, hf⟩
    · rw [hlines, h] at hmoved
      cases hmoved
  refine ⟨fun hs₁ hs₂ => ?_, fun hs₁ => ?_, fun hs₁ hs₂ => ?_⟩
  · obtain ⟨q, hq, hstmts⟩ := ofLines_line hheader (finds_equality hop hs₁ hs₂)
    rcases ofLines_mapLines (fun _ => 0) hne with ⟨f, _, hmoved⟩ | ⟨p, q', hp, hmoved, hmap⟩
    · rw [hlines, hq] at hmoved
      cases hmoved
    · rw [hlines, hq] at hmoved
      cases hmoved
      exact ⟨p, hp, hmap.symm.trans hstmts⟩
  · exact hfault (ofLines_line_unexpected hheader (finds_left_side hop hs₁))
  · obtain ⟨conn, back, hconn, hb⟩ := HighBoolean.behind_of_splits hs₂
    have hfound := finds_right_side hop hs₁ hs₂
    rw [hb] at hfound
    obtain ⟨line, hline⟩ := hfault (ofLines_line_unexpected hheader hfound)
    exact ⟨conn, line, hconn, by rw [hb]; rfl, hline⟩

/-- Names are number factors, so of `a && b == c` only `a` is looked at for something to compare. -/
theorem ofLines_equality_names :
    ∃ line, ofLines [[⟨.identifier, "a", 1⟩, ⟨.andAnd, "&&", 1⟩, ⟨.identifier, "b", 1⟩, ⟨.equalEqual, "==", 1⟩,
      ⟨.identifier, "c", 1⟩]] = .error ⟨line, .syntactic (.unexpectedToken "==")⟩ :=
  (ofLines_equality ⟨⟨.name "a", [.name "b"]⟩, []⟩ ⟨⟨.name "c", []⟩, []⟩
    (show Grammar.equalityOp Comparison.equal.kind = some .equal from rfl) rfl).2.1 rfl

end Program

end Sprig
