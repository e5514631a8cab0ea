import Sprig.Proofs.FullRules

/-!
# What productions make of given tokens

`Finds p ts a rest` says that on the tokens `ts` the production matches, yields `a` and leaves `rest`,
`Misses p ts` that it does not match and is no fault, and `Faults p ts` that it is one, whatever was declared
before. Alternatives are tried in turn, so to know what the grammar finds is also to know what it misses on the
way.

A production stops in front of a token that binds less tightly than it does: `Token.Below`.
-/

namespace Sprig

/-! ## The next token -/

abbrev Token.next (ts : List Token) : Option Kind := ts.head?.map Token.kind

/-- How tightly a token binds that goes on behind an operand. -/
def Kind.tier : Kind → Nat
  | leftParen => 8
  | star | starStar | slash | percent => 7
  | plus | minus => 6
  | andAnd => 5
  | orOr => 4
  | kwIs | equalEqual | bangEqual | greater | greaterEqual | less | lessEqual => 3
  | kwAnd => 2
  | kwOr => 1
  | _ => 0

/-- The next token binds less tightly. -/
def Token.Below (n : Nat) (ts : List Token) : Prop := ∀ k ∈ next ts, k.tier < n

/-- What the first token of an operand can be. -/
def Kind.opensOperand : Kind → Bool
  | leftParen | identifier | integer | float | string | kwGets | kwTrue | kwFalse | kwNil => true
  | _ => false

/-- What the first token of an expression can be. -/
def Kind.opensExpr (k : Kind) : Bool := k.opensOperand || k == minus || k == bang || k == kwNot

mutual

/-- Names with commas in between, and then `=`. -/
def Token.startsStores : List Token → Bool
  | t :: ts => t.kind == .identifier && storesAhead ts
  | [] => false

/-- The same behind the first name. -/
def Token.storesAhead : List Token → Bool
  | t :: ts => t.kind == .equal || (t.kind == .comma && startsStores ts)
  | [] => false

end

namespace Token

variable {m n : Nat} {t : Token} {ts : List Token}

theorem storesAhead_cons :
    storesAhead (t :: ts) = (t.kind == .equal || (t.kind == .comma && startsStores ts)) := rfl

theorem below_nil : Below n [] := by intro k hk; cases hk

@[simp] theorem below_cons : Below n (t :: ts) ↔ t.kind.tier < n := by simp [Below]

theorem Below.mono (hmn : m ≤ n) (h : Below m ts) : Below n ts :=
  fun k hk => Nat.lt_of_lt_of_le (h k hk) hmn

theorem Below.ne (h : Below n ts) {k : Kind} (hk : n ≤ k.tier) : next ts ≠ some k :=
  fun he => absurd (h k he) (Nat.not_lt.mpr hk)

end Token

/-! ## Finding and missing -/

namespace Production

variable {σ α β : Type} {p q : Production σ α} {f : α → Production σ β} {a : α} {b : β} {t : Token}
  {ts mid rest : List Token} {k : Kind} {line : Nat} {problem : SyntaxProblem}

def Finds (p : Production σ α) (ts : List Token) (a : α) (rest : List Token) : Prop :=
  ∀ tr, ∃ tr', p ts tr = (.found a rest, tr')

def Misses (p : Production σ α) (ts : List Token) : Prop := ∀ tr, ∃ tr', p ts tr = (.noMatch, tr')

def Faults (p : Production σ α) (ts : List Token) : Prop := ∀ tr, ∃ e tr', p ts tr = (.fault e, tr')

namespace Finds

theorem pure : Finds (Pure.pure a : Production σ α) ts a ts := fun tr => ⟨tr, rfl⟩

theorem bind (h : Finds p ts a mid) (hf : Finds (f a) mid b rest) : Finds (p >>= f) ts b rest := by
  intro tr
  obtain ⟨tr₁, h⟩ := h tr
  obtain ⟨tr₂, hf⟩ := hf tr₁
  exact ⟨tr₂, by simp only [bind_apply, h, hf]⟩

theorem left (h : Finds p ts a rest) : Finds (p <|> q) ts a rest := by
  intro tr
  obtain ⟨tr₁, h⟩ := h tr
  exact ⟨tr₁, by simp only [orElse_apply, h]⟩

theorem right (h : Misses p ts) (h' : Finds q ts a rest) : Finds (p <|> q) ts a rest := by
  intro tr
  obtain ⟨tr₁, h⟩ := h tr
  obtain ⟨tr₂, h'⟩ := h' tr₁
  exact ⟨tr₂, by simp only [orElse_apply, h, h']⟩

theorem demand (h : Finds p ts a rest) : Finds (p.demand line problem) ts a rest := h.left

theorem token (hk : t.kind = k) : Finds (token k : Production σ Token) (t :: ts) t ts :=
  fun tr => ⟨tr, by simp only [Production.token, if_pos hk]⟩

theorem peek : Finds (peek : Production σ Token) (t :: ts) t (t :: ts) := fun tr => ⟨tr, rfl⟩

theorem peek_bind {f : Token → Production σ α} (hts : Token.next ts = some k) (h : ∀ t, Finds (f t) ts a rest) :
    Finds (Production.peek >>= f) ts a rest := by
  cases ts with
  | nil => cases hts
  | cons t ts => exact peek.bind (h t)

theorem symbol {select : Kind → Option β} (hs : select t.kind = some b) :
    Finds (symbol select : Production σ (β × Nat)) (t :: ts) (b, t.line) ts :=
  fun tr => ⟨tr, by simp only [Production.symbol, hs]⟩

theorem endOfLine : Finds (endOfLine : Production σ Unit) [] () [] := fun tr => ⟨tr, rfl⟩

theorem modifyScopes {g : ScopeTable → ScopeTable} : Finds (modifyScopes g : Production σ Unit) ts () ts :=
  fun _ => ⟨_, rfl⟩

theorem lineAfter {last : Token} :
    Finds (lineAfter last : Production σ Nat) ts ((ts.head?.map (·.line)).getD last.line) ts :=
  fun tr => ⟨tr, rfl⟩

theorem unlessNext {c : Kind → Bool} (h : ∀ k ∈ Token.next ts, c k = false) :
    Finds (unlessNext c : Production σ Unit) ts () ts := by
  intro tr
  refine ⟨tr, ?_⟩
  cases ts with
  | nil => rfl
  | cons t ts => simp [Production.unlessNext, h t.kind (by simp)]

end Finds

namespace Misses

theorem noMatch : Misses (noMatch : Production σ α) ts := fun tr => ⟨tr, rfl⟩

theorem head (h : Misses p ts) : Misses (p >>= f) ts := by
  intro tr
  obtain ⟨tr₁, h⟩ := h tr
  exact ⟨tr₁, by simp only [bind_apply, h]⟩

theorem tail (h : Finds p ts a mid) (hf : Misses (f a) mid) : Misses (p >>= f) ts := by
  intro tr
  obtain ⟨tr₁, h⟩ := h tr
  obtain ⟨tr₂, hf⟩ := hf tr₁
  exact ⟨tr₂, by simp only [bind_apply, h, hf]⟩

theorem orElse (h : Misses p ts) (h' : Misses q ts) : Misses (p <|> q) ts := by
  intro tr
  obtain ⟨tr₁, h⟩ := h tr
  obtain ⟨tr₂, h'⟩ := h' tr₁
  exact ⟨tr₂, by simp only [orElse_apply, h, h']⟩

theorem token (h : Token.next ts ≠ some k) : Misses (token k : Production σ Token) ts := by
  intro tr
  refine ⟨tr, ?_⟩
  cases ts with
  | nil => rfl
  | cons t ts =>
    have hk : t.kind ≠ k := fun he => h (congrArg some he)
    simp only [Production.token, if_neg hk]

theorem symbol {select : Kind → Option β} (h : ∀ k ∈ Token.next ts, select k = none) :
    Misses (symbol select : Production σ (β × Nat)) ts := by
  intro tr
  refine ⟨tr, ?_⟩
  cases ts with
  | nil => rfl
  | cons t ts => simp only [Production.symbol, h t.kind rfl]

theorem endOfLine (h : ts ≠ []) : Misses (endOfLine : Production σ Unit) ts := by
  intro tr
  cases ts with
  | nil => exact absurd rfl h
  | cons t ts => exact ⟨tr, rfl⟩

theorem unlessNext {c : Kind → Bool} (hk : Token.next ts = some k) (h : c k = true) :
    Misses (unlessNext c : Production σ Unit) ts := by
  intro tr
  refine ⟨tr, ?_⟩
  cases ts with
  | nil => cases hk
  | cons t ts =>
    cases hk
    simp [Production.unlessNext, h]

theorem peek : Misses (peek : Production σ Token) [] := fun tr => ⟨tr, rfl⟩

end Misses

namespace Faults

theorem head (h : Faults p ts) : Faults (p >>= f) ts := by
  intro tr
  obtain ⟨e, tr₁, h⟩ := h tr
  exact ⟨e, tr₁, by simp only [bind_apply, h]⟩

theorem tail (h : Finds p ts a mid) (hf : Faults (f a) mid) : Faults (p >>= f) ts := by
  intro tr
  obtain ⟨tr₁, h⟩ := h tr
  obtain ⟨e, tr₂, hf⟩ := hf tr₁
  exact ⟨e, tr₂, by simp only [bind_apply, h, hf]⟩

theorem left (h : Faults p ts) : Faults (p <|> q) ts := by
  intro tr
  obtain ⟨e, tr₁, h⟩ := h tr
  exact ⟨e, tr₁, by simp only [orElse_apply, h]⟩

theorem right (h : Misses p ts) (h' : Faults q ts) : Faults (p <|> q) ts := by
  intro tr
  obtain ⟨tr₁, h⟩ := h tr
  obtain ⟨e, tr₂, h'⟩ := h' tr₁
  exact ⟨e, tr₂, by simp only [orElse_apply, h, h']⟩

end Faults

theorem Finds.accepts (hk : t.kind = k) : Finds (Production.accepts k : Production σ Bool) (t :: ts) true ts :=
  left (bind (token hk) pure)

theorem Finds.notAccepts (h : Token.next ts ≠ some k) :
    Finds (Production.accepts k : Production σ Bool) ts false ts :=
  right (Misses.token h).head pure

/-! ## One of the three at most -/

section
variable {p : Production Unit α}

/-- Where a reading can start. -/
def start : Trace Unit := ⟨.initial, ()⟩

theorem Finds.unique {b : α} (h : Finds p ts a mid) (h' : Finds p ts b rest) : b = a ∧ rest = mid := by
  obtain ⟨tr₁, h⟩ := h start
  obtain ⟨tr₂, h'⟩ := h' start
  rw [h] at h'
  cases h'
  exact ⟨rfl, rfl⟩

theorem Finds.not_misses (h : Finds p ts a rest) : ¬ Misses p ts := by
  intro h'
  obtain ⟨tr₁, h⟩ := h start
  obtain ⟨tr₂, h'⟩ := h' start
  rw [h] at h'
  cases h'

theorem Finds.not_faults (h : Finds p ts a rest) : ¬ Faults p ts := by
  intro h'
  obtain ⟨tr₁, h⟩ := h start
  obtain ⟨e, tr₂, h'⟩ := h' start
  rw [h] at h'
  cases h'

theorem Misses.not_faults (h : Misses p ts) : ¬ Faults p ts := by
  intro h'
  obtain ⟨tr₁, h⟩ := h start
  obtain ⟨e, tr₂, h'⟩ := h' start
  rw [h] at h'
  cases h'

end

/-! ## Repetition -/

/-- Rounds that match one after another, and then one that does not. -/
inductive FindsAll (p : Production σ α) : List Token → List α → List Token → Prop where
  | stop {ts : List Token} : Misses p ts → FindsAll p ts [] ts
  | step {ts mid rest : List Token} {a : α} {as : List α} : Finds p ts a mid → mid.length < ts.length →
    FindsAll p mid as rest → FindsAll p ts (a :: as) rest

section
variable {as : List α}

theorem FindsAll.repeated (h : FindsAll p ts as rest) :
    ∀ {n : Nat}, ts.length ≤ n → Finds (repeated p n) ts as rest := by
  induction h with
  | stop h =>
    intro n hn
    cases n with
    | zero => exact Finds.pure
    | succ n => exact Finds.right h.head Finds.pure
  | step h hlen _ ih =>
    intro n hn
    cases n with
    | zero => omega
    | succ n => exact Finds.left (h.bind ((ih (by omega)).bind Finds.pure))

theorem Finds.many (h : FindsAll p ts as rest) : Finds (Production.many p) ts as rest :=
  fun tr => h.repeated (Nat.le_refl ts.length) tr

end

/-! ## Lists -/

section
variable {item : Production σ α} {list : Production σ (List α)} {as : List α} {u : Token}

def nextItem (item : Production σ α) (wanted : Wanted) : Production σ α := do
  let comma ← token .comma
  let line ← lineAfter comma
  item.demand line (.missing "," wanted)

theorem Finds.listOf {wanted : Wanted} (h : Finds item ts a mid) (hs : FindsAll (nextItem item wanted) mid as rest) :
    Finds (Production.listOf item wanted) ts (a :: as) rest :=
  h.bind ((many hs).bind pure)

theorem FindsAll.noComma {wanted : Wanted} (h : Token.next ts ≠ some .comma) :
    FindsAll (nextItem item wanted) ts [] ts :=
  stop (Misses.token h).head

theorem FindsAll.comma {wanted : Wanted} (ht : t.kind = .comma) (h : Finds item ts a mid)
    (hlen : mid.length ≤ ts.length) (hs : FindsAll (nextItem item wanted) mid as rest) :
    FindsAll (nextItem item wanted) (t :: ts) (a :: as) rest :=
  step ((Finds.token ht).bind (Finds.lineAfter.bind h.demand)) (Nat.lt_succ_of_le hlen) hs

theorem Finds.orNil (h : Finds list ts as rest) : Finds (Production.orNil list) ts as rest := h.left

theorem Finds.orNil_nil (h : Misses list ts) : Finds (Production.orNil list) ts [] ts := right h pure

theorem Finds.inParens {unclosed : SyntaxProblem} (ht : t.kind = .leftParen) (h : Finds list ts as (u :: rest))
    (hu : u.kind = .rightParen) : Finds (Production.inParens list line unclosed) (t :: ts) as rest :=
  orNil ((token ht).bind (h.orNil.bind ((token hu).demand.bind pure)))

theorem Finds.inParens_nil {unclosed : SyntaxProblem} (h : Token.next ts ≠ some .leftParen) :
    Finds (Production.inParens list line unclosed) ts [] ts :=
  orNil_nil (Misses.token h).head

end

end Production

end Sprig
