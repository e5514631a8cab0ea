import Sprig.Proofs.Finds

/-!
# What the grammar makes of given tokens

The productions of expressions by the token they start on, by the operands they join, and by what they stop in
front of. `Rules.full` are the rules throughout where a production comes back to a looser tier.
-/

namespace Sprig

open Production

namespace Rules

theorem full_value : full.value = Grammar.value .off full := congrArg value next_full.symm

theorem full_lowBoolean : full.lowBoolean = Grammar.lowBoolean .off full := congrArg lowBoolean next_full.symm

theorem full_number : full.number = Grammar.number .off full := congrArg number next_full.symm

end Rules

/-! ## The tiers of the operators -/

namespace Grammar

variable {k : Kind}

theorem tier_tightOp (h : (tightOp k).isSome = true) : k.tier = 7 := by cases k <;> first | rfl | cases h

theorem tier_looseOp (h : (looseOp k).isSome = true) : k.tier = 6 := by cases k <;> first | rfl | cases h

theorem tier_andAndOp (h : (andAndOp k).isSome = true) : k.tier = 5 := by cases k <;> first | rfl | cases h

theorem tier_orOrOp (h : (orOrOp k).isSome = true) : k.tier = 4 := by cases k <;> first | rfl | cases h

theorem tier_equalityOp (h : (equalityOp k).isSome = true) : k.tier = 3 := by cases k <;> first | rfl | cases h

theorem tier_orderingOp (h : (orderingOp k).isSome = true) : k.tier = 3 := by cases k <;> first | rfl | cases h

theorem tier_andOp (h : (andOp k).isSome = true) : k.tier = 2 := by cases k <;> first | rfl | cases h

theorem tier_orOp (h : (orOp k).isSome = true) : k.tier = 1 := by cases k <;> first | rfl | cases h

theorem tier_isArithmetic (h : k.isArithmetic = true) : 6 ≤ k.tier := by cases k <;> first | decide | cases h

end Grammar

namespace Token.Below

variable {n : Nat} {ts : List Token} {β : Type} {op? : Kind → Option β}

theorem none (h : Below n ts) (hop : ∀ {k}, (op? k).isSome = true → k.tier = n) :
    ∀ k ∈ Token.next ts, op? k = .none := by
  intro k hk
  cases ho : op? k with
  | none => rfl
  | some b =>
    have ht := hop (k := k) (by rw [ho]; rfl)
    have := h k hk
    omega

theorem cons {t : Token} {b : β} {m : Nat} (hop : op? t.kind = some b)
    (htier : ∀ {k}, (op? k).isSome = true → k.tier = m) (hm : m < n) : Below n (t :: ts) := by
  rw [below_cons, htier (by rw [hop]; rfl)]
  exact hm

theorem of_arithmetic {k : Kind} (hk : Token.next ts = some k) (ha : k.isArithmetic = true) : Below 8 ts := by
  intro k' hk'
  rw [Option.mem_def.mp hk'] at hk
  cases hk
  revert ha
  cases k <;> decide

theorem arithmetic (h : Below 6 ts) : ∀ k ∈ Token.next ts, k.isArithmetic = false := by
  intro k hk
  cases ha : k.isArithmetic with
  | false => rfl
  | true => exact absurd (h k hk) (Nat.not_lt.mpr (Grammar.tier_isArithmetic ha))

end Token.Below

/-! ## Where a production stops -/

namespace Production

variable {α : Type} {c : Kind → Prop} {p q : Production Unit α} {a : α} {ts rest : List Token}

/-- It does not match, or it stops in front of none of these. -/
def Stops (c : Kind → Prop) (p : Production Unit α) (ts : List Token) : Prop :=
  Misses p ts ∨ ∃ a rest, Finds p ts a rest ∧ ∀ k ∈ Token.next rest, ¬ c k

theorem Misses.stops (h : Misses p ts) : Stops c p ts := .inl h

theorem Finds.stops (h : Finds p ts a rest) (hc : ∀ k ∈ Token.next rest, ¬ c k) : Stops c p ts :=
  .inr ⟨a, rest, h, hc⟩

theorem Stops.mono {d : Kind → Prop} (h : Stops c p ts) (hd : ∀ {k}, d k → c k) : Stops d p ts := by
  rcases h with h | ⟨a, rest, h, hc⟩
  · exact .inl h
  · exact .inr ⟨a, rest, h, fun k hk hk' => hc k hk (hd hk')⟩

theorem Stops.orElse (h : Stops c p ts) (h' : Stops c q ts) : Stops c (p <|> q) ts := by
  rcases h with h | ⟨a, rest, h, hc⟩
  · rcases h' with h' | ⟨a, rest, h', hc⟩
    · exact .inl (h.orElse h')
    · exact .inr ⟨a, rest, .right h h', hc⟩
  · exact .inr ⟨a, rest, h.left, hc⟩

end Production

/-! ## Terminals -/

section
variable {t : Token} {ts : List Token}

namespace Production.Finds

theorem integer {n : Int64} (hk : t.kind = .integer) (hn : Integer.read? t.text = some n) :
    Finds (Grammar.integer : Production Unit Expr) (t :: ts) (.literal t.line (.integer n)) ts :=
  (token hk).bind (by rw [hn]; exact pure)

theorem string (hk : t.kind = .string) :
    Finds (Grammar.string : Production Unit Expr) (t :: ts) (.literal t.line (.string t.text)) ts :=
  (token hk).bind pure

theorem boolean_true (hk : t.kind = .kwTrue) :
    Finds (Grammar.boolean : Production Unit Expr) (t :: ts) (.literal t.line (.boolean true)) ts := by
  apply left
  exact (token hk).bind pure

theorem boolean_false (hk : t.kind = .kwFalse) :
    Finds (Grammar.boolean : Production Unit Expr) (t :: ts) (.literal t.line (.boolean false)) ts :=
  right (Misses.token (by simp [hk])).head ((token hk).bind pure)

theorem nil (hk : t.kind = .kwNil) :
    Finds (Grammar.nil : Production Unit Expr) (t :: ts) (.literal t.line .nil) ts :=
  (token hk).bind pure

theorem gets (hk : t.kind = .kwGets) : Finds (Grammar.gets : Production Unit Expr) (t :: ts) (.gets t.line) ts :=
  (token hk).bind pure

theorem target (hk : t.kind = .identifier) :
    Finds (Grammar.target : Production Unit (Nat × String)) (t :: ts) (t.line, t.text) ts :=
  (token hk).bind (modifyScopes.bind pure)

end Production.Finds

namespace Production.Misses

theorem integer (h : Token.next ts ≠ some .integer) : Misses (Grammar.integer : Production Unit Expr) ts :=
  (token h).head

theorem float (h : Token.next ts ≠ some .float) : Misses (Grammar.float : Production Unit Expr) ts :=
  (token h).head

theorem string (h : Token.next ts ≠ some .string) : Misses (Grammar.string : Production Unit Expr) ts :=
  (token h).head

theorem boolean (ht : Token.next ts ≠ some .kwTrue) (hf : Token.next ts ≠ some .kwFalse) :
    Misses (Grammar.boolean : Production Unit Expr) ts :=
  (token ht).head.orElse (token hf).head

theorem nil (h : Token.next ts ≠ some .kwNil) : Misses (Grammar.nil : Production Unit Expr) ts := (token h).head

theorem gets (h : Token.next ts ≠ some .kwGets) : Misses (Grammar.gets : Production Unit Expr) ts := (token h).head

theorem target (h : Token.next ts ≠ some .identifier) :
    Misses (Grammar.target : Production Unit (Nat × String)) ts :=
  (token h).head

end Production.Misses

end

/-! ## Operators -/

namespace Grammar

def link (operand : Production Unit Expr) (op? : Kind → Option BinaryOp) (wanted : Wanted) :
    Production Unit (BinaryOp × Nat × Expr) := do
  let (op, line) ← symbol op?
  let right ← operand.demand line (.missing op.symbol wanted)
  return (op, line, right)

def linked (first : Expr) (others : List (BinaryOp × Nat × Expr)) : Expr :=
  others.foldl (fun left (op, line, right) => .binary line op left right) first

end Grammar

section
variable {p : Production Unit Expr} {op? : Kind → Option BinaryOp} {wanted : Wanted} {op : BinaryOp} {e l : Expr}
  {t : Token} {ts mid rest : List Token} {others : List (BinaryOp × Nat × Expr)}

namespace Production

theorem FindsAll.noLink (h : ∀ k ∈ Token.next ts, op? k = none) : FindsAll (Grammar.link p op? wanted) ts [] ts :=
  stop (Misses.symbol h).head

theorem FindsAll.link (hop : op? t.kind = some op) (h : Finds p ts e mid) (hlen : mid.length ≤ ts.length)
    (hs : FindsAll (Grammar.link p op? wanted) mid others rest) :
    FindsAll (Grammar.link p op? wanted) (t :: ts) ((op, t.line, e) :: others) rest :=
  step ((Finds.symbol hop).bind (h.demand.bind Finds.pure)) (Nat.lt_succ_of_le hlen) hs

theorem Finds.chainFrom (hs : FindsAll (Grammar.link p op? wanted) ts others rest) :
    Finds (Grammar.chainFrom p op? wanted e) ts (Grammar.linked e others) rest :=
  (many hs).bind pure

theorem Finds.chain (h : Finds p ts e mid) (hs : FindsAll (Grammar.link p op? wanted) mid others rest) :
    Finds (Grammar.chain p op? wanted) ts (Grammar.linked e others) rest :=
  h.bind (chainFrom hs)

theorem Finds.alone (h : Finds p ts e rest) (hstop : ∀ k ∈ Token.next rest, op? k = none) :
    Finds (Grammar.chain p op? wanted) ts e rest :=
  h.chain (.noLink hstop)

theorem Finds.joined (h : Finds p ts l (t :: mid)) (hop : op? t.kind = some op) (h' : Finds p mid e rest)
    (hlen : rest.length ≤ mid.length) (hstop : ∀ k ∈ Token.next rest, op? k = none) :
    Finds (Grammar.chain p op? wanted) ts (.binary t.line op l e) rest :=
  h.chain (.link hop h' hlen (.noLink hstop))

theorem Misses.chain (h : Misses p ts) : Misses (Grammar.chain p op? wanted) ts := h.head

theorem Misses.minus (h : Token.next ts ≠ some .minus) : Misses (Grammar.minus p wanted) ts := (token h).head

theorem Finds.group {u : Token} (ht : t.kind = .leftParen) (h : Finds p ts e (u :: rest))
    (hu : u.kind = .rightParen) : Finds (Grammar.group p) (t :: ts) e rest :=
  (token ht).bind (h.bind ((token hu).bind pure))

theorem Misses.group (h : Token.next ts ≠ some .leftParen) : Misses (Grammar.group p) ts := (token h).head

theorem Misses.group_of_stops (ht : t.kind = .leftParen) (h : Stops (· = .rightParen) p ts) :
    Misses (Grammar.group p) (t :: ts) := by
  rcases h with h | ⟨e, rest, h, hc⟩
  · exact tail (Finds.token ht) h.head
  · refine tail (Finds.token ht) (tail h (token ?_).head)
    exact fun hk => hc _ hk rfl

variable {cmp? : Kind → Option Comparison} {cmp : Comparison}

theorem Finds.comparison (h : Finds p ts l (t :: mid)) (hop : cmp? t.kind = some cmp) (h' : Finds p mid e rest) :
    Finds (Grammar.comparison p cmp? wanted) ts (.compare t.line cmp l e) rest :=
  h.bind ((symbol hop).bind (h'.demand.bind pure))

theorem Misses.comparison (h : Stops (fun k => (cmp? k).isSome = true) p ts) :
    Misses (Grammar.comparison p cmp? wanted) ts := by
  rcases h with h | ⟨e, rest, h, hc⟩
  · exact h.head
  · refine tail h (symbol fun k hk => ?_).head
    exact Option.not_isSome_iff_eq_none.mp (hc k hk)

end Production

end

/-! ## By the next token -/

/-- What the first token of a number expression can be. -/
def Kind.opensNumber : Kind → Bool
  | integer | float | identifier | minus | leftParen => true
  | _ => false

/-- What the first token of a tighter boolean factor can be, but for a negation. -/
def Kind.opensAtom : Kind → Bool
  | kwTrue | kwFalse | kwNil | identifier | leftParen => true
  | _ => false

namespace Grammar

/-- The tighter boolean factor behind its negation. -/
def highAtom (mem : Memory Unit) (r : Rules Unit) (negated : Bool) (line : Nat) : Production Unit Expr :=
  boolean <|> nil <|> call mem r <|> group r.lowBoolean <|> do
    unlessNext (· == .leftParen)
    missingFactor negated .bang line

theorem highFactor_eq (mem : Memory Unit) (r : Rules Unit) : highFactor mem r = (do
    let t ← peek
    let negated ← accepts .bang
    let e ← highAtom mem r negated t.line
    unlessNext Kind.isArithmetic
    return if negated then .negate t.line .bang e else e) := rfl

variable {r : Rules Unit} {ts : List Token}

theorem next_ne {c : Kind → Bool} (h : ∀ k ∈ Token.next ts, c k = false) {k : Kind} (hk : c k = true) :
    Token.next ts ≠ some k := by
  intro he
  rw [h k he] at hk
  cases hk

theorem misses_call (h : Token.next ts ≠ some .identifier) : Misses (call .off r) ts := by
  rw [call, memoized_off]
  exact (Misses.token h).head

theorem misses_numberFactor (h : ∀ k ∈ Token.next ts, k.opensNumber = false) :
    Misses (numberFactor .off r) ts := by
  have hne := @next_ne ts _ h
  refine (Misses.integer (hne rfl)).orElse ((Misses.float (hne rfl)).orElse ?_)
  refine (misses_call (hne rfl)).orElse ((Misses.minus (hne rfl)).orElse ?_)
  cases ts with
  | nil => exact Misses.peek.head
  | cons t ts => exact .tail Finds.peek (Misses.group (hne rfl))

theorem misses_number_of_factor (hts : Token.next ts ≠ some .minus) (h : Misses (numberFactor .off r) ts) :
    Misses (number .off r) ts := by
  rw [number, memoized_off]
  exact ((Misses.minus hts).orElse h.chain).head

theorem misses_number (h : ∀ k ∈ Token.next ts, k.opensNumber = false) : Misses (number .off r) ts :=
  misses_number_of_factor (next_ne h rfl) (misses_numberFactor h)

theorem misses_stores_of_next (h : Token.next ts ≠ some .identifier) : Misses (stores r) ts := by
  cases ts with
  | nil => exact Misses.peek.head
  | cons t ts => exact .tail Finds.peek (Misses.target h).head

theorem misses_missingFactor {op : Negation} {line : Nat} :
    Misses (missingFactor false op line : Production Unit _) ts :=
  Misses.noMatch

theorem misses_highAtom (h : ∀ k ∈ Token.next ts, k.opensAtom = false) {line : Nat} :
    Misses (highAtom .off r false line) ts := by
  have hne := @next_ne ts _ h
  refine (Misses.boolean (hne rfl) (hne rfl)).orElse ((Misses.nil (hne rfl)).orElse ?_)
  refine (misses_call (hne rfl)).orElse ((Misses.group (hne rfl)).orElse ?_)
  refine .tail (.unlessNext fun k hk => ?_) misses_missingFactor
  exact beq_eq_false_iff_ne.mpr fun he => hne (k := .leftParen) rfl (he ▸ hk)

theorem misses_highFactor (hbang : Token.next ts ≠ some .bang)
    (h : ∀ line, Misses (highAtom .off r false line) ts) : Misses (highFactor .off r) ts := by
  rw [highFactor_eq]
  cases ts with
  | nil => exact Misses.peek.head
  | cons t ts => exact .tail Finds.peek (.tail (.notAccepts hbang) (h t.line).head)

/-- In front of an arithmetic operator there is no factor. -/
theorem misses_highFactor_arithmetic {e : Expr} {rest : List Token} {k : Kind} (hbang : Token.next ts ≠ some .bang)
    (h : ∀ line, Finds (highAtom .off r false line) ts e rest) (hk : Token.next rest = some k)
    (ha : k.isArithmetic = true) : Misses (highFactor .off r) ts := by
  rw [highFactor_eq]
  cases ts with
  | nil => exact Misses.peek.head
  | cons t ts =>
    refine .tail Finds.peek (.tail (.notAccepts hbang) (.tail (h t.line) ?_))
    exact (Misses.unlessNext hk ha).head

theorem misses_highBoolean (h : Misses (highFactor .off r) ts) : Misses (highBoolean .off r) ts := by
  rw [highBoolean, memoized_off]
  exact h.chain.chain

/-- A comparison does not match where what could be compared is followed by no comparison. -/
theorem misses_condition (hn : Stops (·.tier = 3) (number .off r) ts)
    (hb : Stops (·.tier = 3) (highBoolean .off r) ts) (hs : Stops (·.tier = 3) string ts)
    (hg : Stops (·.tier = 3) gets ts) : Misses (condition .off r) ts := by
  have hequality : Stops (·.tier = 3) (comparable .off r) ts := hn.orElse (hb.orElse (hs.orElse hg))
  have hordering : Stops (·.tier = 3) (orderable .off r) ts := hn.orElse hs
  refine (Misses.comparison (hequality.mono ?_)).orElse (Misses.comparison (hordering.mono ?_))
  · exact fun h => tier_equalityOp h
  · exact fun h => tier_orderingOp h

theorem misses_lowFactor (hnot : Token.next ts ≠ some .kwNot) (hc : Misses (condition .off r) ts)
    (hs : Misses (stores r) ts) (hb : Misses (highBoolean .off r) ts) : Misses (lowFactor .off r) ts := by
  unfold lowFactor
  cases ts with
  | nil => exact Misses.peek.head
  | cons t ts =>
    refine .tail Finds.peek (.tail (.notAccepts hnot) (Misses.head ?_))
    exact hc.orElse (Misses.orElse hs.head (hb.orElse misses_missingFactor))

theorem misses_lowBoolean (h : Misses (lowFactor .off r) ts) : Misses (lowBoolean .off r) ts := h.chain.chain

section
variable (h : ∀ k ∈ Token.next ts, k.opensExpr = false)
include h

theorem misses_value_of_next : Misses (value .off r) ts := by
  have hne := @next_ne ts _ h
  have hnumber : Misses (number .off r) ts := misses_number fun k hk => by
    have := h k hk
    revert this
    cases k <;> decide
  have hatom (line : Nat) : Misses (highAtom .off r false line) ts := misses_highAtom fun k hk => by
    have := h k hk
    revert this
    cases k <;> decide
  have hboolean := misses_highBoolean (misses_highFactor (hne rfl) hatom)
  have hstring : Misses string ts := Misses.string (hne rfl)
  have hgets : Misses gets ts := Misses.gets (hne rfl)
  rw [value, memoized_off]
  refine (misses_lowBoolean (misses_lowFactor (hne rfl) ?_ ?_ hboolean)).orElse
    (hnumber.orElse (hstring.orElse hgets))
  · exact misses_condition hnumber.stops hboolean.stops hstring.stops hgets.stops
  · exact misses_stores_of_next (hne rfl)

theorem misses_simple_of_next (hprint : Token.next ts ≠ some .kwPrint) (hputs : Token.next ts ≠ some .kwPuts) :
    Misses (simple .off r) ts := by
  have hne := @next_ne ts _ h
  refine (misses_stores_of_next (hne rfl)).head.orElse ((Misses.token hprint).head.orElse ?_)
  refine (Misses.token hputs).head.orElse ((Misses.token (hne rfl)).head.orElse ?_)
  exact (misses_value_of_next h).head

end

end Grammar

/-! ## Stores -/

namespace Grammar

def nextTarget : Production Unit (Nat × String) := do
  let _ ← token .comma
  target

/-- Without a `=` behind them, names are gone through up to where the names end. -/
theorem findsAll_nextTarget : ∀ {ts : List Token}, Token.storesAhead ts = false →
    ∃ targets rest, FindsAll nextTarget ts targets rest ∧ Token.next rest ≠ some .equal
  | [], _ => ⟨[], [], .stop (Misses.token (by simp)).head, by simp⟩
  | t :: ts, h => by
    have hequal : Token.next (t :: ts) ≠ some .equal := by
      rintro he
      simp [Token.storesAhead_cons, Option.some.inj he] at h
    by_cases hcomma : t.kind = .comma
    · match ts with
      | [] => exact ⟨[], [t], .stop (.tail (.token hcomma) (Misses.target (by simp))), hequal⟩
      | u :: us =>
        by_cases hname : u.kind = .identifier
        · have hus : Token.storesAhead us = false := by
            simpa [Token.storesAhead_cons, Token.startsStores, hcomma, hname] using h
          obtain ⟨targets, rest, hs, hrest⟩ := findsAll_nextTarget hus
          have hlen : us.length < (t :: u :: us).length := by
            simp only [List.length_cons]
            omega
          exact ⟨_, rest, .step ((Finds.token hcomma).bind (.target hname)) hlen hs, hrest⟩
        · refine ⟨[], t :: u :: us, .stop (.tail (.token hcomma) (Misses.target ?_)), hequal⟩
          simpa using hname
    · exact ⟨[], t :: ts, .stop (Misses.token (by simpa using hcomma)).head, hequal⟩

variable {r : Rules Unit}

theorem misses_stores : ∀ {ts : List Token}, Token.startsStores ts = false → Misses (stores r) ts
  | [], _ => Misses.peek.head
  | t :: ts, h => by
    by_cases hname : t.kind = .identifier
    · have hts : Token.storesAhead ts = false := by simpa [Token.startsStores, hname] using h
      obtain ⟨targets, rest, hs, hrest⟩ := findsAll_nextTarget hts
      exact .tail Finds.peek (.tail (.target hname) (.tail (Finds.many hs) (Misses.token hrest).head))
    · exact misses_stores_of_next (by simpa using hname)

theorem misses_assign {line : Nat} {ts : List Token} (h : Token.startsStores ts = false) :
    Misses (assign r line) ts :=
  (misses_stores h).head

end Grammar

/-! ## From tier to tier -/

namespace Production.Finds

variable {t : Token} {ts mid rest : List Token} {k : Kind} {e : Expr} {others : List (BinaryOp × Nat × Expr)}
  {r : Rules Unit}

theorem numberTerm (h : Finds (Grammar.numberFactor .off r) ts e rest) (hr : Token.Below 7 rest) :
    Finds (Grammar.numberTerm .off r) ts e rest :=
  h.alone (hr.none Grammar.tier_tightOp)

theorem number (hts : Token.next ts ≠ some .minus) (h : Finds (Grammar.numberTerm .off r) ts e mid)
    (hs : FindsAll (Grammar.link (Grammar.numberTerm .off r) Grammar.looseOp .term) mid others rest) :
    Finds (Grammar.number .off r) ts (Grammar.linked e others) rest := by
  rw [Grammar.number, memoized_off]
  exact (Finds.right (Misses.minus hts) h).bind (chainFrom hs)

theorem highFactor (hts : Token.next ts = some k) (hk : k ≠ .bang)
    (h : ∀ line, Finds (Grammar.highAtom .off r false line) ts e rest) (hr : Token.Below 6 rest) :
    Finds (Grammar.highFactor .off r) ts e rest := by
  rw [Grammar.highFactor_eq]
  have hbang : Token.next ts ≠ some .bang := by simpa [hts] using hk
  refine peek_bind hts fun t => (notAccepts hbang).bind ?_
  exact (h t.line).bind ((unlessNext hr.arithmetic).bind pure)

theorem highFactor_negated (ht : t.kind = .bang)
    (h : ∀ line, Finds (Grammar.highAtom .off r true line) ts e rest) (hr : Token.Below 6 rest) :
    Finds (Grammar.highFactor .off r) (t :: ts) (.negate t.line .bang e) rest := by
  rw [Grammar.highFactor_eq]
  exact peek.bind ((accepts ht).bind ((h t.line).bind ((unlessNext hr.arithmetic).bind pure)))

theorem highTerm (h : Finds (Grammar.highFactor .off r) ts e rest) (hr : Token.Below 5 rest) :
    Finds (Grammar.highTerm .off r) ts e rest :=
  h.alone (hr.none Grammar.tier_andAndOp)

theorem highBoolean (h : Finds (Grammar.highTerm .off r) ts e rest) (hr : Token.Below 4 rest) :
    Finds (Grammar.highBoolean .off r) ts e rest := by
  rw [Grammar.highBoolean, memoized_off]
  exact h.alone (hr.none Grammar.tier_orOrOp)

section
variable (hts : Token.next ts = some k) (hk : k ≠ .kwNot)
include hts hk

theorem lowFactor_condition (h : Finds (Grammar.condition .off r) ts e rest) :
    Finds (Grammar.lowFactor .off r) ts e rest := by
  have hnot : Token.next ts ≠ some .kwNot := by simpa [hts] using hk
  exact peek_bind hts fun t => (notAccepts hnot).bind (h.left.bind pure)

theorem lowFactor_highBoolean (hc : Misses (Grammar.condition .off r) ts) (hs : Token.startsStores ts = false)
    (h : Finds (Grammar.highBoolean .off r) ts e rest) : Finds (Grammar.lowFactor .off r) ts e rest := by
  have hnot : Token.next ts ≠ some .kwNot := by simpa [hts] using hk
  refine peek_bind hts fun t => (notAccepts hnot).bind (bind ?_ pure)
  exact right hc (right (Grammar.misses_assign hs) h.left)

end

/-- A tight boolean expression that no comparison is read from. -/
theorem lowFactor_alone (hts : Token.next ts = some k) (hk : k ≠ .kwNot ∧ k ≠ .string ∧ k ≠ .kwGets)
    (hn : Stops (·.tier = 3) (Grammar.number .off r) ts) (hs : Token.startsStores ts = false)
    (h : Finds (Grammar.highBoolean .off r) ts e rest) (hr : Token.Below 3 rest) :
    Finds (Grammar.lowFactor .off r) ts e rest := by
  refine lowFactor_highBoolean hts hk.1 (Grammar.misses_condition hn (h.stops ?_) ?_ ?_) hs h
  · exact fun k' hk' => Nat.ne_of_lt (hr k' hk')
  · exact (Misses.string (by simpa [hts] using hk.2.1)).stops
  · exact (Misses.gets (by simpa [hts] using hk.2.2)).stops

theorem lowFactor_assign (ht : t.kind ≠ .kwNot) (hc : Misses (Grammar.condition .off r) (t :: ts))
    (h : Finds (Grammar.assign r t.line) (t :: ts) e rest) :
    Finds (Grammar.lowFactor .off r) (t :: ts) e rest := by
  have hnot : Token.next (t :: ts) ≠ some .kwNot := by simpa using ht
  exact peek.bind ((notAccepts hnot).bind ((right hc h.left).bind pure))

theorem lowFactor_negated (ht : t.kind = .kwNot) (hc : Misses (Grammar.condition .off r) ts)
    (hs : Token.startsStores ts = false) (h : Finds (Grammar.highBoolean .off r) ts e rest) :
    Finds (Grammar.lowFactor .off r) (t :: ts) (.negate t.line .not e) rest := by
  refine peek.bind ((accepts ht).bind (bind ?_ pure))
  exact right hc (right (Grammar.misses_assign hs) h.left)

theorem lowBoolean (h : Finds (Grammar.lowFactor .off r) ts e rest) (hr : Token.Below 1 rest) :
    Finds (Grammar.lowBoolean .off r) ts e rest :=
  (h.alone ((hr.mono (by decide)).none Grammar.tier_andOp)).alone (hr.none Grammar.tier_orOp)

theorem value_lowBoolean (h : Finds (Grammar.lowBoolean .off r) ts e rest) :
    Finds (Grammar.value .off r) ts e rest := by
  rw [Grammar.value, memoized_off]
  exact h.left

theorem value_number (hb : Misses (Grammar.lowBoolean .off r) ts) (h : Finds (Grammar.number .off r) ts e rest) :
    Finds (Grammar.value .off r) ts e rest := by
  rw [Grammar.value, memoized_off]
  exact right hb h.left

end Production.Finds

/-! ## Calls -/

section
variable {ts rest : List Token} {e : Expr} {r : Rules Unit} (hts : Token.next ts = some .identifier)
  (h : Finds (Grammar.call .off r) ts e rest)
include hts h

theorem Production.Finds.numberFactor_call : Finds (Grammar.numberFactor .off r) ts e rest := by
  refine .right (Misses.integer ?_) (.right (Misses.float ?_) h.left)
  all_goals simp [hts]

theorem Production.Finds.highAtom_call {negated : Bool} {line : Nat} :
    Finds (Grammar.highAtom .off r negated line) ts e rest := by
  refine .right (Misses.boolean ?_ ?_) (.right (Misses.nil ?_) h.left)
  all_goals simp [hts]

end

/-! ## Parentheses -/

section
variable {t u : Token} {ts rest : List Token} {e : Expr} {r : Rules Unit} {negated : Bool} {line : Nat}
  (ht : t.kind = .leftParen)
include ht

namespace Production

theorem Finds.numberFactor_group (h : Finds (Grammar.assign r t.line <|> r.number) ts e (u :: rest))
    (hu : u.kind = .rightParen) : Finds (Grammar.numberFactor .off r) (t :: ts) e rest := by
  refine .right (Misses.integer (by simp [ht])) (.right (Misses.float (by simp [ht])) ?_)
  refine .right (Grammar.misses_call (by simp [ht])) (.right (Misses.minus (by simp [ht])) ?_)
  exact peek.bind (.group ht h hu)

theorem Misses.numberFactor_group (h : Stops (· = .rightParen) (Grammar.assign r t.line <|> r.number) ts) :
    Misses (Grammar.numberFactor .off r) (t :: ts) := by
  refine (Misses.integer (by simp [ht])).orElse ((Misses.float (by simp [ht])).orElse ?_)
  refine (Grammar.misses_call (by simp [ht])).orElse ((Misses.minus (by simp [ht])).orElse ?_)
  exact .tail .peek (.group_of_stops ht h)

theorem Finds.highAtom_group (h : Finds r.lowBoolean ts e (u :: rest)) (hu : u.kind = .rightParen) :
    Finds (Grammar.highAtom .off r negated line) (t :: ts) e rest := by
  refine .right (Misses.boolean (by simp [ht]) (by simp [ht])) (.right (Misses.nil (by simp [ht])) ?_)
  exact .right (Grammar.misses_call (by simp [ht])) (.left (.group ht h hu))

theorem Misses.highAtom_group (h : Stops (· = .rightParen) r.lowBoolean ts) :
    Misses (Grammar.highAtom .off r negated line) (t :: ts) := by
  refine (Misses.boolean (by simp [ht]) (by simp [ht])).orElse ((Misses.nil (by simp [ht])).orElse ?_)
  refine (Grammar.misses_call (by simp [ht])).orElse ((Misses.group_of_stops ht h).orElse ?_)
  exact (Misses.unlessNext (k := .leftParen) (by simp [ht]) rfl).head

end Production

end

end Sprig
