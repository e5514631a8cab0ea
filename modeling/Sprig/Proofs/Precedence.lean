import Sprig.Proofs.Equalities

/-!
# Precedence and associativity

An expression is printed with parentheses only where the tiers of its operators ask for them, and read back.
Each tier joins operands of tighter tiers from the left, so on the left side of an operator the whole tier may
stand without parentheses, and on the right side only what is tighter.

`Grammar.Tier.Joins` carries the induction: the printed expression is found as the first operand of a chain,
with more operators of the tier behind it.
-/

namespace Sprig

open Production

/-! ## Printing -/

namespace Expr

/-- How tightly the expression holds together, by the operator it is joined by. -/
def tier : Expr → Nat
  | binary _ op _ _ => op.kind.tier
  | _ => 8

mutual

/-- The expression with parentheses around a left operand of a looser tier, and around a right operand of the
same or a looser one. -/
def terse : Expr → List Token
  | binary _ op left right =>
    (if left.tier < op.kind.tier then Token.enclosed left.terse else left.terse) ++
      op.token :: if right.tier ≤ op.kind.tier then Token.enclosed right.terse else right.terse
  | call _ name args =>
    .name name :: if args.isEmpty then [] else Token.enclosed (Token.separated (terseAll args))
  | e => e.operand

def terseAll : List Expr → List (List Token)
  | [] => []
  | e :: es => e.terse :: terseAll es

end

/-- The expression where an expression of at least this tier can stand. -/
def grouped (n : Nat) (e : Expr) : List Token := if e.tier < n then Token.enclosed e.terse else e.terse

mutual

/-- Integer literals without a sign, names, and calls, joined by arithmetic operators. -/
def Arithmetic : Expr → Prop
  | literal _ (.integer n) => 0 ≤ n.toInt
  | call _ _ args => ArithmeticAll args
  | binary _ (.arithmetic _) left right => left.Arithmetic ∧ right.Arithmetic
  | _ => False

def ArithmeticAll : List Expr → Prop
  | [] => True
  | e :: es => e.Arithmetic ∧ ArithmeticAll es

end

/-- `true`, `false`, `nil` and names, joined by boolean operators. -/
def Logical : Expr → Prop
  | literal _ .nil | literal _ (.boolean _) => True
  | call _ _ args => args = []
  | binary _ (.boolean _) left right => left.Logical ∧ right.Logical
  | _ => False

section
variable (line : Nat) (op : BinaryOp) (l r e : Expr) (rest : List Token)

@[simp] theorem terseAll_eq (es : List Expr) : terseAll es = es.map terse := by
  induction es with
  | nil => rfl
  | cons e es ih => rw [terseAll, ih, List.map_cons]

theorem terse_call (name : String) (args : List Expr) : (call line name args).terse =
    .name name :: if args.isEmpty then [] else Token.enclosed (Token.separated (args.map terse)) := by
  rw [terse, terseAll_eq]

theorem terse_binary :
    (binary line op l r).terse = l.grouped op.kind.tier ++ op.token :: r.grouped (op.kind.tier + 1) := by
  rw [terse, grouped, grouped]
  simp only [Nat.lt_succ_iff]

theorem terse_binary_append : (binary line op l r).terse ++ rest =
    l.grouped op.kind.tier ++ op.token :: (r.grouped (op.kind.tier + 1) ++ rest) := by
  rw [terse_binary, List.append_assoc, List.cons_append]

variable {e} {n : Nat}

theorem grouped_of_lt (h : e.tier < n) : e.grouped n = Token.enclosed e.terse := if_pos h

theorem grouped_of_le (h : n ≤ e.tier) : e.grouped n = e.terse := if_neg (Nat.not_lt.mpr h)

theorem grouped_succ (h : e.tier ≠ n) : e.grouped n = e.grouped (n + 1) := by
  have hiff : e.tier < n ↔ e.tier < n + 1 := by omega
  simp only [grouped, hiff]

theorem le_tier_binary : op.kind.tier ≤ (binary line op l r).tier := Nat.le_refl _

end

/-! ### The first token -/

theorem startsStores_terse : ∀ (e : Expr) {rest : List Token}, Token.storesAhead rest = false →
    Token.startsStores (e.terse ++ rest) = false
  | binary line op l r, rest, _ => by
    rw [terse_binary_append, grouped]
    split
    · rfl
    · exact startsStores_terse l (op.storesAhead_token _)
  | call _ _ [], _, h => h
  | call _ _ (_ :: _), _, _ => by simp [terse, Token.startsStores, Token.storesAhead_cons]
  | literal _ _, _, h | negate _ _ _, _, h | compare _ _ _ _, _, h | gets _, _, h | assign _ _, _, h =>
    startsStores_operand h

theorem startsStores_grouped (e : Expr) (n : Nat) {rest : List Token} (h : Token.storesAhead rest = false) :
    Token.startsStores (e.grouped n ++ rest) = false := by
  rw [grouped]
  split
  · rfl
  · exact e.startsStores_terse h

end Expr

/-- What the first token of an arithmetic or logical expression can be. -/
def Kind.opensTree : Kind → Bool
  | leftParen | identifier | integer | kwTrue | kwFalse | kwNil => true
  | _ => false

namespace Expr

theorem next_terse : ∀ {e : Expr}, (e.Arithmetic ∨ e.Logical) → ∀ rest : List Token,
    ∃ k, Token.next (e.terse ++ rest) = some k ∧ k.opensTree = true
  | literal _ (.integer _), _, _ | literal _ .nil, _, _ | literal _ (.boolean true), _, _
  | literal _ (.boolean false), _, _ | call _ _ _, _, _ => ⟨_, rfl, rfl⟩
  | binary line (.arithmetic op) l r, h, rest => by
    have hl : l.Arithmetic := (h.resolve_right nofun).1
    rw [terse_binary_append, grouped]
    split
    · exact ⟨_, rfl, rfl⟩
    · exact next_terse (.inl hl) _
  | binary line (.boolean op) l r, h, rest => by
    have hl : l.Logical := (h.resolve_left nofun).1
    rw [terse_binary_append, grouped]
    split
    · exact ⟨_, rfl, rfl⟩
    · exact next_terse (.inr hl) _

theorem next_grouped {e : Expr} (h : e.Arithmetic ∨ e.Logical) (n : Nat) (rest : List Token) :
    ∃ k, Token.next (e.grouped n ++ rest) = some k ∧ k.opensTree = true := by
  rw [grouped]
  split
  · exact ⟨_, rfl, rfl⟩
  · exact next_terse h rest

theorem next_grouped_ne {e : Expr} (h : e.Arithmetic ∨ e.Logical) {n : Nat} {rest : List Token} {k : Kind}
    (hk : k.opensTree = false) : Token.next (e.grouped n ++ rest) ≠ some k := by
  obtain ⟨k', hnext, hk'⟩ := next_grouped h n rest
  rw [hnext]
  rintro ⟨⟩
  rw [hk] at hk'
  cases hk'

end Expr

/-! ## Tiers -/

namespace Grammar

/-- A tier of binary operators: the production of what they join, and that of the chains they make. -/
structure Tier where
  level : Nat
  operand : Production Unit Expr
  op? : Kind → Option BinaryOp
  wanted : Wanted
  whole : Production Unit Expr
  level_eq {k : Kind} : (op? k).isSome = true → k.tier = level
  chained {ts mid rest : List Token} {e : Expr} {others : List (BinaryOp × Nat × Expr)} :
    Token.next ts ≠ some .minus → Finds operand ts e mid → FindsAll (link operand op? wanted) mid others rest →
      Finds whole ts (linked e others) rest

namespace Tier

def tight : Tier :=
  ⟨7, numberFactor .off .full, tightOp, .factor, numberTerm .off .full, tier_tightOp, fun _ => Finds.chain⟩

def loose : Tier :=
  ⟨6, numberTerm .off .full, looseOp, .term, number .off .full, tier_looseOp, Finds.number⟩

def andAnd : Tier :=
  ⟨5, highFactor .off .full, andAndOp, .factor, highTerm .off .full, tier_andAndOp, fun _ => Finds.chain⟩

def orOr : Tier where
  level := 4
  operand := highTerm .off .full
  op? := orOrOp
  wanted := .term
  whole := highBoolean .off .full
  level_eq := tier_orOrOp
  chained _ h hs := by
    rw [highBoolean, memoized_off]
    exact h.chain hs

def and : Tier :=
  ⟨2, lowFactor .off .full, andOp, .factor, lowTerm .off .full, tier_andOp, fun _ => Finds.chain⟩

def or : Tier :=
  ⟨1, lowTerm .off .full, orOp, .term, lowBoolean .off .full, tier_orOp, fun _ => Finds.chain⟩

variable (t : Tier)

/-- The expression is found as an operand of the tier. -/
def Operand (e : Expr) : Prop := ∀ ⦃rest : List Token⦄, Token.Ends (t.level + 1) rest →
  Finds t.operand (e.grouped (t.level + 1) ++ rest) e.unlined rest

/-- The expression is found with operators of the tier and their operands behind it, and joined with them. -/
def Joins (e : Expr) : Prop := ∀ ⦃mid rest : List Token⦄ ⦃others : List (BinaryOp × Nat × Expr)⦄,
  Token.Ends (t.level + 1) mid → FindsAll (link t.operand t.op? t.wanted) mid others rest →
    Finds t.whole (e.grouped t.level ++ mid) (linked e.unlined others) rest

variable {t}

theorem Joins.whole {e : Expr} (h : t.Joins e) {rest : List Token} (hrest : Token.Ends t.level rest) :
    Finds t.whole (e.grouped t.level ++ rest) e.unlined rest :=
  h (hrest.mono (Nat.le_succ t.level)) (.noLink (hrest.next.none t.level_eq))

theorem Joins.bare {e : Expr} (h : t.Joins e) (he : t.level ≤ e.tier) {rest : List Token}
    (hrest : Token.Ends t.level rest) : Finds t.whole (e.terse ++ rest) e.unlined rest := by
  rw [← Expr.grouped_of_le he]
  exact h.whole hrest

theorem Operand.joins {e : Expr} (h : t.Operand e) (htree : e.Arithmetic ∨ e.Logical) (he : e.tier ≠ t.level) :
    t.Joins e := by
  intro mid rest others hmid hs
  rw [Expr.grouped_succ he]
  exact t.chained (Expr.next_grouped_ne htree rfl) (h hmid) hs

theorem Joins.binary {l r : Expr} {op : BinaryOp} (hl : t.Joins l) (hr : t.Operand r)
    (hop : t.op? op.kind = some op) (line : Nat) : t.Joins (.binary line op l r) := by
  intro mid rest others hmid hs
  have hlevel : op.kind.tier = t.level := t.level_eq (by rw [hop]; rfl)
  have hnext : Token.Ends (t.level + 1) (op.token :: (r.grouped (t.level + 1) ++ mid)) :=
    ⟨.cons hop t.level_eq (Nat.lt_succ_self t.level), op.storesAhead_token _⟩
  rw [← hlevel, Expr.grouped_of_le (Expr.le_tier_binary line op l r), Expr.terse_binary_append, hlevel]
  exact hl hnext (.link (t := op.token) hop (hr hmid) (by simp) hs)

end Tier

end Grammar

/-! ## Arithmetic -/

open Grammar (Tier)

namespace Expr

/-- What the number tiers make of the printed expression, and that truth values are not found in it. -/
structure Numeric (e : Expr) : Prop where
  arithmetic : e.Arithmetic
  factor : Tier.tight.Operand e
  term : Tier.tight.Joins e
  number : Tier.loose.Joins e
  noHighFactor {n : Nat} {rest : List Token} {k : Kind} : n ≤ 8 → Token.next rest = some k →
    k.isArithmetic = true → Misses (Grammar.highFactor .off .full) (e.grouped n ++ rest)
  written : e.Written e.terse

namespace Numeric

section
variable {e : Expr} (harith : e.Arithmetic) (he : e.tier = 8) (hfactor : Tier.tight.Operand e)
include harith he hfactor

theorem joins_of_factor : Tier.tight.Joins e ∧ Tier.loose.Joins e := by
  have hterm : Tier.tight.Joins e := hfactor.joins (.inl harith) (he ▸ nofun)
  have hloose : Tier.loose.Operand e := fun _ => hterm.whole
  exact ⟨hterm, hloose.joins (.inl harith) (he ▸ nofun)⟩

theorem of_factor (hnone : ∀ {rest : List Token} {k : Kind}, Token.next rest = some k → k.isArithmetic = true →
      Misses (Grammar.highFactor .off .full) (e.terse ++ rest))
    (hvalue : ∀ {rest : List Token}, Token.Ends 1 rest →
      Finds (Grammar.value .off .full) (e.terse ++ rest) e.unlined rest) : e.Numeric := by
  obtain ⟨hterm, hnumber⟩ := joins_of_factor harith he hfactor
  refine ⟨harith, hfactor, hterm, hnumber, fun hn hk ha => ?_, hvalue,
    fun hrest => .comma (e.startsStores_terse hrest.stores)⟩
  rw [grouped_of_le (he ▸ hn)]
  exact hnone hk ha

end

theorem integer (line : Nat) {n : Int64} (hn : 0 ≤ n.toInt) : (literal line (.integer n)).Numeric := by
  have hoperand := Operand.literal_integer line hn
  exact of_factor hn rfl (fun _ hrest => hoperand.numberFactor rfl hrest.next) hoperand.noHighFactor_arithmetic
    hoperand.value

/-! ### Calls -/

section
variable {args : List Expr} (h : ∀ e ∈ args, e.Written e.terse) (line : Nat) (name : String) {rest : List Token}
include h

theorem found_call (hrest : Token.Below 8 rest) :
    Finds (Grammar.call .off .full) ((call line name args).terse ++ rest) (call line name args).unlined rest := by
  rw [terse_call, unlined_call]
  exact .call h hrest

theorem noHighFactor_call {k : Kind} (hk : Token.next rest = some k) (ha : k.isArithmetic = true) :
    Misses (Grammar.highFactor .off .full) ((call line name args).terse ++ rest) := by
  refine Grammar.misses_highFactor_arithmetic (e := (call line name args).unlined) ?_ (fun _ => ?_) hk ha
  · rw [terse_call]
    nofun
  · exact .highAtom_call rfl (found_call h line name (.of_arithmetic hk ha))

theorem value_call (hnumber : Tier.loose.Joins (call line name args)) (hrest : Token.Ends 1 rest) :
    Finds (Grammar.value .off .full) ((call line name args).terse ++ rest) (call line name args).unlined rest := by
  have hnext : Token.next ((call line name args).terse ++ rest) = some .identifier := by
    rw [terse_call]
    rfl
  have hne : ∀ k ∈ Token.next rest, ¬ k.tier = 3 := fun k hk => Nat.ne_of_lt (hrest.below (by decide) k hk)
  have hatom := found_call h line name (hrest.below (by decide))
  have hfactor := Finds.highFactor hnext nofun (fun _ => .highAtom_call hnext hatom) (hrest.below (by decide))
  have hboolean := (hfactor.highTerm (hrest.below (by decide))).highBoolean (hrest.below (by decide))
  have hlow := Finds.lowFactor_alone hnext ⟨nofun, nofun, nofun⟩ ((hnumber.whole (hrest.mono (by decide))).stops hne)
    (startsStores_terse _ hrest.stores) hboolean (hrest.below (by decide))
  exact (hlow.lowBoolean hrest.next).value_lowBoolean

theorem call (harith : (Expr.call line name args).Arithmetic) : (Expr.call line name args).Numeric := by
  have hfactor : Tier.tight.Operand (Expr.call line name args) :=
    fun _ hrest => .numberFactor_call rfl (found_call h line name hrest.next)
  have hnumber : Tier.loose.Joins (Expr.call line name args) := (joins_of_factor harith rfl hfactor).2
  exact of_factor harith rfl hfactor (noHighFactor_call h line name) (value_call h line name hnumber)

end

/-! ### Operators -/

theorem factor_of_number {e : Expr} (h : Tier.loose.Joins e) (he : 6 ≤ e.tier ∧ e.tier < 8) :
    Tier.tight.Operand e := by
  intro rest hrest
  have hends : Token.Ends Tier.loose.level (.closing :: rest) := Token.Ends.closing.mono (by decide)
  have hnumber := h.bare he.1 hends
  have hgroup : e.grouped (Tier.tight.level + 1) = Token.enclosed e.terse := grouped_of_lt he.2
  rw [hgroup, Token.enclosed_append]
  refine .numberFactor_group (u := .closing) rfl (.right (Grammar.misses_assign (e.startsStores_terse rfl)) ?_) rfl
  rw [Rules.full_number]
  exact hnumber

section
variable {l r : Expr} {op : ArithmeticOp} (hl : l.Numeric) (hr : r.Numeric) (line : Nat)

theorem isArithmetic_kind : (BinaryOp.arithmetic op).kind.isArithmetic = true := by cases op <;> rfl

theorem tier_arithmetic : 6 ≤ (BinaryOp.arithmetic op).kind.tier ∧ (BinaryOp.arithmetic op).kind.tier < 8 := by
  cases op <;> decide

include hl

theorem noHighFactor_terse (rest : List Token) :
    Misses (Grammar.highFactor .off .full) ((binary line (.arithmetic op) l r).terse ++ rest) := by
  rw [terse_binary_append]
  exact hl.noHighFactor tier_arithmetic.2.le rfl isArithmetic_kind

/-- What looks for a truth value first finds none. -/
theorem noLowBoolean (harith : (binary line (.arithmetic op) l r).Arithmetic)
    (hnumber : Tier.loose.Joins (binary line (.arithmetic op) l r)) {rest : List Token} (hrest : Token.Ends 3 rest) :
    Misses (Grammar.lowBoolean .off .full) ((binary line (.arithmetic op) l r).terse ++ rest) := by
  have hne {k : Kind} (hk : k.opensTree = false) :
      Token.next ((binary line (.arithmetic op) l r).terse ++ rest) ≠ some k := by
    rw [← grouped_of_le (Nat.zero_le _)]
    exact next_grouped_ne (.inl harith) hk
  have hfactor : Misses (Grammar.highFactor .off .full) ((binary line (.arithmetic op) l r).terse ++ rest) :=
    hl.noHighFactor_terse line rest
  have hboolean := Grammar.misses_highBoolean hfactor
  have hstores := Grammar.misses_stores (r := .full) (startsStores_terse (binary line (.arithmetic op) l r)
    hrest.stores)
  have hwhole := hnumber.bare tier_arithmetic.1 (hrest.mono (by decide))
  refine Grammar.misses_lowBoolean (Grammar.misses_lowFactor (hne rfl) ?_ hstores hboolean)
  refine Grammar.misses_condition (hwhole.stops ?_) hboolean.stops (Misses.string (hne rfl)).stops
    (Misses.gets (hne rfl)).stops
  exact fun k hk => Nat.ne_of_lt (hrest.next k hk)

include hr

theorem joins_of_tightOp (hop : Grammar.tightOp (BinaryOp.arithmetic op).kind = some (.arithmetic op)) :
    Tier.tight.Joins (binary line (.arithmetic op) l r) ∧ Tier.loose.Joins (binary line (.arithmetic op) l r) := by
  have htier : (binary line (.arithmetic op) l r).tier = 7 := Grammar.tier_tightOp (by rw [hop]; rfl)
  have hterm : Tier.tight.Joins (binary line (.arithmetic op) l r) := hl.term.binary hr.factor hop line
  have hloose : Tier.loose.Operand (binary line (.arithmetic op) l r) := fun _ => hterm.whole
  exact ⟨hterm, hloose.joins (.inl ⟨hl.arithmetic, hr.arithmetic⟩) (htier ▸ nofun)⟩

theorem joins_of_looseOp (hop : Grammar.looseOp (BinaryOp.arithmetic op).kind = some (.arithmetic op)) :
    Tier.tight.Joins (binary line (.arithmetic op) l r) ∧ Tier.loose.Joins (binary line (.arithmetic op) l r) := by
  have htier : (binary line (.arithmetic op) l r).tier = 6 := Grammar.tier_looseOp (by rw [hop]; rfl)
  have hnumber : Tier.loose.Joins (binary line (.arithmetic op) l r) :=
    hl.number.binary (fun _ => hr.term.whole) hop line
  have hfactor := factor_of_number hnumber tier_arithmetic
  exact ⟨hfactor.joins (.inl ⟨hl.arithmetic, hr.arithmetic⟩) (htier ▸ nofun), hnumber⟩

theorem binary : (Expr.binary line (.arithmetic op) l r).Numeric := by
  have harith : (Expr.binary line (.arithmetic op) l r).Arithmetic := ⟨hl.arithmetic, hr.arithmetic⟩
  obtain ⟨hterm, hnumber⟩ : Tier.tight.Joins (Expr.binary line (.arithmetic op) l r) ∧
      Tier.loose.Joins (Expr.binary line (.arithmetic op) l r) := by
    cases op with
    | add | subtract => exact hl.joins_of_looseOp hr line rfl
    | multiply | divide | modulo | power => exact hl.joins_of_tightOp hr line rfl
  refine ⟨harith, factor_of_number hnumber tier_arithmetic, hterm, hnumber, ?_, ?_, ?_⟩
  · intro n rest k _ hk ha
    rw [grouped]
    split
    · rw [Token.enclosed_append]
      refine Grammar.misses_highFactor nofun fun _ => .highAtom_group rfl (Misses.stops ?_)
      rw [Rules.full_lowBoolean]
      exact hl.noLowBoolean line harith hnumber (Token.Ends.closing.mono (by decide))
    · exact hl.noHighFactor_terse line rest
  · intro rest hrest
    have hmiss := hl.noLowBoolean line harith hnumber (hrest.mono (by decide))
    exact .value_number hmiss (hnumber.bare tier_arithmetic.1 (hrest.mono (by decide)))
  · exact fun hrest => .comma (startsStores_terse _ hrest.stores)

end

end Numeric

mutual

theorem Arithmetic.numeric : ∀ {e : Expr}, e.Arithmetic → e.Numeric
  | literal line (.integer _), h => .integer line h
  | call line name _, h => .call (ArithmeticAll.written h) line name h
  | binary line (.arithmetic _) _ _, ⟨hl, hr⟩ => .binary hl.numeric hr.numeric line

theorem ArithmeticAll.written : ∀ {es : List Expr}, ArithmeticAll es → ∀ e ∈ es, e.Written e.terse
  | [], _ => by simp
  | _ :: _, ⟨h, hs⟩ => List.forall_mem_cons.mpr ⟨h.numeric.written, ArithmeticAll.written hs⟩

end

end Expr

/-! ## Truth values -/

theorem BinaryOp.tier_pos (op : BinaryOp) : 1 ≤ op.kind.tier := by
  rcases op with op | op <;> cases op <;> decide

theorem BinaryOp.tier_boolean (op : BooleanOp) : (boolean op).kind.tier < 6 ∧ (boolean op).kind.tier ≠ 3 := by
  cases op <;> decide

namespace Expr

/-- A number is taken for all that is in front of an operator, or not found at all. -/
theorem Logical.stops_number : ∀ {e : Expr}, e.Logical → ∀ {c : Kind → Prop},
    (∀ op : BooleanOp, ¬ c (BinaryOp.boolean op).kind) → ∀ {n : Nat} {rest : List Token}, n ≤ 8 →
      Token.Below 6 rest → (∀ k ∈ Token.next rest, ¬ c k) →
        Stops c (Grammar.number .off .full) (e.grouped n ++ rest)
  | literal line .nil, _, c, _, n, rest, hn, hrest, hnext => by
    rw [grouped_of_le hn]
    exact (Operand.literal_nil line).stops_number hrest hnext
  | literal line (.boolean b), _, c, _, n, rest, hn, hrest, hnext => by
    rw [grouped_of_le hn]
    exact (Operand.literal_boolean line b).stops_number hrest hnext
  | call line name [], _, c, _, n, rest, hn, hrest, hnext => by
    rw [grouped_of_le hn]
    exact (Operand.call (by simp) line name).stops_number hrest hnext
  | binary line (.boolean op) l r, ⟨hl, _⟩, c, hc, n, rest, _, hrest, hnext => by
    have hbelow := (BinaryOp.tier_boolean op).1
    have hbare {c : Kind → Prop} (hc : ∀ op : BooleanOp, ¬ c (BinaryOp.boolean op).kind) (rest : List Token) :
        Stops c (Grammar.number .off .full) ((binary line (.boolean op) l r).terse ++ rest) := by
      rw [terse_binary_append]
      exact hl.stops_number hc (by omega) (by simpa using hbelow) (by simpa using hc op)
    rw [grouped]
    split
    · have hgroup := hbare (c := (· = .rightParen)) (fun op => by cases op <;> nofun) (.closing :: rest)
      have hstores : Token.startsStores ((binary line (.boolean op) l r).terse ++ .closing :: rest) = false :=
        startsStores_terse _ rfl
      rw [Token.enclosed_append]
      have hfactor : Misses (Grammar.numberFactor .off .full)
          (.opening :: ((binary line (.boolean op) l r).terse ++ .closing :: rest)) := by
        refine .numberFactor_group rfl ((Grammar.misses_assign hstores).stops.orElse ?_)
        rw [Rules.full_number]
        exact hgroup
      exact (Grammar.misses_number_of_factor (by simp) hfactor).stops
    · exact hbare hc rest

/-- What the boolean tiers make of the printed expression. -/
structure Truth (e : Expr) : Prop where
  logical : e.Logical
  factor : Tier.andAnd.Operand e
  highTerm : Tier.andAnd.Joins e
  highBoolean : Tier.orOr.Joins e
  lowFactor : Tier.and.Operand e
  lowTerm : Tier.and.Joins e
  lowBoolean : Tier.or.Joins e

namespace Truth

section
variable {e : Expr}

theorem lowFactor_of_highBoolean (h : e.Logical) (hboolean : Tier.orOr.Joins e) (he : e.tier ≠ 3) :
    Tier.and.Operand e := by
  intro rest hrest
  have hgrouped : e.grouped (Tier.and.level + 1) = e.grouped Tier.orOr.level := grouped_succ he
  rw [hgrouped]
  obtain ⟨k, hnext, hk⟩ := next_grouped (.inr h) Tier.orOr.level rest
  have hne : k ≠ .kwNot ∧ k ≠ .string ∧ k ≠ .kwGets := by refine ⟨?_, ?_, ?_⟩ <;> rintro rfl <;> cases hk
  have hnumber : Stops (·.tier = 3) (Grammar.number .off .full) (e.grouped Tier.orOr.level ++ rest) :=
    h.stops_number (fun op => (BinaryOp.tier_boolean op).2) (by decide) (hrest.below (by decide))
      fun k hk => Nat.ne_of_lt (hrest.next k hk)
  exact .lowFactor_alone hnext hne hnumber (startsStores_grouped e _ hrest.stores)
    (hboolean.whole (hrest.mono (by decide))) hrest.next

theorem factor_of_lowBoolean (h : Tier.or.Joins e) (he : 1 ≤ e.tier ∧ e.tier < 6) : Tier.andAnd.Operand e := by
  intro rest hrest
  have hgroup : e.grouped (Tier.andAnd.level + 1) = Token.enclosed e.terse := grouped_of_lt he.2
  rw [hgroup, Token.enclosed_append]
  refine .highFactor (k := .leftParen) rfl nofun (fun _ => .highAtom_group (u := .closing) rfl ?_ rfl) hrest.next
  rw [Rules.full_lowBoolean]
  exact h.bare he.1 .closing

theorem highBoolean_of_highTerm (h : e.Logical) (hterm : Tier.andAnd.Joins e) (he : e.tier ≠ 4) :
    Tier.orOr.Joins e := by
  have hoperand : Tier.orOr.Operand e := fun _ => hterm.whole
  exact hoperand.joins (.inr h) he

theorem lowBoolean_of_lowTerm (h : e.Logical) (hterm : Tier.and.Joins e) (he : e.tier ≠ 1) : Tier.or.Joins e := by
  have hoperand : Tier.or.Operand e := fun _ => hterm.whole
  exact hoperand.joins (.inr h) he

end

theorem of_factor {e : Expr} (h : e.Logical) (he : e.tier = 8) (hfactor : Tier.andAnd.Operand e) : e.Truth := by
  have hterm := hfactor.joins (.inr h) (he ▸ nofun)
  have hboolean := highBoolean_of_highTerm h hterm (he ▸ nofun)
  have hlow := lowFactor_of_highBoolean h hboolean (he ▸ nofun)
  have hlowTerm := hlow.joins (.inr h) (he ▸ nofun)
  exact ⟨h, hfactor, hterm, hboolean, hlow, hlowTerm, lowBoolean_of_lowTerm h hlowTerm (he ▸ nofun)⟩

theorem binary {l r : Expr} (hl : l.Truth) (hr : r.Truth) (line : Nat) (op : BooleanOp) :
    (Expr.binary line (.boolean op) l r).Truth := by
  have h : (Expr.binary line (.boolean op) l r).Logical := ⟨hl.logical, hr.logical⟩
  have htier : 1 ≤ (Expr.binary line (.boolean op) l r).tier ∧ (Expr.binary line (.boolean op) l r).tier < 6 :=
    ⟨BinaryOp.tier_pos _, (BinaryOp.tier_boolean op).1⟩
  -- from the tier of the operator down to the loosest, into a group, and from there down to it again
  cases op with
  | andAnd =>
    have hterm : Tier.andAnd.Joins (Expr.binary line (.boolean .andAnd) l r) := hl.highTerm.binary hr.factor rfl line
    have hboolean := highBoolean_of_highTerm h hterm nofun
    have hlow := lowFactor_of_highBoolean h hboolean nofun
    have hlowTerm := hlow.joins (.inr h) nofun
    have hlowBoolean := lowBoolean_of_lowTerm h hlowTerm nofun
    exact ⟨h, factor_of_lowBoolean hlowBoolean htier, hterm, hboolean, hlow, hlowTerm, hlowBoolean⟩
  | orOr =>
    have hboolean : Tier.orOr.Joins (Expr.binary line (.boolean .orOr) l r) :=
      hl.highBoolean.binary (fun _ => hr.highTerm.whole) rfl line
    have hlow := lowFactor_of_highBoolean h hboolean nofun
    have hlowTerm := hlow.joins (.inr h) nofun
    have hlowBoolean := lowBoolean_of_lowTerm h hlowTerm nofun
    have hfactor := factor_of_lowBoolean hlowBoolean htier
    exact ⟨h, hfactor, hfactor.joins (.inr h) nofun, hboolean, hlow, hlowTerm, hlowBoolean⟩
  | and =>
    have hlowTerm : Tier.and.Joins (Expr.binary line (.boolean .and) l r) := hl.lowTerm.binary hr.lowFactor rfl line
    have hlowBoolean := lowBoolean_of_lowTerm h hlowTerm nofun
    have hfactor := factor_of_lowBoolean hlowBoolean htier
    have hterm := hfactor.joins (.inr h) nofun
    have hboolean := highBoolean_of_highTerm h hterm nofun
    exact ⟨h, hfactor, hterm, hboolean, lowFactor_of_highBoolean h hboolean nofun, hlowTerm, hlowBoolean⟩
  | or =>
    have hlowBoolean : Tier.or.Joins (Expr.binary line (.boolean .or) l r) :=
      hl.lowBoolean.binary (fun _ => hr.lowTerm.whole) rfl line
    have hfactor := factor_of_lowBoolean hlowBoolean htier
    have hterm := hfactor.joins (.inr h) nofun
    have hboolean := highBoolean_of_highTerm h hterm nofun
    have hlow := lowFactor_of_highBoolean h hboolean nofun
    exact ⟨h, hfactor, hterm, hboolean, hlow, hlow.joins (.inr h) nofun, hlowBoolean⟩

end Truth

theorem Logical.truth : ∀ {e : Expr}, e.Logical → e.Truth
  | literal line .nil, h => .of_factor h rfl fun _ hrest => (Operand.literal_nil line).highFactor rfl hrest.next
  | literal line (.boolean b), h =>
    .of_factor h rfl fun _ hrest => (Operand.literal_boolean line b).highFactor rfl hrest.next
  | call line name [], h =>
    .of_factor h rfl fun _ hrest => (Operand.call (by simp) line name).highFactor rfl hrest.next
  | binary line (.boolean op) _ _, ⟨hl, hr⟩ => .binary hl.truth hr.truth line op

theorem tier_pos (e : Expr) : 1 ≤ e.tier := by
  cases e with
  | binary _ op _ _ => exact op.tier_pos
  | _ => exact Nat.le_add_left 1 7

/-! ## Lines -/

theorem value_terse {e : Expr} (h : e.Arithmetic ∨ e.Logical) :
    Finds (Grammar.value .off .full) e.terse e.unlined [] := by
  rw [← List.append_nil e.terse]
  rcases h with h | h
  · exact h.numeric.written.found .nil
  · exact (h.truth.lowBoolean.bare e.tier_pos .nil).value_lowBoolean

theorem simple_terse {e : Expr} (h : e.Arithmetic ∨ e.Logical) :
    Finds (Grammar.simple .off .full) e.terse [.expr e.unlined] [] := by
  obtain ⟨k, hnext, hk⟩ := next_terse h []
  rw [List.append_nil] at hnext
  have hstores : Token.startsStores e.terse = false := by
    simpa using e.startsStores_terse (show Token.storesAhead [] = false from rfl)
  refine .simple_value hstores ?_ ?_ (value_terse h)
  · rw [hnext]
    rintro _ ⟨⟩
    revert hk
    cases k <;> decide
  · refine (Misses.token ?_).head
    rw [hnext]
    rintro ⟨⟩
    cases hk

end Expr

namespace Program

/-- **Precedence and associativity.** An arithmetic or logical expression that is printed with parentheses only
where the tiers ask for them reads as one expression statement, with the same tree. -/
theorem ofLines_terse {e : Expr} (h : e.Arithmetic ∨ e.Logical) {ts : LogicalLine}
    (hts : ts.map (Token.mapLine fun _ => 0) = e.terse) :
    ∃ p, ofLines [ts] = .ok p ∧ p.body.stmts.map Stmt.unlined = [.expr e.unlined] := by
  obtain ⟨k, hnext, hk⟩ := Expr.next_terse h []
  rw [List.append_nil] at hnext
  have hheader : LogicalLine.isHeader e.terse = false := by
    refine isHeader_of_opensExpr ?_
    rw [hnext]
    rintro _ ⟨⟩
    revert hk
    cases k <;> decide
  have hne : ∀ us ∈ [ts], us ≠ [] := by
    rintro us hus rfl
    rw [← List.mem_singleton.mp hus] at hts
    rw [← hts] at hnext
    cases hnext
  have hlines : mapLines (fun _ => 0) [ts] = [e.terse] := congrArg (fun us => [us]) hts
  obtain ⟨q, hq, hstmts⟩ := ofLines_line hheader (Expr.simple_terse h)
  rcases ofLines_mapLines (fun _ => 0) hne with ⟨f, _, hmoved⟩ | ⟨p, q', hp, hmoved, hmap⟩
  · rw [hlines, hq] at hmoved
    cases hmoved
  · rw [hlines, hq] at hmoved
    cases hmoved
    exact ⟨p, hp, hmap.symm.trans hstmts⟩

/-- The line `a - (b - 2) * f(c, 1 - d)`, over two physical lines. -/
theorem ofLines_terse_group :
    ∃ p, ofLines [[⟨.identifier, "a", 1⟩, ⟨.minus, "-", 1⟩, ⟨.leftParen, "(", 1⟩, ⟨.identifier, "b", 1⟩,
        ⟨.minus, "-", 1⟩, ⟨.integer, "2", 1⟩, ⟨.rightParen, ")", 1⟩, ⟨.star, "*", 1⟩, ⟨.identifier, "f", 2⟩,
        ⟨.leftParen, "(", 2⟩, ⟨.identifier, "c", 2⟩, ⟨.comma, ",", 2⟩, ⟨.integer, "1", 2⟩, ⟨.minus, "-", 2⟩,
        ⟨.identifier, "d", 2⟩, ⟨.rightParen, ")", 2⟩]] = .ok p ∧
      p.body.stmts.map Stmt.unlined = [.expr (.binary 0 (.arithmetic .subtract) (.call 0 "a" [])
        (.binary 0 (.arithmetic .multiply)
          (.binary 0 (.arithmetic .subtract) (.call 0 "b" []) (.literal 0 (.integer 2)))
          (.call 0 "f" [.call 0 "c" [],
            .binary 0 (.arithmetic .subtract) (.literal 0 (.integer 1)) (.call 0 "d" [])])))] :=
  ofLines_terse (e := .binary 0 (.arithmetic .subtract) (.call 0 "a" []) (.binary 0 (.arithmetic .multiply)
      (.binary 0 (.arithmetic .subtract) (.call 0 "b" []) (.literal 0 (.integer 2)))
      (.call 0 "f" [.call 0 "c" [], .binary 0 (.arithmetic .subtract) (.literal 0 (.integer 1)) (.call 0 "d" [])])))
    (.inl ⟨trivial, ⟨trivial, show 0 ≤ (2 : Int64).toInt by decide⟩, trivial,
      ⟨show 0 ≤ (1 : Int64).toInt by decide, trivial⟩, trivial⟩) rfl

end Program

end Sprig
