import Sprig.Proofs.GrammarFinds
import Sprig.Proofs.Printing

/-!
# Printed operands are found

`Expr.Operand` says how the grammar takes an operand of a printed expression: number factors find it if it is a
number and miss it if not, and the same for boolean factors and truth values. From this follows what
every tier makes of an operand, and of two operands with an operator in between.
-/

namespace Sprig

/-! ## Numerals -/

theorem Integer.natural_toDigits (n : Nat) : natural? (Nat.toDigits 10 n) = some n := by
  have hdigits : ∀ c ∈ Nat.toDigits 10 n, c.isDigit = true :=
    fun c hc => Nat.isDigit_of_mem_toDigits (by decide) (by decide) hc
  have hvalue : naturalOfDigits (Nat.toDigits 10 n) = n :=
    Nat.ofDigitChars_eq_foldl.symm.trans Nat.ofDigitChars_ten_toDigits
  simp [natural?, hvalue, Nat.toDigits_ne_nil, List.all_eq_true.mpr hdigits]

theorem Integer.signed_of_isDigit {c : Char} (h : c.isDigit = true) (cs : List Char) :
    signed (c :: cs) = (false, c :: cs) := by
  unfold signed
  split
  · rename_i he
    cases he
    cases h
  · rename_i he
    cases he
    cases h
  · rfl

theorem Integer.integer_toDigits (n : Nat) : integer? (Nat.toDigits 10 n) = some (n : Int) := by
  have hsigned : signed (Nat.toDigits 10 n) = (false, Nat.toDigits 10 n) := by
    cases hd : Nat.toDigits 10 n with
    | nil => exact absurd hd Nat.toDigits_ne_nil
    | cons c cs =>
      have hc : c ∈ Nat.toDigits 10 n := hd ▸ List.mem_cons_self
      exact signed_of_isDigit (Nat.isDigit_of_mem_toDigits (by decide) (by decide) hc) cs
  simp [integer?, hsigned, natural_toDigits]

theorem Integer.read_toString {n : Int64} (h : 0 ≤ n.toInt) : read? (toString n.toInt.toNat) = some n := by
  have htext : (toString n.toInt.toNat).toList = Nat.toDigits 10 n.toInt.toNat := Nat.toList_repr
  have hrange : Int64.minValue.toInt ≤ n.toInt ∧ n.toInt ≤ Int64.maxValue.toInt := ⟨n.le_toInt, n.toInt_le⟩
  rw [read?, htext, integer_toDigits, Int.toNat_of_nonneg h, Option.bind_eq_bind, Option.bind_some, ofInt?,
    if_pos hrange, Int64.ofInt_toInt]

/-! ## The first token of an operand -/

/-- The kind of the operand's first token. -/
def Expr.opening : Expr → Kind
  | .literal _ v => v.token.kind
  | .call _ _ _ => .identifier
  | .gets _ => .kwGets
  | .binary _ _ _ _ | .negate _ _ _ | .compare _ _ _ _ | .assign _ _ => .leftParen

namespace Expr

variable {e : Expr} {rest : List Token} {k : Kind}

theorem next_operand (e : Expr) (rest : List Token) : Token.next (e.operand ++ rest) = some e.opening := by
  cases e <;> rfl

theorem opensOperand_opening : ∀ e : Expr, e.opening.opensOperand = true
  | .literal _ .nil | .literal _ (.boolean true) | .literal _ (.boolean false) | .literal _ (.integer _)
  | .literal _ (.float _) | .literal _ (.string _) => rfl
  | .call _ _ _ | .gets _ | .binary _ _ _ _ | .negate _ _ _ | .compare _ _ _ _ | .assign _ _ => rfl

theorem opening_ne (hk : k.opensOperand = false) : e.opening ≠ k := by
  rintro rfl
  rw [opensOperand_opening] at hk
  cases hk

theorem next_operand_ne (hk : k.opensOperand = false) : Token.next (e.operand ++ rest) ≠ some k := by
  rw [next_operand]
  exact fun h => opening_ne hk (Option.some.inj h)

theorem string_of_opening : ∀ {e : Expr}, e.opening = .string → ∃ line s, e = literal line (.string s)
  | .literal line (.string s), _ => ⟨line, s, rfl⟩
  | .literal _ (.boolean true), h | .literal _ (.boolean false), h => by cases h

theorem gets_of_opening : ∀ {e : Expr}, e.opening = .kwGets → ∃ line, e = gets line
  | .gets line, _ => ⟨line, rfl⟩
  | .literal _ (.boolean true), h | .literal _ (.boolean false), h => by cases h

theorem misses_numberFactor (h : e.opening.opensNumber = false) :
    Production.Misses (Grammar.numberFactor .off .full) (e.operand ++ rest) :=
  Grammar.misses_numberFactor (by simpa [next_operand] using h)

theorem misses_highAtom {line : Nat} (h : e.opening.opensAtom = false) :
    Production.Misses (Grammar.highAtom .off .full false line) (e.operand ++ rest) :=
  Grammar.misses_highAtom (by simpa [next_operand] using h)

/-- Names and commas before a `=` are never an operand with something else behind it. -/
theorem startsStores_operand (h : Token.storesAhead rest = false) :
    Token.startsStores (e.operand ++ rest) = false := by
  cases e with
  | call line name args =>
    cases args with
    | nil => exact h
    | cons a as => simp [operand, isCompound, text, Token.startsStores, Token.storesAhead_cons]
  | literal line v =>
    rcases v with _ | ⟨_ | _⟩ | _ | _ | _ <;> rfl
  | _ => rfl

end Expr

/-! ## The end of an expression -/

/-- No operator of this tier goes on behind the expression, and it is not the target of a store. -/
structure Token.Ends (n : Nat) (ts : List Token) : Prop where
  next : Below n ts
  stores : storesAhead ts = false

namespace Token.Ends

variable {m n : Nat} {ts : List Token}

theorem below (h : Ends m ts) (hmn : m ≤ n) : Below n ts := h.next.mono hmn

theorem mono (h : Ends m ts) (hmn : m ≤ n) : Ends n ts := ⟨h.below hmn, h.stores⟩

theorem nil : Ends n [] := ⟨below_nil, rfl⟩

theorem closing : Ends 1 (.closing :: ts) := ⟨by simp [Kind.tier], rfl⟩

theorem comma (h : startsStores ts = false) : Ends 1 (.comma :: ts) :=
  ⟨by simp [Kind.tier], by simp [storesAhead_cons, h]⟩

end Token.Ends

theorem BinaryOp.storesAhead_token (op : BinaryOp) (ts : List Token) :
    Token.storesAhead (op.token :: ts) = false := by
  rcases op with op | op <;> cases op <;> rfl

theorem Comparison.storesAhead_token (op : Comparison) (ts : List Token) :
    Token.storesAhead (op.token :: ts) = false := by
  cases op <;> rfl

/-! ## Operands -/

open Production

/-- As an operand the expression is found whole in its tiers, and not at all in others. -/
structure Expr.Operand (e : Expr) : Prop where
  sort : e.isNumber = true ∨ e.isBoolean = true ∨ e.isString = true ∨ e.isGets = true
  numberFactor {rest : List Token} : e.isNumber = true → Token.Below 8 rest →
    Finds (Grammar.numberFactor .off .full) (e.operand ++ rest) e.unlined rest
  noNumberFactor {rest : List Token} : e.isNumber = false →
    Misses (Grammar.numberFactor .off .full) (e.operand ++ rest)
  highAtom {rest : List Token} {negated : Bool} {line : Nat} : e.isBoolean = true → Token.Below 8 rest →
    Finds (Grammar.highAtom .off .full negated line) (e.operand ++ rest) e.unlined rest
  noHighAtom {rest : List Token} {line : Nat} : e.isBoolean = false →
    Misses (Grammar.highAtom .off .full false line) (e.operand ++ rest)

namespace Expr.Operand

variable {e : Expr} {rest : List Token} {k : Kind}

section
variable (h : e.Operand)
include h

theorem numberTerm (he : e.isNumber = true) (hr : Token.Below 7 rest) :
    Finds (Grammar.numberTerm .off .full) (e.operand ++ rest) e.unlined rest :=
  (h.numberFactor he (hr.mono (by decide))).numberTerm hr

theorem number (he : e.isNumber = true) (hr : Token.Below 6 rest) :
    Finds (Grammar.number .off .full) (e.operand ++ rest) e.unlined rest :=
  (h.numberTerm he (hr.mono (by decide))).number (next_operand_ne rfl) (.noLink (hr.none Grammar.tier_looseOp))

theorem noNumber (he : e.isNumber = false) : Misses (Grammar.number .off .full) (e.operand ++ rest) :=
  Grammar.misses_number_of_factor (next_operand_ne rfl) (h.noNumberFactor he)

theorem highFactor (he : e.isBoolean = true) (hr : Token.Below 6 rest) :
    Finds (Grammar.highFactor .off .full) (e.operand ++ rest) e.unlined rest := by
  exact .highFactor (next_operand e rest) (opening_ne rfl) (fun _ => h.highAtom he (hr.mono (by decide))) hr

theorem noHighFactor (he : e.isBoolean = false) : Misses (Grammar.highFactor .off .full) (e.operand ++ rest) :=
  Grammar.misses_highFactor (next_operand_ne rfl) fun _ => h.noHighAtom he

theorem noHighFactor_arithmetic (hk : Token.next rest = some k) (ha : k.isArithmetic = true) :
    Misses (Grammar.highFactor .off .full) (e.operand ++ rest) := by
  cases he : e.isBoolean with
  | false => exact h.noHighFactor he
  | true =>
    have hatom (line : Nat) : Finds (Grammar.highAtom .off .full false line) (e.operand ++ rest) e.unlined rest :=
      h.highAtom he (.of_arithmetic hk ha)
    exact Grammar.misses_highFactor_arithmetic (next_operand_ne rfl) hatom hk ha

theorem highTerm (he : e.isBoolean = true) (hr : Token.Below 5 rest) :
    Finds (Grammar.highTerm .off .full) (e.operand ++ rest) e.unlined rest :=
  (h.highFactor he (hr.mono (by decide))).highTerm hr

theorem highBoolean (he : e.isBoolean = true) (hr : Token.Below 4 rest) :
    Finds (Grammar.highBoolean .off .full) (e.operand ++ rest) e.unlined rest :=
  (h.highTerm he (hr.mono (by decide))).highBoolean hr

theorem noHighBoolean (he : e.isBoolean = false) : Misses (Grammar.highBoolean .off .full) (e.operand ++ rest) :=
  Grammar.misses_highBoolean (h.noHighFactor he)

/-! ### In front of no comparison -/

theorem stops_number {c : Kind → Prop} (hr : Token.Below 6 rest) (hc : ∀ k ∈ Token.next rest, ¬ c k) :
    Stops c (Grammar.number .off .full) (e.operand ++ rest) := by
  cases he : e.isNumber with
  | false => exact (h.noNumber he).stops
  | true => exact (h.number he hr).stops hc

theorem stops_highBoolean {c : Kind → Prop} (hr : Token.Below 4 rest) (hc : ∀ k ∈ Token.next rest, ¬ c k) :
    Stops c (Grammar.highBoolean .off .full) (e.operand ++ rest) := by
  cases he : e.isBoolean with
  | false => exact (h.noHighBoolean he).stops
  | true => exact (h.highBoolean he hr).stops hc

end

theorem stops_string {c : Kind → Prop} (e : Expr) (hc : ∀ k ∈ Token.next rest, ¬ c k) :
    Stops c (Grammar.string : Production Unit Expr) (e.operand ++ rest) := by
  by_cases he : e.opening = .string
  · obtain ⟨line, s, rfl⟩ := string_of_opening he
    exact (Finds.string rfl).stops hc
  · exact (Misses.string (by simpa [next_operand] using he)).stops

theorem stops_gets {c : Kind → Prop} (e : Expr) (hc : ∀ k ∈ Token.next rest, ¬ c k) :
    Stops c (Grammar.gets : Production Unit Expr) (e.operand ++ rest) := by
  by_cases he : e.opening = .kwGets
  · obtain ⟨line, rfl⟩ := gets_of_opening he
    exact (Finds.gets rfl).stops hc
  · exact (Misses.gets (by simpa [next_operand] using he)).stops

section
variable (h : e.Operand)
include h

theorem noCondition (hr : Token.Below 3 rest) : Misses (Grammar.condition .off .full) (e.operand ++ rest) := by
  have hc : ∀ k ∈ Token.next rest, ¬ k.tier = 3 := fun k hk => Nat.ne_of_lt (hr k hk)
  have hnumber := h.stops_number (hr.mono (by decide)) hc
  have hboolean := h.stops_highBoolean (hr.mono (by decide)) hc
  exact Grammar.misses_condition hnumber hboolean (stops_string e hc) (stops_gets e hc)

theorem lowFactor (he : e.isBoolean = true) (hr : Token.Ends 3 rest) :
    Finds (Grammar.lowFactor .off .full) (e.operand ++ rest) e.unlined rest :=
  .lowFactor_highBoolean (next_operand e rest) (opening_ne rfl) (h.noCondition hr.next)
    (startsStores_operand hr.stores) (h.highBoolean he (hr.below (by decide)))

theorem lowTerm (he : e.isBoolean = true) (hr : Token.Ends 2 rest) :
    Finds (Grammar.lowTerm .off .full) (e.operand ++ rest) e.unlined rest :=
  (h.lowFactor he (hr.mono (by decide))).alone (hr.next.none Grammar.tier_andOp)

theorem noLowFactor (he : e.isBoolean = false) (hr : Token.Below 3 rest) :
    Misses (Grammar.lowFactor .off .full) (e.operand ++ rest) := by
  have hname : Token.next (e.operand ++ rest) ≠ some .identifier := by
    rw [next_operand]
    match e, he with
    | .literal _ (.integer _), _ | .literal _ (.float _), _ | .literal _ (.string _), _ =>
      simp [opening, Literal.token]
    | .gets _, _ | .binary _ (.arithmetic _) _ _, _ => simp [opening]
  exact Grammar.misses_lowFactor (next_operand_ne rfl) (h.noCondition hr) (Grammar.misses_stores_of_next hname)
    (h.noHighBoolean he)

theorem lowBoolean (he : e.isBoolean = true) (hr : Token.Ends 1 rest) :
    Finds (Grammar.lowBoolean .off .full) (e.operand ++ rest) e.unlined rest :=
  (h.lowFactor he (hr.mono (by decide))).lowBoolean hr.next

theorem stringOrGets (hn : e.isNumber = false) (hb : e.isBoolean = false) :
    Finds (Grammar.string <|> Grammar.gets : Production Unit Expr) (e.operand ++ rest) e.unlined rest := by
  match e, h.sort with
  | .literal _ (.string s), _ => exact .left (.string rfl)
  | .gets _, _ => exact .right (Misses.string (by simp [next_operand, opening])) (.gets rfl)

theorem comparable (hr : Token.Below 4 rest) :
    Finds (Grammar.comparable .off .full) (e.operand ++ rest) e.unlined rest := by
  cases hn : e.isNumber with
  | true => exact (h.number hn (hr.mono (by decide))).left
  | false =>
    refine .right (h.noNumber hn) ?_
    cases hb : e.isBoolean with
    | true => exact (h.highBoolean hb hr).left
    | false => exact .right (h.noHighBoolean hb) (h.stringOrGets hn hb)

theorem orderable (he : (e.isNumber || e.isString) = true) (hr : Token.Below 4 rest) :
    Finds (Grammar.orderable .off .full) (e.operand ++ rest) e.unlined rest := by
  cases hn : e.isNumber with
  | true => exact (h.number hn (hr.mono (by decide))).left
  | false =>
    refine .right (h.noNumber hn) ?_
    rw [hn, Bool.false_or] at he
    match e, he with
    | .literal _ (.string s), _ => exact .string rfl

theorem value (hr : Token.Ends 1 rest) : Finds (Grammar.value .off .full) (e.operand ++ rest) e.unlined rest := by
  cases hb : e.isBoolean with
  | true => exact (h.lowBoolean hb hr).value_lowBoolean
  | false =>
    have hmiss := Grammar.misses_lowBoolean (h.noLowFactor hb (hr.below (by decide)))
    cases hn : e.isNumber with
    | true => exact .value_number hmiss (h.number hn (hr.below (by decide)))
    | false =>
      rw [Grammar.value, memoized_off]
      exact .right hmiss (.right (h.noNumber hn) (h.stringOrGets hn hb))

end

end Expr.Operand

/-! ## Operators between operands -/

namespace Expr.Operand

open Grammar (tier_tightOp tier_looseOp tier_andAndOp tier_orOrOp tier_equalityOp tier_orderingOp tier_andOp
  tier_orOp)

variable {l r : Expr} {rest : List Token} (hl : l.Operand) (hr : r.Operand)
include hl hr

section
variable {op : BinaryOp} {op? : Kind → Option BinaryOp} {n : Nat} {p : Production Unit Expr} {wanted : Wanted}

omit hl hr in
theorem joined (hop : op? op.token.kind = some op) (htier : ∀ {k}, (op? k).isSome = true → k.tier = n)
    (hl : ∀ {rest}, Token.Ends (n + 1) rest → Finds p (l.operand ++ rest) l.unlined rest)
    (hr : ∀ {rest}, Token.Ends (n + 1) rest → Finds p (r.operand ++ rest) r.unlined rest)
    (hrest : Token.Ends n rest) :
    Finds (Grammar.chain p op? wanted) (l.operand ++ op.token :: (r.operand ++ rest))
      (.binary 0 op l.unlined r.unlined) rest := by
  have hnext : Token.Ends (n + 1) (op.token :: (r.operand ++ rest)) :=
    ⟨.cons hop htier (Nat.lt_succ_self n), op.storesAhead_token _⟩
  exact (hl hnext).joined hop (hr (hrest.mono (Nat.le_succ n))) (by simp) (hrest.next.none htier)

theorem tight (hop : Grammar.tightOp op.token.kind = some op) (hln : l.isNumber = true) (hrn : r.isNumber = true)
    (hrest : Token.Ends 6 rest) :
    Finds (Grammar.number .off .full) (l.operand ++ op.token :: (r.operand ++ rest))
      (.binary 0 op l.unlined r.unlined) rest := by
  refine Finds.number (next_operand_ne rfl) ?_ (.noLink (hrest.next.none tier_looseOp))
  exact joined hop tier_tightOp (fun h => hl.numberFactor hln h.next) (fun h => hr.numberFactor hrn h.next)
    (hrest.mono (by decide))

theorem loose (hop : Grammar.looseOp op.token.kind = some op) (hln : l.isNumber = true) (hrn : r.isNumber = true)
    (hrest : Token.Ends 6 rest) :
    Finds (Grammar.number .off .full) (l.operand ++ op.token :: (r.operand ++ rest))
      (.binary 0 op l.unlined r.unlined) rest := by
  have hnext : Token.Below 7 (op.token :: (r.operand ++ rest)) := .cons hop tier_looseOp (by decide)
  have hleft := hl.numberTerm hln hnext
  have hright := hr.numberTerm hrn (hrest.below (by decide))
  exact hleft.number (next_operand_ne rfl) (.link hop hright (by simp) (.noLink (hrest.next.none tier_looseOp)))

theorem arithmetic {op : ArithmeticOp} (hln : l.isNumber = true) (hrn : r.isNumber = true)
    (hrest : Token.Ends 6 rest) :
    Finds (Grammar.number .off .full) (l.operand ++ (BinaryOp.arithmetic op).token :: (r.operand ++ rest))
      (.binary 0 (.arithmetic op) l.unlined r.unlined) rest := by
  cases op with
  | add | subtract => exact hl.loose hr rfl hln hrn hrest
  | multiply | divide | modulo | power => exact hl.tight hr rfl hln hrn hrest

omit hr in
/-- What looks for a truth value first finds none in an arithmetic expression. -/
theorem noLowBoolean_arithmetic {op : ArithmeticOp} {mid : List Token} {e : Expr} (hrest : Token.Below 3 rest)
    (hnumber : Finds (Grammar.number .off .full) (l.operand ++ (BinaryOp.arithmetic op).token :: mid) e rest) :
    Misses (Grammar.lowBoolean .off .full) (l.operand ++ (BinaryOp.arithmetic op).token :: mid) := by
  have harithmetic : (BinaryOp.arithmetic op).kind.isArithmetic = true := by cases op <;> rfl
  have hne : ∀ k ∈ Token.next ((BinaryOp.arithmetic op).token :: mid), ¬ k.tier = 3 := by
    rintro _ ⟨⟩
    cases op <;> decide
  have hnext : Token.next ((BinaryOp.arithmetic op).token :: mid) = some (BinaryOp.arithmetic op).kind := rfl
  have hboolean := Grammar.misses_highBoolean (hl.noHighFactor_arithmetic hnext harithmetic)
  refine Grammar.misses_lowBoolean (Grammar.misses_lowFactor (next_operand_ne rfl) ?_ ?_ hboolean)
  · refine Grammar.misses_condition (hnumber.stops fun k hk => Nat.ne_of_lt (hrest k hk)) hboolean.stops ?_ ?_
    · exact stops_string l hne
    · exact stops_gets l hne
  · exact Grammar.misses_stores (startsStores_operand (BinaryOp.storesAhead_token _ _))

/-! ### Truth values -/

omit hr in
/-- A tight boolean expression is not compared with anything, and not taken for a store. -/
theorem lowBoolean_highBoolean {op : BooleanOp} {mid : List Token} {e : Expr}
    (hrest : Token.Ends 1 rest)
    (h : Finds (Grammar.highBoolean .off .full) (l.operand ++ (BinaryOp.boolean op).token :: mid) e rest) :
    Finds (Grammar.lowBoolean .off .full) (l.operand ++ (BinaryOp.boolean op).token :: mid) e rest := by
  have hnext : (BinaryOp.boolean op).kind.tier < 6 ∧ ¬ (BinaryOp.boolean op).kind.tier = 3 := by
    cases op <;> decide
  have hne : ∀ k ∈ Token.next ((BinaryOp.boolean op).token :: mid), ¬ k.tier = 3 := by
    rintro _ ⟨⟩
    exact hnext.2
  have hcondition : Misses (Grammar.condition .off .full) (l.operand ++ (BinaryOp.boolean op).token :: mid) := by
    refine Grammar.misses_condition (hl.stops_number (by simpa using hnext.1) hne) (h.stops ?_)
      (stops_string l hne) (stops_gets l hne)
    exact fun k hk => Nat.ne_of_lt (hrest.below (by decide) k hk)
  refine (Finds.lowFactor_highBoolean (next_operand l _) (opening_ne rfl) hcondition ?_ h).lowBoolean hrest.next
  exact startsStores_operand (BinaryOp.storesAhead_token _ _)

theorem boolean {op : BooleanOp} (hlb : l.isBoolean = true) (hrb : r.isBoolean = true) (hrest : Token.Ends 1 rest) :
    Finds (Grammar.lowBoolean .off .full) (l.operand ++ (BinaryOp.boolean op).token :: (r.operand ++ rest))
      (.binary 0 (.boolean op) l.unlined r.unlined) rest := by
  cases op with
  | or => exact joined rfl tier_orOp (hl.lowTerm hlb) (hr.lowTerm hrb) hrest
  | and =>
    have hterm := hrest.mono (n := 2) (by decide)
    exact (joined rfl tier_andOp (hl.lowFactor hlb) (hr.lowFactor hrb) hterm).alone (hrest.next.none tier_orOp)
  | orOr =>
    refine hl.lowBoolean_highBoolean hrest ?_
    rw [Grammar.highBoolean, memoized_off]
    exact joined rfl tier_orOrOp (fun h => hl.highTerm hlb h.next) (fun h => hr.highTerm hrb h.next)
      (hrest.mono (by decide))
  | andAnd =>
    refine hl.lowBoolean_highBoolean hrest (Finds.highBoolean ?_ (hrest.below (by decide)))
    exact joined rfl tier_andAndOp (fun h => hl.highFactor hlb h.next) (fun h => hr.highFactor hrb h.next)
      (hrest.mono (by decide))

end

/-! ### Comparisons -/

section
variable {op : Comparison}

theorem equality (hop : Grammar.equalityOp op.token.kind = some op) (hrest : Token.Below 4 rest) :
    Finds (Grammar.condition .off .full) (l.operand ++ op.token :: (r.operand ++ rest))
      (.compare 0 op l.unlined r.unlined) rest :=
  .left (.comparison (hl.comparable (.cons hop tier_equalityOp (by decide))) hop (hr.comparable hrest))

theorem ordering (hop : Grammar.orderingOp op.token.kind = some op)
    (hlo : (l.isNumber || l.isString) = true) (hro : (r.isNumber || r.isString) = true)
    (hrest : Token.Below 4 rest) :
    Finds (Grammar.condition .off .full) (l.operand ++ op.token :: (r.operand ++ rest))
      (.compare 0 op l.unlined r.unlined) rest := by
  have hnext : Token.Below 4 (op.token :: (r.operand ++ rest)) := .cons hop tier_orderingOp (by decide)
  refine .right (Misses.comparison ((hl.comparable hnext).stops ?_)) ?_
  · rintro _ ⟨⟩
    revert hop
    cases op <;> decide
  · exact .comparison (hl.orderable hlo hnext) hop (hr.orderable hro hrest)

theorem compare (hlt : op.takes l = true) (hrt : op.takes r = true) (hrest : Token.Ends 1 rest) :
    Finds (Grammar.lowBoolean .off .full) (l.operand ++ op.token :: (r.operand ++ rest))
      (.compare 0 op l.unlined r.unlined) rest := by
  have hbelow : Token.Below 4 rest := hrest.below (by decide)
  refine (Finds.lowFactor_condition (next_operand l _) (opening_ne rfl) ?_).lowBoolean hrest.next
  cases op with
  | is | equal | notEqual => exact hl.equality hr rfl hbelow
  | greater | less | greaterEqual | lessEqual => exact hl.ordering hr rfl hlt hrt hbelow

end

/-! ### Negations -/

omit hl in
theorem negate {op : Negation} (hrb : r.isBoolean = true) (hrest : Token.Ends 1 rest) :
    Finds (Grammar.lowBoolean .off .full) (op.token :: (r.operand ++ rest)) (.negate 0 op r.unlined) rest := by
  refine Finds.lowBoolean ?_ hrest.next
  cases op with
  | bang =>
    have hfactor : Finds (Grammar.highFactor .off .full) (Negation.bang.token :: (r.operand ++ rest))
        (.negate 0 .bang r.unlined) rest :=
      .highFactor_negated rfl (fun _ => hr.highAtom hrb (hrest.below (by decide))) (hrest.below (by decide))
    have hboolean := (hfactor.highTerm (hrest.below (by decide))).highBoolean (hrest.below (by decide))
    refine .lowFactor_highBoolean rfl (by decide) (Grammar.misses_condition ?_ ?_ ?_ ?_) rfl hboolean
    · exact (Grammar.misses_number (by rintro _ ⟨⟩; rfl)).stops
    · exact hboolean.stops fun k hk => Nat.ne_of_lt (hrest.below (by decide) k hk)
    · exact (Misses.string (by simp [Negation.kind])).stops
    · exact (Misses.gets (by simp [Negation.kind])).stops
  | not =>
    exact .lowFactor_negated rfl (hr.noCondition (hrest.below (by decide))) (startsStores_operand hrest.stores)
      (hr.highBoolean hrb (hrest.below (by decide)))

end Expr.Operand

end Sprig
