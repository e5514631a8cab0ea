import Sprig.Proofs.Operands

/-!
# Printed expressions are found

The grammar finds every printed expression where something of its tier is looked for, and misses it where
an earlier alternative might have taken a part of it. This goes by induction on the expression: one that is
made of operands is a phrase, and a phrase in parentheses is an operand.
-/

namespace Sprig

open Production

/-! ## Texts -/

/-- What the expression is found as without parentheses, where these would be needed for an operand. -/
structure Expr.Phrase (e : Expr) : Prop where
  sort : e.isNumber = true ∨ e.isBoolean = true
  stores (rest : List Token) : Token.startsStores (e.text ++ rest) = false
  number {rest : List Token} : e.isNumber = true → Token.Ends 1 rest →
    Finds (Grammar.number .off .full) (e.text ++ rest) e.unlined rest
  noNumber {rest : List Token} : e.isNumber = false →
    Stops (· = .rightParen) (Grammar.number .off .full) (e.text ++ rest)
  lowBoolean {rest : List Token} : e.isBoolean = true → Token.Ends 1 rest →
    Finds (Grammar.lowBoolean .off .full) (e.text ++ rest) e.unlined rest
  noLowBoolean {rest : List Token} : e.isBoolean = false → Token.Ends 1 rest →
    Misses (Grammar.lowBoolean .off .full) (e.text ++ rest)

namespace Expr

theorem Phrase.operand {e : Expr} (h : e.Phrase) (hc : e.isCompound = true) : e.Operand := by
  have htext := operand_of_isCompound hc
  refine ⟨h.sort.imp_right .inl, ?_, ?_, ?_, ?_⟩
  · intro rest he _
    rw [htext, Token.enclosed_append]
    refine .numberFactor_group (u := .closing) rfl (.right (Grammar.misses_assign (h.stores _)) ?_) rfl
    rw [Rules.full_number]
    exact h.number he .closing
  · intro rest he
    rw [htext, Token.enclosed_append]
    refine .numberFactor_group rfl ((Grammar.misses_assign (h.stores _)).stops.orElse ?_)
    rw [Rules.full_number]
    exact h.noNumber he
  · intro rest negated line he _
    rw [htext, Token.enclosed_append]
    refine .highAtom_group (u := .closing) rfl ?_ rfl
    rw [Rules.full_lowBoolean]
    exact h.lowBoolean he .closing
  · intro rest line he
    rw [htext, Token.enclosed_append]
    refine .highAtom_group rfl (Misses.stops ?_)
    rw [Rules.full_lowBoolean]
    exact h.noLowBoolean he .closing

section
variable {l r : Expr} (hl : l.Operand) (hr : r.Operand) (line : Nat)
include hl hr

theorem Phrase.arithmetic {op : ArithmeticOp} (hln : l.isNumber = true) (hrn : r.isNumber = true) :
    (binary line (.arithmetic op) l r).Phrase where
  sort := .inl rfl
  stores rest := by
    simpa using startsStores_operand (BinaryOp.storesAhead_token _ _)
  number _ hrest := by
    simpa using hl.arithmetic hr hln hrn (hrest.mono (by decide))
  noNumber h := by cases h
  lowBoolean h := by cases h
  noLowBoolean _ hrest := by
    rw [text_binary, List.append_assoc, List.cons_append]
    exact hl.noLowBoolean_arithmetic (hrest.below (by decide)) (hl.arithmetic hr hln hrn (hrest.mono (by decide)))

theorem Phrase.boolean {op : BooleanOp} (hlb : l.isBoolean = true) (hrb : r.isBoolean = true) :
    (binary line (.boolean op) l r).Phrase where
  sort := .inr rfl
  stores rest := by
    simpa using startsStores_operand (BinaryOp.storesAhead_token _ _)
  number h := by cases h
  noNumber _ := by
    rw [text_binary, List.append_assoc, List.cons_append]
    refine hl.stops_number ?_ ?_
    · cases op <;> simp [BinaryOp.kind, Kind.tier]
    · cases op <;> simp [BinaryOp.kind]
  lowBoolean _ hrest := by
    simpa using hl.boolean hr hlb hrb hrest
  noLowBoolean h := by cases h

theorem Phrase.compare {op : Comparison} (hlt : op.takes l = true) (hrt : op.takes r = true) :
    (compare line op l r).Phrase where
  sort := .inr rfl
  stores rest := by
    simpa using startsStores_operand (Comparison.storesAhead_token _ _)
  number h := by cases h
  noNumber _ := by
    rw [text_compare, List.append_assoc, List.cons_append]
    refine hl.stops_number ?_ ?_
    · cases op <;> simp [Comparison.kind, Kind.tier]
    · cases op <;> simp [Comparison.kind]
  lowBoolean _ hrest := by
    simpa using hl.compare hr hlt hrt hrest
  noLowBoolean h := by cases h

omit hl in
theorem Phrase.negate {op : Negation} (hrb : r.isBoolean = true) : (negate line op r).Phrase where
  sort := .inr rfl
  stores rest := by cases op <;> simp [Token.startsStores, Negation.kind]
  number h := by cases h
  noNumber _ := by
    refine (Grammar.misses_number ?_).stops
    cases op <;> simp [Negation.kind, Kind.opensNumber]
  lowBoolean _ hrest := by
    simpa using hr.negate hrb hrest
  noLowBoolean h := by cases h

end

end Expr

/-! ## Lists -/

/-- Where `E` says what may come behind an item, the tokens are one: it is found there, and can be the item behind
a comma. -/
structure Listed {σ β : Type} (item : Production σ β) (E : List Token → Prop) (ts : List Token) (b : β) : Prop where
  found {rest : List Token} : E rest → Finds item (ts ++ rest) b rest
  behindComma {rest : List Token} : E rest → E (.comma :: (ts ++ rest))

section
variable {σ α β : Type} {item : Production σ β} {wanted : Wanted} {E : List Token → Prop} {f : α → List Token}
  {g : α → β} {rest : List Token} (hend : Token.next rest ≠ some .comma) (hrest : E rest)
include hrest

theorem Listed.ends : ∀ {xs : List α}, (∀ x ∈ xs, Listed item E (f x) (g x)) →
    E ((xs.map f).flatMap (Token.comma :: ·) ++ rest)
  | [], _ => hrest
  | x :: xs, h => by
    obtain ⟨hx, hxs⟩ := List.forall_mem_cons.mp h
    simpa using hx.behindComma (Listed.ends hxs)

include hend

theorem Production.FindsAll.separated : ∀ {xs : List α}, (∀ x ∈ xs, Listed item E (f x) (g x)) →
    FindsAll (nextItem item wanted) ((xs.map f).flatMap (Token.comma :: ·) ++ rest) (xs.map g) rest
  | [], _ => .noComma hend
  | x :: xs, h => by
    obtain ⟨hx, hxs⟩ := List.forall_mem_cons.mp h
    have hitems : FindsAll (nextItem item wanted)
        (.comma :: (f x ++ ((xs.map f).flatMap (Token.comma :: ·) ++ rest))) (g x :: xs.map g) rest :=
      .comma rfl (hx.found (Listed.ends hrest hxs)) (by simp) (FindsAll.separated hxs)
    simpa using hitems

theorem Production.Finds.separated {xs : List α} (hne : xs ≠ []) (h : ∀ x ∈ xs, Listed item E (f x) (g x)) :
    Finds (Production.listOf item wanted) (Token.separated (xs.map f) ++ rest) (xs.map g) rest := by
  cases xs with
  | nil => exact absurd rfl hne
  | cons x xs =>
    obtain ⟨hx, hxs⟩ := List.forall_mem_cons.mp h
    have hitems : Finds (Production.listOf item wanted)
        (f x ++ ((xs.map f).flatMap (Token.comma :: ·) ++ rest)) (g x :: xs.map g) rest :=
      (hx.found (Listed.ends hrest hxs)).listOf (.separated hend hrest hxs)
    simpa [Token.separated] using hitems

end

/-- The tokens stand for the expression wherever it may end. -/
abbrev Expr.Written (e : Expr) (ts : List Token) : Prop :=
  Listed (Grammar.value .off .full) (Token.Ends 1) ts e.unlined

theorem Expr.Operand.written {e : Expr} (h : e.Operand) : e.Written e.operand where
  found := h.value
  behindComma hrest := .comma (startsStores_operand hrest.stores)

section
variable {es : List Expr} {text : Expr → List Token} {rest : List Token}

theorem Production.Finds.values (h : ∀ e ∈ es, e.Written (text e)) (hne : es ≠ []) (hrest : Token.Ends 1 rest)
    (hend : Token.next rest ≠ some .comma) :
    Finds (Grammar.values .full) (Token.separated (es.map text) ++ rest) (es.map Expr.unlined) rest := by
  rw [Grammar.values, Rules.full_value]
  exact Finds.separated hend hrest hne h

theorem Production.Finds.values_orNil (h : ∀ e ∈ es, e.Written (text e)) :
    Finds (Production.orNil (Grammar.values .full)) (Token.separated (es.map text)) (es.map Expr.unlined) [] := by
  cases es with
  | nil =>
    refine orNil_nil (Misses.head ?_)
    rw [Rules.full_value]
    exact Grammar.misses_value_of_next (by simp [Token.separated])
  | cons e es =>
    have hv := Finds.values h (List.cons_ne_nil e es) .nil (by simp)
    rw [List.append_nil] at hv
    exact hv.orNil

end

/-! ## Calls -/

section
variable {args : List Expr} {name : String} {rest : List Token}

theorem Production.Finds.call {text : Expr → List Token} (h : ∀ e ∈ args, e.Written (text e))
    (hrest : Token.Below 8 rest) :
    Finds (Grammar.call .off .full)
      ((.name name :: if args.isEmpty then [] else Token.enclosed (Token.separated (args.map text))) ++ rest)
      (.call 0 name (args.map Expr.unlined)) rest := by
  rw [Grammar.call, memoized_off]
  refine (token (t := .name name) rfl).bind (bind ?_ pure)
  cases args with
  | nil => exact inParens_nil (hrest.ne (by decide))
  | cons a as =>
    have hend : Token.next (.closing :: rest) ≠ some .comma := by simp
    have hv := Finds.values h (List.cons_ne_nil a as) .closing hend
    simpa using inParens (t := .opening) (u := .closing) rfl hv rfl

theorem Expr.Operand.found_call (h : ∀ e ∈ args, e.Operand) (line : Nat) (hrest : Token.Below 8 rest) :
    Finds (Grammar.call .off .full) ((Expr.call line name args).operand ++ rest)
      (.call 0 name (args.map Expr.unlined)) rest := by
  rw [operand_of_not_isCompound (e := .call line name args) rfl, text, operands_eq]
  exact .call (fun e he => (h e he).written) hrest

end

theorem Expr.Operand.call {args : List Expr} (h : ∀ e ∈ args, e.Operand) (line : Nat) (name : String) :
    (call line name args).Operand where
  sort := .inl rfl
  numberFactor _ hrest := by
    rw [unlined_call]
    exact .numberFactor_call (next_operand _ _) (found_call h line hrest)
  noNumberFactor he := by cases he
  highAtom _ hrest := by
    rw [unlined_call]
    exact .highAtom_call (next_operand _ _) (found_call h line hrest)
  noHighAtom he := by cases he

/-! ## Stores -/

theorem Production.FindsAll.targets {rest : List Token} (hrest : Token.next rest ≠ some .comma)
    (stores : List Assign) : FindsAll Grammar.nextTarget
      ((stores.map fun a => [Token.name a.name]).flatMap (Token.comma :: ·) ++ rest)
      (stores.map fun a => (0, a.name)) rest := by
  induction stores with
  | nil => exact .stop (Misses.token hrest).head
  | cons a stores ih =>
    simp only [List.map_cons, List.flatMap_cons, List.cons_append, List.nil_append]
    refine .step ((Finds.token (k := .comma) rfl).bind (.target rfl)) ?_ ih
    simp only [List.length_cons]
    omega

theorem Assign.pair_unlined : ∀ stores : List Assign,
    pair 0 (stores.map fun a => (0, a.name)) (stores.map (·.value.unlined)) = stores.map unlined
  | [] => rfl
  | ⟨_, _, _⟩ :: stores => by
    rw [List.map_cons, List.map_cons, pair, Assign.pair_unlined stores]
    rfl

theorem Production.Finds.stores {stores : List Assign} {text : Expr → List Token} {rest : List Token}
    (h : ∀ a ∈ stores, a.value.Written (text a.value)) (hne : stores ≠ []) (hrest : Token.Ends 1 rest)
    (hend : Token.next rest ≠ some .comma) :
    Finds (Grammar.stores .full) (Token.separated (stores.map fun a => [.name a.name]) ++
      .equalSign :: (Token.separated (stores.map fun a => text a.value) ++ rest)) (stores.map Assign.unlined)
      rest := by
  cases stores with
  | nil => exact absurd rfl hne
  | cons a stores =>
    have hvalues : Finds (Grammar.values .full) (Token.separated ((a :: stores).map fun a => text a.value) ++ rest)
        ((a :: stores).map (·.value.unlined)) rest := by
      have hwritten : ∀ e ∈ (a :: stores).map Assign.value, e.Written (text e) := by simpa using h
      have hv := Finds.values hwritten (List.cons_ne_nil _ _) hrest hend
      rwa [List.map_map, List.map_map] at hv
    rw [← Assign.pair_unlined, List.map_cons, Token.separated, List.append_assoc, List.singleton_append]
    refine peek.bind ((target rfl).bind ((many (.targets ?_ stores)).bind ((token (k := .equal) rfl).bind ?_)))
    · simp
    · exact hvalues.orNil.bind pure

namespace Expr.Operand

variable {stores : List Assign} (h : ∀ a ∈ stores, a.value.Operand) (hne : stores ≠ []) (line : Nat)
include h hne

theorem assign_text (rest : List Token) :
    Finds (Grammar.assign .full 0) ((Expr.assign line stores).text ++ .closing :: rest)
      (.assign 0 (stores.map Assign.unlined)) (.closing :: rest) := by
  rw [text, Assign.operands_eq, List.append_assoc, List.cons_append]
  exact (Finds.stores (fun a ha => (h a ha).written) hne .closing (by simp)).bind .pure

theorem lowBoolean_assign (rest : List Token) :
    Finds (Grammar.lowBoolean .off .full) ((Expr.assign line stores).text ++ .closing :: rest)
      (.assign 0 (stores.map Assign.unlined)) (.closing :: rest) := by
  have hfound := assign_text h hne line rest
  cases stores with
  | nil => exact absurd rfl hne
  | cons a stores =>
    refine Finds.lowBoolean (.lowFactor_assign (t := .name a.name) nofun ?_ hfound) Token.Ends.closing.next
    -- the first target alone is an operand, and it is not compared with anything
    have hname : (Expr.call 0 a.name []).Operand := .call (by simp) 0 a.name
    refine hname.noCondition ?_
    cases stores <;> simp [Kind.tier]

theorem assign : (assign line stores).Operand := by
  refine ⟨.inl rfl, ?_, nofun, ?_, nofun⟩
  · intro rest _ _
    rw [unlined_assign, operand_of_isCompound (e := .assign line stores) rfl, Token.enclosed_append]
    exact .numberFactor_group (t := .opening) (u := .closing) rfl (.left (assign_text h hne line rest)) rfl
  · intro rest negated _ _ _
    rw [unlined_assign, operand_of_isCompound (e := .assign line stores) rfl, Token.enclosed_append]
    refine .highAtom_group (u := .closing) rfl ?_ rfl
    rw [Rules.full_lowBoolean]
    exact lowBoolean_assign h hne line rest

end Expr.Operand

/-! ## Every printed expression -/

namespace Expr

theorem Operand.gets (line : Nat) : (gets line).Operand where
  sort := .inr (.inr (.inr rfl))
  numberFactor he := by cases he
  noNumberFactor _ := misses_numberFactor rfl
  highAtom he := by cases he
  noHighAtom _ := misses_highAtom rfl

theorem Operand.literal_integer (line : Nat) {n : Int64} (hn : 0 ≤ n.toInt) :
    (literal line (.integer n)).Operand where
  sort := .inl rfl
  numberFactor _ _ := .left (.integer rfl (Integer.read_toString hn))
  noNumberFactor he := by cases he
  highAtom he := by cases he
  noHighAtom _ := misses_highAtom rfl

theorem Operand.literal_string (line : Nat) (s : String) : (literal line (.string s)).Operand where
  sort := .inr (.inr (.inl rfl))
  numberFactor he := by cases he
  noNumberFactor _ := misses_numberFactor rfl
  highAtom he := by cases he
  noHighAtom _ := misses_highAtom rfl

theorem Operand.literal_boolean (line : Nat) (b : Bool) : (literal line (.boolean b)).Operand where
  sort := .inr (.inl rfl)
  numberFactor he := by cases he
  noNumberFactor _ := misses_numberFactor (by cases b <;> rfl)
  highAtom _ _ := by
    cases b with
    | true => exact .left (.boolean_true rfl)
    | false => exact .left (.boolean_false rfl)
  noHighAtom he := by cases he

theorem Operand.literal_nil (line : Nat) : (literal line .nil).Operand where
  sort := .inr (.inl rfl)
  numberFactor he := by cases he
  noNumberFactor _ := misses_numberFactor rfl
  highAtom _ _ := .right (Misses.boolean nofun nofun) (.left (.nil rfl))
  noHighAtom he := by cases he

theorem Operand.literal (line : Nat) : ∀ {v : Literal}, v.Plain → (literal line v).Operand
  | .integer _, hn => .literal_integer line hn
  | .string s, _ => .literal_string line s
  | .boolean b, _ => .literal_boolean line b
  | .nil, _ => .literal_nil line

theorem Phrase.binary {l r : Expr} (hl : l.Operand) (hr : r.Operand) (line : Nat) :
    ∀ {op : BinaryOp}, op.takes l = true → op.takes r = true → (binary line op l r).Phrase
  | .arithmetic _, hlt, hrt => .arithmetic hl hr line hlt hrt
  | .boolean _, hlt, hrt => .boolean hl hr line hlt hrt

end Expr

mutual

theorem Expr.Tiered.operand : ∀ {e : Expr}, e.Tiered → e.Operand
  | .literal line _, h => .literal line h
  | .call line name _, h => .call (Expr.TieredAll.operand h) line name
  | .binary line _ _ _, ⟨⟨hlt, hl⟩, hrt, hr⟩ =>
    (Expr.Phrase.binary hl.operand hr.operand line hlt hrt).operand rfl
  | .negate line _ _, ⟨hb, h⟩ => (Expr.Phrase.negate h.operand line hb).operand rfl
  | .compare line _ _ _, ⟨⟨hlt, hl⟩, hrt, hr⟩ =>
    (Expr.Phrase.compare hl.operand hr.operand line hlt hrt).operand rfl
  | .gets line, _ => .gets line
  | .assign line _, ⟨hne, h⟩ => .assign (Assign.TieredAll.operand h) hne line

theorem Expr.TieredAll.operand : ∀ {es : List Expr}, Expr.TieredAll es → ∀ e ∈ es, e.Operand
  | [], _ => by simp
  | e :: es, ⟨h, hs⟩ => List.forall_mem_cons.mpr ⟨h.operand, Expr.TieredAll.operand hs⟩

theorem Assign.TieredAll.operand : ∀ {as : List Assign}, Assign.TieredAll as → ∀ a ∈ as, a.value.Operand
  | [], _ => by simp
  | ⟨_, _, value⟩ :: as, ⟨h, hs⟩ => List.forall_mem_cons.mpr ⟨h.operand, Assign.TieredAll.operand hs⟩

end

/-! ## Whole lines -/

namespace Expr

theorem Tiered.phrase : ∀ {e : Expr}, e.Tiered → e.isCompound = true → e.isAssign = false → e.Phrase
  | .binary line _ _ _, ⟨⟨hlt, hl⟩, hrt, hr⟩, _, _ => .binary hl.operand hr.operand line hlt hrt
  | .negate line _ _, ⟨hb, h⟩, _, _ => .negate h.operand line hb
  | .compare line _ _ _, ⟨⟨hlt, hl⟩, hrt, hr⟩, _, _ => .compare hl.operand hr.operand line hlt hrt

theorem whole_cases (bare : Bool) (e : Expr) :
    e.whole bare = e.operand ∨ e.isCompound = true ∧ e.isAssign = false ∧ e.whole bare = e.text := by
  unfold whole
  cases hw : bare && !e.isAssign with
  | false => exact .inl rfl
  | true =>
    cases hc : e.isCompound with
    | false => exact .inl (operand_of_not_isCompound hc).symm
    | true => exact .inr ⟨rfl, by simpa using (Bool.and_eq_true_iff.mp hw).2, rfl⟩

theorem Phrase.written {e : Expr} (h : e.Phrase) : e.Written e.text where
  found hrest := by
    cases hb : e.isBoolean with
    | true => exact (h.lowBoolean hb hrest).value_lowBoolean
    | false =>
      have hn : e.isNumber = true := h.sort.resolve_right (by simp [hb])
      exact .value_number (h.noLowBoolean hb hrest) (h.number hn hrest)
  behindComma _ := .comma (h.stores _)

variable {e : Expr} (h : e.Tiered) (bare : Bool)
include h

theorem Tiered.written : e.Written (e.whole bare) := by
  rcases e.whole_cases bare with hw | ⟨hc, ha, hw⟩
  · rw [hw]
    exact h.operand.written
  · rw [hw]
    exact (h.phrase hc ha).written

theorem Tiered.lowBoolean (hb : e.isBoolean = true) :
    Finds (Grammar.lowBoolean .off .full) (e.whole bare) e.unlined [] := by
  rcases e.whole_cases bare with hw | ⟨hc, ha, hw⟩
  · have hfound := h.operand.lowBoolean hb .nil
    rwa [List.append_nil, ← hw] at hfound
  · have hfound := (h.phrase hc ha).lowBoolean hb .nil
    rwa [List.append_nil, ← hw] at hfound

omit h in
theorem TieredAll.written : ∀ {es : List Expr}, TieredAll es → ∀ e ∈ es, e.Written (e.whole bare)
  | [], _ => by simp
  | _ :: _, ⟨h, hs⟩ => List.forall_mem_cons.mpr ⟨h.written bare, TieredAll.written hs⟩

omit h in
theorem opensExpr_whole : ∀ k ∈ Token.next (e.whole bare), k.opensExpr = true := by
  have hoperand (e : Expr) (rest : List Token) : ∀ k ∈ Token.next (e.operand ++ rest), k.opensExpr = true := by
    rw [next_operand]
    rintro _ ⟨⟩
    simp [Kind.opensExpr, opensOperand_opening]
  rcases e.whole_cases bare with hw | ⟨hc, ha, hw⟩
  · rw [hw, ← List.append_nil e.operand]
    exact hoperand e []
  · rw [hw]
    match e, hc, ha with
    | .binary _ _ left _, _, _ =>
      rw [text_binary]
      exact hoperand left _
    | .compare _ _ left _, _, _ =>
      rw [text_compare]
      exact hoperand left _
    | .negate _ .bang _, _, _ | .negate _ .not _, _, _ => simp [Negation.kind, Kind.opensExpr]

end Expr

end Sprig
