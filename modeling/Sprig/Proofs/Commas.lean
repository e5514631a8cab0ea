import Sprig.Proofs.Local

/-!
# Up to a comma

At a comma a value is over: what a production makes of tokens that close their own parentheses is not changed by a
comma and more tokens behind them (`Item`), if no `=` stands outside of parentheses. With such a `=` the comma could
part the targets of a store. Inside of parentheses nothing that stands behind them is seen (`Local.inside`).

Main statement: `Production.Finds.value_in_list`.
-/

namespace Sprig

open Production Token

/-! ## Tokens -/

/-- No `=` stands outside of parentheses. -/
def Token.Bare (ts : List Token) : Prop :=
  ∀ ⦃used t rest⦄, ts = used ++ t :: rest → t.kind = .equal → 0 < balance used

/-- Nothing, or tokens that start with a comma. -/
def Token.Parting (ts : List Token) : Prop := ∀ k ∈ next ts, k = .comma

theorem Kind.depth_cases (k : Kind) : k = .leftParen ∨ k = .rightParen ∨ k.depth = 0 := by
  cases k <;> decide

namespace Token

variable {ts us : List Token} {t : Token}

theorem parting_nil : Parting [] := nofun

theorem parting_cons (ht : t.kind = .comma) : Parting (t :: ts) := by
  rintro _ ⟨⟩
  exact ht

theorem Parting.ne (h : Parting ts) {k : Kind} (hk : k ≠ .comma) : next ts ≠ some k := fun he => hk (h k he)

theorem bare_of_take (h : ∀ i, (hi : i < ts.length) → ts[i].kind = .equal → 0 < balance (ts.take i)) : Bare ts := by
  rintro used t rest rfl ht
  simpa [ht] using h used.length (by simp)

theorem bare_nil : Bare [] := by
  intro used t rest h
  cases used <;> cases h

theorem Bare.left (h : Bare (ts ++ us)) : Bare ts := by
  intro used t rest hts ht
  have hus : ts ++ us = used ++ t :: (rest ++ us) := by rw [hts, List.append_assoc, List.cons_append]
  exact h hus ht

theorem Bare.right (h : Bare (ts ++ us)) (hts : Balanced 0 ts) : Bare us := by
  intro used t rest hus ht
  have happend : ts ++ us = ts ++ used ++ t :: rest := by rw [hus, List.append_assoc]
  have hpos := h happend ht
  rwa [balance_append, show balance ts = 0 from hts, Int.zero_add] at hpos

theorem Bare.tail (h : Bare (t :: ts)) (hd : t.kind.depth = 0) : Bare ts := by
  have hbalanced : Balanced 0 [t] := by
    rw [Token.Balanced, balance_cons, balance_nil, hd]
    rfl
  exact Bare.right (h : Bare ([t] ++ ts)) hbalanced

theorem Bare.head (h : Bare (t :: ts)) : t.kind ≠ .equal := by
  intro ht
  have hpos : 0 < balance [] := h rfl ht
  cases hpos

theorem Bare.append (hts : Bare ts) (hbalanced : Balanced 0 ts) (hus : Bare us) : Bare (ts ++ us) := by
  intro used t rest h ht
  rcases List.append_eq_append_iff.mp h with ⟨more, rfl, hmore⟩ | ⟨more, rfl, hmore⟩
  · rw [balance_append, show balance ts = 0 from hbalanced, Int.zero_add]
    exact hus hmore ht
  · cases more with
    | nil =>
      have hpos : 0 < balance [] := hus (by simpa using hmore.symm) ht
      cases hpos
    | cons u more =>
      cases hmore
      exact hts rfl ht

theorem Bare.cons (hd : t.kind.depth = 0) (ht : t.kind ≠ .equal) (hts : Bare ts) : Bare (t :: ts) := by
  have hbare : Bare [t] := by
    intro used u rest h hu
    cases used with
    | nil =>
      cases h
      exact absurd hu ht
    | cons v used => cases used <;> cases h
  have hbalanced : Balanced 0 [t] := by
    rw [Token.Balanced, balance_cons, balance_nil, hd]
    rfl
  exact hbare.append hbalanced hts

/-- Names, commas and a `=` behind them are no tokens without such a `=`. -/
theorem Bare.startsStores : ∀ {ts : List Token}, Bare ts → Token.startsStores ts = false
  | [], _ => rfl
  | [t], _ => by simp [Token.startsStores, storesAhead]
  | t :: u :: us, h => by
    by_cases hname : t.kind = .identifier
    · have htail : Bare (u :: us) := h.tail (by rw [hname]; rfl)
      have hequal : u.kind ≠ .equal := htail.head
      by_cases hcomma : u.kind = .comma
      · have hus : Bare us := htail.tail (by rw [hcomma]; rfl)
        simp [Token.startsStores, storesAhead_cons, hname, hcomma, Bare.startsStores hus]
      · simp [Token.startsStores, storesAhead_cons, hequal, hcomma]
    · simp [Token.startsStores, hname]

/-- Tokens that close more than `d` parentheses do so somewhere for the first time. -/
theorem exists_closing : ∀ {ts : List Token} {d : Nat}, balance ts < -(d : Int) →
    ∃ inner t rest, ts = inner ++ t :: rest ∧ Balanced (-d) inner ∧ t.kind = .rightParen
  | [], d, h => by
    rw [balance_nil] at h
    omega
  | t :: ts, d, h => by
    rw [balance_cons] at h
    have hcons {e : Nat} (he : t.kind.depth + balance ts < t.kind.depth + -(e : Int))
        (hd : t.kind.depth + -(e : Int) = -(d : Int)) :
        ∃ inner u rest, t :: ts = inner ++ u :: rest ∧ Balanced (-d) inner ∧ u.kind = .rightParen := by
      obtain ⟨inner, u, rest, rfl, hinner, hu⟩ := exists_closing (Int.lt_of_add_lt_add_left he)
      exact ⟨t :: inner, u, rest, rfl, by rw [Token.Balanced, balance_cons, hinner, hd], hu⟩
    rcases t.kind.depth_cases with ht | ht | ht
    · rw [ht, show Kind.leftParen.depth = 1 from rfl] at h hcons
      exact hcons (e := d + 1) (by omega) (by omega)
    · rw [ht, show Kind.rightParen.depth = -1 from rfl] at h hcons
      cases d with
      | zero => exact ⟨[], t, ts, rfl, rfl, ht⟩
      | succ d => exact hcons (e := d) (by omega) (by omega)
    · rw [ht, Int.zero_add] at h
      rw [ht] at hcons
      exact hcons (e := d) (by omega) (Int.zero_add _)

end Token

/-! ## Inside of parentheses -/

namespace Production

variable {α β : Type} {p q : Production Unit α} {f : α → Production Unit β} {ts more : List Token} {k : Kind}

/-- In front of a closing parenthesis that is not its own a production does not see what stands behind it. -/
theorem Local.inside (h : Local 0 p) (hts : Balanced (-1) ts) : Agrees ts more p p := by
  obtain ⟨inner, t, rest, rfl, hinner, ht⟩ := exists_closing (d := 0) (show balance ts < 0 by rw [hts]; decide)
  intro tr tr'
  -- both readings are the one of the tokens up to that parenthesis, with more behind it
  have hshort := h hinner (closing_cons ht : Closing (t :: rest)) tr tr
  have hlong := h hinner (closing_cons ht : Closing (t :: (rest ++ more))) tr tr'
  rw [List.append_assoc, List.cons_append]
  generalize (p inner tr).1 = o at hshort hlong
  generalize (p (inner ++ t :: rest) tr).1 = o₁ at hshort ⊢
  generalize (p (inner ++ t :: (rest ++ more)) tr').1 = o₂ at hlong ⊢
  cases hshort with
  | found =>
    rw [hlong.eq_found, ← List.cons_append, ← List.append_assoc]
    exact .found
  | noMatch =>
    rw [hlong.eq_noMatch]
    exact .noMatch
  | fault =>
    obtain ⟨e, he⟩ := hlong.exists_fault
    rw [he]
    exact .fault

section
variable {r : Rules Unit} (hr : r.Settle) {negated : Bool} {line : Nat}
include hr

theorem Takes.highAtom : Takes (Balanced 0) (Grammar.highAtom .off r negated line) := by
  refine (Takes.boolean.orElse (Takes.nil.orElse ((Takes.call hr).orElse ?_))).balanced
  exact hr.lowBoolean.group.orElse (Takes.unlessNext.skip fun _ => .missingFactor)

theorem Takes.lowAtom : Takes (Balanced 0) (Grammar.lowAtom .off r negated line) :=
  ((Takes.condition hr).orElse ((Takes.assign hr).orElse ((Takes.highBoolean hr).orElse .missingFactor))).balanced

end

/-! ## Items -/

/-- At a comma behind its tokens the production stops as it does where they end. -/
def Item (p : Production Unit α) : Prop :=
  ∀ ⦃ts more⦄, Balanced 0 ts → Parting more → Bare (ts ++ more) → Agrees ts more p p

namespace Item

theorem pure {a : α} : Item (Pure.pure a : Production Unit α) := fun _ _ _ _ _ => .pure

theorem noMatch : Item (Production.noMatch : Production Unit α) := fun _ _ _ _ _ => .noMatch

theorem fault {line : Nat} {problem : SyntaxProblem} : Item (Production.fault line problem : Production Unit α) :=
  fun _ _ _ _ _ => .fault

theorem orElse (h : Item p) (h' : Item q) : Item (p <|> q) :=
  fun _ _ hts hmore hbare => (h hts hmore hbare).orElse (h' hts hmore hbare)

theorem demand {line : Nat} {problem : SyntaxProblem} (h : Item p) : Item (p.demand line problem) := h.orElse fault

theorem bind (h : Item p) (ht : Takes (Balanced 0) p) (hf : ∀ a, Item (f a)) : Item (p >>= f) := by
  intro ts more hts hmore hbare
  refine (h hts hmore hbare).bind fun a rest tr tr₁ hx => ?_
  obtain ⟨used, rfl, hused⟩ := ht hx
  rw [List.append_assoc] at hbare
  exact hf a (Token.Balanced.of_append (by rwa [Int.add_zero]) hused) hmore (hbare.right hused)

/-! ### Tokens -/

theorem token (hk : k ≠ .comma) : Item (Production.token k : Production Unit Token) := by
  intro ts more _ hmore _
  cases ts with
  | nil => exact .of_misses (.token nofun) (.token (hmore.ne hk))
  | cons t ts => exact Local.token_cons

theorem token_bind (hk : k.depth = 0) (hcomma : k ≠ .comma) {f : Token → Production Unit β} (hf : ∀ t, Item (f t)) :
    Item (Production.token k >>= f) :=
  (token hcomma).bind (hk ▸ .token_balanced) hf

theorem accepts (hk : k.depth = 0) (hcomma : k ≠ .comma) : Item (accepts k : Production Unit Bool) :=
  (token_bind hk hcomma fun _ => pure).orElse pure

theorem symbol {select : Kind → Option β} (hc : select .comma = none) :
    Item (Production.symbol select : Production Unit (β × Nat)) := by
  intro ts more _ hmore _
  cases ts with
  | nil => exact .of_misses (.symbol nofun) (.symbol fun k hk => hmore k hk ▸ hc)
  | cons t ts =>
    cases hs : select t.kind with
    | none => exact .of_misses (.symbol (by simpa using hs)) (.symbol (by simpa using hs))
    | some b => exact .of_finds (.symbol hs) (.symbol hs)

/-- With more tokens there may be a next one where there was none. -/
theorem peek {f : Token → Production Unit β} (hnil : ∀ t, Misses (f t) []) (hf : ∀ t, Item (f t)) :
    Item (Production.peek >>= f) := by
  intro ts more hts hmore hbare
  match ts, more with
  | t :: ts, _ => exact hf t hts hmore hbare
  | [], [] => exact .of_misses Misses.peek.head Misses.peek.head
  | [], u :: more => exact .of_misses Misses.peek.head (.tail .peek ((hf u hts hmore hbare).misses (hnil u)))

theorem unlessNext {c : Kind → Bool} (hc : c .comma = false) : Item (unlessNext c : Production Unit Unit) := by
  intro ts more _ hmore _
  cases ts with
  | nil => exact .of_finds (.unlessNext nofun) (.unlessNext fun k hk => hmore k hk ▸ hc)
  | cons t ts =>
    cases ht : c t.kind with
    | false => exact .of_finds (.unlessNext (by simpa using ht)) (.unlessNext (by simpa using ht))
    | true => exact .of_misses (.unlessNext rfl ht) (.unlessNext rfl ht)

/-- What stands in parentheses is read with a closing one behind it. -/
theorem enclosed {close : Production Unit Token} {g : α → β} (h : Local 0 p) (ht : Takes (Balanced 0) p)
    (hclose : ∀ {t ts more}, Agrees (t :: ts) more close close) :
    Item (do
      let _ ← Production.token .leftParen
      let a ← p
      let _ ← close
      return g a) := by
  intro ts more hts hmore _
  cases ts with
  | nil => exact .of_misses (Misses.token (by simp)).head (Misses.token (hmore.ne (by decide))).head
  | cons t ts =>
    refine Agrees.bind Local.token_cons fun u rest tr tr₁ hu => ?_
    obtain ⟨used, hused, v, rfl, hv⟩ := Takes.token hu
    cases hused
    have hrest : Balanced (-1) rest := by
      rw [Token.Balanced, balance_cons, hv, show Kind.leftParen.depth = 1 from rfl] at hts
      exact Int.neg_eq_of_add_eq_zero hts ▸ rfl
    refine (h.inside hrest).bind fun a rest' tr tr₁ ha => ?_
    obtain ⟨used, rfl, hused⟩ := ht ha
    have hrest' : Balanced (-1) rest' := Token.Balanced.of_append (by rwa [Int.zero_add]) hused
    cases rest' with
    | nil => cases hrest'
    | cons w rest' => exact hclose.bind fun _ _ _ _ _ => .pure

/-! ### Repetition -/

section
variable (h : Item p) (ht : Takes (Settled 0) p) (hnil : Misses p [])
include h ht hnil

theorem repeated : ∀ {m n : Nat} {ts more : List Token}, ts.length ≤ m → (ts ++ more).length ≤ n →
    Balanced 0 ts → Parting more → Bare (ts ++ more) →
    Agrees ts more (Production.repeated p m) (Production.repeated p n)
  | _, _, [], _, hm, hn, hts, hmore, hbare =>
    .of_finds ((FindsAll.stop hnil).repeated hm) ((FindsAll.stop ((h hts hmore hbare).misses hnil)).repeated hn)
  | m + 1, n + 1, t :: ts, more, hm, hn, hts, hmore, hbare => by
    -- a round takes a token at least, so that either count lasts as long as there are tokens
    refine ((h hts hmore hbare).bind fun a rest tr tr₁ hx => ?_).orElse .pure
    obtain ⟨used, hused, hsettled⟩ := ht hx
    have hpos := List.length_pos_iff.mpr hsettled.ne_nil
    rw [hused] at hm hn hts hbare
    simp only [List.length_append] at hm hn
    rw [List.append_assoc] at hbare
    have hrest : Balanced 0 rest := Token.Balanced.of_append (by rwa [Int.zero_add]) hsettled.balanced
    refine (repeated (by omega) (by rw [List.length_append]; omega) hrest hmore
      (hbare.right hsettled.balanced)).bind fun _ _ _ _ _ => ?_
    exact .pure

theorem many {f : List α → Production Unit β} (hf : ∀ as, Item (f as)) : Item (Production.many p >>= f) := by
  refine bind ?_ (ht.complete.many.mono (·.balanced)) hf
  exact fun _ _ hts hmore hbare => h.repeated ht hnil (Nat.le_refl _) (Nat.le_refl _) hts hmore hbare

end

/-! ## The grammar -/

theorem group {p : Production Unit Expr} (h : Local 0 p) (ht : Takes (Settled 0) p) : Item (Grammar.group p) :=
  enclosed (g := id) h ht.balanced Local.token_cons

theorem inParens {list : Production Unit (List α)} {line : Nat} {unclosed : SyntaxProblem} (h : Local 0 list)
    (ht : Takes Complete list) : Item (inParens list line unclosed) :=
  (enclosed (g := id) h.orNil (ht.orNil.mono (·.balanced)) Local.token_cons.demand).orElse pure

section
variable {p : Production Unit Expr} {op? : Kind → Option BinaryOp} {wanted : Wanted} (hl : op? .leftParen = none)
  (hr : op? .rightParen = none) (hc : op? .comma = none) (h : Item p) (ht : Takes (Settled 0) p)
include hl hr hc h ht

theorem chainFrom {first : Expr} : Item (Grammar.chainFrom p op? wanted first) := by
  refine many ?_ ?_ (Misses.symbol (by simp)).head fun _ => pure
  · exact (symbol hc).bind (.symbol hl hr) fun _ => h.demand.bind ht.demand.balanced fun _ => pure
  · exact (Takes.symbol hl hr).lead rfl fun _ => ht.demand.trail fun _ => .done

theorem chain : Item (Grammar.chain p op? wanted) := h.bind ht.balanced fun _ => chainFrom hl hr hc h ht

end

theorem comparison {p : Production Unit Expr} {op? : Kind → Option Comparison} {wanted : Wanted}
    (hl : op? .leftParen = none) (hr : op? .rightParen = none) (hc : op? .comma = none) (h : Item p)
    (ht : Takes (Settled 0) p) : Item (Grammar.comparison p op? wanted) := by
  refine h.bind ht.balanced fun _ => (symbol hc).bind (.symbol hl hr) fun _ => ?_
  exact h.demand.bind ht.demand.balanced fun _ => pure

theorem minus {p : Production Unit Expr} {wanted : Wanted} (h : Item p) (ht : Takes (Settled 0) p) :
    Item (Grammar.minus p wanted) :=
  token_bind rfl (by decide) fun _ => h.demand.bind ht.demand.balanced fun _ => pure

theorem integer : Item (Grammar.integer : Production Unit Expr) := by
  refine token_bind rfl (by decide) fun t => ?_
  cases Integer.read? t.text with
  | none => exact fault
  | some n => exact pure

theorem float : Item (Grammar.float : Production Unit Expr) := by
  refine token_bind rfl (by decide) fun t => ?_
  cases FloatText.read? t.text with
  | none => exact fault
  | some x => exact pure

theorem string : Item (Grammar.string : Production Unit Expr) := token_bind rfl (by decide) fun _ => pure

theorem boolean : Item (Grammar.boolean : Production Unit Expr) :=
  (token_bind rfl (by decide) fun _ => pure).orElse (token_bind rfl (by decide) fun _ => pure)

theorem nil : Item (Grammar.nil : Production Unit Expr) := token_bind rfl (by decide) fun _ => pure

theorem gets : Item (Grammar.gets : Production Unit Expr) := token_bind rfl (by decide) fun _ => pure

theorem missingFactor {negated : Bool} {op : Negation} {line : Nat} :
    Item (Grammar.missingFactor negated op line : Production Unit Expr) := by
  cases negated with
  | true => exact fault
  | false => exact noMatch

/-- Where no `=` stands outside of parentheses no store starts. -/
theorem assign {r : Rules Unit} {line : Nat} : Item (Grammar.assign r line) := fun _ _ _ _ hbare =>
  .of_misses (Grammar.misses_assign hbare.left.startsStores) (Grammar.misses_assign hbare.startsStores)

section
variable {r : Rules Unit} (hr : r.Local)
include hr

theorem call : Item (Grammar.call .off r) := by
  have ht := (Takes.values hr.settle).complete
  rw [Grammar.call, memoized_off]
  refine token_bind rfl (by decide) fun _ =>
    (inParens (Local.values hr) ht).bind (ht.inParens.mono (·.balanced)) fun _ => ?_
  exact pure

variable (hfactor : Item r.numberFactor)
include hfactor

theorem numberFactor : Item (Grammar.numberFactor .off r) := by
  refine integer.orElse (float.orElse ((call hr).orElse ((minus hfactor hr.settle.numberFactor).orElse ?_)))
  refine peek (fun _ => Misses.group (by simp)) fun _ => ?_
  exact group ((Local.assign hr).orElse (hr.number 0)) ((Takes.assign hr.settle).orElse hr.settle.number)

theorem number : Item (Grammar.number .off r) := by
  have hterm : Item (Grammar.numberTerm .off r) := chain rfl rfl rfl (numberFactor hr hfactor) (.numberFactor hr.settle)
  have ht := Takes.numberTerm hr.settle
  rw [Grammar.number, memoized_off]
  exact ((minus hterm ht).orElse hterm).bind (ht.minus.orElse ht).balanced fun _ => chainFrom rfl rfl rfl hterm ht

omit hfactor

theorem highFactor : Item (Grammar.highFactor .off r) := by
  have h {negated : Bool} {line : Nat} : Item (Grammar.highAtom .off r negated line) := by
    refine boolean.orElse (nil.orElse ((call hr).orElse ((group (hr.lowBoolean 0) hr.settle.lowBoolean).orElse ?_)))
    exact (unlessNext rfl).bind (Takes.unlessNext.mono fun h => h ▸ rfl) fun _ => missingFactor
  rw [Grammar.highFactor_eq]
  refine peek (fun t => .tail (.notAccepts (by simp)) (Grammar.misses_highAtom (by simp)).head) fun t => ?_
  refine (accepts rfl (by decide)).bind (.accepts rfl) fun negated => h.bind ?_ fun _ => ?_
  · exact .highAtom hr.settle
  · exact (unlessNext rfl).bind (Takes.unlessNext.mono fun h => h ▸ rfl) fun _ => pure

theorem highBoolean : Item (Grammar.highBoolean .off r) := by
  rw [Grammar.highBoolean, memoized_off]
  exact chain rfl rfl rfl (chain rfl rfl rfl (highFactor hr) (.highFactor hr.settle)) (.highTerm hr.settle)

include hfactor

theorem condition : Item (Grammar.condition .off r) := by
  have hcomparable : Item (Grammar.comparable .off r) :=
    (number hr hfactor).orElse ((highBoolean hr).orElse (string.orElse gets))
  have horderable : Item (Grammar.orderable .off r) := (number hr hfactor).orElse string
  exact (comparison rfl rfl rfl hcomparable (.comparable hr.settle)).orElse
    (comparison rfl rfl rfl horderable (.orderable hr.settle))

theorem lowFactor : Item (Grammar.lowFactor .off r) := by
  have h {negated : Bool} {line : Nat} : Item (Grammar.lowAtom .off r negated line) :=
    (condition hr hfactor).orElse (assign.orElse ((highBoolean hr).orElse missingFactor))
  rw [Grammar.lowFactor_eq]
  refine peek (fun t => .tail (.notAccepts (by simp)) Grammar.misses_lowAtom_nil.head) fun t => ?_
  refine (accepts rfl (by decide)).bind (.accepts rfl) fun negated => h.bind (.lowAtom hr.settle) fun _ => pure

theorem value : Item (Grammar.value .off r) := by
  have hterm : Item (Grammar.lowTerm .off r) := chain rfl rfl rfl (lowFactor hr hfactor) (.lowFactor hr.settle)
  have hboolean : Item (Grammar.lowBoolean .off r) := chain rfl rfl rfl hterm (.lowTerm hr.settle)
  rw [Grammar.value, memoized_off]
  exact hboolean.orElse ((number hr hfactor).orElse (string.orElse gets))

end

theorem of_bounded {q : Nat → Production Unit α} (heq : ∀ {ts : List Token} {n : Nat}, ts.length < n → q n ts = p ts)
    (h : ∀ n, Item (q n)) : Item p := by
  intro ts more hts hmore hbare tr tr'
  have hlen : ts.length < (ts ++ more).length + 1 := by
    rw [List.length_append]
    omega
  have hagrees := h ((ts ++ more).length + 1) hts hmore hbare tr tr'
  rwa [heq hlen, heq (Nat.lt_succ_self _)] at hagrees

end Item

end Production

theorem Rules.item_upTo : ∀ n, (upTo .off n).numberFactor.Item
  | 0 => .noMatch
  | n + 1 => .numberFactor (local_upTo n) (item_upTo n)

open Bridge in
theorem Rules.item_full : full.numberFactor.Item :=
  .of_bounded (fun {ts n} => ((rulesSim_upTo_full ts n).numberFactor).eq_of_same Expr.mapLine_id) item_upTo

theorem Production.Finds.settled_value {ts : List Token} {x : Expr} (h : Finds (Grammar.value .off .full) ts x []) :
    Settled 0 ts := by
  obtain ⟨used, hused, hsettled⟩ := (Takes.value Rules.local_full.settle).finds h
  rw [List.append_nil] at hused
  exact hused ▸ hsettled

/-- **A value ends at a comma.** What is a value on its own is the same value in front of a comma, if no `=` stands
outside of parentheses. -/
theorem Production.Finds.value_in_list {ts more : List Token} {x : Expr}
    (h : Finds (Grammar.value .off .full) ts x []) (hmore : Parting more) (hbare : Bare (ts ++ more)) :
    Finds (Grammar.value .off .full) (ts ++ more) x more :=
  (Item.value Rules.local_full Rules.item_full h.settled_value.balanced hmore hbare).finds h

end Sprig
