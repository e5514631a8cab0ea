import Sprig.Proofs.Local
import Sprig.Proofs.MemoSound

/-!
# Parentheses around a value

Behind an opening parenthesis a boolean factor and a number factor compete, and each of them tries a looser tier
on what is inside. A boolean expression stays one in parentheses: a number expression is tried on it first, but
it is no fault there and no comparison comes of it. A number expression stays a number expression: the boolean
tiers miss it in parentheses as they do without.
-/

namespace Sprig

open Production Token

variable {t u : Token} {ts used rest : List Token} {x : Expr}

/-! ## Chains -/

theorem Production.many_ne_noMatch {α : Type} {p : Production Unit α} {tr : Trace Unit} :
    (many p ts tr).1 ≠ .noMatch := by
  cases ts with
  | nil =>
    intro h
    cases h
  | cons t ts =>
    rw [many, List.length_cons, repeated, orElse_apply]
    generalize (p >>= _) (t :: ts) tr = y
    obtain ⟨_ | _ | _, tr₁⟩ := y <;> rintro ⟨⟩

theorem Production.Misses.of_chain {p : Production Unit Expr} {op? : Kind → Option BinaryOp} {wanted : Wanted}
    (h : Misses (Grammar.chain p op? wanted) ts) : Misses p ts := by
  intro tr
  obtain ⟨tr₁, h⟩ := h tr
  rw [Grammar.chain, bind_apply] at h
  split at h
  · rename_i a mid tr₂ _
    rw [Grammar.chainFrom, bind_apply] at h
    split at h
    · cases h
    · exact absurd (congrArg Prod.fst ‹_ = (Outcome.noMatch, _)›) many_ne_noMatch
    · cases h
  · exact ⟨_, ‹_›⟩
  · cases h

/-! ## Stores in front -/

theorem Token.exists_of_startsStores : ∀ {ts : List Token}, Token.startsStores ts = true →
    ∃ t us, ts = t :: us ∧ t.kind = .identifier ∧ Below 1 us
  | [t], h => by simp [Token.startsStores, storesAhead] at h
  | t :: u :: us, h => by
    simp only [Token.startsStores, storesAhead_cons, Bool.and_eq_true, Bool.or_eq_true, beq_iff_eq] at h
    refine ⟨t, u :: us, rfl, h.1, ?_⟩
    rcases h.2 with hu | ⟨hu, _⟩ <;> simp [hu, Kind.tier]

section
variable {r : Rules Unit}

/-- In front of a `=` or a comma a name is read, but no comparison. -/
theorem Grammar.misses_condition_of_startsStores (h : Token.startsStores ts = true) :
    Misses (condition .off r) ts := by
  obtain ⟨t, us, rfl, hname, hbelow⟩ := Token.exists_of_startsStores h
  have hnext : next (t :: us) = some .identifier := congrArg some hname
  have hcall : Finds (call .off r) (t :: us) (.call t.line t.text []) us := by
    rw [call, memoized_off]
    exact (Finds.token hname).bind ((Finds.inParens_nil (hbelow.ne (by decide))).bind Finds.pure)
  have hterm := (hcall.numberFactor_call hnext).numberTerm (hbelow.mono (by decide))
  have hnumber := hterm.number (by simp [hname]) (.noLink ((hbelow.mono (by decide)).none tier_looseOp))
  have hfactor := Finds.highFactor hnext (by decide) (fun _ => hcall.highAtom_call hnext) (hbelow.mono (by decide))
  have hboolean := (hfactor.highTerm (hbelow.mono (by decide))).highBoolean (hbelow.mono (by decide))
  have hstop (k : Kind) (hk : k ∈ next us) : k.tier ≠ 3 := by
    have := hbelow k hk
    omega
  refine misses_condition (hnumber.stops hstop) (hboolean.stops hstop) ?_ ?_
  · exact (Misses.string (by simp [hname])).stops
  · exact (Misses.gets (by simp [hname])).stops

/-- A looser boolean factor comes to the stores in front, if there are any. -/
theorem Grammar.lowFactor_tries (h : ¬ Misses (stores r) ts) :
    ∃ t us, ts = t :: us ∧ t.kind ≠ .kwNot ∧ Misses (condition .off r) ts := by
  cases hs : Token.startsStores ts with
  | false => exact absurd (misses_stores hs) h
  | true =>
    obtain ⟨t, us, rfl, hname, _⟩ := Token.exists_of_startsStores hs
    exact ⟨t, us, rfl, by simp [hname], misses_condition_of_startsStores hs⟩

theorem Production.Finds.lowFactor_stores {stores : List Assign} (h : Finds (Grammar.stores r) ts stores rest) :
    ∃ x, Finds (Grammar.lowFactor .off r) ts x rest := by
  obtain ⟨t, us, rfl, hnot, hc⟩ := Grammar.lowFactor_tries h.not_misses
  exact ⟨_, .lowFactor_assign hnot hc (h.bind pure)⟩

theorem Production.Faults.lowFactor_stores (h : Faults (Grammar.stores r) ts) :
    Faults (Grammar.lowFactor .off r) ts := by
  obtain ⟨t, us, rfl, hnot, hc⟩ := Grammar.lowFactor_tries fun hm => hm.not_faults h
  exact .tail .peek (.tail (.notAccepts (by simpa using hnot)) (.head (.right hc (.left h.head))))

theorem Production.Misses.stores_of_lowFactor (h : Misses (Grammar.lowFactor .off .full) ts) (hts : Balanced 0 ts) :
    Misses (Grammar.stores .full) ts := by
  rcases (Local.stores Rules.local_full).cases hts with ⟨stores, rest, hs⟩ | hs | hs
  · obtain ⟨x, hx⟩ := hs.lowFactor_stores
    exact absurd h hx.not_misses
  · exact hs
  · exact absurd hs.lowFactor_stores h.not_faults

theorem Production.Faults.lowFactor_number (h : Faults (Grammar.number .off r) ts) :
    Faults (Grammar.lowFactor .off r) ts := by
  have hcondition : Faults (Grammar.condition .off r) ts := left (head (left h))
  cases ts with
  | nil => exact absurd h (Grammar.misses_number (by simp)).not_faults
  | cons t us =>
    by_cases hnot : t.kind = .kwNot
    · exact absurd h (Grammar.misses_number (by simp [hnot, Kind.opensNumber])).not_faults
    · exact .tail .peek (.tail (.notAccepts (by simpa using hnot)) (.head (.left hcondition)))

end

/-! ## What is tried in parentheses -/

section
variable (h : Finds (Grammar.value .off .full) ts x [])
include h

theorem Production.Finds.balanced : Balanced 0 ts := by
  obtain ⟨used, hused, hsettled⟩ := (Takes.value Rules.local_full.settle).finds h
  rw [hused, List.append_nil]
  exact hsettled.balanced

theorem Production.Finds.next_ne_rightParen (hts : ts = used ++ rest) (hused : Balanced 0 used) :
    next rest ≠ some .rightParen := by
  intro hrest
  have hclosing : Closing rest := fun k hk => Option.some.inj (hk.symm.trans hrest)
  -- all tokens were read, and on the front of them `value` would stop in front of the parenthesis
  obtain ⟨tr₁, h⟩ := h start
  have hextends := (Local.value Rules.local_full).agrees hused hclosing start start
  rw [← hts, h] at hextends
  obtain ⟨rest', hnil⟩ := hextends.exists_append
  rw [(List.append_eq_nil_iff.mp hnil.symm).2] at hrest
  cases hrest

/-- In parentheses around a value all of it is matched, or nothing that the closing one stands behind. -/
theorem Production.Finds.inside_cases {p : Production Unit Expr} (hp : Local 0 p) (ht : Takes (Settled 0) p)
    (hf : ¬ Faults p ts) (hu : u.kind = .rightParen) :
    (∃ y, Finds p (ts ++ [u]) y [u]) ∨ Stops (· = .rightParen) p (ts ++ [u]) := by
  have hagrees : Agrees ts [u] p p := hp.agrees h.balanced (closing_cons hu)
  rcases hp.cases h.balanced with ⟨y, rest, hy⟩ | hm | hfault
  · cases rest with
    | nil => exact .inl ⟨y, hagrees.finds hy⟩
    | cons v vs =>
      refine .inr ((hagrees.finds hy).stops ?_)
      rintro k hk rfl
      obtain ⟨used, hused, hsettled⟩ := ht.finds hy
      exact h.next_ne_rightParen hused hsettled.balanced hk
  · exact .inr (hagrees.misses hm).stops
  · exact absurd hfault hf

end

/-- What a number factor tries in parentheses. -/
def Grammar.inner (line : Nat) : Production Unit Expr := assign .full line <|> Rules.full.number

section
variable {line : Nat}

theorem Grammar.inner_of_misses (h : Misses (stores .full) ts) (hn : Finds (number .off .full) ts x rest) :
    Finds (inner line) ts x rest := by
  rw [inner, Rules.full_number]
  exact .right h.head hn

theorem Grammar.local_inner : Local 0 (inner line) :=
  (Local.assign Rules.local_full).orElse (Rules.local_full.number 0)

theorem Grammar.takes_inner : Takes (Settled 0) (inner line) :=
  (Takes.assign Rules.local_full.settle).orElse Rules.local_full.settle.number

theorem Grammar.not_faults_inner (hts : Balanced 0 ts) (hf : ¬ Faults (lowFactor .off .full) ts) :
    ¬ Faults (inner line) ts := by
  rcases (Local.stores Rules.local_full).cases hts with ⟨stores, rest, hs⟩ | hs | hs
  · have hassign : Finds (assign .full line) ts (.assign line stores) rest := hs.bind .pure
    exact hassign.left.not_faults
  · rcases (Local.number Rules.local_full).cases hts with ⟨y, rest, hn⟩ | hn | hn
    · exact (inner_of_misses hs hn).not_faults
    · rw [inner, Rules.full_number]
      exact (hs.head.orElse hn).not_faults
    · exact absurd hn.lowFactor_number hf
  · exact absurd hs.lowFactor_stores hf

end

/-! ## Groups -/

theorem Production.Misses.number_group {r : Rules Unit} (ht : t.kind = .leftParen)
    (h : Stops (· = .rightParen) (Grammar.assign r t.line <|> r.number) ts) :
    Misses (Grammar.number .off r) (t :: ts) :=
  Grammar.misses_number_of_factor (by simp [ht]) (numberFactor_group ht h)

theorem Production.Finds.value_singleton (h : Finds (Grammar.value .off .full) ts x [])
    (hb : Misses (Grammar.lowBoolean .off .full) ts) (hn : Misses (Grammar.number .off .full) ts) :
    ∃ v, ts = [v] ∧ (v.kind = .string ∨ v.kind = .kwGets) := by
  cases ts with
  | nil => exact absurd (Grammar.misses_value_of_next (by simp)) h.not_misses
  | cons v vs =>
    have hnil {y : Expr} (hy : Finds (Grammar.string <|> Grammar.gets : Production Unit Expr) (v :: vs) y vs) :
        vs = [] := by
      have hvalue : Finds (Grammar.value .off .full) (v :: vs) y vs := by
        rw [Grammar.value, memoized_off]
        exact .right hb (.right hn hy)
      exact (h.unique hvalue).2
    by_cases hs : v.kind = .string
    · exact ⟨v, by rw [hnil (left (.string hs))], .inl hs⟩
    have hstring : Misses (Grammar.string : Production Unit Expr) (v :: vs) := .string (by simpa using hs)
    by_cases hg : v.kind = .kwGets
    · exact ⟨v, by rw [hnil (right hstring (.gets hg))], .inr hg⟩
    · refine absurd ?_ h.not_misses
      rw [Grammar.value, memoized_off]
      exact hb.orElse (hn.orElse (hstring.orElse (.gets (by simpa using hg))))

section
variable (ht : t.kind = .leftParen) (hu : u.kind = .rightParen)
include ht hu

theorem Production.Finds.number_group (h : Finds (Grammar.inner t.line) (ts ++ [u]) x [u]) :
    Finds (Grammar.number .off .full) (t :: (ts ++ [u])) x [] :=
  ((numberFactor_group ht h hu).numberTerm below_nil).number (by simp [ht]) (.noLink nofun)

/-- A boolean expression stays one in parentheses. -/
theorem Production.Finds.lowBoolean_group (h : Finds (Grammar.lowBoolean .off .full) ts x []) :
    Finds (Grammar.lowBoolean .off .full) (t :: (ts ++ [u])) x [] := by
  have hts := h.value_lowBoolean.balanced
  have hnext : next (t :: (ts ++ [u])) = some .leftParen := congrArg some ht
  have hgroup : Finds Rules.full.lowBoolean (ts ++ [u]) x [u] := by
    rw [Rules.full_lowBoolean]
    exact ((Local.lowBoolean Rules.local_full).agrees hts (closing_cons hu)).finds h
  have hfactor := Finds.highFactor hnext (by decide) (fun _ => .highAtom_group ht hgroup hu) below_nil
  have hboolean := (hfactor.highTerm below_nil).highBoolean below_nil
  -- a condition is tried first, and with it a number expression, in the same parentheses
  have hnumber : Stops (·.tier = 3) (Grammar.number .off .full) (t :: (ts ++ [u])) := by
    have hf : ¬ Faults (Grammar.inner t.line) ts :=
      Grammar.not_faults_inner hts fun hl => h.not_faults hl.head.head
    rcases h.value_lowBoolean.inside_cases Grammar.local_inner Grammar.takes_inner hf hu with ⟨y, hy⟩ | hs
    · exact (number_group ht hu hy).stops (by simp)
    · exact (Misses.number_group ht hs).stops
  have hstores : Token.startsStores (t :: (ts ++ [u])) = false := by simp [Token.startsStores, ht]
  exact (lowFactor_alone hnext (by decide) hnumber hstores hboolean below_nil).lowBoolean below_nil

theorem Production.Finds.value_number_group (hb : Misses (Grammar.lowBoolean .off .full) ts)
    (h : Finds (Grammar.number .off .full) ts x []) : Finds (Grammar.value .off .full) (t :: (ts ++ [u])) x [] := by
  have hts := (value_number hb h).balanced
  -- a number factor would take stores for a number expression, but with stores `ts` would be a boolean expression
  have hstores : Misses (Grammar.stores .full) ts := hb.of_chain.of_chain.stores_of_lowFactor hts
  have hinner : Finds (Grammar.inner t.line) (ts ++ [u]) x [u] :=
    (Grammar.local_inner.agrees hts (closing_cons hu)).finds (Grammar.inner_of_misses hstores h)
  have hgroup : Misses Rules.full.lowBoolean (ts ++ [u]) := by
    rw [Rules.full_lowBoolean]
    exact ((Local.lowBoolean Rules.local_full).agrees hts (closing_cons hu)).misses hb
  have hnumber := number_group ht hu hinner
  have hboolean : Misses (Grammar.highBoolean .off .full) (t :: (ts ++ [u])) :=
    Grammar.misses_highBoolean (Grammar.misses_highFactor (by simp [ht]) fun _ => .highAtom_group ht hgroup.stops)
  have hcondition : Misses (Grammar.condition .off .full) (t :: (ts ++ [u])) := by
    refine Grammar.misses_condition (hnumber.stops (by simp)) hboolean.stops ?_ ?_
    · exact (Misses.string (by simp [ht])).stops
    · exact (Misses.gets (by simp [ht])).stops
  have hnone := Grammar.misses_stores_of_next (r := .full) (show next (t :: (ts ++ [u])) ≠ _ by simp [ht])
  refine value_number (Grammar.misses_lowBoolean (Grammar.misses_lowFactor ?_ hcondition hnone hboolean)) hnumber
  simp [ht]

theorem Production.Finds.value_group (h : Finds (Grammar.value .off .full) ts x [])
    (hone : ∀ v, ts = [v] → v.kind ≠ .string ∧ v.kind ≠ .kwGets) :
    Finds (Grammar.value .off .full) (t :: (ts ++ [u])) x [] := by
  have hvalue := h
  rw [Grammar.value, memoized_off] at hvalue
  rcases (Local.lowBoolean Rules.local_full).cases h.balanced with ⟨y, rest, hb⟩ | hb | hb
  · obtain ⟨rfl, rfl⟩ := h.unique hb.value_lowBoolean
    exact (hb.lowBoolean_group ht hu).value_lowBoolean
  · rcases (Local.number Rules.local_full).cases h.balanced with ⟨y, rest, hn⟩ | hn | hn
    · obtain ⟨rfl, rfl⟩ := h.unique (value_number hb hn)
      exact value_number_group ht hu hb hn
    · obtain ⟨v, hv, hk⟩ := h.value_singleton hb hn
      exact absurd hk (not_or.mpr (hone v hv))
    · exact absurd (Faults.right hb hn.left) hvalue.not_faults
  · exact absurd hb.left hvalue.not_faults

end

/-! ## Any number of pairs -/

structure Token.Parentheses where
  opening : Token
  closing : Token
  opens : opening.kind = .leftParen
  closes : closing.kind = .rightParen

/-- The tokens in these parentheses, of which the first are outermost. -/
def Token.enclose (pairs : List Parentheses) (ts : List Token) : List Token :=
  pairs.foldr (fun p inner => p.opening :: (inner ++ [p.closing])) ts

theorem Production.Finds.value_enclose (h : Finds (Grammar.value .off .full) ts x [])
    (hone : ∀ v, ts = [v] → v.kind ≠ .string ∧ v.kind ≠ .kwGets) : ∀ pairs : List Parentheses,
    Finds (Grammar.value .off .full) (enclose pairs ts) x []
  | [] => h
  | [p] => h.value_group p.opens p.closes hone
  | p :: q :: pairs => (h.value_enclose hone (q :: pairs)).value_group p.opens p.closes (by simp)

/-! ## Lines -/

theorem Reader.line?_eq_some_iff {σ α : Type} {notes : Notebook σ} {p : Memory σ → Rules σ → Production σ α}
    {ts : LogicalLine} {after : List LogicalLine} {tr : Trace σ} {a : α} :
    (∃ tr₁, line? notes p ts after tr = .ok (some a, tr₁)) ↔
      (p (notes.page after.length) (.upTo (notes.page after.length) ts.length) ts tr).1 = .found a [] := by
  simp only [line?]
  generalize p _ _ ts tr = y
  obtain ⟨⟨b, _ | _⟩ | _ | _, tr₁⟩ := y <;> simp

theorem Grammar.finds_value_of_run {tr : Trace Unit} (hrun : (value .off .full ts tr).1 = .found x []) :
    Finds (value .off .full) ts x [] := by
  obtain ⟨used, hused, hsettled⟩ := Takes.value Rules.local_full.settle (Prod.ext hrun rfl)
  rw [List.append_nil] at hused
  exact (Local.value Rules.local_full).finds_of_run (hused ▸ hsettled.balanced) hrun

/-- Notes that only recall what was found leave a value as it is without them. -/
theorem Notebook.Recalls.value_eq {σ : Type} {notes : Notebook σ} {k : Nat} {tr : Trace σ}
    (h : notes.Recalls k ts tr) (hn : notes.Lawful) :
    (Grammar.value (notes.page k) (.upTo (notes.page k) ts.length) ts tr).1 =
      (Grammar.value .off .full ts ⟨tr.scopes, ()⟩).1 := by
  have hmemory := Bridge.memorySim_recalling hn k ts
  have hmatches := Bridge.Sim.value hmemory (Bridge.rulesSim_full hmemory ts.length) (List.suffix_refl ts)
    (Nat.lt_succ_self _) (show (Bridge.recalling notes k ts).traces tr ⟨tr.scopes, ()⟩ from ⟨rfl, h⟩)
  rw [show (Bridge.recalling notes k ts).mapLine = id from rfl, Token.map_mapLine_id] at hmatches
  generalize Grammar.value (notes.page k) _ ts tr = y at hmatches ⊢
  generalize Grammar.value .off .full ts _ = y' at hmatches ⊢
  cases hmatches with
  | found => rw [Expr.mapLine_id, show (Bridge.recalling notes k ts).mapLine = id from rfl, Token.map_mapLine_id]
  | noMatch => rfl
  | fault => rfl

/-- **Parentheses around a value change nothing.** Of a line that is all one value, but for a string or a `gets` on
its own, the same expression is read in any number of parentheses: on whatever line of a text, whatever is declared,
and whatever attempts on the line are kept. -/
theorem Reader.line?_value_enclose {ts : LogicalLine} {after after' : List LogicalLine}
    {tr tr₁ tr' : Trace _} (pairs : List Parentheses)
    (hrecalls : Notebook.table.Recalls after.length ts tr)
    (h : line? .table Grammar.value ts after tr = .ok (some x, tr₁))
    (hone : ∀ v, ts = [v] → v.kind ≠ .string ∧ v.kind ≠ .kwGets)
    (hrecalls' : Notebook.table.Recalls after'.length (enclose pairs ts) tr') :
    ∃ tr₁', line? .table Grammar.value (enclose pairs ts) after' tr' = .ok (some x, tr₁') := by
  have hrun := line?_eq_some_iff.mp ⟨tr₁, h⟩
  rw [hrecalls.value_eq Notebook.table_lawful] at hrun
  refine line?_eq_some_iff.mpr ?_
  rw [hrecalls'.value_eq Notebook.table_lawful]
  obtain ⟨tr₂, henclosed⟩ := (Grammar.finds_value_of_run hrun).value_enclose hone pairs ⟨tr'.scopes, ()⟩
  rw [henclosed]

/-- The lines `a is 1` and `((a is 1))`. -/
theorem Reader.line?_value_enclose_twice :
    (∃ tr₁, line? .table Grammar.value [⟨.identifier, "a", 1⟩, ⟨.kwIs, "is", 1⟩, ⟨.integer, "1", 1⟩] []
        ⟨.initial, Notebook.table.empty⟩ =
      .ok (some (.compare 1 .is (.call 1 "a" []) (.literal 1 (.integer 1))), tr₁)) ∧
    ∃ tr₁, line? .table Grammar.value [⟨.leftParen, "(", 2⟩, ⟨.leftParen, "(", 2⟩, ⟨.identifier, "a", 1⟩,
        ⟨.kwIs, "is", 1⟩, ⟨.integer, "1", 1⟩, ⟨.rightParen, ")", 2⟩, ⟨.rightParen, ")", 2⟩] []
        ⟨.initial, Notebook.table.empty⟩ =
      .ok (some (.compare 1 .is (.call 1 "a" []) (.literal 1 (.integer 1))), tr₁) := by
  have hrecalls (ts : LogicalLine) :
      Notebook.table.Recalls ([] : List LogicalLine).length ts ⟨.initial, Notebook.table.empty⟩ :=
    .of_blank fun line _ rule n => Notebook.table_lawful.find_empty line rule n
  have hline : ∃ tr₁, line? .table Grammar.value [⟨.identifier, "a", 1⟩, ⟨.kwIs, "is", 1⟩, ⟨.integer, "1", 1⟩] []
      ⟨.initial, Notebook.table.empty⟩ =
        .ok (some (.compare 1 .is (.call 1 "a" []) (.literal 1 (.integer 1))), tr₁) := by
    refine line?_eq_some_iff.mpr (((hrecalls _).value_eq Notebook.table_lawful).trans ?_)
    rw [← Rules.full_value]
    rfl
  obtain ⟨tr₁, h⟩ := hline
  let pair : Parentheses := ⟨⟨.leftParen, "(", 2⟩, ⟨.rightParen, ")", 2⟩, rfl, rfl⟩
  have henclosed := line?_value_enclose [pair, pair] (hrecalls _) h (by simp) (hrecalls _)
  exact ⟨⟨tr₁, h⟩, henclosed⟩

end Sprig
