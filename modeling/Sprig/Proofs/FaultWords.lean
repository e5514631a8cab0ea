import Sprig.Proofs.Append
import Sprig.Proofs.Meets

/-!
# Faults name words of their lines

A fault of the grammar that says what a word is not followed by, or that a block is not ended, gives the line of that
word (`Token.Names`). For a comma it gives the line of the token behind the comma, which may be a later one.

Main statement: `Program.named_of_ofLines`.
-/

namespace Sprig

open Production

/-! ## Words -/

/-- What the tokens of a kind are written as, if that is always the same. -/
def Kind.spelling? : Kind → Option String
  | leftParen => some "("
  | rightParen => some ")"
  | comma => some ","
  | equal => some "="
  | plus => some "+"
  | minus => some "-"
  | star => some "*"
  | starStar => some "**"
  | slash => some "/"
  | percent => some "%"
  | bang => some "!"
  | equalEqual => some "=="
  | bangEqual => some "!="
  | greater => some ">"
  | greaterEqual => some ">="
  | less => some "<"
  | lessEqual => some "<="
  | andAnd => some "&&"
  | orOr => some "||"
  | identifier | integer | float | string => none
  | k => (reserved.find? (·.2 == k)).map (·.1)

/-- A token of a kind with one spelling is spelled like that. -/
def Token.Spelled (t : Token) : Prop := ∀ word ∈ t.kind.spelling?, t.text = word

/-- The word that a fault says what is wrong with. -/
def Fault.word? (f : Fault) : Option String :=
  match f.problem with
  | .syntactic (.missing after _) => some after
  | .syntactic (.unterminatedBlock keyword) => some keyword
  | _ => none

/-- The line of the word. A comma is looked for on the line of what follows it. -/
inductive Token.Names (ts : List Token) : String → Nat → Prop
  | word {t : Token} {word : String} : t ∈ ts → t.kind ≠ .comma → t.kind.spelling? = some word → Names ts word t.line
  | comma {t : Token} {front back : List Token} : ts = front ++ t :: back → t.kind = .comma →
    Names ts "," ((back.head?.map (·.line)).getD t.line)

/-- The word of the fault is named on the line. -/
def Fault.NamedOn (ts : List Token) (f : Fault) : Prop := ∀ word ∈ f.word?, Token.Names ts word f.line

/-- The kinds are those of the words, and no commas. -/
def Spells {β : Type} (select : Kind → Option β) (word : β → String) : Prop :=
  ∀ ⦃k b⦄, select k = some b → k ≠ .comma ∧ k.spelling? = some (word b)

namespace Grammar

theorem spells_looseOp : Spells looseOp BinaryOp.symbol := by
  intro k b h
  cases k <;> cases h <;> exact ⟨nofun, rfl⟩

theorem spells_tightOp : Spells tightOp BinaryOp.symbol := by
  intro k b h
  cases k <;> cases h <;> exact ⟨nofun, rfl⟩

theorem spells_orOp : Spells orOp BinaryOp.symbol := by
  intro k b h
  cases k <;> cases h
  exact ⟨nofun, rfl⟩

theorem spells_andOp : Spells andOp BinaryOp.symbol := by
  intro k b h
  cases k <;> cases h
  exact ⟨nofun, rfl⟩

theorem spells_orOrOp : Spells orOrOp BinaryOp.symbol := by
  intro k b h
  cases k <;> cases h
  exact ⟨nofun, rfl⟩

theorem spells_andAndOp : Spells andAndOp BinaryOp.symbol := by
  intro k b h
  cases k <;> cases h
  exact ⟨nofun, rfl⟩

theorem spells_equalityOp : Spells equalityOp Comparison.symbol := by
  intro k b h
  cases k <;> cases h <;> exact ⟨nofun, rfl⟩

theorem spells_orderingOp : Spells orderingOp Comparison.symbol := by
  intro k b h
  cases k <;> cases h <;> exact ⟨nofun, rfl⟩

end Grammar

/-! ## Productions -/

namespace Production

variable {α β : Type} {line : List Token}

/-- On what is left of the line, faults name its words. -/
abbrev Blames (line : List Token) (p : Production Unit α) : Prop :=
  Meets (Fault.NamedOn line) (· <:+ line) p fun _ ts => ts <:+ line

namespace Blames

variable {p q : Production Unit α} {f : α → Production Unit β}

theorem pure {a : α} : Blames line (Pure.pure a) := Meets.pure id

theorem bind (h : Blames line p) (hf : ∀ a, Blames line (f a)) : Blames line (p >>= f) := Meets.bind h hf

theorem fault {n : Nat} {problem : SyntaxProblem} (h : Fault.word? ⟨n, .syntactic problem⟩ = none) :
    Blames line (Production.fault n problem : Production Unit α) :=
  Meets.fault fun word hword => by rw [h] at hword; cases hword

theorem unnamed {n : Nat} {problem : SyntaxProblem} (h : Blames line p)
    (hword : Fault.word? ⟨n, .syntactic problem⟩ = none) : Blames line (p.demand n problem) :=
  Meets.orElse h (fault hword)

theorem peek : Blames line Production.peek := Meets.peek.mono id And.left

theorem token_bind {k : Kind} {f : Token → Production Unit β}
    (hf : ∀ t, t ∈ line → t.kind = k → Blames line (f t)) : Blames line (Production.token k >>= f) := by
  refine Meets.bind Meets.token fun t ts hts tr => ?_
  obtain ⟨hsuffix, hk⟩ := hts
  exact hf t (hsuffix.mem List.mem_cons_self) hk ((List.suffix_cons t ts).trans hsuffix) tr

theorem token {k : Kind} : Blames line (Production.token k) :=
  Meets.token.mono id fun h => (List.suffix_cons _ _).trans h.1

theorem symbol_bind {select : Kind → Option β} {word : β → String} (hs : Spells select word) {wanted : Wanted}
    {p : Production Unit α} {γ : Type} {f : β × Nat → α → Production Unit γ} (h : Blames line p)
    (hf : ∀ b a, Blames line (f b a)) :
    Blames line (Production.symbol select >>= fun r => p.demand r.2 (.missing (word r.1) wanted) >>= f r) := by
  refine Meets.bind Meets.symbol fun r ts hts tr => ?_
  obtain ⟨t, hsuffix, hr, hline⟩ := hts
  obtain ⟨hcomma, hspelling⟩ := hs hr
  refine bind (Meets.demand h ?_) (hf r) ((List.suffix_cons t ts).trans hsuffix) tr
  rintro _ ⟨⟩
  rw [← hline]
  exact .word (hsuffix.mem List.mem_cons_self) hcomma hspelling

theorem listOf {item : Production Unit α} {wanted : Wanted} (h : Blames line item) :
    Blames line (Production.listOf item wanted) := by
  have hnext : Blames line (do
      let comma ← Production.token .comma
      let n ← lineAfter comma
      item.demand n (.missing "," wanted)) := by
    -- the line is taken when the comma is gone, so it is that of what follows
    refine Meets.bind Meets.token fun t => Meets.bind Meets.lineAfter fun n ts hts tr => ?_
    obtain ⟨⟨⟨front, hfront⟩, hk⟩, rfl⟩ := hts
    refine Meets.demand h ?_ ((List.suffix_cons t ts).trans ⟨front, hfront⟩) tr
    rintro _ ⟨⟩
    exact .comma hfront.symm hk
  exact h.bind fun _ => (Meets.many hnext).bind fun _ => pure

theorem inParens {list : Production Unit (List α)} {n : Nat} {unclosed : SyntaxProblem} (h : Blames line list)
    (hword : Fault.word? ⟨n, .syntactic unclosed⟩ = none) : Blames line (Production.inParens list n unclosed) := by
  refine Meets.orNil (token_bind fun _ _ _ => bind (Meets.orNil h) fun _ => ?_)
  exact bind (token.unnamed hword) fun _ => pure

/-! ### Expressions -/

theorem integer : Blames line Grammar.integer := by
  refine token_bind fun t _ _ => ?_
  cases Integer.read? t.text with
  | none => exact fault rfl
  | some n => exact pure

theorem float : Blames line Grammar.float := by
  refine token_bind fun t _ _ => ?_
  cases FloatText.read? t.text with
  | none => exact fault rfl
  | some x => exact pure

theorem string : Blames line Grammar.string := token_bind fun _ _ _ => pure

theorem boolean : Blames line Grammar.boolean :=
  Meets.orElse (token_bind fun _ _ _ => pure) (token_bind fun _ _ _ => pure)

theorem nil : Blames line Grammar.nil := token_bind fun _ _ _ => pure

theorem gets : Blames line Grammar.gets := token_bind fun _ _ _ => pure

theorem target : Blames line Grammar.target := token_bind fun _ _ _ => bind Meets.modifyScopes fun _ => pure

section
variable {op? : Kind → Option BinaryOp} {wanted : Wanted} {operand : Production Unit Expr}

theorem chainFrom (hop : Spells op? BinaryOp.symbol) {first : Expr} (h : Blames line operand) :
    Blames line (Grammar.chainFrom operand op? wanted first) :=
  bind (Meets.many (symbol_bind hop h fun _ _ => pure)) fun _ => pure

theorem chain (hop : Spells op? BinaryOp.symbol) (h : Blames line operand) :
    Blames line (Grammar.chain operand op? wanted) :=
  bind h fun _ => h.chainFrom hop

theorem comparison {op? : Kind → Option Comparison} (hop : Spells op? Comparison.symbol) (h : Blames line operand) :
    Blames line (Grammar.comparison operand op? wanted) :=
  bind h fun _ => symbol_bind hop h fun _ _ => pure

theorem minus (h : Blames line operand) : Blames line (Grammar.minus operand wanted) := by
  refine token_bind fun t ht hk => bind (Meets.demand h ?_) fun _ => pure
  rintro _ ⟨⟩
  exact .word ht (by simp [hk]) (by rw [hk]; rfl)

theorem group (h : Blames line operand) : Blames line (Grammar.group operand) :=
  token_bind fun _ _ _ => bind h fun _ => token_bind fun _ _ _ => pure

end

/-- A factor behind a token that may negate it. The fault for a missing factor names that token. -/
theorem negatable (op : Negation) (k : Kind) (hk : k ≠ .comma ∧ k.spelling? = some op.symbol)
    {f : Token → Bool → Production Unit β}
    (hf : ∀ t negated, Blames line (Grammar.missingFactor negated op t.line) → Blames line (f t negated)) :
    Blames line (Production.peek >>= fun t => accepts k >>= f t) := by
  -- only where the factor is negated, the token of that line is known to be the negation
  refine Meets.bind Meets.peek fun t => Meets.bind (Q := fun negated ts => ts <:+ line ∧
    (negated = true → t ∈ line ∧ t.kind = k)) ?_ fun negated ts hts tr => ?_
  · refine Meets.orElse (Meets.bind Meets.token fun u => Meets.pure ?_) (Meets.pure fun h => ⟨h.1, nofun⟩)
    rintro ts ⟨⟨hsuffix, ⟨⟩⟩, hu⟩
    exact ⟨(List.suffix_cons t ts).trans hsuffix, fun _ => ⟨hsuffix.mem List.mem_cons_self, hu⟩⟩
  · refine hf t negated ?_ hts.1 tr
    cases negated with
    | false => exact Meets.noMatch
    | true =>
      obtain ⟨ht, htk⟩ := hts.2 rfl
      refine Meets.fault ?_
      rintro _ ⟨⟩
      exact .word ht (htk ▸ hk.1) (htk ▸ hk.2)

end Blames

end Production

/-- On what is left of the line, the faults of the rules name its words. -/
structure Rules.Blame (line : List Token) (r : Rules Unit) : Prop where
  value : Blames line r.value
  lowBoolean : Blames line r.lowBoolean
  number : Blames line r.number
  numberFactor : Blames line r.numberFactor

namespace Production.Blames

section
variable {line : List Token} {r : Rules Unit} (hr : r.Blame line)
include hr

theorem values : Blames line (Grammar.values r) := hr.value.listOf

theorem call : Blames line (Grammar.call .off r) :=
  Meets.memoized_off (token_bind fun _ _ _ => bind (inParens (values hr) rfl) fun _ => pure)

theorem stores : Blames line (Grammar.stores r) := by
  refine bind peek fun _ => bind target fun _ => bind (Meets.many (token_bind fun _ _ _ => target)) fun _ => ?_
  exact token_bind fun _ _ _ => bind (Meets.orNil (values hr)) fun _ => pure

theorem assign {n : Nat} : Blames line (Grammar.assign r n) := bind (stores hr) fun _ => pure

theorem numberFactor : Blames line (Grammar.numberFactor .off r) := by
  refine Meets.orElse integer (Meets.orElse float (Meets.orElse (call hr) (Meets.orElse hr.numberFactor.minus ?_)))
  exact bind peek fun _ => group (Meets.orElse (assign hr) hr.number)

theorem numberTerm : Blames line (Grammar.numberTerm .off r) := (numberFactor hr).chain Grammar.spells_tightOp

theorem number : Blames line (Grammar.number .off r) :=
  Meets.memoized_off (bind (Meets.orElse (numberTerm hr).minus (numberTerm hr)) fun _ =>
    (numberTerm hr).chainFrom Grammar.spells_looseOp)

theorem highFactor : Blames line (Grammar.highFactor .off r) := by
  refine negatable .bang .bang ⟨by decide, rfl⟩ fun t negated hmissing => bind ?_ fun _ => ?_
  · refine Meets.orElse boolean (Meets.orElse nil (Meets.orElse (call hr) (Meets.orElse hr.lowBoolean.group ?_)))
    exact bind Meets.unlessNext fun _ => hmissing
  · exact bind Meets.unlessNext fun _ => pure

theorem highTerm : Blames line (Grammar.highTerm .off r) := (highFactor hr).chain Grammar.spells_andAndOp

theorem highBoolean : Blames line (Grammar.highBoolean .off r) :=
  Meets.memoized_off ((highTerm hr).chain Grammar.spells_orOrOp)

theorem comparable : Blames line (Grammar.comparable .off r) :=
  Meets.orElse (number hr) (Meets.orElse (highBoolean hr) (Meets.orElse string gets))

theorem condition : Blames line (Grammar.condition .off r) :=
  Meets.orElse ((comparable hr).comparison Grammar.spells_equalityOp)
    (comparison Grammar.spells_orderingOp (Meets.orElse (number hr) string))

theorem lowFactor : Blames line (Grammar.lowFactor .off r) := by
  refine negatable .not .kwNot ⟨by decide, rfl⟩ fun t negated hmissing => bind ?_ fun _ => pure
  exact Meets.orElse (condition hr) (Meets.orElse (assign hr) (Meets.orElse (highBoolean hr) hmissing))

theorem lowBoolean : Blames line (Grammar.lowBoolean .off r) :=
  ((lowFactor hr).chain Grammar.spells_andOp).chain Grammar.spells_orOp

theorem value : Blames line (Grammar.value .off r) :=
  Meets.memoized_off (Meets.orElse (lowBoolean hr) (Meets.orElse (number hr) (Meets.orElse string gets)))

end

end Production.Blames

theorem Rules.blame_upTo (line : List Token) : ∀ n, (Rules.upTo .off n).Blame line
  | 0 => ⟨Meets.noMatch, Meets.noMatch, Meets.noMatch, Meets.noMatch⟩
  | n + 1 =>
    have ih := blame_upTo line n
    ⟨.value ih, .lowBoolean ih, .number ih, .numberFactor ih⟩

/-! ### Lines -/

namespace Production.Blames

variable {line : List Token} {r : Rules Unit} (hr : r.Blame line)

include hr in
theorem simple : Blames line (Grammar.simple .off r) := by
  have hvalues := Meets.orNil (values hr)
  refine Meets.orElse (bind (stores hr) fun _ => pure) (Meets.orElse ?_ (Meets.orElse ?_ (Meets.orElse ?_ ?_)))
  · exact token_bind fun _ _ _ => bind hvalues fun _ => pure
  · exact token_bind fun _ _ _ => bind hvalues fun _ => pure
  · exact token_bind fun _ _ _ => bind Meets.endOfLine fun _ => pure
  · exact bind (value hr) fun _ => pure

/-- A header gives the line of its first token. -/
theorem header {γ : Type} {p : Production Unit Token} {C : Token → Prop} {f : Token → Production Unit (Nat × γ)}
    (hp : Meets (Fault.NamedOn line) (· = line) p fun t ts => t :: ts = line ∧ C t)
    (hf : ∀ t, t ∈ line → C t → Meets (Fault.NamedOn line) (· <:+ line) (f t) fun a _ => a.1 = t.line) :
    Meets (Fault.NamedOn line) (· = line) (p >>= f) fun a _ => ∃ t, line.head? = some t ∧ a.1 = t.line := by
  refine Meets.bind hp fun t ts hts tr => ?_
  obtain ⟨rfl, hC⟩ := hts
  exact (hf t List.mem_cons_self hC).mono id (fun ha => ⟨t, rfl, ha⟩) (List.suffix_cons t ts) tr

theorem head {k : Kind} : Meets (Fault.NamedOn line) (· = line) (Production.token k : Production Unit Token)
    fun t ts => t :: ts = line ∧ t.kind = k :=
  Meets.token

/-- A condition behind the word of a header. -/
theorem headed {p : Production Unit Expr} (h : Blames line p) {t : Token} (ht : t ∈ line) (hk : t.kind ≠ .comma)
    {word : String} (hword : t.kind.spelling? = some word) {wanted : Wanted} :
    Meets (Fault.NamedOn line) (· <:+ line)
      (p.demand t.line (.missing word wanted) >>= fun e => Pure.pure (t.line, e)) fun a _ => a.1 = t.line := by
  refine Meets.bind (Meets.demand h ?_) fun _ => Meets.pure fun _ => rfl
  rintro _ ⟨⟩
  exact .word ht hk hword

section
include hr

theorem armHeader (hline : ∀ t ∈ line, t.Spelled) : Meets (Fault.NamedOn line) (· = line)
    (Grammar.armHeader .off r) fun a _ => ∃ t, line.head? = some t ∧ a.1 = t.line := by
  have hp : Meets (Fault.NamedOn line) (· = line)
      (Production.token .kwIf <|> Production.token .kwElif : Production Unit Token) fun t ts => t :: ts = line ∧ (t.kind = .kwIf ∨ t.kind = .kwElif) :=
    Meets.orElse (head.mono id fun h => ⟨h.1, .inl h.2⟩) (head.mono id fun h => ⟨h.1, .inr h.2⟩)
  refine header hp fun t ht hk => (lowBoolean hr).headed ht ?_ ?_
  · rcases hk with hk | hk <;> simp [hk]
  · rcases hk with hk | hk <;> rw [hk, hline t ht _ (by rw [hk]; rfl)] <;> rfl

theorem loopHeader : Meets (Fault.NamedOn line) (· = line)
    (Grammar.loopHeader .off r) fun a _ => ∃ t, line.head? = some t ∧ a.1 = t.line :=
  header head fun _ ht hk => (lowBoolean hr).headed ht (by simp [hk]) (by rw [hk]; rfl)

end

theorem functionHeader : Meets (Fault.NamedOn line) (· = line)
    (Grammar.functionHeader : Production Unit (Nat × String × List String))
    fun a _ => ∃ t, line.head? = some t ∧ a.1 = t.line := by
  refine header head fun t ht hk => ?_
  have hname : Blames line ((Production.token .identifier).demand t.line (.missing "def" .functionName)) := by
    refine Meets.demand token ?_
    rintro _ ⟨⟩
    exact .word ht (by simp [hk]) (by rw [hk]; rfl)
  refine Meets.bind hname fun name => Meets.bind Meets.modifyScopes fun _ => ?_
  exact Meets.bind (inParens target.listOf rfl) fun _ => Meets.pure fun _ => rfl

end Production.Blames

/-! ## Blocks -/

/-- The word of the fault is named on one of the lines. -/
def Fault.Named (lines : List LogicalLine) (f : Fault) : Prop :=
  ∀ word ∈ f.word?, ∃ ts ∈ lines, Token.Names ts word f.line

namespace Reader

variable {α : Type} {all : List LogicalLine}

theorem throw_unnamed {Q : α → Prop} {f : Fault} (h : f.word? = none) :
    Meets (Fault.Named all) (throw f : Reader Unit α) Q :=
  Meets.throw fun word hword => by rw [h] at hword; cases hword

theorem meets_line {p : Memory Unit → Rules Unit → Production Unit α} {ts : LogicalLine} {Q : α → Prop}
    (hts : ts ∈ all) (h : Production.Meets (Fault.NamedOn ts) (· = ts) (p .off (.upTo .off ts.length)) fun a _ => Q a)
    (rest : List LogicalLine) : Meets (Fault.Named all) (line? .off p ts rest) fun o => ∀ a ∈ o, Q a := by
  intro tr
  have hmeets := h rfl tr
  simp only [line?, Notebook.off]
  generalize p .off (.upTo .off ts.length) ts tr = o at hmeets ⊢
  obtain ⟨⟨a, _ | ⟨t, us⟩⟩ | _ | f, tr₁⟩ := o
  · rintro _ ⟨⟩
    exact hmeets
  · rintro _ ⟨⟩
  · rintro _ ⟨⟩
  · exact fun word hword => ⟨ts, hts, hmeets word hword⟩

theorem meets_keyword {k : Kind} : ∀ {lines : List LogicalLine}, lines ⊆ all →
    Meets (Fault.Named all) (keyword? k lines : Reader Unit _) fun o => ∀ r ∈ o, r.2 ⊆ all
  | [], _ | [] :: _, _ => Meets.pure nofun
  | (t :: ts) :: rest, h => by
    by_cases hk : t.kind = k
    · cases ts with
      | nil =>
        simp only [keyword?, if_pos hk]
        exact Meets.pure (by simpa using (List.cons_subset.mp h).2)
      | cons u us =>
        simp only [keyword?, if_pos hk]
        exact throw_unnamed rfl
    · simp only [keyword?, if_neg hk]
      exact Meets.pure nofun

theorem meets_close {keyword : String} {n : Nat} {lines : List LogicalLine} (h : lines ⊆ all)
    (hword : ∃ ts ∈ all, Token.Names ts keyword n) :
    Meets (Fault.Named all) (close keyword n lines : Reader Unit _) (· ⊆ all) := by
  refine (meets_keyword h).bind fun o ho => ?_
  cases o with
  | none =>
    refine Meets.throw ?_
    rintro _ ⟨⟩
    exact hword
  | some r => exact Meets.pure (ho r rfl)

/-- Blocks are made of the lines. -/
def Within (all : List LogicalLine) (body : Body Unit) : Prop :=
  ∀ header lines, lines ⊆ all → Meets (Fault.Named all) (body header lines) (·.2 ⊆ all)

section
variable {body : Body Unit} (hbody : Within all body)
include hbody

theorem meets_headed {p : Memory Unit → Rules Unit → Production Unit α} {ts : LogicalLine} {rest : List LogicalLine}
    {Q : α → Prop} (hts : ts ∈ all) (hrest : rest ⊆ all)
    (h : Production.Meets (Fault.NamedOn ts) (· = ts) (p .off (.upTo .off ts.length)) fun a _ => Q a) :
    Meets (Fault.Named all) (headed? .off body p ts rest) fun o => ∀ r ∈ o, Q r.1 ∧ r.2.2 ⊆ all := by
  refine (meets_line hts h rest).bind fun o ho => ?_
  cases o with
  | none => exact Meets.pure nofun
  | some a =>
    refine (hbody ts rest hrest).bind fun r hr => Meets.pure ?_
    rintro _ ⟨⟩
    exact ⟨ho a rfl, hr⟩

theorem meets_otherwise {lines : List LogicalLine} (h : lines ⊆ all) :
    Meets (Fault.Named all) (otherwise body lines) (·.2 ⊆ all) := by
  refine (meets_keyword h).bind fun o ho => ?_
  cases o with
  | none => exact Meets.pure h
  | some r => exact (hbody r.1 r.2 (ho r rfl)).bind fun b hb => Meets.pure hb

variable (hall : ∀ ts ∈ all, ∀ t ∈ ts, t.Spelled)
include hall

theorem meets_arms : ∀ (n : Nat) {lines : List LogicalLine}, lines ⊆ all →
    Meets (Fault.Named all) (arms .off body n lines) (·.2 ⊆ all)
  | 0, _, h => Meets.pure h
  | _ + 1, [], h => Meets.pure h
  | _ + 1, [] :: _, h => Meets.pure h
  | n + 1, (t :: ts) :: rest, h => by
    obtain ⟨hts, hrest⟩ := List.cons_subset.mp h
    by_cases ht : t.kind = .kwElif
    · simp only [arms, if_pos ht]
      have hheader := Blames.armHeader (Rules.blame_upTo (t :: ts) (t :: ts).length) (hall _ hts)
      refine (meets_headed hbody hts hrest hheader).bind fun o ho => ?_
      cases o with
      | none => exact Meets.pure h
      | some r => exact (meets_arms n (ho r rfl).2).bind fun others hothers => Meets.pure hothers
    · simp only [arms, if_neg ht]
      exact Meets.pure h

theorem meets_statement {ts : LogicalLine} {rest : List LogicalLine} (hts : ts ∈ all) (hrest : rest ⊆ all) :
    Meets (Fault.Named all) (statement? .off body ts rest) fun o => ∀ r ∈ o, r.2 ⊆ all := by
  -- a block that is not ended is a fault of the keyword on its header, and on that keyword's line
  have hword {k : Kind} {word : String} {n : Nat} (hk : ts.head?.map Token.kind = some k) (hcomma : k ≠ .comma)
      (hspelling : k.spelling? = some word) (hline : ∃ t, ts.head? = some t ∧ n = t.line) :
      ∃ ts ∈ all, Token.Names ts word n := by
    obtain ⟨t, ht, rfl⟩ := hline
    rw [ht] at hk
    cases hk
    exact ⟨ts, hts, .word (List.mem_of_head? ht) hcomma hspelling⟩
  have hblame := Rules.blame_upTo ts ts.length
  simp only [statement?]
  split
  · rename_i hk
    refine (meets_headed hbody hts hrest (Blames.armHeader hblame (hall ts hts))).bind fun o ho => ?_
    cases o with
    | none => exact Meets.pure (by simp)
    | some r =>
      obtain ⟨hline, hrest₁⟩ := ho r rfl
      refine (meets_arms hbody hall _ hrest₁).bind fun others hrest₂ => ?_
      refine (meets_otherwise hbody hrest₂).bind fun last hrest₃ => ?_
      refine (meets_close hrest₃ (hword hk (by decide) rfl hline)).bind fun rest₄ hrest₄ => Meets.pure ?_
      rintro _ ⟨⟩
      exact hrest₄
  · rename_i hk
    refine (meets_headed hbody hts hrest (Blames.loopHeader hblame)).bind fun o ho => ?_
    cases o with
    | none => exact Meets.pure (by simp)
    | some r =>
      obtain ⟨hline, hrest₁⟩ := ho r rfl
      refine (meets_close hrest₁ (hword hk (by decide) rfl hline)).bind fun rest₂ hrest₂ => Meets.pure ?_
      rintro _ ⟨⟩
      exact hrest₂
  · rename_i hk
    refine (meets_headed hbody hts hrest Blames.functionHeader).bind fun o ho => ?_
    cases o with
    | none => exact Meets.pure (by simp)
    | some r =>
      obtain ⟨hline, hrest₁⟩ := ho r rfl
      refine (meets_close hrest₁ (hword hk (by decide) rfl hline)).bind fun rest₂ hrest₂ tr => ?_
      rintro _ ⟨⟩
      exact hrest₂
  · refine (meets_line (Q := fun _ => True) hts ?_ rest).bind fun o _ => Meets.pure ?_
    · exact (Blames.simple hblame).mono (fun h => h ▸ List.suffix_refl _) fun _ => trivial
    · cases o with
      | none => simp
      | some ss =>
        rintro _ ⟨⟩
        exact hrest

end

theorem meets_statements (hall : ∀ ts ∈ all, ∀ t ∈ ts, t.Spelled) : ∀ (n : Nat) {lines : List LogicalLine},
    lines ⊆ all → Meets (Fault.Named all) (statements .off n lines) (·.2 ⊆ all)
  | 0, _, h => Meets.pure h
  | _ + 1, [], h => Meets.pure h
  | n + 1, ts :: rest, h => by
    obtain ⟨hts, hrest⟩ := List.cons_subset.mp h
    have hbody : Within all (body .off n) := fun header lines hlines =>
      (meets_statements hall n hlines).bind fun r hr => Meets.pure hr
    rw [statements_cons]
    refine (meets_statement hbody hall hts hrest).bind fun o ho => ?_
    cases o with
    | none => exact Meets.pure h
    | some r => exact (meets_statements hall n (ho r rfl)).bind fun others hothers => Meets.pure hothers

end Reader

theorem Program.named_of_ofLines {lines : List LogicalLine} (hlines : ∀ ts ∈ lines, ∀ t ∈ ts, t.Spelled) {f : Fault}
    (h : ofLines lines = .error f) : f.Named lines := by
  have hmeets := Reader.meets_statements hlines lines.length (List.Subset.refl lines) ⟨.initial, ()⟩
  rw [ofLines_eq] at h
  cases hs : Reader.statements .off lines.length lines ⟨.initial, ()⟩ with
  | error e =>
    rw [hs] at h hmeets
    cases h
    exact hmeets
  | ok r =>
    rw [hs] at h
    obtain ⟨⟨stmts, _ | ⟨_ | ⟨t, ts⟩, rest⟩⟩, tr⟩ := r
    · cases h
    · cases h
    · cases h
      unfold stray
      split <;> nofun

end Sprig
