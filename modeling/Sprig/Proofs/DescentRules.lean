import Sprig.Proofs.DescentState

/-!
# Walks and outcomes

What a walk comes to, in the terms of the outcome of a production on the tokens that the cursor sees (`Answer`): behind
what was found, and back where it stood where there was no match. One rule for each way to put walks together.
-/

/-! ## The next token -/

namespace Sprig.Production

variable {σ α β : Type} {k : Kind} {f : Token → Production σ β} {op? : Kind → Option α} {g : α × Nat → Production σ β}
  {t : Token} {ts : List Token} {tr : Trace σ}

theorem next_cases (ts : List Token) (k : Kind) : (∃ t us, ts = t :: us ∧ t.kind = k) ∨ Token.next ts ≠ some k := by
  cases ts with
  | nil => exact .inr nofun
  | cons t us =>
    by_cases ht : t.kind = k
    · exact .inl ⟨t, us, rfl, ht⟩
    · exact .inr (by simpa using ht)

theorem symbol_cases (ts : List Token) (op? : Kind → Option α) :
    (∃ t us op, ts = t :: us ∧ op? t.kind = some op) ∨ (Token.next ts).bind op? = none := by
  cases ts with
  | nil => exact .inr rfl
  | cons t us =>
    cases hop : op? t.kind with
    | none => exact .inr hop
    | some op => exact .inl ⟨t, us, op, rfl, hop⟩

theorem bind_of_noMatch {p : Production σ α} {h : α → Production σ β} (hp : p ts tr = (.noMatch, tr)) :
    (p >>= h) ts tr = (.noMatch, tr) := by
  rw [bind_apply, hp]

theorem token_bind (ht : t.kind = k) : (token k >>= f) (t :: ts) tr = f t ts tr := by
  rw [bind_apply, token, if_pos ht]

theorem token_bind_of_ne (h : Token.next ts ≠ some k) : (token k >>= f) ts tr = (.noMatch, tr) := by
  cases ts with
  | nil => rfl
  | cons t ts => rw [bind_apply, token, if_neg (by simpa using h)]

theorem symbol_bind {op : α} (hop : op? t.kind = some op) : (symbol op? >>= g) (t :: ts) tr = g (op, t.line) ts tr := by
  rw [bind_apply, symbol, hop]

theorem symbol_bind_of_none (h : (Token.next ts).bind op? = none) : (symbol op? >>= g) ts tr = (.noMatch, tr) := by
  cases ts with
  | nil => rfl
  | cons t ts =>
    have hop : op? t.kind = none := h
    rw [bind_apply, symbol, hop]

theorem accepts_bind {f : Bool → Production σ β} (ht : t.kind = k) : (accepts k >>= f) (t :: ts) tr = f true ts tr := by
  rw [bind_apply, accepts, orElse_apply, token_bind ht]
  rfl

theorem accepts_bind_of_ne {f : Bool → Production σ β} (h : Token.next ts ≠ some k) :
    (accepts k >>= f) ts tr = f false ts tr := by
  rw [bind_apply, accepts, orElse_apply, token_bind_of_ne h]
  rfl

theorem unlessNext_bind {c : Kind → Bool} {f : Unit → Production σ β} (h : (Token.next ts).any c = false) :
    (unlessNext c >>= f) ts tr = f () ts tr := by
  rw [Option.any_map] at h
  rw [bind_apply, unlessNext, if_neg (Bool.eq_false_iff.mp h)]

theorem unlessNext_bind_of_any {c : Kind → Bool} {f : Unit → Production σ β} (h : (Token.next ts).any c = true) :
    (unlessNext c >>= f) ts tr = (.noMatch, tr) := by
  rw [Option.any_map] at h
  rw [bind_apply, unlessNext, if_pos h]

theorem bind_bind {p : Production σ α} {f : α → Production σ β} {γ : Type} {g : β → Production σ γ} :
    p >>= f >>= g = p >>= fun a => f a >>= g := by
  funext ts tr
  simp only [bind_apply]
  obtain ⟨o, tr₁⟩ := p ts tr
  cases o <;> rfl

theorem repeated_ne_noMatch (p : Production σ α) (n : Nat) (ts : List Token) (tr : Trace σ) :
    (repeated p n ts tr).1 ≠ .noMatch := by
  cases n with
  | zero => nofun
  | succ n =>
    rw [repeated, orElse_apply]
    split
    · nofun
    · rename_i h
      exact fun ho => h _ (Prod.ext ho rfl)

theorem repeated_bind {p : Production σ α} {f : List α → Production σ β} {n : Nat} {a : α} {us : List Token}
    {tr' : Trace σ} (h : p ts tr = (.found a us, tr')) :
    (repeated p (n + 1) >>= f) ts tr = (repeated p n >>= fun as => f (a :: as)) us tr' := by
  rw [bind_apply, bind_apply, repeated, orElse_apply, bind_apply, h]
  simp only [bind_apply]
  have hne := repeated_ne_noMatch p n us tr'
  generalize repeated p n us tr' = y at hne
  obtain ⟨o, tr₁⟩ := y
  cases o with
  | found => rfl
  | noMatch => exact absurd rfl hne
  | fault => rfl

theorem repeated_bind_of_noMatch {p : Production σ α} {f : List α → Production σ β} {n : Nat} {tr' : Trace σ}
    (h : p ts tr = (.noMatch, tr')) : (repeated p (n + 1) >>= f) ts tr = f [] ts tr' := by
  rw [bind_apply, repeated, orElse_apply, bind_apply, h]
  rfl

theorem repeated_bind_of_fault {p : Production σ α} {f : List α → Production σ β} {n : Nat} {e : Fault} {tr' : Trace σ}
    (h : p ts tr = (.fault e, tr')) : (repeated p (n + 1) >>= f) ts tr = (.fault e, tr') := by
  rw [bind_apply, repeated, orElse_apply, bind_apply, h]

theorem orElse_assoc (p q r : Production σ α) : ((p <|> q) <|> r) = (p <|> q <|> r) := by
  funext ts tr
  simp only [orElse_apply]
  obtain ⟨o, tr₁⟩ := p ts tr
  cases o <;> rfl

theorem orElse_noMatch (p : Production σ α) : (p <|> noMatch) = p := by
  funext ts tr
  rw [orElse_apply]
  obtain ⟨o, tr₁⟩ := p ts tr
  cases o <;> rfl

theorem demand_token_bind {line : Nat} {problem : SyntaxProblem} (ht : t.kind = k) :
    ((token k).demand line problem >>= f) (t :: ts) tr = f t ts tr := by
  rw [bind_apply, demand, orElse_apply, token, if_pos ht]

theorem demand_token_bind_of_ne {line : Nat} {problem : SyntaxProblem} (h : Token.next ts ≠ some k) :
    ((token k).demand line problem >>= f) ts tr = (.fault ⟨line, .syntactic problem⟩, tr) := by
  cases ts with
  | nil => rfl
  | cons t ts =>
    rw [bind_apply, demand, orElse_apply, token, if_neg (by simpa using h)]
    rfl

end Sprig.Production

namespace Sprig.Descent

open Move

variable {lines : List LogicalLine} {p q r : Position} {s s' : State}

/-! ## Steps -/

namespace Move

variable {α β : Type} {c : Move α} {f : α → Move β} {a : α} {e : Halt} {t : Token} {k : Kind}

theorem bind_ok (h : c s = .ok (a, s')) : (c >>= f) s = f a s' := by
  show Except.bind (c s) _ = _
  rw [h]
  rfl

theorem bind_error (h : c s = .error e) : (c >>= f) s = .error e := by
  show Except.bind (c s) _ = _
  rw [h]
  rfl

theorem bind_congr {d : Move α} (h : c s = d s') : (c >>= f) s = (d >>= f) s' := by
  show Except.bind (c s) _ = Except.bind (d s') _
  rw [h]

theorem bind_bind {γ : Type} {g : β → Move γ} : (c >>= f) >>= g = c >>= fun a => f a >>= g := by
  funext s
  show Except.bind (Except.bind (c s) _) _ = Except.bind (c s) _
  cases c s <;> rfl

theorem snapshot_bind {f : Position → Move β} : (snapshot >>= f) s = f s.position s := rfl

theorem lineNumber_bind {f : Nat → Move β} : (lineNumber lines >>= f) s = f (lineNumberAt lines s.position) s := rfl

theorem peek_bind {f : Option Token → Move β} : (peek lines >>= f) s = f (tokenAt lines s.position) s := rfl

theorem peekKind_bind {f : Option Kind → Move β} :
    (peekKind lines >>= f) s = f ((tokenAt lines s.position).map (·.kind)) s := rfl

theorem check_bind {f : Bool → Move β} :
    (check lines k >>= f) s = f ((tokenAt lines s.position).map (·.kind) == some k) s := rfl

theorem advance_bind {f : Option Token → Move β} (h : tokenAt lines s.position = some t) :
    (advance lines >>= f) s = f (some t) { s with position := s.position.step } := by
  refine bind_ok ?_
  rw [advance, snapshot_bind, peek_bind, h]
  rfl

theorem matchKind_bind {f : Bool → Move β} (h : tokenAt lines s.position = some t) (hk : t.kind = k) :
    (matchKind lines k >>= f) s = f true { s with position := s.position.step } := by
  refine bind_ok ?_
  rw [matchKind, check_bind, h, Option.map_some, hk, beq_self_eq_true, if_pos rfl, advance_bind h]
  rfl

theorem matchKind_bind_of_ne {f : Bool → Move β} (h : (tokenAt lines s.position).map (·.kind) ≠ some k) :
    (matchKind lines k >>= f) s = f false s := by
  refine bind_ok ?_
  rw [matchKind, check_bind, beq_false_of_ne h]
  rfl

end Move

/-! ## Answers -/

/-- What a walk from the given position comes to, for the outcome of a production: behind what was found and further on
the line, or where it started. It is halted by its watch only if it is not `tight`. -/
inductive Answer (tight : Prop) (lines : List LogicalLine) (start : Position) {α : Type} :
    Except Halt (Option α × State) → Outcome α × Trace Table → Prop where
  | found {a s rest tr} : Beyond lines start s.position → Sees lines s rest tr →
    Answer tight lines start (.ok (some a, s)) (.found a rest, tr)
  | noMatch {s tr} : s.position = start → Knows lines s tr → Answer tight lines start (.ok (none, s)) (.noMatch, tr)
  | fault {f tr} : Answer tight lines start (.error (.fault f)) (.fault f, tr)
  | halted {h o} : ¬tight → Answer tight lines start (.error h) o

/-- Here or further on the same line. -/
def Onward (lines : List LogicalLine) (p q : Position) : Prop := q = p ∨ Beyond lines p q

/-- The same for a walk that always finds something, maybe without taking a token. -/
inductive Goes (tight : Prop) (lines : List LogicalLine) (start : Position) {α : Type} :
    Except Halt (α × State) → Outcome α × Trace Table → Prop where
  | found {a s rest tr} : Onward lines start s.position → Sees lines s rest tr →
    Goes tight lines start (.ok (a, s)) (.found a rest, tr)
  | fault {f tr} : Goes tight lines start (.error (.fault f)) (.fault f, tr)
  | halted {h o} : ¬tight → Goes tight lines start (.error h) o

/-- One round of a loop, for a production that is repeated: it goes on from what was found, or it is done. -/
inductive Round (tight : Prop) (lines : List LogicalLine) (start : Position) {α β γ : Type} (goOn : β → α) (done : γ) :
    Except Halt ((γ ⊕ α) × State) → Outcome β × Trace Table → Prop where
  | found {b s rest tr} : Beyond lines start s.position → Sees lines s rest tr →
    Round tight lines start goOn done (.ok (.inr (goOn b), s)) (.found b rest, tr)
  | noMatch {s tr} : s.position = start → Knows lines s tr →
    Round tight lines start goOn done (.ok (.inl done, s)) (.noMatch, tr)
  | fault {f tr} : Round tight lines start goOn done (.error (.fault f)) (.fault f, tr)
  | halted {h o} : ¬tight → Round tight lines start goOn done (.error h) o

/-- From the given position on, in front of these tokens, the walk comes to what the production says. -/
def Follows (tight : Prop) (lines : List LogicalLine) (start : Position) (ts : List Token) {α : Type}
    (c : Move (Option α)) (p : Production Table α) : Prop :=
  ∀ ⦃s tr⦄, s.position = start → Sees lines s ts tr → Answer tight lines start (c s) (p ts tr)

theorem Onward.refl : Onward lines p p := .inl rfl

theorem Onward.trans (h : Onward lines p q) (h' : Onward lines q r) : Onward lines p r := by
  rcases h' with rfl | h'
  · exact h
  · rcases h with rfl | h
    · exact .inr h'
    · exact .inr (h.trans h')

theorem Beyond.onward (h : Beyond lines p q) (h' : Onward lines q r) : Beyond lines p r := by
  rcases h' with rfl | h'
  · exact h
  · exact h.trans h'

theorem Onward.beyond (h : Onward lines p q) (h' : Beyond lines q r) : Beyond lines p r := by
  rcases h with rfl | h
  · exact h'
  · exact h.trans h'

section
variable {tight : Prop} {α β γ δ : Type} {start : Position} {ts : List Token} {tr : Trace Table}

/-- What goes on behind an answer is a fault where that is one, and halted where that is. -/
theorem Answer.continued {c : Move (Option α)} {k : Option α → Move γ} {y : Outcome α × Trace Table}
    {Q : Except Halt (γ × State) → Outcome β × Trace Table → Prop}
    {g : Outcome α × Trace Table → Outcome β × Trace Table} (h : Answer tight lines start (c s) y)
    (hfound : ∀ {a s' rest tr'}, Beyond lines start s'.position → Sees lines s' rest tr' →
      Q (k (some a) s') (g (.found a rest, tr')))
    (hnone : ∀ {s' tr'}, s'.position = start → Knows lines s' tr' → Q (k none s') (g (.noMatch, tr')))
    (hfault : ∀ {f tr'}, Q (.error (.fault f)) (g (.fault f, tr')))
    (hhalted : ∀ {e o}, ¬tight → Q (.error e) o) : Q ((c >>= k) s) (g y) := by
  generalize hc : c s = x at h
  cases h with
  | found hbeyond hsees =>
    rw [bind_ok hc]
    exact hfound hbeyond hsees
  | noMatch hp hknows =>
    rw [bind_ok hc]
    exact hnone hp hknows
  | fault =>
    rw [bind_error hc]
    exact hfault
  | halted ht =>
    rw [bind_error hc]
    exact hhalted ht

theorem Goes.continued {c : Move α} {k : α → Move γ} {y : Outcome α × Trace Table}
    {Q : Except Halt (γ × State) → Outcome β × Trace Table → Prop}
    {g : Outcome α × Trace Table → Outcome β × Trace Table} (h : Goes tight lines start (c s) y)
    (hfound : ∀ {a s' rest tr'}, Onward lines start s'.position → Sees lines s' rest tr' →
      Q (k a s') (g (.found a rest, tr')))
    (hfault : ∀ {f tr'}, Q (.error (.fault f)) (g (.fault f, tr')))
    (hhalted : ∀ {e o}, ¬tight → Q (.error e) o) : Q ((c >>= k) s) (g y) := by
  generalize hc : c s = x at h
  cases h with
  | found honward hsees =>
    rw [bind_ok hc]
    exact hfound honward hsees
  | fault =>
    rw [bind_error hc]
    exact hfault
  | halted ht =>
    rw [bind_error hc]
    exact hhalted ht

section
variable {c d : Move (Option α)} {p₁ p₂ : Production Table α}

theorem Answer.andThen {k : α → Move (Option β)} {f : α → Production Table β}
    (h : Answer tight lines s.position (c s) (p₁ ts tr))
    (hk : ∀ {a s' rest tr'}, Beyond lines s.position s'.position → Sees lines s' rest tr' →
      Answer tight lines s.position (k a s') (f a rest tr')) :
    Answer tight lines s.position (c.andThen k s) ((p₁ >>= f) ts tr) := by
  rw [Production.bind_apply]
  generalize p₁ ts tr = y at h
  apply h.continued (Q := Answer tight lines s.position)
  · exact hk
  · exact .noMatch
  · exact .fault
  · exact .halted

/-- An operand that has to be there. -/
theorem Answer.demand {line : Nat} {problem : SyntaxProblem} (h : Answer tight lines s.position (c s) (p₁ ts tr)) :
    Goes tight lines s.position (c.demand line problem s) (p₁.demand line problem ts tr) := by
  rw [Production.demand, Production.orElse_apply]
  generalize p₁ ts tr = y at h
  apply h.continued (Q := Goes tight lines s.position)
  · exact fun hbeyond hsees => .found (.inr hbeyond) hsees
  · exact fun _ _ => .fault
  · exact .fault
  · exact .halted

theorem Answer.orNil {c : Move (Option (List α))} {p₁ : Production Table (List α)} (hs : Sees lines s ts tr)
    (h : Answer tight lines s.position (c s) (p₁ ts tr)) :
    Goes tight lines s.position (c.orNil s) (p₁.orNil ts tr) := by
  rw [Production.orNil, Production.orElse_apply]
  generalize p₁ ts tr = y at h
  apply h.continued (Q := Goes tight lines s.position)
  · exact fun hbeyond hsees => .found (.inr hbeyond) hsees
  · exact fun hp hknows => .found (.inl hp) (hknows.sees hs hp)
  · exact .fault
  · exact .halted

end

section
variable {c : Move α} {p₁ : Production Table α} (h : Goes tight lines s.position (c s) (p₁ ts tr))
include h

theorem Goes.bind {k : α → Move (Option β)} {f : α → Production Table β}
    (hk : ∀ {a s' rest tr'}, Onward lines s.position s'.position → Sees lines s' rest tr' →
      Answer tight lines start (k a s') (f a rest tr')) :
    Answer tight lines start ((c >>= k) s) ((p₁ >>= f) ts tr) := by
  rw [Production.bind_apply]
  generalize p₁ ts tr = y at h
  apply h.continued (Q := Answer tight lines start)
  · exact hk
  · exact .fault
  · exact .halted

theorem Goes.bind_goes {k : α → Move β} {f : α → Production Table β}
    (hk : ∀ {a s' rest tr'}, Onward lines s.position s'.position → Sees lines s' rest tr' →
      Goes tight lines start (k a s') (f a rest tr')) :
    Goes tight lines start ((c >>= k) s) ((p₁ >>= f) ts tr) := by
  rw [Production.bind_apply]
  generalize p₁ ts tr = y at h
  apply h.continued (Q := Goes tight lines start)
  · exact hk
  · exact .fault
  · exact .halted

end

theorem Goes.of_onward {result : Except Halt (α × State)} {o : Outcome α × Trace Table}
    (hp : Onward lines start p) (h : Goes tight lines p result o) : Goes tight lines start result o := by
  cases h with
  | found honward hsees => exact .found (hp.trans honward) hsees
  | fault => exact .fault
  | halted ht => exact .halted ht

/-- A loop goes as the repetition of its rounds, of which there are no more than tokens. -/
theorem Goes.loop_repeated {round : α → Move (γ ⊕ α)} {p₁ : Production Table β} {goOn : α → β → α} {done : α → γ}
    (hend : ∀ ⦃a s' tr'⦄, Sees lines s' [] tr' → round a s' = .ok (.inl (done a), s'))
    (hround : ∀ ⦃a s' us tr'⦄, Onward lines s.position s'.position → Sees lines s' us tr' →
      Round tight lines s'.position (goOn a) (done a) (round a s') (p₁ us tr')) :
    ∀ {m n : Nat} {a : α} {s' : State} {us : List Token} {tr' : Trace Table}, us.length ≤ m → (tight → us.length < n) →
      Onward lines s.position s'.position → Sees lines s' us tr' →
      Goes tight lines s'.position (Move.loop round n a s')
        ((do let bs ← Production.repeated p₁ m; return done (bs.foldl goOn a)) us tr') := by
  intro m n
  -- on the rounds of the loop; the repetition has its own bound, and both go down with the tokens that are left
  induction n generalizing m with
  | zero =>
    intro a s' us tr' hm hn _ _
    exact .halted fun ht => absurd (hn ht) (Nat.not_lt_zero _)
  | succ n ih =>
    intro a s' us tr' hm hn honward hsees
    have h := hround (a := a) honward hsees
    rw [Move.loop, snapshot_bind]
    generalize hc : round a s' = x at h
    cases m with
    | zero =>
      obtain rfl := List.length_eq_zero_iff.mp (Nat.le_zero.mp hm)
      rw [hend hsees] at hc
      cases hc
      rw [bind_ok (hend hsees)]
      exact .found .refl hsees
    | succ m =>
      generalize ho : p₁ us tr' = y at h
      cases h with
      | @found b s'' rest tr'' hbeyond hsees' =>
        have hlen := hsees.shorter hsees' hbeyond
        have hrest := ih (m := m) (a := goOn a b) (by omega) (fun ht => by have := hn ht; omega)
          (honward.trans (.inr hbeyond)) hsees'
        rw [bind_ok hc, Production.repeated_bind ho]
        simp only [snapshot_bind, if_pos hbeyond.before]
        exact hrest.of_onward (.inr hbeyond)
      | noMatch hp hknows =>
        rw [bind_ok hc, Production.repeated_bind_of_noMatch ho]
        exact .found (.inl hp) (hknows.sees hsees hp)
      | fault =>
        rw [bind_error hc, Production.repeated_bind_of_fault ho]
        exact .fault
      | halted ht =>
        rw [bind_error hc]
        exact .halted ht

theorem Goes.loop {round : α → Move (γ ⊕ α)} {p₁ : Production Table β} (goOn : α → β → α) (done : α → γ) {n : Nat}
    {a : α} (hs : Sees lines s ts tr) (hn : tight → ts.length < n)
    (hend : ∀ ⦃a s' tr'⦄, Sees lines s' [] tr' → round a s' = .ok (.inl (done a), s'))
    (hround : ∀ ⦃a s' us tr'⦄, Onward lines s.position s'.position → Sees lines s' us tr' →
      Round tight lines s'.position (goOn a) (done a) (round a s') (p₁ us tr')) :
    Goes tight lines s.position (Move.loop round n a s)
      ((do let bs ← Production.many p₁; return done (bs.foldl goOn a)) ts tr) := by
  show Goes _ _ _ _ ((do let bs ← Production.repeated p₁ ts.length; return done (bs.foldl goOn a)) ts tr)
  exact Goes.loop_repeated hend hround (Nat.le_refl _) hn .refl hs

/-! ## Chains and lists -/

theorem Goes.answer {c : Move α} {p₁ : Production Table α} {stop : Position}
    (h : Goes tight lines stop (c s) (p₁ ts tr)) (hbeyond : Beyond lines start stop) :
    Answer tight lines start ((do return some (← c)) s) (p₁ ts tr) := by
  refine h.continued (Q := Answer tight lines start) (g := id) (fun honward hsees => ?_) .fault .halted
  exact .found (hbeyond.onward honward) hsees

theorem Goes.round {c : Move α} {p₁ : Production Table α} {goOn : α → β} {done : γ} {stop : Position}
    (h : Goes tight lines stop (c s) (p₁ ts tr)) (hbeyond : Beyond lines start stop) :
    Round tight lines start goOn done ((do return Sum.inr (goOn (← c))) s) (p₁ ts tr) := by
  refine h.continued (Q := Round tight lines start goOn done) (g := id) (fun honward hsees => ?_) .fault .halted
  exact .found (hbeyond.onward honward) hsees

theorem Round.map {x : Except Halt ((δ ⊕ γ) × State)} {p₁ : Production Table α} {f : α → β} {goOn : β → γ} {done : δ}
    (h : Round tight lines start (fun a => goOn (f a)) done x (p₁ ts tr)) :
    Round tight lines start goOn done x ((do return f (← p₁)) ts tr) := by
  rw [Production.bind_apply]
  generalize p₁ ts tr = y at h
  cases h with
  | found hbeyond hsees => exact .found hbeyond hsees
  | noMatch hp hknows => exact .noMatch hp hknows
  | fault => exact .fault
  | halted ht => exact .halted ht

theorem Answer.back {o : Outcome α × Trace Table} (h : Knows lines s tr) (ho : o = (.noMatch, tr)) :
    Answer tight lines start (Move.back start s) o := ho ▸ .noMatch rfl (h.at start)

/-- What comes to nothing goes on with what the continuation does then. -/
theorem Answer.bind {c : Move (Option α)} {p₁ p₂ : Production Table α} {K : Option α → Move (Option β)}
    {f : α → Production Table β} {stop : Position} (h : Answer tight lines stop (c s) (p₁ ts tr))
    (hfound : ∀ {a s' rest tr'}, Beyond lines stop s'.position → Sees lines s' rest tr' →
      Answer tight lines start (K (some a) s') (f a rest tr'))
    (hnone : ∀ {s' tr'}, s'.position = stop → Knows lines s' tr' →
      Answer tight lines start (K none s') ((p₂ >>= f) ts tr')) :
    Answer tight lines start ((c >>= K) s) (((p₁ <|> p₂) >>= f) ts tr) := by
  rw [Production.bind_apply, Production.orElse_apply]
  generalize p₁ ts tr = y at h
  apply h.continued (Q := Answer tight lines start)
  · exact hfound
  · exact hnone
  · exact .fault
  · exact .halted

theorem Answer.orTry_bind {c d : Move (Option α)} {p₁ p₂ : Production Table α} {K : Option α → Move (Option β)}
    {f : α → Production Table β} {stop : Position} (h : Answer tight lines stop (c s) (p₁ ts tr))
    (hfound : ∀ {a s' rest tr'}, Beyond lines stop s'.position → Sees lines s' rest tr' →
      Answer tight lines start (K (some a) s') (f a rest tr'))
    (hnone : ∀ {s' tr'}, s'.position = stop → Knows lines s' tr' →
      Answer tight lines start ((d >>= K) s') ((p₂ >>= f) ts tr')) :
    Answer tight lines start ((c.orTry d >>= K) s) (((p₁ <|> p₂) >>= f) ts tr) := by
  rw [Move.orTry, bind_bind]
  refine h.bind hfound hnone

theorem foldl_concat (as : List α) : ∀ bs : List α, as.foldl (fun bs a => bs ++ [a]) bs = bs ++ as := by
  induction as with
  | nil => simp
  | cons a as ih => simp [ih]

theorem Goes.orElse {x : Except Halt (α × State)} {p₁ p₂ : Production Table α}
    (h : Goes tight lines start x (p₁ ts tr)) : Goes tight lines start x ((p₁ <|> p₂) ts tr) := by
  rw [Production.orElse_apply]
  generalize p₁ ts tr = y at h
  cases h with
  | found honward hs => exact .found honward hs
  | fault => exact .fault
  | halted ht => exact .halted ht

/-! ## Productions -/

namespace Follows

variable {c d : Move (Option α)} {p₁ p₂ : Production Table α}

theorem orTry (h : Follows tight lines start ts c p₁) (h' : Follows tight lines start ts d p₂) :
    Follows tight lines start ts (c.orTry d) (p₁ <|> p₂) := by
  rintro s tr rfl hs
  have hanswer := h rfl hs
  rw [Production.orElse_apply]
  generalize p₁ ts tr = y at hanswer
  apply hanswer.continued (Q := Answer tight lines s.position)
  · exact .found
  · exact fun hp hknows => h' hp (hknows.sees hs hp)
  · exact .fault
  · exact .halted

theorem orBack (h : Follows tight lines start ts c p₁) :
    Follows tight lines start ts (c.orTry (Move.back start)) p₁ := by
  rw [← Production.orElse_noMatch p₁]
  exact h.orTry fun s tr _ hs => .back hs.toKnows rfl

theorem as {f : α → β} (h : Follows tight lines start ts c p₁) :
    Follows tight lines start ts (c.as f) (do return f (← p₁)) := by
  rintro s tr rfl hs
  have hanswer := h rfl hs
  rw [Production.bind_apply]
  generalize p₁ ts tr = y at hanswer
  apply hanswer.continued (Q := Answer tight lines s.position)
  · exact .found
  · exact .noMatch
  · exact .fault
  · exact .halted

theorem terminal {k : Kind} {make : Token → Expr} :
    Follows tight lines start ts (terminal lines k make) (do let t ← Production.token k; return make t) := by
  rintro s tr rfl hs
  rw [Descent.terminal, check_bind, hs.next]
  obtain ⟨t, us, rfl, ht⟩ | hne := Production.next_cases ts k
  · rw [Production.token_bind ht, if_pos (by simp [ht]), advance_bind hs.tokenAt]
    exact .found hs.beyond hs.step
  · rw [Production.token_bind_of_ne hne, if_neg (by simpa using hne)]
    exact .noMatch rfl hs.toKnows

theorem target : Follows tight lines start ts (target lines) Grammar.target := by
  rintro s tr rfl hs
  rw [Descent.target, check_bind, hs.next, Grammar.target]
  obtain ⟨t, us, rfl, ht⟩ | hne := Production.next_cases ts .identifier
  · rw [Production.token_bind ht, if_pos (by simp [ht]), advance_bind hs.tokenAt]
    refine .found hs.beyond ⟨⟨?_, hs.noted⟩, hs.step.left⟩
    exact congrArg (·.declare t.text) hs.scopes
  · rw [Production.token_bind_of_ne hne, if_neg (by simpa using hne)]
    exact .noMatch rfl hs.toKnows

theorem numeral : Follows tight lines start ts (numeral lines) (Grammar.integer <|> Grammar.float) := by
  rintro s tr rfl hs
  rw [Descent.numeral, peek_bind, hs.tokenAt, Production.orElse_apply, Grammar.integer, Grammar.float]
  cases ts with
  | nil => exact .noMatch rfl hs.toKnows
  | cons t us =>
    simp only [List.head?_cons]
    by_cases hinteger : t.kind = .integer
    · rw [if_pos hinteger, Production.token_bind hinteger]
      cases Integer.read? t.text with
      | none => exact .fault
      | some n =>
        simp only
        rw [advance_bind hs.tokenAt]
        exact .found hs.beyond hs.step
    rw [if_neg hinteger, Production.token_bind_of_ne (by simpa using hinteger)]
    by_cases hfloat : t.kind = .float
    · rw [if_pos hfloat]
      simp only
      rw [Production.token_bind hfloat]
      cases FloatText.read? t.text with
      | none => exact .fault
      | some x =>
        simp only
        rw [advance_bind hs.tokenAt]
        exact .found hs.beyond hs.step
    · rw [if_neg hfloat]
      simp only
      rw [Production.token_bind_of_ne (by simpa using hfloat)]
      exact .noMatch rfl hs.toKnows

section
variable {operand : Move (Option Expr)} {g : Production Table Expr} {wanted : Wanted} {rounds : Nat}
  (hoperand : ∀ {stop us}, Beyond lines start stop → Follows tight lines stop us operand g)
include hoperand

theorem chainFrom {op? : Kind → Option BinaryOp} {first : Expr} {stop : Position}
    (hr : tight → (lineAt lines start.line).length - start.index < rounds) (hbeyond : Beyond lines start stop)
    (hs : Sees lines s ts tr) (hstop : s.position = stop) : Answer tight lines start
      (chainFrom lines rounds operand op? wanted first s) (Grammar.chainFrom g op? wanted first ts tr) := by
  subst hstop
  have hlen : tight → ts.length < rounds := by
    intro ht
    have := hr ht
    rw [hs.length, hbeyond.line]
    have := hbeyond.index
    omega
  refine Goes.answer ?_ hbeyond
  refine Goes.loop (fun left (op, line, right) => Expr.binary line op left right) id hs hlen ?_ ?_
  · intro a s₁ tr₁ hs₁
    rw [peekKind_bind, hs₁.tokenAt]
    rfl
  · intro a s₁ us₁ tr₁ honward hs₁
    rw [peekKind_bind, hs₁.next]
    obtain ⟨t, us₁, op, rfl, hop⟩ | hop := Production.symbol_cases us₁ op?
    · rw [Production.symbol_bind hop, Token.next, List.head?_cons, Option.map_some, Option.bind_some, hop]
      simp only
      rw [lineNumber_bind, hs₁.lineNumberAt, advance_bind hs₁.tokenAt]
      have hright := hoperand (hbeyond.onward honward |>.trans hs₁.beyond) rfl hs₁.step
      refine Round.map ?_
      exact hright.demand.round hs₁.beyond
    · rw [Production.symbol_bind_of_none hop, hop]
      exact .noMatch rfl hs₁.toKnows

theorem chain {op? : Kind → Option BinaryOp} (hr : tight → (lineAt lines start.line).length - start.index < rounds)
    (hfirst : Follows tight lines start ts operand g) :
    Follows tight lines start ts (chain lines rounds operand op? wanted) (Grammar.chain g op? wanted) := by
  rintro s tr rfl hs
  exact (hfirst rfl hs).andThen fun hbeyond hs' => chainFrom hoperand hr hbeyond hs' rfl

theorem comparison {op? : Kind → Option Comparison} (hfirst : Follows tight lines start ts operand g) :
    Follows tight lines start ts (comparison lines operand op? wanted) (Grammar.comparison g op? wanted) := by
  rintro s tr rfl hs
  rw [Descent.comparison, snapshot_bind]
  refine (hfirst rfl hs).andThen fun {left s' rest tr'} hbeyond hs' => ?_
  rw [peekKind_bind, hs'.next]
  obtain ⟨t, us, op, rfl, hop⟩ | hop := Production.symbol_cases rest op?
  · rw [Production.symbol_bind hop, Token.next, List.head?_cons, Option.map_some, Option.bind_some, hop]
    simp only
    rw [lineNumber_bind, hs'.lineNumberAt, advance_bind hs'.tokenAt]
    refine (hoperand (hbeyond.trans hs'.beyond) rfl hs'.step).demand.bind fun honward hs'' => ?_
    exact .found ((hbeyond.trans hs'.beyond).onward honward) hs''
  · rw [Production.symbol_bind_of_none hop, hop]
    exact .back hs'.toKnows rfl

/-- A minus sign is taken, so there is no way back to an alternative. -/
theorem minus {t : Token} (ht : t.kind = .minus) (hs : Sees lines s (t :: ts) tr) (hstart : s.position = start) :
    Goes tight lines start.step (minus lines operand wanted s) (Grammar.minus g wanted (t :: ts) tr) := by
  subst hstart
  rw [Descent.minus, lineNumber_bind, hs.lineNumberAt, advance_bind hs.tokenAt, Grammar.minus, Production.token_bind ht]
  exact (hoperand hs.beyond rfl hs.step).demand.bind_goes fun honward hs' => .found honward hs'

end

theorem negated {c : Move (Option Expr)} {p₁ : Production Table Expr} {stop : Position}
    (h : Follows tight lines stop ts c p₁) (op : Negation) (line : Nat) (isNegated : Bool)
    (honward : Onward lines start stop)
    (hs : Sees lines s ts tr) (hstop : s.position = stop) :
    Answer tight lines start ((c >>= negated start op line isNegated) s)
      (((p₁ <|> Grammar.missingFactor isNegated op line) >>= fun e : Expr =>
        (pure (if isNegated then .negate line op e else e) : Production Table Expr)) ts tr) := by
  refine (h hstop hs).bind (fun hbeyond hs' => .found (honward.beyond hbeyond) hs') fun hp hknows => ?_
  cases isNegated with
  | true => exact .fault
  | false => exact .back hknows rfl

/-- With the opening parenthesis behind it. -/
theorem closed {inner : Move (Option Expr)} {g : Production Table Expr} {stop : Position}
    (h : Follows tight lines stop ts inner g) (hbeyond : Beyond lines start stop) (hs : Sees lines s ts tr)
    (hstop : s.position = stop) : Answer tight lines start (closed lines start inner s)
      ((do let e ← g; let _ ← Production.token .rightParen; return e) ts tr) := by
  have hanswer := h hstop hs
  rw [Production.bind_apply]
  generalize g ts tr = y at hanswer
  apply hanswer.continued (Q := Answer tight lines start)
  · intro e s' rest tr' hbeyond' hs
    simp only
    obtain ⟨t, us, rfl, ht⟩ | hne := Production.next_cases rest .rightParen
    · rw [matchKind_bind hs.tokenAt ht, Production.token_bind ht]
      exact .found ((hbeyond.trans hbeyond').trans hs.beyond) hs.step
    · rw [matchKind_bind_of_ne (hs.next ▸ hne), Production.token_bind_of_ne hne]
      exact .back hs.toKnows rfl
  · exact fun _ hknows => .back hknows rfl
  · exact .fault
  · exact .halted

theorem unlessArithmetic {line : Nat} {isNegated : Bool} {e : Expr} (hbeyond : Beyond lines start s.position)
    (hs : Sees lines s ts tr) : Answer tight lines start (unlessArithmetic lines start line isNegated (some e) s)
      ((Production.unlessNext Kind.isArithmetic >>= fun _ =>
        (pure (if isNegated then .negate line .bang e else e) : Production Table Expr)) ts tr) := by
  rw [Descent.unlessArithmetic, peekKind_bind, hs.next]
  cases h : (Token.next ts).any Kind.isArithmetic with
  | true =>
    rw [Production.unlessNext_bind_of_any h]
    exact .back hs.toKnows rfl
  | false =>
    rw [Production.unlessNext_bind h]
    exact .found hbeyond hs

/-- The last that a factor can be, with a way back from behind a negation. -/
theorem parenthesized {inner : Move (Option Expr)} {g : Production Table Expr} {line : Nat} {isNegated : Bool}
    {K : Option Expr → Move (Option Expr)} {f : Expr → Production Table Expr} (honward : Onward lines start s.position)
    (hs : Sees lines s ts tr) (hinner : ∀ {stop us}, Beyond lines start stop → Follows tight lines stop us inner g)
    (hfound : ∀ {e s' rest tr'}, Beyond lines start s'.position → Sees lines s' rest tr' →
      Answer tight lines start (K (some e) s') (f e rest tr'))
    (hnone : ∀ {s'}, K none s' = .ok (none, { s' with position := start })) :
    Answer tight lines start ((parenthesized lines start line isNegated inner >>= K) s)
      (((Grammar.group g <|> do
        Production.unlessNext (· == .leftParen)
        Grammar.missingFactor isNegated .bang line) >>= f) ts tr) := by
  rw [Descent.parenthesized, bind_bind, Production.bind_apply, Production.orElse_apply, Grammar.group]
  obtain ⟨t, us, rfl, ht⟩ | hne := Production.next_cases ts .leftParen
  · rw [matchKind_bind hs.tokenAt ht, Production.token_bind ht, if_pos rfl]
    have hbeyond := honward.beyond hs.beyond
    have h := closed (hinner hbeyond) hbeyond hs.step rfl
    generalize (g >>= fun e => Production.token .rightParen >>= fun _ => pure e) us tr = y at h ⊢
    apply h.continued (Q := Answer tight lines start)
    · exact hfound
    · intro s' tr' hp hknows
      rw [hnone]
      simp only
      have hany : (Token.next (t :: us)).any (· == .leftParen) = true := beq_iff_eq.mpr ht
      rw [Production.unlessNext_bind_of_any hany]
      exact .noMatch rfl (hknows.at start)
    · exact .fault
    · exact .halted
  · have hany : (Token.next ts).any (· == .leftParen) = false := by
      cases hnext : Token.next ts with
      | none => rfl
      | some k => simpa [hnext] using hne
    rw [matchKind_bind_of_ne (hs.next ▸ hne), Production.token_bind_of_ne hne]
    simp only
    rw [Production.unlessNext_bind hany]
    cases isNegated with
    | true => exact .fault
    | false =>
      show Answer _ _ _ (K none s) _
      rw [hnone]
      exact .noMatch rfl (hs.toKnows.at start)

section
variable {item : Move (Option α)} {g : Production Table α}
  (hitem : ∀ {stop us}, Beyond lines start stop → Follows tight lines stop us item g)
include hitem

theorem listOf {wanted : Wanted} {rounds : Nat} (hr : tight → (lineAt lines start.line).length - start.index < rounds)
    (hfirst : Follows tight lines start ts item g) :
    Follows tight lines start ts (listOf lines rounds item wanted) (Production.listOf g wanted) := by
  rintro s tr rfl hs
  refine (hfirst rfl hs).andThen fun {first s' rest tr'} hbeyond hs' => ?_
  have hlen : tight → rest.length < rounds := by
    intro ht
    have := hr ht
    rw [hs'.length, hbeyond.line]
    have := hbeyond.index
    omega
  have hlist (items : List α) : first :: items = id (items.foldl (fun items a => items ++ [a]) [first]) :=
    (foldl_concat items [first]).symm
  refine Goes.answer ?_ hbeyond
  rw [show (fun others => pure (first :: others) : List α → Production Table (List α)) = _ from
    funext fun items => congrArg pure (hlist items)]
  refine Goes.loop (fun items a => items ++ [a]) id hs' hlen ?_ ?_
  · intro items s₁ tr₁ hs₁
    rw [matchKind_bind_of_ne (by simp [hs₁.tokenAt])]
    rfl
  · intro items s₁ us tr₁ honward hs₁
    obtain ⟨t, us, rfl, ht⟩ | hne := Production.next_cases us .comma
    · rw [matchKind_bind hs₁.tokenAt ht, Production.token_bind ht]
      simp only [if_pos]
      rw [lineNumber_bind, hs₁.lineNumberAt_step]
      exact (hitem ((hbeyond.onward honward).trans hs₁.beyond) rfl hs₁.step).demand.round hs₁.beyond
    · rw [matchKind_bind_of_ne (hs₁.next ▸ hne), Production.token_bind_of_ne hne]
      exact .noMatch rfl hs₁.toKnows

end

end Follows

theorem Goes.inParens {list : Move (Option (List α))} {g : Production Table (List α)} {line : Nat}
    {unclosed : SyntaxProblem} (hs : Sees lines s ts tr)
    (hlist : ∀ {stop us}, Beyond lines s.position stop → Follows tight lines stop us list g) :
    Goes tight lines s.position (inParens lines list line unclosed s) (Production.inParens g line unclosed ts tr) := by
  rw [Descent.inParens]
  obtain ⟨t, us, rfl, ht⟩ | hne := Production.next_cases ts .leftParen
  · refine Goes.orElse ?_
    rw [matchKind_bind hs.tokenAt ht, Production.token_bind ht]
    refine ((hlist hs.beyond rfl hs.step).orNil hs.step).bind_goes fun {items s' rest tr'} honward hs' => ?_
    obtain ⟨u, us, rfl, hu⟩ | hne := Production.next_cases rest .rightParen
    · rw [matchKind_bind hs'.tokenAt hu, Production.demand_token_bind hu]
      exact .found (.inr ((hs.beyond.onward honward).trans hs'.beyond)) hs'.step
    · rw [matchKind_bind_of_ne (hs'.next ▸ hne), Production.demand_token_bind_of_ne hne]
      exact .fault
  · rw [matchKind_bind_of_ne (hs.next ▸ hne), Production.inParens, Production.orNil, Production.orElse_apply,
      Production.token_bind_of_ne hne]
    exact .found .refl hs

end

end Sprig.Descent
