import Sprig.Proofs.FullRules

/-!
# Two readings of one text

A `TextBridge` compares two ways to read the same lines, the second one without memory and under other line
numbers. Its relations on traces know how many functions are open and which lines are still to be read:
`fresh` before the first of these lines is touched, and `traces` when a reading of it may have been tried.

`sim_statements` is what it is for: if keeping attempts agrees on single lines, so do the readings of whole
blocks, whatever the bounds on the number of lines they run under.
-/

namespace Sprig

abbrev mapLines (g : Nat → Nat) (lines : List LogicalLine) : List LogicalLine :=
  lines.map (List.map (Token.mapLine g))

theorem mapLines_id (lines : List LogicalLine) : mapLines id lines = lines := by
  rw [mapLines, funext Token.map_mapLine_id]
  exact List.map_id lines

structure TextBridge (σ : Type) where
  notes : Notebook σ
  mapLine : Nat → Nat
  traces : Nat → List LogicalLine → Trace σ → Trace Unit → Prop
  fresh : Nat → List LogicalLine → Trace σ → Trace Unit → Prop
  declare : ∀ {d lines tr tr'} (name : String), traces d lines tr tr' →
    traces d lines { tr with scopes := tr.scopes.declare name } { tr' with scopes := tr'.scopes.declare name }
  declare_fresh : ∀ {d lines tr tr'} (name : String), fresh d lines tr tr' →
    fresh d lines { tr with scopes := tr.scopes.declare name } { tr' with scopes := tr'.scopes.declare name }
  traces_of_fresh : ∀ {d lines tr tr'}, fresh d lines tr tr' → traces d lines tr tr'
  fresh_of_traces : ∀ {d ts rest tr tr'}, traces d (ts :: rest) tr tr' → fresh d rest tr tr'
  push : ∀ {d lines tr tr'} (name : String), fresh d lines tr tr' →
    fresh (d + 1) lines { tr with scopes := tr.scopes.push name } { tr' with scopes := tr'.scopes.push name }
  current : ∀ {d lines tr tr'}, fresh (d + 1) lines tr tr' → tr'.scopes.current = tr.scopes.current
  leave : ∀ {d lines tr tr'}, fresh (d + 1) lines tr tr' →
    fresh d lines { tr with scopes := tr.scopes.leave } { tr' with scopes := tr'.scopes.leave }
  blockLine : ∀ {d header lines tr tr'}, header ≠ [] → fresh d lines tr tr' →
    Reader.blockLine (header.map (Token.mapLine mapLine)) (mapLines mapLine lines) =
      mapLine (Reader.blockLine header lines)
  memory : ∀ (d : Nat) (ts : LogicalLine) (rest : List LogicalLine),
    Bridge.MemorySim ⟨ts, mapLine, traces d (ts :: rest), declare⟩ (notes.page rest.length) .off Rules.full

namespace TextBridge

variable {σ α β γ δ : Type} (T : TextBridge σ)

/-- The bridge for the first of the lines. -/
def bridge (d : Nat) (ts : LogicalLine) (rest : List LogicalLine) : Bridge σ Unit :=
  ⟨ts, T.mapLine, T.traces d (ts :: rest), T.declare⟩

/-- The bridge for the rest of a line on which a scope was opened. -/
def inner (d : Nat) (ts : LogicalLine) (rest : List LogicalLine) : Bridge σ Unit :=
  ⟨ts, T.mapLine, T.fresh d rest, T.declare_fresh⟩

inductive Agrees (u : α → β) (post : α → Trace σ → Trace Unit → Prop) :
    Except Fault (α × Trace σ) → Except Fault (β × Trace Unit) → Prop where
  | ok {a tr tr'} : post a tr tr' → Agrees u post (.ok (a, tr)) (.ok (u a, tr'))
  | error {f} : Agrees u post (.error f) (.error (f.mapLine T.mapLine))

/-- From traces that stand in `pre` the two readings agree, and lead to traces in `post`. -/
def Sim (pre : Trace σ → Trace Unit → Prop) (u : α → β) (post : α → Trace σ → Trace Unit → Prop)
    (x : Reader σ α) (y : Reader Unit β) : Prop :=
  ∀ ⦃tr tr'⦄, pre tr tr' → T.Agrees u post (x tr) (y tr')

namespace Sim

variable {T} {pre pre' : Trace σ → Trace Unit → Prop} {u : α → β} {v : γ → δ}
  {post post' : α → Trace σ → Trace Unit → Prop} {x : Reader σ α} {y : Reader Unit β}

theorem weaken (h : T.Sim pre u post x y) (hpre : ∀ {tr tr'}, pre' tr tr' → pre tr tr')
    (hpost : ∀ {a tr tr'}, post a tr tr' → post' a tr tr') : T.Sim pre' u post' x y := by
  intro tr tr' htr
  have hx := h (hpre htr)
  generalize x tr = x at hx ⊢
  generalize y tr' = y at hx ⊢
  cases hx with
  | ok hp => exact .ok (hpost hp)
  | error => exact .error

theorem pure {a : α} {b : β} (h : b = u a) (hpost : ∀ {tr tr'}, pre tr tr' → post a tr tr') :
    T.Sim pre u post (Pure.pure a) (Pure.pure b) := by
  intro tr tr' htr
  rw [h]
  exact .ok (hpost htr)

theorem throw {f f' : Fault} (h : f' = f.mapLine T.mapLine) :
    T.Sim pre u post (MonadExcept.throw f) (MonadExcept.throw f') := by
  intro tr tr' htr
  rw [h]
  exact .error

theorem bind {postᵥ : γ → Trace σ → Trace Unit → Prop} {k : α → Reader σ γ} {k' : β → Reader Unit δ}
    (h : T.Sim pre u post x y) (hk : ∀ a, T.Sim (post a) v postᵥ (k a) (k' (u a))) :
    T.Sim pre v postᵥ (x >>= k) (y >>= k') := by
  intro tr tr' htr
  have hx := h htr
  show T.Agrees v postᵥ (x tr >>= fun r => k r.1 r.2) (y tr' >>= fun r => k' r.1 r.2)
  generalize x tr = x at hx ⊢
  generalize y tr' = y at hx ⊢
  cases hx with
  | ok hp => exact hk _ hp
  | error => exact .error

theorem assume {c : Prop} (h : c → T.Sim pre u post x y) :
    T.Sim (fun tr tr' => pre tr tr' ∧ c) u post x y :=
  fun _ _ htr => h htr.2 htr.1

end Sim

/-! ## Lines -/

/-- After a try to read a line: it is as it was, or the next line comes with `d'` open functions. -/
def lineDone (d d' : Nat) (ts : LogicalLine) (rest : List LogicalLine) :
    Option α → Trace σ → Trace Unit → Prop
  | none => T.traces d (ts :: rest)
  | some _ => T.fresh d' rest

theorem sim_line {d : Nat} {ts : LogicalLine} {rest : List LogicalLine} {u : α → β}
    {p : Memory σ → Rules σ → Production σ α} {q : Memory Unit → Rules Unit → Production Unit β}
    (h : (T.bridge d ts rest).Sim (ts.length + 1) u
      (p (T.notes.page rest.length) (.upTo (T.notes.page rest.length) ts.length)) (q .off .full))
    (hq : ∀ us, q .off (.upTo .off us.length) us = q .off .full us) :
    T.Sim (T.traces d (ts :: rest)) (Option.map u) (T.lineDone d d ts rest)
      (Reader.line? T.notes p ts rest)
      (Reader.line? .off q (ts.map (Token.mapLine T.mapLine)) (mapLines T.mapLine rest)) := by
  intro tr tr' htr
  have hp := h (List.suffix_refl ts) (Nat.lt_succ_self _) htr
  simp only [Reader.line?, Notebook.off, hq]
  rw [show (T.bridge d ts rest).mapLine = T.mapLine from rfl] at hp
  generalize p (T.notes.page rest.length) (.upTo (T.notes.page rest.length) ts.length) ts tr = x at hp ⊢
  generalize q .off .full (ts.map (Token.mapLine T.mapLine)) tr' = y at hp ⊢
  cases hp with
  | found hrest htr₁ =>
    rename_i a us _ _
    cases us with
    | nil => exact .ok (T.fresh_of_traces htr₁)
    | cons t us => exact .error
  | noMatch htr₁ => exact .ok htr₁
  | fault => exact .error

theorem sim_simple (d : Nat) (ts : LogicalLine) (rest : List LogicalLine) :
    T.Sim (T.traces d (ts :: rest)) (Option.map (List.map (Stmt.mapLine T.mapLine))) (T.lineDone d d ts rest)
      (Reader.line? T.notes Grammar.simple ts rest)
      (Reader.line? .off Grammar.simple (ts.map (Token.mapLine T.mapLine)) (mapLines T.mapLine rest)) :=
  T.sim_line (Bridge.Sim.simple (T.memory d ts rest) (Bridge.rulesSim_full (T.memory d ts rest) _))
    Bridge.simple_upTo

theorem sim_armHeader (d : Nat) (ts : LogicalLine) (rest : List LogicalLine) :
    T.Sim (T.traces d (ts :: rest)) (Option.map fun h => (T.mapLine h.1, h.2.mapLine T.mapLine))
      (T.lineDone d d ts rest) (Reader.line? T.notes Grammar.armHeader ts rest)
      (Reader.line? .off Grammar.armHeader (ts.map (Token.mapLine T.mapLine)) (mapLines T.mapLine rest)) :=
  T.sim_line (Bridge.Sim.armHeader (T.memory d ts rest) (Bridge.rulesSim_full (T.memory d ts rest) _))
    Bridge.armHeader_upTo

theorem sim_loopHeader (d : Nat) (ts : LogicalLine) (rest : List LogicalLine) :
    T.Sim (T.traces d (ts :: rest)) (Option.map fun h => (T.mapLine h.1, h.2.mapLine T.mapLine))
      (T.lineDone d d ts rest) (Reader.line? T.notes Grammar.loopHeader ts rest)
      (Reader.line? .off Grammar.loopHeader (ts.map (Token.mapLine T.mapLine)) (mapLines T.mapLine rest)) :=
  T.sim_line (Bridge.Sim.loopHeader (T.memory d ts rest) (Bridge.rulesSim_full (T.memory d ts rest) _))
    Bridge.loopHeader_upTo

/-- Between the name and the parameters of a function its scope is opened. -/
theorem sim_functionHeader (d : Nat) (ts : LogicalLine) (rest : List LogicalLine) :
    T.Sim (T.traces d (ts :: rest)) (Option.map fun h => (T.mapLine h.1, h.2)) (T.lineDone d (d + 1) ts rest)
      (Reader.line? T.notes (fun _ _ => Grammar.functionHeader) ts rest)
      (Reader.line? .off (fun _ _ => Grammar.functionHeader) (ts.map (Token.mapLine T.mapLine))
        (mapLines T.mapLine rest)) := by
  intro tr tr' htr
  simp only [Reader.line?]
  rcases ts with _ | ⟨t, ts⟩
  · exact .ok htr
  by_cases ht : t.kind = .kwDef
  · rcases ts with _ | ⟨w, ts⟩
    · simp only [List.map_cons, List.map_nil]
      rw [Grammar.functionHeader_alone ht, Grammar.functionHeader_alone (by exact ht)]
      exact .error
    · by_cases hw : w.kind = .identifier
      · have hp : (T.inner (d + 1) ts rest).Sim (ts.length + 1) (fun h => (T.mapLine h.1, h.2))
            (Grammar.parameters t.line w.text >>= fun ps =>
              (pure (t.line, w.text, ps.map (·.2)) : Production σ (Nat × String × List String)))
            (Grammar.parameters (T.mapLine t.line) w.text >>= fun ps =>
              (pure (T.mapLine t.line, w.text, ps.map (·.2)) :
                Production Unit (Nat × String × List String))) := by
          refine Bridge.Sim.bind (Bridge.Sim.parameters rfl) fun ps => Bridge.Sim.pure ?_
          rw [List.map_map]
          rfl
        have hm := hp (List.suffix_refl ts) (Nat.lt_succ_self _)
          (T.push w.text (T.fresh_of_traces (T.declare w.text htr)))
        simp only [List.map_cons]
        rw [Grammar.functionHeader_named ht hw, Grammar.functionHeader_named (by exact ht) (by exact hw)]
        rw [show (T.inner (d + 1) ts rest).mapLine = T.mapLine from rfl] at hm
        simp only [Token.mapLine_line, Token.mapLine_text]
        revert hm
        generalize hx : ((Grammar.parameters t.line w.text >>= fun ps => pure (t.line, w.text, ps.map (·.2))) :
          Production σ _) ts _ = x
        generalize ((Grammar.parameters (T.mapLine t.line) w.text >>= fun ps =>
          pure (T.mapLine t.line, w.text, ps.map (·.2))) : Production Unit _) _ _ = y
        intro hm
        cases hm with
        | found hrest htr₁ =>
          rename_i a us _ _
          cases us with
          | nil => exact .ok htr₁
          | cons t us => exact .error
        | noMatch _ => exact absurd hx (Grammar.parameters_bind_ne_noMatch _ _ _ _ _ _)
        | fault => exact .error
      · simp only [List.map_cons]
        rw [Grammar.functionHeader_unnamed ht hw, Grammar.functionHeader_unnamed (by exact ht) (by exact hw)]
        exact .error
  · simp only [List.map_cons]
    rw [Grammar.functionHeader_of_ne ht, Grammar.functionHeader_of_ne (by exact ht)]
    exact .ok htr

/-! ## Blocks -/

/-- After a reading of lines, with at most `n` of them left. -/
def linesLeft (d n : Nat) (lines : List LogicalLine) (tr : Trace σ) (tr' : Trace Unit) : Prop :=
  T.traces d lines tr tr' ∧ lines.length ≤ n

/-- After a try to take something off the given lines: they are as they were, or fewer. -/
def linesDone (d : Nat) (lines : List LogicalLine) (rest : α → List LogicalLine) :
    Option α → Trace σ → Trace Unit → Prop
  | none => T.traces d lines
  | some a => fun tr tr' => T.fresh d (rest a) tr tr' ∧ (rest a).length < lines.length

theorem sim_keyword (k : Kind) (d : Nat) (lines : List LogicalLine) :
    T.Sim (T.traces d lines) (Option.map fun r => (r.1.map (Token.mapLine T.mapLine), mapLines T.mapLine r.2))
      (fun o tr tr' => (∀ r ∈ o, r.1 ≠ []) ∧ T.linesDone d lines Prod.snd o tr tr')
      (Reader.keyword? k lines) (Reader.keyword? k (mapLines T.mapLine lines)) := by
  have hnone (lines : List LogicalLine) : T.Sim (T.traces d lines)
      (Option.map fun r => (r.1.map (Token.mapLine T.mapLine), mapLines T.mapLine r.2))
      (fun o tr tr' => (∀ r ∈ o, r.1 ≠ []) ∧ T.linesDone d lines Prod.snd o tr tr')
      (pure none) (pure none) :=
    Sim.pure rfl fun htr => ⟨(fun r hr => by cases hr), htr⟩
  rcases lines with _ | ⟨_ | ⟨t, ts⟩, rest⟩
  · exact hnone _
  · exact hnone _
  · simp only [mapLines, List.map_cons, Reader.keyword?, Token.mapLine_kind]
    by_cases hk : t.kind = k
    · simp only [hk, if_true]
      cases ts with
      | nil =>
        refine Sim.pure rfl fun htr => ⟨?_, And.intro (T.fresh_of_traces htr) (Nat.lt_succ_self _)⟩
        intro r hr
        cases hr
        exact List.cons_ne_nil _ _
      | cons w ws => exact Sim.throw rfl
    · simp only [hk, if_false]
      exact hnone _

theorem sim_close (keyword : String) (line : Nat) (d : Nat) (lines : List LogicalLine) :
    T.Sim (T.traces d lines) (mapLines T.mapLine)
      (fun rest tr tr' => T.fresh d rest tr tr' ∧ rest.length < lines.length)
      (Reader.close keyword line lines) (Reader.close keyword (T.mapLine line) (mapLines T.mapLine lines)) := by
  refine Sim.bind (T.sim_keyword .kwEnd d lines) fun o => ?_
  cases o with
  | none => exact Sim.throw rfl
  | some r => exact Sim.pure rfl fun h => h.2

theorem kind_head?_mapLine (g : Nat → Nat) (ts : LogicalLine) :
    (ts.map (Token.mapLine g)).head?.map Token.kind = ts.head?.map Token.kind := by
  cases ts <;> rfl

theorem ne_nil_of_kind {ts : LogicalLine} {k : Kind} (hk : ts.head?.map Token.kind = some k) : ts ≠ [] := by
  intro he
  rw [he] at hk
  cases hk

/-- Two ways to read blocks that agree on up to `n` lines. -/
def BodySim (n : Nat) (body : Reader.Body σ) (body' : Reader.Body Unit) : Prop :=
  ∀ (d : Nat) (header : LogicalLine) (lines : List LogicalLine), header ≠ [] → lines.length ≤ n →
    T.Sim (T.fresh d lines) (fun r => (r.1.mapLine T.mapLine, mapLines T.mapLine r.2))
      (fun r => T.linesLeft d lines.length r.2) (body header lines)
      (body' (header.map (Token.mapLine T.mapLine)) (mapLines T.mapLine lines))

section
variable {T} {n : Nat} {body : Reader.Body σ} {body' : Reader.Body Unit} (hbody : T.BodySim n body body')
include hbody

theorem sim_headed {d d' : Nat} {ts : LogicalLine} {rest : List LogicalLine} {u : α → β}
    {p : Memory σ → Rules σ → Production σ α} {q : Memory Unit → Rules Unit → Production Unit β}
    (h : T.Sim (T.traces d (ts :: rest)) (Option.map u) (T.lineDone d d' ts rest)
      (Reader.line? T.notes p ts rest)
      (Reader.line? .off q (ts.map (Token.mapLine T.mapLine)) (mapLines T.mapLine rest)))
    (hts : ts ≠ []) (hn : rest.length ≤ n) :
    T.Sim (T.traces d (ts :: rest))
      (Option.map fun r => (u r.1, r.2.1.mapLine T.mapLine, mapLines T.mapLine r.2.2))
      (fun o => match o with
        | none => T.traces d (ts :: rest)
        | some r => T.linesLeft d' rest.length r.2.2)
      (Reader.headed? T.notes body p ts rest)
      (Reader.headed? .off body' q (ts.map (Token.mapLine T.mapLine)) (mapLines T.mapLine rest)) := by
  refine Sim.bind h fun o => ?_
  cases o with
  | none => exact Sim.pure rfl fun htr => htr
  | some a =>
    refine Sim.bind (hbody d' ts rest hts hn) fun r => ?_
    exact Sim.pure rfl fun h => h

theorem sim_arms (d : Nat) : ∀ (k : Nat) (lines : List LogicalLine), lines.length ≤ n + 1 →
    T.Sim (T.traces d lines) (fun r => (r.1.map (Arm.mapLine T.mapLine), mapLines T.mapLine r.2))
      (fun r => T.linesLeft d lines.length r.2)
      (Reader.arms T.notes body k lines) (Reader.arms .off body' k (mapLines T.mapLine lines))
  | 0, _, _ => Sim.pure rfl fun htr => ⟨htr, Nat.le_refl _⟩
  | _ + 1, [], _ => Sim.pure rfl fun htr => ⟨htr, Nat.le_refl _⟩
  | _ + 1, [] :: _, _ => Sim.pure rfl fun htr => ⟨htr, Nat.le_refl _⟩
  | k + 1, (t :: ts) :: rest, hn => by
    have hrest : rest.length ≤ n := Nat.le_of_succ_le_succ hn
    simp only [mapLines, List.map_cons, Reader.arms, Token.mapLine_kind]
    by_cases ht : t.kind = .kwElif
    · simp only [ht, if_true]
      refine Sim.bind (sim_headed hbody (T.sim_armHeader d (t :: ts) rest) (List.cons_ne_nil _ _) hrest)
        fun o => ?_
      cases o with
      | none => exact Sim.pure rfl fun htr => ⟨htr, Nat.le_refl _⟩
      | some r =>
        obtain ⟨⟨line, condition⟩, block, rest'⟩ := r
        refine Sim.assume fun hlen => ?_
        have hlen : rest'.length ≤ rest.length := hlen
        refine Sim.bind (sim_arms d k rest' (by omega)) fun others => ?_
        exact Sim.pure rfl fun h => ⟨h.1, Nat.le_succ_of_le (Nat.le_trans h.2 hlen)⟩
    · simp only [ht, if_false]
      exact Sim.pure rfl fun htr => ⟨htr, Nat.le_refl _⟩

theorem sim_otherwise (d : Nat) (lines : List LogicalLine) (hn : lines.length ≤ n + 1) :
    T.Sim (T.traces d lines) (fun r => (r.1.map (Block.mapLine T.mapLine), mapLines T.mapLine r.2))
      (fun r => T.linesLeft d lines.length r.2)
      (Reader.otherwise body lines) (Reader.otherwise body' (mapLines T.mapLine lines)) := by
  refine Sim.bind (T.sim_keyword .kwElse d lines) fun o => ?_
  cases o with
  | none => exact Sim.pure rfl fun h => ⟨h.2, Nat.le_refl _⟩
  | some r =>
    intro tr tr' h
    have hlen := h.2.2
    refine Sim.bind (hbody d r.1 r.2 (h.1 r rfl) (by omega)) (fun b => ?_) h.2.1
    exact Sim.pure rfl fun h => ⟨h.1, Nat.le_trans h.2 (Nat.le_of_lt hlen)⟩

theorem sim_choose (d : Nat) (ts : LogicalLine) (rest : List LogicalLine) (hn : rest.length ≤ n)
    (hk : ts.head?.map Token.kind = some .kwIf) :
    T.Sim (T.traces d (ts :: rest))
      (Option.map fun r => (r.1.map (Stmt.mapLine T.mapLine), mapLines T.mapLine r.2))
      (T.linesDone d (ts :: rest) Prod.snd)
      (Reader.statement? T.notes body ts rest)
      (Reader.statement? .off body' (ts.map (Token.mapLine T.mapLine)) (mapLines T.mapLine rest)) := by
  simp only [Reader.statement?, kind_head?_mapLine, hk]
  refine Sim.bind (sim_headed hbody (T.sim_armHeader d ts rest) (ne_nil_of_kind hk) hn) fun o => ?_
  cases o with
  | none => exact Sim.pure rfl fun htr => htr
  | some r =>
    obtain ⟨⟨line, condition⟩, block, rest₁⟩ := r
    refine Sim.assume fun hlen₁ => ?_
    have hlen₁ : rest₁.length ≤ rest.length := hlen₁
    simp only [Option.map_some, List.length_map]
    refine Sim.bind (sim_arms hbody d rest₁.length rest₁ (by omega)) fun others => ?_
    obtain ⟨others, rest₂⟩ := others
    refine Sim.assume fun hlen₂ => ?_
    have hlen₂ : rest₂.length ≤ rest₁.length := hlen₂
    refine Sim.bind (sim_otherwise hbody d rest₂ (by omega)) fun last => ?_
    obtain ⟨last, rest₃⟩ := last
    refine Sim.assume fun hlen₃ => ?_
    have hlen₃ : rest₃.length ≤ rest₂.length := hlen₃
    refine Sim.bind (T.sim_close "if" line d rest₃) fun rest₄ => ?_
    refine Sim.pure ?_ fun h => And.intro h.1 ?_
    · simp only [Option.map_some, List.map_cons, List.map_nil, Stmt.mapLine, Arm.mapLine,
        Arm.mapLineAll_eq, Block.mapLineOption_eq]
    · have hlen₄ := h.2
      simp only [List.length_cons]
      omega

theorem sim_loop (d : Nat) (ts : LogicalLine) (rest : List LogicalLine) (hn : rest.length ≤ n)
    (hk : ts.head?.map Token.kind = some .kwWhile) :
    T.Sim (T.traces d (ts :: rest))
      (Option.map fun r => (r.1.map (Stmt.mapLine T.mapLine), mapLines T.mapLine r.2))
      (T.linesDone d (ts :: rest) Prod.snd)
      (Reader.statement? T.notes body ts rest)
      (Reader.statement? .off body' (ts.map (Token.mapLine T.mapLine)) (mapLines T.mapLine rest)) := by
  simp only [Reader.statement?, kind_head?_mapLine, hk]
  refine Sim.bind (sim_headed hbody (T.sim_loopHeader d ts rest) (ne_nil_of_kind hk) hn) fun o => ?_
  cases o with
  | none => exact Sim.pure rfl fun htr => htr
  | some r =>
    obtain ⟨⟨line, condition⟩, block, rest₁⟩ := r
    refine Sim.assume fun hlen₁ => ?_
    have hlen₁ : rest₁.length ≤ rest.length := hlen₁
    refine Sim.bind (T.sim_close "while" line d rest₁) fun rest₂ => ?_
    refine Sim.pure rfl fun h => And.intro h.1 ?_
    have hlen₂ := h.2
    simp only [List.length_cons]
    omega

theorem sim_define (d : Nat) (ts : LogicalLine) (rest : List LogicalLine) (hn : rest.length ≤ n)
    (hk : ts.head?.map Token.kind = some .kwDef) :
    T.Sim (T.traces d (ts :: rest))
      (Option.map fun r => (r.1.map (Stmt.mapLine T.mapLine), mapLines T.mapLine r.2))
      (T.linesDone d (ts :: rest) Prod.snd)
      (Reader.statement? T.notes body ts rest)
      (Reader.statement? .off body' (ts.map (Token.mapLine T.mapLine)) (mapLines T.mapLine rest)) := by
  simp only [Reader.statement?, kind_head?_mapLine, hk]
  refine Sim.bind (sim_headed hbody (T.sim_functionHeader d ts rest) (ne_nil_of_kind hk) hn) fun o => ?_
  cases o with
  | none => exact Sim.pure rfl fun htr => htr
  | some r =>
    obtain ⟨⟨line, name, params⟩, block, rest₁⟩ := r
    refine Sim.assume fun hlen₁ => ?_
    have hlen₁ : rest₁.length ≤ rest.length := hlen₁
    refine Sim.bind (T.sim_close "def" line (d + 1) rest₁) fun rest₂ => ?_
    intro tr tr' h
    have hlen₂ := h.2
    -- the function keeps the scope that is open here, which both readings have filled alike
    show T.Agrees _ _
      (.ok (some ([Stmt.define ⟨name, params, line, block, tr.scopes.current⟩], rest₂),
        { tr with scopes := tr.scopes.leave }))
      (.ok (some ([Stmt.define ⟨name, params, T.mapLine line, block.mapLine T.mapLine, tr'.scopes.current⟩],
        mapLines T.mapLine rest₂), { tr' with scopes := tr'.scopes.leave }))
    rw [T.current h.1]
    refine .ok (And.intro (T.leave h.1) ?_)
    simp only [List.length_cons]
    omega

theorem sim_statement (d : Nat) (ts : LogicalLine) (rest : List LogicalLine) (hn : rest.length ≤ n) :
    T.Sim (T.traces d (ts :: rest))
      (Option.map fun r => (r.1.map (Stmt.mapLine T.mapLine), mapLines T.mapLine r.2))
      (T.linesDone d (ts :: rest) Prod.snd)
      (Reader.statement? T.notes body ts rest)
      (Reader.statement? .off body' (ts.map (Token.mapLine T.mapLine)) (mapLines T.mapLine rest)) := by
  by_cases hif : ts.head?.map Token.kind = some .kwIf
  · exact sim_choose hbody d ts rest hn hif
  by_cases hwhile : ts.head?.map Token.kind = some .kwWhile
  · exact sim_loop hbody d ts rest hn hwhile
  by_cases hdef : ts.head?.map Token.kind = some .kwDef
  · exact sim_define hbody d ts rest hn hdef
  simp only [Reader.statement?, kind_head?_mapLine]
  refine Sim.bind (T.sim_simple d ts rest) fun o => ?_
  cases o with
  | none => exact Sim.pure rfl fun htr => htr
  | some ss => exact Sim.pure rfl fun htr => And.intro htr (Nat.lt_succ_self _)

end

theorem sim_statements : ∀ (n n' d : Nat) (lines : List LogicalLine), lines.length ≤ n → lines.length ≤ n' →
    T.Sim (T.fresh d lines) (fun r => (r.1.map (Stmt.mapLine T.mapLine), mapLines T.mapLine r.2))
      (fun r => T.linesLeft d lines.length r.2)
      (Reader.statements T.notes n lines) (Reader.statements .off n' (mapLines T.mapLine lines))
  | 0, 0, _, [], _, _ => Sim.pure rfl fun htr => ⟨T.traces_of_fresh htr, Nat.le_refl _⟩
  | 0, _ + 1, _, [], _, _ => Sim.pure rfl fun htr => ⟨T.traces_of_fresh htr, Nat.le_refl _⟩
  | _ + 1, 0, _, [], _, _ => Sim.pure rfl fun htr => ⟨T.traces_of_fresh htr, Nat.le_refl _⟩
  | _ + 1, _ + 1, _, [], _, _ => Sim.pure rfl fun htr => ⟨T.traces_of_fresh htr, Nat.le_refl _⟩
  | n + 1, n' + 1, d, ts :: rest, hn, hn' => by
    have hn : rest.length ≤ n := Nat.le_of_succ_le_succ hn
    have hn' : rest.length ≤ n' := Nat.le_of_succ_le_succ hn'
    simp only [mapLines, List.map_cons, Reader.statements]
    refine Sim.bind ((sim_statement (n := rest.length) ?_ d ts rest (Nat.le_refl _)).weaken
      T.traces_of_fresh fun h => h) fun o => ?_
    · intro d header lines hheader hlines tr tr' htr
      refine Sim.bind (sim_statements n n' d lines (by omega) (by omega)) (fun r => ?_) htr
      refine Sim.pure ?_ fun h => h
      rw [Block.mapLine, Stmt.mapLineAll_eq, T.blockLine hheader htr]
    · cases o with
      | none => exact Sim.pure rfl fun htr => ⟨htr, Nat.le_refl _⟩
      | some r =>
        obtain ⟨ss, rest'⟩ := r
        refine Sim.assume fun hlen => ?_
        have hlen : rest'.length < rest.length + 1 := hlen
        refine Sim.bind (sim_statements n n' d rest' (by omega) (by omega)) fun r => ?_
        refine Sim.pure ?_ fun h => ⟨h.1, Nat.le_trans h.2 (Nat.le_of_lt hlen)⟩
        simp only [List.map_append]

end TextBridge

end Sprig
