import Sprig.Eval
import Sprig.Proofs.FrameLemmas
import Sprig.Proofs.Params
import Sprig.Proofs.ValueLemmas

/-!
# Runs with more names

The same code runs in two machines, of which the second one binds more names. As long as the first run goes
well it never looks at such a name, so the second run does the same (`Beside`). Only a fault of the first run
may be due to a name it lacks.

Values that are functions need care: a global parameter is dropped without a word by a machine that lacks the
name. So the functions at hand only have parameters that the first machine binds (`Value.ParamsIn`).
-/

namespace Sprig

/-- The second frame binds what the first one does, and some names more, to nil. -/
def Frame.Extends (extra : String → Bool) (f f' : Frame) : Prop :=
  ∀ name, f'.get? name = (f.get? name).or (if extra name then some .nil else none)

def Value.ParamsIn (G : List String) : Value → Prop
  | .func f => f.ParamsIn G
  | _ => True

def Frame.ParamsIn (G : List String) (f : Frame) : Prop := ∀ ⦃name v⦄, f.get? name = some v → v.ParamsIn G

theorem Value.ParamsIn.mono {G H : List String} (hGH : ∀ n ∈ G, n ∈ H) {v : Value} (h : v.ParamsIn G) :
    v.ParamsIn H := by
  cases v with
  | func f => exact Func.ParamsIn.mono hGH h
  | _ => trivial

section
variable {G : List String} {l r v w : Value}

theorem Value.paramsIn_iff : v.ParamsIn G ↔ ∀ f, v = .func f → f.ParamsIn G := by
  cases v <;> simp [Value.ParamsIn]

theorem Value.paramsIn_binary {op : BinaryOp} (hl : l.ParamsIn G) (hr : r.ParamsIn G)
    (h : Value.binary op l r = .ok v) : v.ParamsIn G := by
  rw [paramsIn_iff] at hl hr ⊢
  rintro f rfl
  rcases binary_eq_func h with h | h
  · exact hl f h
  · exact hr f h

theorem Value.paramsIn_negate {op : Negation} (h : Value.negate op v = .ok w) : w.ParamsIn G := by
  rw [paramsIn_iff]
  rintro f rfl
  exact absurd h negate_ne_func

theorem Value.paramsIn_ofLiteral (v : Literal) : (Value.ofLiteral v).ParamsIn G :=
  paramsIn_iff.mpr fun _ h => absurd h (ofLiteral_ne_func v)

end

/-- What does not change in two runs while no call begins or ends: the names that the frame of the first one
binds, those that the second one binds in addition, the frames below, and whether the values evaluated last
have to be the same. -/
structure Sides where
  names : List String
  extra : String → Bool
  below : List Frame
  below' : List Frame
  tied : Prop

/-- The first machine binds the globals `G` and lacks the extra ones. Global parameters are among `G`. -/
structure Beside (G : List String) (extra : String → Bool) (d : Sides) (m m' : Machine) : Prop where
  console : m'.console = m.console
  hasRun : m.hasRun = true
  binds : m.globals.Binds G
  globals : m.globals.Extends extra m'.globals
  globalParams : m.globals.ParamsIn G
  frames : ∃ f f', m.frames = f :: d.below ∧ m'.frames = f' :: d.below' ∧ f.Binds d.names ∧
    f.Extends d.extra f' ∧ f.ParamsIn G
  last : d.tied → m'.last = m.last
  lastParams : m.last.ParamsIn G

/-! ## Names -/

theorem Frame.Extends.set? {extra : String → Bool} {f f' : Frame} {name : String} (h : f.Extends extra f')
    (hb : (f.get? name).isSome = true) (v : Value) :
    ∃ g g', f.set? name v = some g ∧ f'.set? name v = some g' ∧ g.Extends extra g' := by
  have hb' : (f'.get? name).isSome = true := by rw [h, Option.isSome_or, hb]; rfl
  obtain ⟨g, hg⟩ := Frame.set?_eq_some (v := v) hb
  obtain ⟨g', hg'⟩ := Frame.set?_eq_some (v := v) hb'
  refine ⟨g, g', hg, hg', fun other => ?_⟩
  rw [Frame.get?_set? hg, Frame.get?_set? hg', h other]
  split <;> rfl

theorem Frame.ParamsIn.set? {G : List String} {f g : Frame} {name : String} {v : Value} (h : f.ParamsIn G)
    (hv : v.ParamsIn G) (hg : f.set? name v = some g) : g.ParamsIn G :=
  Frame.forall_get?_set? h hv hg

namespace Beside

variable {G : List String} {extra : String → Bool} {d : Sides} {m m' : Machine} {name : String} {v : Value}

/-- A name that only the second machine binds. -/
def lacks (extra : String → Bool) (d : Sides) (name : String) : Bool :=
  if isGlobalName name then extra name else d.extra name

theorem get? (h : Beside G extra d m m') (name : String) :
    m'.get? name = (m.get? name).or (if lacks extra d name then some .nil else none) := by
  obtain ⟨f, f', hf, hf', -, hframe, -⟩ := h.frames
  unfold Machine.get? lacks
  by_cases hg : isGlobalName name = true
  · simp only [hg, if_true]
    exact h.globals name
  · simp only [hg, hf, hf']
    exact hframe name

theorem paramsIn_get? (h : Beside G extra d m m') (hv : m.get? name = some v) : v.ParamsIn G := by
  obtain ⟨f, f', hf, -, -, -, hparams⟩ := h.frames
  unfold Machine.get? at hv
  split at hv
  · exact h.globalParams hv
  · rw [hf] at hv
    exact hparams hv

theorem set?_none {f : Frame} {below : List Frame} (hf : m.frames = f :: below) (hv : m.get? name = none)
    (v : Value) : m.set? name v = none := by
  unfold Machine.get? at hv
  unfold Machine.set?
  split at hv
  · rename_i hg
    rw [if_pos hg, Frame.set?_eq_none hv]
    rfl
  · rename_i hg
    rw [hf] at hv ⊢
    rw [if_neg hg]
    simp only [Frame.set?_eq_none (show f.get? name = none from hv), Option.map_none]

theorem set? (h : Beside G extra d m m') (hb : (m.get? name).isSome = true) (hv : v.ParamsIn G) :
    ∃ m₁ m₁', m.set? name v = some m₁ ∧ m'.set? name v = some m₁' ∧ Beside G extra d m₁ m₁' := by
  obtain ⟨f, f', hf, hf', hbinds, hframe, hparams⟩ := h.frames
  unfold Machine.get? at hb
  unfold Machine.set?
  by_cases hg : isGlobalName name = true
  · rw [if_pos hg] at hb
    obtain ⟨g, g', hset, hset', hext⟩ := h.globals.set? hb v
    rw [if_pos hg, if_pos hg, hset, hset']
    exact ⟨_, _, rfl, rfl, ⟨h.console, h.hasRun, h.binds.set? hset, hext, h.globalParams.set? hv hset, h.frames,
      h.last, h.lastParams⟩⟩
  · rw [if_neg hg, hf] at hb
    obtain ⟨g, g', hset, hset', hext⟩ := hframe.set? hb v
    rw [if_neg hg, if_neg hg, hf, hf']
    simp only [hset, hset', Option.map_some]
    exact ⟨_, _, rfl, rfl, ⟨h.console, h.hasRun, h.binds, h.globals, h.globalParams,
      ⟨g, g', rfl, rfl, hbinds.set? hset, hext, hparams.set? hv hset⟩, h.last, h.lastParams⟩⟩

end Beside

/-! ## What the steps of a run do -/

namespace Eval

section
variable {m m₁ : Machine} {name : String} {v : Value} {line : Nat}

theorem get_bind {α : Type} (f : Machine → Eval α) (m : Machine) : (get >>= f) m = f m m := rfl

theorem load_some (h : m.get? name = some v) : load line name m = .ok v m := by
  rw [load, get_bind, h]
  rfl

theorem load_none (h : m.get? name = none) :
    load line name m = .error (.fault ⟨line, .runtime (.undefinedVariable name)⟩) m := by
  rw [load, get_bind, h]
  rfl

theorem store_some (h : m.set? name v = some m₁) : store line name v m = .ok () m₁ := by
  rw [store, get_bind, h]
  rfl

theorem store_none (h : m.set? name v = none) :
    store line name v m = .error (.fault ⟨line, .runtime (.undefinedVariable name)⟩) m := by
  rw [store, get_bind, h]
  rfl

theorem write_apply (line : Nat) (text : String) (m : Machine) : write line text m =
    if m.console.fits text then .ok () { m with console := m.console.write text }
    else .error (.fault ⟨line, .runtime (.outputFailed Console.full)⟩)
      { m with console := m.console.write text } := by
  change (if !m.console.fits text then fail line (.outputFailed Console.full) else pure () : Eval Unit)
    { m with console := m.console.write text } = _
  cases m.console.fits text <;> rfl

theorem readLine_apply (line : Nat) (m : Machine) : readLine line m =
    match m.console.next? with
    | none => .ok .nil { m with last := .nil }
    | some (.text s, console) =>
      .ok (.string (Console.withoutBreak s)) { m with console, last := .string (Console.withoutBreak s) }
    | some (.undecodable, console) =>
      .error (.fault ⟨line, .runtime (.inputFailed Console.notText)⟩) { m with console } := by
  rw [readLine, get_bind]
  rcases m.console.next? with _ | ⟨_ | _, console⟩ <;> rfl

end

end Eval

namespace Stmt

variable {call : Caller} {fuel : Nat} {s : Stmt} {ss : List Stmt} {stop : Stop} {m m₁ : Machine}

theorem execAll_ok (h : s.exec call fuel m = .ok () m₁) :
    Stmt.execAll call fuel (s :: ss) m = Stmt.execAll call fuel ss m₁ := by
  show EStateM.bind (s.exec call fuel) (fun _ => Stmt.execAll call fuel ss) m = _
  rw [EStateM.bind, h]

theorem execAll_error (h : s.exec call fuel m = .error stop m₁) :
    Stmt.execAll call fuel (s :: ss) m = .error stop m₁ := by
  show EStateM.bind (s.exec call fuel) (fun _ => Stmt.execAll call fuel ss) m = _
  rw [EStateM.bind, h]

theorem exec_call_error {name : String} {f : Func} {line : Nat} (hm : m.get? name = some (.func f))
    (h : call f [] line m = .error stop m₁) : (Stmt.expr (.call line name [])).exec call fuel m = .error stop m₁ := by
  show EStateM.map _ (EStateM.bind (Eval.load line name) _) m = _
  simp only [EStateM.map, EStateM.bind, Eval.load_some hm, Expr.evalAll, pure_bind]
  rw [show (call f [] line >>= _) m = EStateM.bind (call f [] line) Eval.remember m from rfl, EStateM.bind, h]

end Stmt

/-! ## Two runs -/

/-- The second machine lacks nothing. -/
def Sides.Exact (extra : String → Bool) (d : Sides) : Prop := ∀ name, extra name = false ∧ d.extra name = false

theorem Beside.not_exact {extra : String → Bool} {d : Sides} {name : String} (h : lacks extra d name = true) :
    ¬ d.Exact extra := by
  intro hd
  unfold lacks at h
  split at h
  · rw [(hd name).1] at h
    cases h
  · rw [(hd name).2] at h
    cases h

/-- How two runs compare: both go well with the same result, or both stop at the same fault. Nothing is said
when the first one runs out of fuel, or is at fault where the second one has more names. -/
inductive Agree {α : Type} (G : List String) (extra : String → Bool) (d : Sides) (P : α → Prop) :
    EStateM.Result Stop Machine α → EStateM.Result Stop Machine α → Prop where
  | ok {a m m'} : P a → Beside G extra d m m' → Agree G extra d P (.ok a m) (.ok a m')
  | fault {f m m'} : Beside G extra d m m' → Agree G extra d P (.error (.fault f) m) (.error (.fault f) m')
  | apart {f m r} : ¬ d.Exact extra → Agree G extra d P (.error (.fault f) m) r
  | outOfFuel {m r} : Agree G extra d P (.error .outOfFuel m) r

namespace Eval

variable {α β : Type} {G : List String} {extra : String → Bool} {d : Sides} {P : α → Prop} {Q : β → Prop}

/-- From machines that stand beside each other the runs agree, and what they result in is in `P`. -/
def Sim (G : List String) (extra : String → Bool) (d : Sides) (P : α → Prop) (x y : Eval α) : Prop :=
  ∀ ⦃m m'⦄, Beside G extra d m m' → Agree G extra d P (x m) (y m')

namespace Sim

variable {x y : Eval α} {f g : α → Eval β}

theorem pure {a : α} (h : P a) : Sim G extra d P (Pure.pure a) (Pure.pure a) :=
  fun _ _ hm => .ok h hm

theorem bind (h : Sim G extra d P x y) (hf : ∀ a, P a → Sim G extra d Q (f a) (g a)) :
    Sim G extra d Q (x >>= f) (y >>= g) := by
  intro m m' hm
  have hx := h hm
  show Agree G extra d Q (EStateM.bind x f m) (EStateM.bind y g m')
  unfold EStateM.bind
  generalize x m = r at hx ⊢
  generalize y m' = r' at hx ⊢
  cases hx with
  | ok ha hm => exact hf _ ha hm
  | fault hm => exact .fault hm
  | apart hd => exact .apart hd
  | outOfFuel => exact .outOfFuel

theorem discard (h : Sim G extra d P x y) :
    Sim G extra d (fun _ => True) (Functor.discard x) (Functor.discard y) := by
  intro m m' hm
  have hx := h hm
  show Agree G extra d _ (EStateM.map (fun _ => ()) x m) (EStateM.map (fun _ => ()) y m')
  unfold EStateM.map
  generalize x m = r at hx ⊢
  generalize y m' = r' at hx ⊢
  cases hx with
  | ok ha hm => exact .ok trivial hm
  | fault hm => exact .fault hm
  | apart hd => exact .apart hd
  | outOfFuel => exact .outOfFuel

theorem fail (line : Nat) (problem : RuntimeProblem) :
    Sim G extra d P (fail line problem : Eval α) (Eval.fail line problem) :=
  fun _ _ hm => .fault hm

theorem ofExcept (line : Nat) {e : Except RuntimeProblem α} (h : ∀ a, e = .ok a → P a) :
    Sim G extra d P (ofExcept line e) (Eval.ofExcept line e) := by
  cases e with
  | ok a => exact pure (h a rfl)
  | error problem => exact fail line problem

theorem remember {v : Value} (hv : v.ParamsIn G) :
    Sim G extra d (Value.ParamsIn G) (remember v) (Eval.remember v) :=
  fun _ _ hm => .ok hv { hm with last := fun _ => rfl, lastParams := hv }

theorem load (line : Nat) (name : String) :
    Sim G extra d (Value.ParamsIn G) (load line name) (Eval.load line name) := by
  intro m m' hm
  have hget := hm.get? name
  cases hv : m.get? name with
  | some v =>
    rw [hv] at hget
    rw [load_some hv, load_some hget]
    exact .ok (hm.paramsIn_get? hv) hm
  | none =>
    rw [load_none hv]
    cases hl : Beside.lacks extra d name with
    | true => exact .apart (Beside.not_exact hl)
    | false =>
      rw [hv, hl] at hget
      rw [load_none hget]
      exact .fault hm

theorem store (line : Nat) (name : String) {v : Value} (hv : v.ParamsIn G) :
    Sim G extra d (fun _ => True) (store line name v) (Eval.store line name v) := by
  intro m m' hm
  cases hb : m.get? name with
  | some w =>
    obtain ⟨m₁, m₁', hset, hset', hm₁⟩ := hm.set? (by rw [hb]; rfl) hv
    rw [store_some hset, store_some hset']
    exact .ok trivial hm₁
  | none =>
    obtain ⟨f, f', hf, hf', -⟩ := hm.frames
    rw [store_none (Beside.set?_none hf hb v)]
    cases hl : Beside.lacks extra d name with
    | true => exact .apart (Beside.not_exact hl)
    | false =>
      have hget := hm.get? name
      rw [hb, hl] at hget
      rw [store_none (Beside.set?_none hf' hget v)]
      exact .fault hm

theorem write (line : Nat) (text : String) :
    Sim G extra d (fun _ => True) (write line text) (Eval.write line text) := by
  intro m m' hm
  rw [write_apply, write_apply, hm.console]
  have hm₁ : Beside G extra d { m with console := m.console.write text }
      { m' with console := m.console.write text } := { hm with console := rfl }
  split
  · exact .ok trivial hm₁
  · exact .fault hm₁

theorem readLine (line : Nat) : Sim G extra d (Value.ParamsIn G) (readLine line) (Eval.readLine line) := by
  intro m m' hm
  rw [readLine_apply, readLine_apply, hm.console]
  rcases m.console.next? with _ | ⟨_ | _, console⟩
  · exact .ok trivial { hm with console := rfl, last := fun _ => rfl, lastParams := trivial }
  · exact .ok trivial { hm with console := rfl, last := fun _ => rfl, lastParams := trivial }
  · exact .fault { hm with console := rfl }

/-- The second loop may go round more often. -/
theorem repeatWhile {c c' : Eval Bool} {x y : Eval Unit} (hc : Sim G extra d (fun _ => True) c c')
    (hx : Sim G extra d (fun _ => True) x y) : ∀ {n n' : Nat}, n ≤ n' →
      Sim G extra d (fun _ => True) (repeatWhile c x n) (Eval.repeatWhile c' y n')
  | 0, _, _ => fun _ _ _ => .outOfFuel
  | n + 1, n' + 1, h => by
    refine hc.bind fun b _ => ?_
    cases b with
    | true => exact hx.bind fun _ _ => repeatWhile hc hx (Nat.le_of_succ_le_succ h)
    | false => exact pure trivial

end Sim

/-! ## Calls -/

theorem bind_beside (hd : d.extra = fun _ => false) : ∀ {params : List String} {args : List Value} {m m' : Machine},
    (∀ p ∈ params, isGlobalName p = true → p ∈ G) → (∀ v ∈ args, v.ParamsIn G) → Beside G extra d m m' →
      Beside G extra d (m.bind params args) (m'.bind params args)
  | [], _, _, _, _, _, hm => hm
  | _ :: _, [], _, _, _, _, hm => hm
  | p :: params, v :: args, m, m', hp, ha, hm => by
    have hps := fun q hq => hp q (List.mem_cons_of_mem _ hq)
    have has := fun w hw => ha w (List.mem_cons_of_mem _ hw)
    rw [Machine.bind, Machine.bind]
    cases hb : m.get? p with
    | some w =>
      obtain ⟨m₁, m₁', hset, hset', hm₁⟩ := hm.set? (by rw [hb]; rfl) (ha v List.mem_cons_self)
      rw [hset, hset']
      exact bind_beside hd hps has hm₁
    | none =>
      -- a global parameter is bound, and the frame of a call has no extra names
      have hg : isGlobalName p ≠ true := by
        intro hg
        have hbound := (hm.binds p).mpr (hp p List.mem_cons_self hg)
        rw [Machine.get?, if_pos hg] at hb
        rw [hb] at hbound
        cases hbound
      have hget := hm.get? p
      rw [hb, Beside.lacks, if_neg hg, hd] at hget
      obtain ⟨f, f', hf, hf', -⟩ := hm.frames
      rw [Beside.set?_none hf hb v, Beside.set?_none hf' hget v]
      exact bind_beside hd hps has hm

/-- In a call both machines have the same frame on top, and the value evaluated last is the same. -/
def inCall (f : Func) (m m' : Machine) : Sides := ⟨f.scope.names, fun _ => false, m.frames, m'.frames, True⟩

theorem enter_beside {f : Func} {args : List Value} {m m' : Machine} (hf : f.ParamsIn G)
    (ha : ∀ v ∈ args, v.ParamsIn G) (hm : Beside G extra d m m') :
    Beside G extra (inCall f m m') (m.enter f args) (m'.enter f args) := by
  have hparams : ∀ p ∈ f.params, isGlobalName p = true → p ∈ G := by
    cases f
    exact hf.1
  refine bind_beside rfl hparams ha { hm with frames := ?_, last := fun _ => rfl, lastParams := trivial }
  refine ⟨.ofScope f.scope, .ofScope f.scope, rfl, rfl, Frame.binds_ofScope _, fun name => ?_, ?_⟩
  · exact (Option.or_none).symm
  · exact Frame.forall_get?_ofScope f.scope trivial

theorem leave_beside {f : Func} {m m' m₁ m₁' : Machine} (hm : Beside G extra d m m')
    (hm₁ : Beside G extra (inCall f m m') m₁ m₁') : Beside G extra d m₁.leave m₁'.leave := by
  obtain ⟨g, g', hg, hg', -⟩ := hm₁.frames
  refine { hm₁ with frames := ?_, last := fun _ => hm₁.last trivial }
  rw [Machine.leave, Machine.leave, hg, hg']
  exact hm.frames

theorem Sim.within {f : Func} {args : List Value} {x y : Eval Unit} (hf : f.ParamsIn G)
    (ha : ∀ v ∈ args, v.ParamsIn G) (h : ∀ m m', Sim G extra (inCall f m m') (fun _ => True) x y) :
    Sim G extra d (Value.ParamsIn G) (within f args x) (Eval.within f args y) := by
  intro m m' hm
  have hx := h m m' (enter_beside hf ha hm)
  unfold Eval.within
  generalize x (m.enter f args) = r at hx ⊢
  generalize y (m'.enter f args) = r' at hx ⊢
  cases hx with
  | ok _ hm₁ =>
    simp only [hm₁.last trivial]
    exact .ok hm₁.lastParams (leave_beside hm hm₁)
  | fault hm₁ => exact .fault (leave_beside hm hm₁)
  -- only a global name can be missing in a call
  | apart hd => exact .apart fun he => hd fun name => ⟨(he name).1, rfl⟩
  | outOfFuel => exact .outOfFuel

/-- Callers that agree on functions whose global parameters are bound. -/
def CallSim (G : List String) (extra : String → Bool) (call call' : Caller) : Prop :=
  ∀ ⦃f args⦄ (line : Nat) (d : Sides), f.ParamsIn G → (∀ v ∈ args, v.ParamsIn G) →
    Sim G extra d (Value.ParamsIn G) (call f args line) (call' f args line)

end Eval

section
open Eval
variable {G : List String} {extra : String → Bool} {call call' : Caller}

mutual

theorem Expr.sim (hcall : CallSim G extra call call') : ∀ (e : Expr) (d : Sides),
    Sim G extra d (Value.ParamsIn G) (e.eval call) (e.eval call')
  | .literal _ v, d => .remember (Value.paramsIn_ofLiteral v)
  | .call line name args, d => by
    refine (Sim.load line name).bind fun v hv => ?_
    cases v with
    | func f =>
      refine (Expr.simAll hcall args d).bind fun vs hvs => ?_
      exact (hcall line d hv hvs).bind fun w hw => .remember hw
    | _ => exact .remember trivial
  | .binary line op left right, d => by
    refine (left.sim hcall d).bind fun l hl => (right.sim hcall d).bind fun r hr => ?_
    exact (Sim.ofExcept line fun v hv => Value.paramsIn_binary hl hr hv).bind fun v hv => .remember hv
  | .negate line op operand, d => by
    refine (operand.sim hcall d).bind fun v _ => ?_
    exact (Sim.ofExcept line fun w hw => Value.paramsIn_negate hw).bind fun w hw => .remember hw
  | .compare line op left right, d => by
    refine (left.sim hcall d).bind fun l _ => (right.sim hcall d).bind fun r _ => ?_
    exact (Sim.ofExcept (P := fun _ => True) line fun _ _ => trivial).bind fun _ _ => .remember trivial
  | .gets line, d => .readLine line
  | .assign _ stores, d => (Assign.simAll hcall stores .nil trivial d).bind fun v hv => .remember hv

theorem Expr.simAll (hcall : CallSim G extra call call') : ∀ (es : List Expr) (d : Sides),
    Sim G extra d (fun vs => ∀ v ∈ vs, v.ParamsIn G) (Expr.evalAll call es) (Expr.evalAll call' es)
  | [], _ => .pure fun _ hv => by cases hv
  | e :: es, d => by
    refine (e.sim hcall d).bind fun v hv => (Expr.simAll hcall es d).bind fun vs hvs => .pure fun w hw => ?_
    rcases List.mem_cons.mp hw with rfl | hw
    · exact hv
    · exact hvs w hw

theorem Assign.sim (hcall : CallSim G extra call call') : ∀ (a : Assign) (d : Sides),
    Sim G extra d (Value.ParamsIn G) (a.eval call) (a.eval call')
  | ⟨line, name, value⟩, d =>
    (value.sim hcall d).bind fun _ hv => (Sim.store line name hv).bind fun _ _ => .pure hv

theorem Assign.simAll (hcall : CallSim G extra call call') : ∀ (as : List Assign) (last : Value),
    last.ParamsIn G → ∀ d : Sides,
      Sim G extra d (Value.ParamsIn G) (Assign.evalAll call last as) (Assign.evalAll call' last as)
  | [], _, hlast, _ => .pure hlast
  | a :: as, _, _, d => (a.sim hcall d).bind fun v hv => Assign.simAll hcall as v hv d

end

variable {fuel fuel' : Nat}

mutual

theorem Stmt.sim (hcall : CallSim G extra call call') (hfuel : fuel ≤ fuel') : ∀ (s : Stmt) (d : Sides),
    s.ParamsIn G → Sim G extra d (fun _ => True) (s.exec call fuel) (s.exec call' fuel')
  | .assign a, d, _ => (a.sim hcall d).discard
  | .print line values, d, _ => (Expr.simAll hcall values d).bind fun _ _ => .write line _
  | .puts line [], d, _ => .write line "\n"
  | .puts line (value :: values), d, _ => (Expr.simAll hcall (value :: values) d).bind fun _ _ => .write line _
  | .choose first others otherwise, d, h => by
    refine (Arm.sim hcall hfuel first d h.1).bind fun b _ => ?_
    cases b with
    | true => exact .pure trivial
    | false =>
      refine (Arm.simFirst hcall hfuel others d h.2.1).bind fun b _ => ?_
      cases b with
      | true => exact .pure trivial
      | false => exact Block.simOption hcall hfuel otherwise d h.2.2
  | .loop _ condition body, d, h =>
    .repeatWhile ((condition.sim hcall d).bind fun _ _ => .pure trivial) (Block.sim hcall hfuel body d h) hfuel
  | .define f, d, h => .store f.line f.name h
  | .gets line, d, _ => (Sim.readLine line).discard
  | .expr e, d, _ => (e.sim hcall d).discard

theorem Stmt.simAll (hcall : CallSim G extra call call') (hfuel : fuel ≤ fuel') : ∀ (ss : List Stmt) (d : Sides),
    Stmt.AllParamsIn G ss → Sim G extra d (fun _ => True) (Stmt.execAll call fuel ss) (Stmt.execAll call' fuel' ss)
  | [], _, _ => .pure trivial
  | s :: ss, d, h => (Stmt.sim hcall hfuel s d h.1).bind fun _ _ => Stmt.simAll hcall hfuel ss d h.2

theorem Block.sim (hcall : CallSim G extra call call') (hfuel : fuel ≤ fuel') : ∀ (b : Block) (d : Sides),
    b.ParamsIn G → Sim G extra d (fun _ => True) (b.exec call fuel) (b.exec call' fuel')
  | ⟨_, stmts⟩, d, h => Stmt.simAll hcall hfuel stmts d h

theorem Block.simOption (hcall : CallSim G extra call call') (hfuel : fuel ≤ fuel') :
    ∀ (b : Option Block) (d : Sides), Block.ParamsInOption G b →
      Sim G extra d (fun _ => True) (Block.execOption call fuel b) (Block.execOption call' fuel' b)
  | none, _, _ => .pure trivial
  | some b, d, h => Block.sim hcall hfuel b d h

theorem Arm.sim (hcall : CallSim G extra call call') (hfuel : fuel ≤ fuel') : ∀ (a : Arm) (d : Sides),
    a.ParamsIn G → Sim G extra d (fun _ => True) (a.exec call fuel) (a.exec call' fuel')
  | ⟨_, condition, body⟩, d, h => by
    refine (condition.sim hcall d).bind fun v _ => ?_
    split
    · exact (Block.sim hcall hfuel body d h).bind fun _ _ => .pure trivial
    · exact .pure trivial

theorem Arm.simFirst (hcall : CallSim G extra call call') (hfuel : fuel ≤ fuel') : ∀ (as : List Arm) (d : Sides),
    Arm.AllParamsIn G as →
      Sim G extra d (fun _ => True) (Arm.execFirst call fuel as) (Arm.execFirst call' fuel' as)
  | [], _, _ => .pure trivial
  | a :: as, d, h => by
    refine (Arm.sim hcall hfuel a d h.1).bind fun b _ => ?_
    cases b with
    | true => exact .pure trivial
    | false => exact Arm.simFirst hcall hfuel as d h.2

end

theorem callSim_callAt (hfuel : fuel ≤ fuel') : ∀ depth : Nat, CallSim G extra (callAt fuel depth) (callAt fuel' depth)
  | 0 => fun _ _ line _ _ _ => .fail line _
  | depth + 1 => fun f _ _ _ hf ha =>
    .within hf ha fun _ _ => Block.sim (callSim_callAt hfuel depth) hfuel f.body _ (by
      cases f
      exact hf.2)

end

end Sprig
