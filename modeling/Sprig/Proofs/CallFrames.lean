import Sprig.Proofs.RunBridge
import Sprig.Proofs.Stores

/-!
# The frames of calls

Code looks at the globals and at the frame on top. Two machines that are alike in these (`Machine.Alike`) stay alike
while the same code runs, and neither of them touches the frames below, or the set of names that a frame binds. Held
against itself, a machine shows what a run leaves alone (`Machine.call_frames_balanced`). Two machines whose open calls
have nothing in common but their number are alike once a further call is open, since that starts with a new frame
(`Machine.callee_sees_no_callers`).
-/

namespace Sprig

/-- What does not change while no call begins or ends: the names that the frame on top binds, and the frames below
it in two machines. -/
structure Level where
  names : Option (String → Bool)
  below : List Frame
  below' : List Frame

/-- The same console, globals, last value and frame on top. The globals bind `G`, and the rest is as the level says. -/
structure Machine.Alike (G : String → Bool) (l : Level) (m m' : Machine) : Prop where
  console : m'.console = m.console
  last : m'.last = m.last
  globals : ∀ name, m'.globals.get? name = m.globals.get? name
  bound : m.globals.contains = G
  top : m'.frames.head? = m.frames.head?
  names : m.frames.head?.map Frame.contains = l.names
  below : m.frames.tail = l.below
  below' : m'.frames.tail = l.below'

theorem Frame.contains_set? {f f' : Frame} {name : String} {v : Value} (h : f.set? name v = some f') :
    f'.contains = f.contains := by
  funext other
  unfold contains
  rw [get?_set? h]
  by_cases ho : other = name
  · rw [if_pos ho, ho]
    unfold Frame.set? contains at h
    by_cases hb : (f.get? name).isSome = true
    · exact hb.symm
    · simp [hb] at h
  · rw [if_neg ho]

theorem Frame.set?_of_get? {f f' : Frame} (h : ∀ name, f'.get? name = f.get? name) (name : String) (v : Value) :
    (f.set? name v = none ∧ f'.set? name v = none) ∨ ∃ g g', f.set? name v = some g ∧ f'.set? name v = some g' ∧
      ∀ other, g'.get? other = g.get? other := by
  cases hb : f.get? name with
  | none => exact .inl ⟨set?_eq_none hb, set?_eq_none ((h name).trans hb)⟩
  | some w =>
    obtain ⟨g, hg⟩ := set?_eq_some (v := v) (show (f.get? name).isSome = true by rw [hb]; rfl)
    obtain ⟨g', hg'⟩ := set?_eq_some (v := v) (show (f'.get? name).isSome = true by rw [h, hb]; rfl)
    refine .inr ⟨g, g', hg, hg', ?_⟩
    intro other
    rw [get?_set? hg, get?_set? hg', h]

namespace Machine.Alike

variable {G : String → Bool} {l : Level} {m m' : Machine}

theorem get? (h : Alike G l m m') (name : String) : m'.get? name = m.get? name := by
  unfold Machine.get?
  rw [h.globals, h.top]

theorem set? (h : Alike G l m m') (name : String) (v : Value) :
    (m.set? name v = none ∧ m'.set? name v = none) ∨
      ∃ m₁ m₁', m.set? name v = some m₁ ∧ m'.set? name v = some m₁' ∧ Alike G l m₁ m₁' := by
  obtain ⟨globals, frames, last, hasRun, console⟩ := m
  obtain ⟨globals', frames', last', hasRun', console'⟩ := m'
  unfold Machine.set?
  by_cases hn : isGlobalName name = true
  · simp only [hn, if_true]
    rcases Frame.set?_of_get? h.globals name v with ⟨hset, hset'⟩ | ⟨g, g', hset, hset', hg⟩
    · exact .inl (by simp [hset, hset'])
    · rw [hset, hset']
      refine .inr ⟨_, _, rfl, rfl, { h with globals := hg, bound := ?_ }⟩
      exact (Frame.contains_set? hset).trans h.bound
  · simp only [hn, Bool.false_eq_true, if_false]
    have htop := h.top
    cases frames with
    | nil =>
      cases frames' with
      | nil => exact .inl ⟨rfl, rfl⟩
      | cons f' below' => cases htop
    | cons f below =>
      cases frames' with
      | nil => cases htop
      | cons f' below' =>
        cases htop
        cases hset : f.set? name v with
        | none => exact .inl (by simp [hset])
        | some g =>
          simp only [hset, Option.map_some]
          refine .inr ⟨_, _, rfl, rfl, { h with top := rfl, names := ?_ }⟩
          rw [← h.names]
          exact congrArg some (Frame.contains_set? hset)

/-- A call starts with a new frame. What was on top before is then below, and so it need not be the same. -/
theorem pushed (hglobals : ∀ name, m'.globals.get? name = m.globals.get? name) (hconsole : m'.console = m.console)
    (s : Scope) : Alike m.globals.contains ⟨some (Frame.ofScope s).contains, m.frames, m'.frames⟩ (m.push s) (m'.push s)
    where
  console := hconsole
  last := rfl
  globals := hglobals
  bound := rfl
  top := rfl
  names := rfl
  below := rfl
  below' := rfl

theorem leave {s : Scope} {m₁ m₁' : Machine} (h : Alike G l m m')
    (h₁ : Alike G ⟨some (Frame.ofScope s).contains, m.frames, m'.frames⟩ m₁ m₁') : Alike G l m₁.leave m₁'.leave := by
  have hframes : m₁.leave.frames = m.frames := h₁.below
  have hframes' : m₁'.leave.frames = m'.frames := h₁.below'
  constructor
  · exact h₁.console
  · exact h₁.last
  · exact h₁.globals
  · exact h₁.bound
  · rw [hframes, hframes', h.top]
  · rw [hframes, h.names]
  · rw [hframes, h.below]
  · rw [hframes', h.below']

/-- The same code under the same lines, in machines that are alike. -/
def bridge (G : String → Bool) : RunBridge where
  mapLine := id
  injective := Function.injective_id
  World := Level
  inner _ f m m' := ⟨some (Frame.ofScope f.scope).contains, m.frames, m'.frames⟩
  machines := Alike G
  console h := h.console
  last h := by rw [h.last, Value.mapLine_id]
  get? name h := by
    rw [h.get? name]
    cases Machine.get? _ name <;> simp
  set? name v h := by
    rw [Value.mapLine_id]
    exact h.set? name v
  remember v h := { h with last := Value.mapLine_id v }
  withConsole _ h := { h with console := rfl }
  push f h := by
    have hpushed := pushed h.globals h.console f.scope
    rw [h.bound] at hpushed
    exact hpushed
  leave h h₁ := h.leave h₁

theorem refl (m : Machine) :
    Alike m.globals.contains ⟨m.frames.head?.map Frame.contains, m.frames.tail, m.frames.tail⟩ m m :=
  ⟨rfl, rfl, fun _ => rfl, rfl, rfl, rfl, rfl, rfl⟩

end Machine.Alike

/-! ## What a run leaves alone -/

/-- The machine that is left, however a computation ends. -/
def Eval.after {α : Type} : EStateM.Result Stop Machine α → Machine
  | .ok _ m => m
  | .error _ m => m

/-- As many frames as before, the frames below the top unchanged, and no name more or less in the globals or in any
frame. -/
structure Machine.Stays (m m' : Machine) : Prop where
  depth : m'.frames.length = m.frames.length
  below : m'.frames.tail = m.frames.tail
  globals : m'.globals.contains = m.globals.contains
  names : m'.frames.map Frame.contains = m.frames.map Frame.contains

theorem RunBridge.Agrees.after {α β : Type} {B : RunBridge} {w : B.World} {u : α → β}
    {r : EStateM.Result Stop Machine α} {r' : EStateM.Result Stop Machine β} (h : B.Agrees w u r r') :
    B.machines w (Eval.after r) (Eval.after r') := by
  cases h with
  | ok hm => exact hm
  | error hm => exact hm

namespace Machine

open Eval Alike

variable {G : String → Bool} {l : Level} {m m' m₁ m₁' : Machine} {fuel : Nat}

theorem Alike.stays (h : Alike G l m m') (h₁ : Alike G l m₁ m₁') : m.Stays m₁ := by
  have hbelow := h₁.below.trans h.below.symm
  have hnames : m₁.frames.map Frame.contains = m.frames.map Frame.contains := by
    -- the level knows the names on top; below it the frames are the same
    have htop := h₁.names.trans h.names.symm
    generalize m.frames = frames at *
    generalize m₁.frames = frames₁ at *
    cases frames <;> cases frames₁ <;> simp_all
  constructor
  · simpa using congrArg List.length hnames
  · exact hbelow
  · exact h₁.bound.trans h.bound.symm
  · exact hnames

theorem stays_enter (f : Func) (args : List Value) (m : Machine) : (m.push f.scope).Stays (m.enter f args) := by
  have hpush := Alike.refl (m.push f.scope)
  exact hpush.stays (RunBridge.Sim.bindParams (B := bridge _) f.params args hpush)

end Machine

namespace Eval

open Machine.Alike

/-- However it ends, it leaves these things alone. -/
def Still {α : Type} (x : Eval α) : Prop := ∀ m : Machine, m.Stays (after (x m))

section
variable {α : Type} {x : Eval α} {y : (String → Bool) → Eval α} {u : (String → Bool) → α → α}

theorem still_of_sim (h : ∀ G l, (bridge G).Sim l (u G) x (y G)) : Still x := by
  intro m
  have hm := h _ _ (Machine.Alike.refl m)
  exact (Machine.Alike.refl m).stays hm.after

theorem Still.ok {m m₁ : Machine} {a : α} (h : Still x) (hx : x m = .ok a m₁) : m.Stays m₁ := by
  have hm := h m
  rwa [hx] at hm

end

section
variable (fuel d : Nat)

theorem still_expr (e : Expr) : Still (e.eval (callAt fuel d)) :=
  still_of_sim fun G => Expr.related ((bridge G).relation.calls fuel d) e

theorem still_exprs (es : List Expr) : Still (Expr.evalAll (callAt fuel d) es) :=
  still_of_sim fun G => Expr.relatedAll ((bridge G).relation.calls fuel d) es

theorem still_assign (a : Assign) : Still (a.eval (callAt fuel d)) :=
  still_of_sim fun G => Assign.related ((bridge G).relation.calls fuel d) a

theorem still_arm (a : Arm) : Still (a.exec (callAt fuel d) fuel) :=
  still_of_sim fun G => Arm.related ((bridge G).relation.calls fuel d) a

theorem still_arms (as : List Arm) : Still (Arm.execFirst (callAt fuel d) fuel as) :=
  still_of_sim fun G => Arm.relatedFirst ((bridge G).relation.calls fuel d) as

theorem still_stmt (s : Stmt) : Still (s.exec (callAt fuel d) fuel) :=
  still_of_sim fun G => Stmt.related ((bridge G).relation.calls fuel d) s

theorem still_block (b : Block) : Still (b.exec (callAt fuel d) fuel) :=
  still_of_sim fun G => Block.related ((bridge G).relation.calls fuel d) b

theorem still_call (f : Func) (args : List Value) (line : Nat) : Still (callAt fuel d f args line) :=
  still_of_sim fun G => (bridge G).relation.calls fuel d f args line

end

/-- The frame of a call is all that a call changes in the stack, and it is gone afterwards. -/
theorem frames_within (f : Func) (args : List Value) {body : Eval Unit} (h : Still body) (m : Machine) :
    (after (within f args body m)).frames = m.frames := by
  have hbody : (after (body (m.enter f args))).frames.tail = m.frames :=
    (h _).below.trans (m.stays_enter f args).below
  unfold within
  generalize body (m.enter f args) = r at hbody ⊢
  cases r with
  | ok a m₁ => exact hbody
  | error stop m₁ => exact hbody

theorem frames_call (fuel d : Nat) (f : Func) (args : List Value) (line : Nat) (m : Machine) :
    (after (callAt fuel d f args line m)).frames = m.frames := by
  cases d with
  | zero => rfl
  | succ d => exact frames_within f args (still_block fuel d f.body) m

end Eval

/-! ## The depth of the stack -/

/-- The calls that are open and those that may still nest make up the limit. -/
def Point.Level (q : Point) : Prop := q.calls + q.machine.frames.length = maxCallDepth + 1

section
open Eval

variable {fuel : Nat}

theorem Machine.Stays.level {d : Nat} {m m₁ : Machine} (hm : m.Stays m₁)
    (h : d + m.frames.length = maxCallDepth + 1) : d + m₁.frames.length = maxCallDepth + 1 := by
  rw [hm.depth]
  exact h

theorem Leads.level {p q : Point} (hstep : Leads fuel p q) (h : p.Level) : q.Level := by
  -- only `body` opens a frame, for the call that `d` then allows less
  cases hstep with
  | call _ hargs => exact ((still_exprs fuel _ _).ok hargs).level h
  | @body d f args _ m =>
    have hdepth := (m.stays_enter f args).depth
    simp only [Machine.push, List.length_cons] at hdepth
    simp only [Point.Level] at h ⊢
    omega
  | right hl => exact ((still_expr fuel _ _).ok hl).level h
  | compareRight hl => exact ((still_expr fuel _ _).ok hl).level h
  | exprs he => exact ((still_expr fuel _ _).ok he).level h
  | store he => exact ((still_expr fuel _ _).ok he).level h
  | assigns ha => exact ((still_assign fuel _ _).ok ha).level h
  | others ha => exact ((still_arm fuel _ _).ok ha).level h
  | otherwise ha has => exact ((still_arms fuel _ _).ok has).level (((still_arm fuel _ _).ok ha).level h)
  | roundBody hc => exact ((still_expr fuel _ _).ok hc).level h
  | again hc _ hb => exact ((still_block fuel _ _).ok hb).level (((still_expr fuel _ _).ok hc).level h)
  | armBody hc => exact ((still_expr fuel _ _).ok hc).level h
  | arms ha => exact ((still_arm fuel _ _).ok ha).level h
  | stmts hs => exact ((still_stmt fuel _ _).ok hs).level h
  | _ => exact h

namespace Machine

/-- Wherever the run of a block comes, the open calls leave room for those that may still nest; and when it ends there
is one frame, with these names. -/
structure Balanced (fuel : Nat) (m : Machine) (b : Block) (names : List String) : Prop where
  depth : ∀ {q}, m.Visits fuel b q → q.machine.frames.length ≤ maxCallDepth + 1
  caller : ∀ {q}, m.Visits fuel b q → callAt fuel q.calls = q.machine.caller fuel
  ended : ∃ f, (after (m.exec fuel b)).frames = [f] ∧ f.Binds names

theorem balanced {m : Machine} {f : Frame} {names : List String} (hframes : m.frames = [f]) (hf : f.Binds names)
    (b : Block) : m.Balanced fuel b names := by
  have hlevel {q : Point} (h : m.Visits fuel b q) : q.Level := by
    apply Point.Visits.invariant Leads.level h
    unfold Machine.point Point.Level
    rw [hframes]
    rfl
  constructor
  · intro q h
    have := hlevel h
    unfold Point.Level at this
    omega
  · intro q h
    have hcalls : maxCallDepth + 1 - q.machine.frames.length = q.calls := by
      have := hlevel h
      unfold Point.Level at this
      omega
    rw [Machine.caller, hcalls]
  · have hnames : (after (m.exec fuel b)).frames.map Frame.contains = [f.contains] := by
      rw [show [f.contains] = m.frames.map Frame.contains by rw [hframes]; rfl]
      exact (still_block fuel _ b m).names
    obtain ⟨g, hg, hgf⟩ := List.map_eq_singleton_iff.mp hnames
    refine ⟨g, hg, fun name => ?_⟩
    rw [← hf name]
    exact iff_of_eq (congrArg (· = true) (congrFun hgf name))

/-- **Frames go with their calls.** No expression and no statement changes the number of frames, a frame below the top,
or the names that a frame or the globals bind, whether it ends well or not. A call leaves every frame there was as it
was. In a run of a block in new frames, be they empty or taken over, there are never more frames than the limit and
one, a call finds as much room as the frames leave, and at the end one frame is left, that of the program. -/
theorem call_frames_balanced (fuel : Nat) :
    (∀ (d : Nat) (m : Machine),
      (∀ e : Expr, m.Stays (after (e.eval (callAt fuel d) m))) ∧
      (∀ s : Stmt, m.Stays (after (s.exec (callAt fuel d) fuel m))) ∧
      ∀ (f : Func) (args : List Value) (line : Nat), m.Stays (after (callAt fuel d f args line m)) ∧
        (after (callAt fuel d f args line m)).frames = m.frames) ∧
    ∀ (m : Machine) (scopes : ScopeTable) (b : Block),
      (m.run fuel scopes b = (m.reset scopes).exec fuel b ∧
        (m.reset scopes).Balanced fuel b scopes.program.names) ∧
      m.resume fuel scopes b = (m.opened scopes).exec fuel b ∧
        (m.opened scopes).Balanced fuel b scopes.program.names := by
  constructor
  · intro d m
    refine ⟨fun e => still_expr fuel d e m, fun s => still_stmt fuel d s m, fun f args line => ?_⟩
    exact ⟨still_call fuel d f args line m, frames_call fuel d f args line m⟩
  · intro m scopes b
    have hreset : (m.reset scopes).Balanced fuel b scopes.program.names :=
      balanced rfl (Frame.binds_ofScope scopes.program) b
    refine ⟨⟨rfl, hreset⟩, resume_eq_opened scopes, ?_⟩
    unfold opened
    by_cases hrun : m.hasRun = true
    · rw [if_pos hrun]
      exact balanced rfl ((Frame.binds_ofScope scopes.program).migrate _) b
    · rw [if_neg hrun]
      exact hreset

/-- In a call `f()` there are two frames. It fails in the body of `f`, and one frame is left, which binds `f`. -/
theorem call_frames_balanced_failing :
    ∃ p, Program.ofSource "def f()\n1 / 0\nend\nf()" = .ok p ∧
      (∃ q, ((start (.start none .empty)).reset p.scopes).Visits 1 p.body q ∧ q.machine.frames.length = 2 ∧
        q.machine.frames.length ≤ maxCallDepth + 1) ∧
      (Session.outcome ((start (.start none .empty)).run 1 p.scopes p.body)).1 =
        .error (.fault ⟨2, .runtime .divisionByZero⟩) ∧
      ∃ g, (after ((start (.start none .empty)).run 1 p.scopes p.body)).frames = [g] ∧ g.Binds ["f"] := by
  let f : Func := ⟨"f", [], 1, ⟨2, [.expr (.binary 2 (.arithmetic .divide) (.literal 2 (.integer 1))
    (.literal 2 (.integer 0)))]⟩, ⟨"f", some "Program", []⟩⟩
  let p : Program := ⟨⟨1, [.define f, .expr (.call 4 "f" [])]⟩,
    ⟨⟨"Global", none, []⟩, ⟨"Program", some "Global", ["f"]⟩, []⟩⟩
  let m : Machine := (start (.start none .empty)).reset p.scopes
  have hp : Program.ofSource "def f()\n1 / 0\nend\nf()" = .ok p := by
    have hl : LogicalLine.ofSource "def f()\n1 / 0\nend\nf()" =
        .ok [[⟨.kwDef, "def", 1⟩, ⟨.identifier, "f", 1⟩, ⟨.leftParen, "(", 1⟩, ⟨.rightParen, ")", 1⟩],
          [⟨.integer, "1", 2⟩, ⟨.slash, "/", 2⟩, ⟨.integer, "0", 2⟩], [⟨.kwEnd, "end", 3⟩],
          [⟨.identifier, "f", 4⟩, ⟨.leftParen, "(", 4⟩, ⟨.rightParen, ")", 4⟩]] := by
      with_unfolding_all rfl
    exact (Program.ofSource_eq_off hl).trans rfl
  obtain ⟨-, hruns⟩ := call_frames_balanced 1
  obtain ⟨⟨-, hrun⟩, -⟩ := hruns (start (.start none .empty)) p.scopes p.body
  have hdefine : (Stmt.define f).exec (callAt 1 256) 1 m = .ok () { m with frames := [⟨[("f", .func f)]⟩] } := by
    have hname : isGlobalName f.name = false := by decide
    apply store_some
    rw [Machine.set?, hname]
    rfl
  refine ⟨p, hp, ?_, ?_, hrun.ended⟩
  · have hvisits : m.Visits 1 p.body ⟨255, .stmts f.body.stmts, _⟩ :=
      .head (.stmts hdefine) (.head .stmt (.head .stmtExpr (.head (.call (f := f) rfl rfl) (.single .body))))
    exact ⟨_, hvisits, rfl, hrun.depth hvisits⟩
  · show (Session.outcome (EStateM.bind ((Stmt.define f).exec (callAt 1 256) 1) _ m)).1 = _
    rw [EStateM.bind, hdefine]
    rfl

end Machine

end

/-! ## What a call can see -/

/-- The same result or the same stop, with the same console and globals; and after a result the same last value. -/
inductive Eval.SameAnswer : EStateM.Result Stop Machine Value → EStateM.Result Stop Machine Value → Prop where
  | ok {v m m'} : m'.console = m.console → (∀ name, m'.globals.get? name = m.globals.get? name) →
    m'.last = m.last → SameAnswer (.ok v m) (.ok v m')
  | error {stop m m'} : m'.console = m.console → (∀ name, m'.globals.get? name = m.globals.get? name) →
    SameAnswer (.error stop m) (.error stop m')

namespace Machine

open Eval Alike

variable {m m' : Machine}

theorem alike_enter (hglobals : ∀ name, m'.globals.get? name = m.globals.get? name) (hconsole : m'.console = m.console)
    (f : Func) (args : List Value) :
    Alike m.globals.contains ⟨some (Frame.ofScope f.scope).contains, m.frames, m'.frames⟩ (m.enter f args)
      (m'.enter f args) := by
  have h := RunBridge.Sim.bindParams (B := bridge _) f.params args (pushed hglobals hconsole f.scope)
  rwa [show args.map (Value.mapLine (bridge _).mapLine) = args from Value.map_mapLine_id args] at h

theorem sameAnswer_callAt (fuel d : Nat) (f : Func) (args : List Value) (line : Nat)
    (hglobals : ∀ name, m'.globals.get? name = m.globals.get? name) (hconsole : m'.console = m.console) :
    SameAnswer (callAt fuel d f args line m) (callAt fuel d f args line m') := by
  cases d with
  | zero => exact .error hconsole hglobals
  | succ d =>
    -- the frames on top were the callers' own, but those of `f` are made alike
    have hbody : (bridge m.globals.contains).Agrees _ id (f.body.exec (callAt fuel d) fuel (m.enter f args))
        ((f.body.mapLine id).exec (callAt fuel d) fuel (m'.enter f args)) :=
      Block.related ((bridge _).relation.calls fuel d) f.body _ (alike_enter hglobals hconsole f args)
    rw [f.body.mapLine_id] at hbody
    simp only [callAt, within]
    generalize f.body.exec (callAt fuel d) fuel (m.enter f args) = r at hbody ⊢
    generalize f.body.exec (callAt fuel d) fuel (m'.enter f args) = r' at hbody ⊢
    cases hbody with
    | ok hm =>
      simp only [hm.last]
      exact .ok hm.console hm.globals hm.last
    | @error stop _ _ hm =>
      rw [show stop.mapLine (bridge m.globals.contains).mapLine = stop from stop.mapLine_id]
      exact .error hm.console hm.globals

/-- **A callee cannot see its callers.** Where the globals, the console and the number of frames are the same, a call
gives the same answer, whatever the frames bind and whatever was evaluated last. -/
theorem callee_sees_no_callers (fuel : Nat) (f : Func) (args : List Value) (line : Nat) (m m' : Machine)
    (hglobals : ∀ name, m'.globals.get? name = m.globals.get? name) (hconsole : m'.console = m.console)
    (hframes : m'.frames.length = m.frames.length) :
    SameAnswer (m.caller fuel f args line m) (m'.caller fuel f args line m') := by
  unfold Machine.caller
  rw [hframes]
  exact sameAnswer_callAt fuel _ f args line hglobals hconsole

/-- The callee stores its argument under a global name and then reads `x`, which its two callers bind differently. -/
theorem callee_sees_no_callers_local :
    let f : Func := ⟨"f", ["y"], 1, ⟨2, [.assign ⟨2, "$n", .call 2 "y" []⟩, .expr (.call 3 "x" [])]⟩,
      ⟨"f", some "Program", ["y"]⟩⟩
    let m (x : Value) : Machine := ⟨⟨[("$n", .nil)]⟩, [⟨[("f", .func f), ("x", x)]⟩], x, true, .start none .empty⟩
    (∀ name, (m .nil).globals.get? name = (m (.integer 1)).globals.get? name) ∧
      (m .nil).console = (m (.integer 1)).console ∧
      (m .nil).frames.length = (m (.integer 1)).frames.length ∧
      SameAnswer ((m (.integer 1)).caller 1 f [.boolean true] 5 (m (.integer 1)))
        ((m .nil).caller 1 f [.boolean true] 5 (m .nil)) := by
  intro f m
  have hglobals (name : String) : (m .nil).globals.get? name = (m (.integer 1)).globals.get? name := rfl
  have hconsole : (m .nil).console = (m (.integer 1)).console := rfl
  have hframes : (m .nil).frames.length = (m (.integer 1)).frames.length := rfl
  exact ⟨hglobals, hconsole, hframes, callee_sees_no_callers 1 f _ 5 _ _ hglobals hconsole hframes⟩

end Machine

end Sprig
