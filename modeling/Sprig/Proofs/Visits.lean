import Mathlib.Logic.Relation
import Sprig.Proofs.Beside
import Sprig.Proofs.ValueLemmas

/-!
# The states of a run

A run comes to many points: something is about to be done in some state (`Point`). `Leads` says which points are
next to which. A part of a program that others come before is reached in the state the others leave, if they
go well; the evaluator itself says what that state is. `Point.Visits` are all points that a run comes to, also one
that never ends.

A run that stops has come to a point that fails by itself (`Point.Breaks`), and all that happens from there on is that
the frames of the open calls go (`Point.Stops`).
-/

namespace Sprig

/-- What a run is about to do. -/
inductive Task where
  | load (line : Nat) (name : String)
  | store (line : Nat) (name : String) (v : Value)
  | call (f : Func) (args : List Value) (line : Nat)
  | expr (e : Expr)
  | exprs (es : List Expr)
  | assign (a : Assign)
  | assigns (as : List Assign)
  | stmt (s : Stmt)
  | stmts (ss : List Stmt)
  | arm (a : Arm)
  | arms (as : List Arm)
  | rounds (condition : Expr) (body : Block) (n : Nat)

/-- A task in a state where calls may nest `calls` deep. -/
structure Point where
  calls : Nat
  task : Task
  machine : Machine

/-- To do the first task is to do the second one next, or after parts that end well. -/
inductive Leads (fuel : Nat) : Point → Point → Prop where
  -- calls
  | load {d line name args m} : Leads fuel ⟨d, .expr (.call line name args), m⟩ ⟨d, .load line name, m⟩
  | args {d line name args m f} : m.get? name = some (.func f) →
    Leads fuel ⟨d, .expr (.call line name args), m⟩ ⟨d, .exprs args, m⟩
  | call {d line name args m f vs m₁} : m.get? name = some (.func f) →
    Expr.evalAll (callAt fuel d) args m = .ok vs m₁ →
    Leads fuel ⟨d, .expr (.call line name args), m⟩ ⟨d, .call f vs line, m₁⟩
  | body {d f args line m} : Leads fuel ⟨d + 1, .call f args line, m⟩ ⟨d, .stmts f.body.stmts, m.enter f args⟩
  -- expressions
  | left {d line op l r m} : Leads fuel ⟨d, .expr (.binary line op l r), m⟩ ⟨d, .expr l, m⟩
  | right {d line op l r m v m₁} : l.eval (callAt fuel d) m = .ok v m₁ →
    Leads fuel ⟨d, .expr (.binary line op l r), m⟩ ⟨d, .expr r, m₁⟩
  | operand {d line op e m} : Leads fuel ⟨d, .expr (.negate line op e), m⟩ ⟨d, .expr e, m⟩
  | compareLeft {d line op l r m} : Leads fuel ⟨d, .expr (.compare line op l r), m⟩ ⟨d, .expr l, m⟩
  | compareRight {d line op l r m v m₁} : l.eval (callAt fuel d) m = .ok v m₁ →
    Leads fuel ⟨d, .expr (.compare line op l r), m⟩ ⟨d, .expr r, m₁⟩
  | stores {d line as m} : Leads fuel ⟨d, .expr (.assign line as), m⟩ ⟨d, .assigns as, m⟩
  | expr {d e es m} : Leads fuel ⟨d, .exprs (e :: es), m⟩ ⟨d, .expr e, m⟩
  | exprs {d e es m v m₁} : e.eval (callAt fuel d) m = .ok v m₁ →
    Leads fuel ⟨d, .exprs (e :: es), m⟩ ⟨d, .exprs es, m₁⟩
  | value {d line name e m} : Leads fuel ⟨d, .assign ⟨line, name, e⟩, m⟩ ⟨d, .expr e, m⟩
  | store {d line name e m v m₁} : e.eval (callAt fuel d) m = .ok v m₁ →
    Leads fuel ⟨d, .assign ⟨line, name, e⟩, m⟩ ⟨d, .store line name v, m₁⟩
  | assign {d a as m} : Leads fuel ⟨d, .assigns (a :: as), m⟩ ⟨d, .assign a, m⟩
  | assigns {d a as m v m₁} : a.eval (callAt fuel d) m = .ok v m₁ →
    Leads fuel ⟨d, .assigns (a :: as), m⟩ ⟨d, .assigns as, m₁⟩
  -- statements
  | stmtAssign {d a m} : Leads fuel ⟨d, .stmt (.assign a), m⟩ ⟨d, .assign a, m⟩
  | print {d line es m} : Leads fuel ⟨d, .stmt (.print line es), m⟩ ⟨d, .exprs es, m⟩
  | puts {d line es m} : Leads fuel ⟨d, .stmt (.puts line es), m⟩ ⟨d, .exprs es, m⟩
  | stmtExpr {d e m} : Leads fuel ⟨d, .stmt (.expr e), m⟩ ⟨d, .expr e, m⟩
  | define {d f m} : Leads fuel ⟨d, .stmt (.define f), m⟩ ⟨d, .store f.line f.name (.func f), m⟩
  | first {d a as o m} : Leads fuel ⟨d, .stmt (.choose a as o), m⟩ ⟨d, .arm a, m⟩
  | others {d a as o m m₁} : a.exec (callAt fuel d) fuel m = .ok false m₁ →
    Leads fuel ⟨d, .stmt (.choose a as o), m⟩ ⟨d, .arms as, m₁⟩
  | otherwise {d a as b m m₁ m₂} : a.exec (callAt fuel d) fuel m = .ok false m₁ →
    Arm.execFirst (callAt fuel d) fuel as m₁ = .ok false m₂ →
    Leads fuel ⟨d, .stmt (.choose a as (some b)), m⟩ ⟨d, .stmts b.stmts, m₂⟩
  | loop {d line c b m} : Leads fuel ⟨d, .stmt (.loop line c b), m⟩ ⟨d, .rounds c b fuel, m⟩
  | round {d c b n m} : Leads fuel ⟨d, .rounds c b (n + 1), m⟩ ⟨d, .expr c, m⟩
  | roundBody {d c b n m v m₁} : c.eval (callAt fuel d) m = .ok v m₁ → v.isTruthy = true →
    Leads fuel ⟨d, .rounds c b (n + 1), m⟩ ⟨d, .stmts b.stmts, m₁⟩
  | again {d c b n m v m₁ m₂} : c.eval (callAt fuel d) m = .ok v m₁ → v.isTruthy = true →
    b.exec (callAt fuel d) fuel m₁ = .ok () m₂ → Leads fuel ⟨d, .rounds c b (n + 1), m⟩ ⟨d, .rounds c b n, m₂⟩
  | condition {d line c b m} : Leads fuel ⟨d, .arm ⟨line, c, b⟩, m⟩ ⟨d, .expr c, m⟩
  | armBody {d line c b m v m₁} : c.eval (callAt fuel d) m = .ok v m₁ → v.isTruthy = true →
    Leads fuel ⟨d, .arm ⟨line, c, b⟩, m⟩ ⟨d, .stmts b.stmts, m₁⟩
  | arm {d a as m} : Leads fuel ⟨d, .arms (a :: as), m⟩ ⟨d, .arm a, m⟩
  | arms {d a as m m₁} : a.exec (callAt fuel d) fuel m = .ok false m₁ →
    Leads fuel ⟨d, .arms (a :: as), m⟩ ⟨d, .arms as, m₁⟩
  | stmt {d s ss m} : Leads fuel ⟨d, .stmts (s :: ss), m⟩ ⟨d, .stmt s, m⟩
  | stmts {d s ss m m₁} : s.exec (callAt fuel d) fuel m = .ok () m₁ →
    Leads fuel ⟨d, .stmts (s :: ss), m⟩ ⟨d, .stmts ss, m₁⟩

def Point.Visits (fuel : Nat) : Point → Point → Prop := Relation.ReflTransGen (Leads fuel)

/-- Where the run of a block starts. -/
def Machine.point (m : Machine) (b : Block) : Point := ⟨maxCallDepth + 1 - m.frames.length, .stmts b.stmts, m⟩

/-- The run of a block comes to this point. -/
def Machine.Visits (fuel : Nat) (m : Machine) (b : Block) (q : Point) : Prop := (m.point b).Visits fuel q

theorem Point.Visits.invariant {fuel : Nat} {I : Point → Prop} (hI : ∀ {p q}, Leads fuel p q → I p → I q)
    {p q : Point} (h : p.Visits fuel q) (hp : I p) : I q := by
  induction h with
  | refl => exact hp
  | tail _ hstep ih => exact hI hstep ih

/-! ## Points that fail -/

def undefined (line : Nat) (name : String) : Stop := .fault ⟨line, .runtime (.undefinedVariable name)⟩

/-- The statement writes this text, and this is the machine when its values are known. -/
inductive Point.Writes (fuel : Nat) : Point → Nat → String → Machine → Prop where
  | print {d line es m vs m₁} : Expr.evalAll (callAt fuel d) es m = .ok vs m₁ →
    Writes fuel ⟨d, .stmt (.print line es), m⟩ line (" ".intercalate (vs.map Value.render)) m₁
  | feed {d line m} : Writes fuel ⟨d, .stmt (.puts line []), m⟩ line "\n" m
  | puts {d line e es m vs m₁} : Expr.evalAll (callAt fuel d) (e :: es) m = .ok vs m₁ →
    Writes fuel ⟨d, .stmt (.puts line (e :: es)), m⟩ line (String.join (vs.map (·.render ++ "\n"))) m₁

/-- The point fails after all its parts went well, and this is the machine it leaves. -/
inductive Point.Breaks (fuel : Nat) : Point → Stop → Machine → Prop where
  | load {d line name m} : m.get? name = none → Breaks fuel ⟨d, .load line name, m⟩ (undefined line name) m
  | store {d line name v m} : m.set? name v = none → Breaks fuel ⟨d, .store line name v, m⟩ (undefined line name) m
  | call {f args line m} : Breaks fuel ⟨0, .call f args line, m⟩ (.fault ⟨line, .runtime (.stackTooDeep f.name)⟩) m
  | binary {d line op l r m v m₁ w m₂ problem} : l.eval (callAt fuel d) m = .ok v m₁ →
    r.eval (callAt fuel d) m₁ = .ok w m₂ → Value.binary op v w = .error problem →
    Breaks fuel ⟨d, .expr (.binary line op l r), m⟩ (.fault ⟨line, .runtime problem⟩) m₂
  | negate {d line op e m v m₁ problem} : e.eval (callAt fuel d) m = .ok v m₁ → Value.negate op v = .error problem →
    Breaks fuel ⟨d, .expr (.negate line op e), m⟩ (.fault ⟨line, .runtime problem⟩) m₁
  | compare {d line op l r m v m₁ w m₂ problem} : l.eval (callAt fuel d) m = .ok v m₁ →
    r.eval (callAt fuel d) m₁ = .ok w m₂ → Value.holds op v w = .error problem →
    Breaks fuel ⟨d, .expr (.compare line op l r), m⟩ (.fault ⟨line, .runtime problem⟩) m₂
  | gets {d line m stop m₁} : Eval.readLine line m = .error stop m₁ →
    Breaks fuel ⟨d, .expr (.gets line), m⟩ stop m₁
  | stmtGets {d line m stop m₁} : Eval.readLine line m = .error stop m₁ →
    Breaks fuel ⟨d, .stmt (.gets line), m⟩ stop m₁
  | write {q line text m stop m₁} : Writes fuel q line text m → Eval.write line text m = .error stop m₁ →
    Breaks fuel q stop m₁
  | rounds {d c b m} : Breaks fuel ⟨d, .rounds c b 0, m⟩ .outOfFuel m

/-- The run from here comes to a point that fails, and this is the machine that is left in the end. -/
inductive Point.Stops (fuel : Nat) : Point → Stop → Machine → Prop where
  | here {p stop m} : Breaks fuel p stop m → Stops fuel p stop m
  | step {d t m t' m₁ stop m'} : Leads fuel ⟨d, t, m⟩ ⟨d, t', m₁⟩ → Stops fuel ⟨d, t', m₁⟩ stop m' →
    Stops fuel ⟨d, t, m⟩ stop m'
  | call {d f args line m stop m'} : Stops fuel ⟨d, .stmts f.body.stmts, m.enter f args⟩ stop m' →
    Stops fuel ⟨d + 1, .call f args line, m⟩ stop m'.leave

/-- Nothing but that some frames on top are gone. -/
def Machine.Unwinds (m m' : Machine) : Prop := ∃ k, m' = { m with frames := m.frames.drop k }

section
variable {fuel : Nat} {p q : Point} {stop : Stop} {m m₁ m₂ m' : Machine} {line : Nat} {name : String}

theorem Machine.Unwinds.refl (m : Machine) : m.Unwinds m := ⟨0, rfl⟩

theorem Machine.Unwinds.leave (h : m.Unwinds m') : m.Unwinds m'.leave := by
  obtain ⟨k, rfl⟩ := h
  exact ⟨k + 1, by simp [Machine.leave]⟩

theorem Point.Stops.visits (h : p.Stops fuel stop m') :
    ∃ q m₁, p.Visits fuel q ∧ q.Breaks fuel stop m₁ ∧ m₁.Unwinds m' := by
  induction h with
  | here h => exact ⟨_, _, .refl, h, .refl _⟩
  | step hstep _ ih =>
    obtain ⟨q, m₁, hvisits, hbreaks, hunwinds⟩ := ih
    exact ⟨q, m₁, .head hstep hvisits, hbreaks, hunwinds⟩
  | call _ ih =>
    obtain ⟨q, m₁, hvisits, hbreaks, hunwinds⟩ := ih
    exact ⟨q, m₁, .head .body hvisits, hbreaks, hunwinds.leave⟩

theorem Eval.write_error {text : String} (h : Eval.write line text m = .error stop m') :
    m.console.fits text = false ∧ stop = .fault ⟨line, .runtime (.outputFailed Console.full)⟩ ∧
      m' = { m with console := m.console.write text } := by
  rw [write_apply] at h
  by_cases hfits : m.console.fits text = true
  · rw [if_pos hfits] at h
    cases h
  · rw [if_neg hfits] at h
    cases h
    exact ⟨Bool.eq_false_iff.mpr hfits, rfl, rfl⟩

theorem Eval.readLine_error (h : Eval.readLine line m = .error stop m') :
    stop = .fault ⟨line, .runtime (.inputFailed Console.notText)⟩ := by
  rw [readLine_apply] at h
  rcases hnext : m.console.next? with _ | ⟨_ | _, _⟩ <;> rw [hnext] at h <;> cases h
  rfl

/-- Only a name that is missing makes a variable undefined. -/
theorem Point.Breaks.missing (h : q.Breaks fuel (undefined line name) m) :
    ∃ d, q = ⟨d, .load line name, m⟩ ∧ m.get? name = none ∨
      ∃ v, q = ⟨d, .store line name v, m⟩ ∧ m.set? name v = none := by
  generalize hstop : undefined line name = stop at h
  cases h with
  | load hget =>
    cases hstop
    exact ⟨_, .inl ⟨rfl, hget⟩⟩
  | store hset =>
    cases hstop
    exact ⟨_, .inr ⟨_, rfl, hset⟩⟩
  | call => cases hstop
  | binary _ _ h =>
    cases hstop
    cases Value.binary_error h
  | negate _ h =>
    cases hstop
    cases Value.negate_error h
  | compare _ _ h =>
    cases hstop
    cases Value.holds_error h
  | gets h =>
    rw [Eval.readLine_error h] at hstop
    cases hstop
  | stmtGets h =>
    rw [Eval.readLine_error h] at hstop
    cases hstop
  | write _ h =>
    rw [(Eval.write_error h).2.1] at hstop
    cases hstop
  | rounds => cases hstop

/-- Only a text that does not fit makes the output fail. -/
theorem Point.Breaks.outputFailed {reason : String}
    (h : q.Breaks fuel (.fault ⟨line, .runtime (.outputFailed reason)⟩) m) :
    ∃ text m₁, q.Writes fuel line text m₁ ∧ m₁.console.fits text = false ∧
      m = { m₁ with console := m₁.console.write text } := by
  generalize hstop : Stop.fault ⟨line, .runtime (.outputFailed reason)⟩ = stop at h
  cases h with
  | load => cases hstop
  | store => cases hstop
  | call => cases hstop
  | binary _ _ h =>
    cases hstop
    cases Value.binary_error h
  | negate _ h =>
    cases hstop
    cases Value.negate_error h
  | compare _ _ h =>
    cases hstop
    cases Value.holds_error h
  | gets h =>
    rw [Eval.readLine_error h] at hstop
    cases hstop
  | stmtGets h =>
    rw [Eval.readLine_error h] at hstop
    cases hstop
  | write hw h =>
    obtain ⟨hfits, heq, rfl⟩ := Eval.write_error h
    rw [heq] at hstop
    cases hstop
    exact ⟨_, _, hw, hfits, rfl⟩
  | rounds => cases hstop

end

namespace Eval

variable {α β : Type} {x : Eval α} {m m' : Machine} {stop : Stop}

theorem bind_error {f : α → Eval β} (h : (x >>= f) m = .error stop m') :
    x m = .error stop m' ∨ ∃ a m₁, x m = .ok a m₁ ∧ f a m₁ = .error stop m' := by
  change EStateM.bind x f m = _ at h
  unfold EStateM.bind at h
  generalize x m = r at h ⊢
  cases r with
  | ok a m₁ => exact Or.inr ⟨a, m₁, rfl, h⟩
  | error s m₁ =>
    cases h
    exact Or.inl rfl

theorem discard_error (h : Functor.discard x m = .error stop m') : x m = .error stop m' := by
  change EStateM.map (fun _ => ()) x m = _ at h
  unfold EStateM.map at h
  generalize x m = r at h ⊢
  cases r with
  | ok a m₁ => cases h
  | error s m₁ =>
    cases h
    rfl

theorem ofExcept_error {line : Nat} {e : Except RuntimeProblem α} (h : ofExcept line e m = .error stop m') :
    ∃ problem, e = .error problem ∧ stop = .fault ⟨line, .runtime problem⟩ ∧ m' = m := by
  cases e with
  | ok a => cases h
  | error problem =>
    cases h
    exact ⟨problem, rfl, rfl, rfl⟩

end Eval

/-! ## Runs that stop -/

section
open Eval Point

variable {fuel : Nat}

theorem Point.stops_load {d l : Nat} {n : String} {m m' : Machine} {stop : Stop}
    (h : Eval.load l n m = .error stop m') : Stops fuel ⟨d, .load l n, m⟩ stop m' := by
  cases hv : m.get? n with
  | some v =>
    rw [load_some hv] at h
    cases h
  | none =>
    rw [load_none hv] at h
    cases h
    exact .here (.load hv)

theorem Point.stops_store {d l : Nat} {n : String} {v : Value} {m m' : Machine} {stop : Stop}
    (h : Eval.store l n v m = .error stop m') : Stops fuel ⟨d, .store l n v, m⟩ stop m' := by
  cases hv : m.set? n v with
  | some m₁ =>
    rw [store_some hv] at h
    cases h
  | none =>
    rw [store_none hv] at h
    cases h
    exact .here (.store hv)

/-- Calls that stop like this have come to a point that fails. -/
def Caller.Blames (fuel d : Nat) (stop : Stop) (m' : Machine) : Prop := ∀ ⦃f args l m⦄,
  callAt fuel d f args l m = .error stop m' → Stops fuel ⟨d, .call f args l, m⟩ stop m'

section
variable {d : Nat} {stop : Stop} {m' : Machine}

mutual

theorem Expr.stops (hcall : Caller.Blames fuel d stop m') : ∀ {e : Expr} {m : Machine},
    e.eval (callAt fuel d) m = .error stop m' → Stops fuel ⟨d, .expr e, m⟩ stop m'
  | .literal _ _, _, h => by cases h
  | .call l n args, m, h => by
    rw [Expr.eval] at h
    rcases bind_error h with h | ⟨v, m₁, hload, h⟩
    · exact .step .load (stops_load h)
    have hget : m.get? n = some v ∧ m₁ = m := by
      cases hv : m.get? n with
      | some w =>
        rw [load_some hv] at hload
        cases hload
        exact ⟨rfl, rfl⟩
      | none =>
        rw [load_none hv] at hload
        cases hload
    obtain ⟨hget, rfl⟩ := hget
    cases v with
    | func f =>
      rcases bind_error h with h | ⟨vs, m₂, hargs, h⟩
      · exact .step (.args hget) (Expr.stopsAll hcall h)
      rcases bind_error h with h | ⟨w, m₃, _, h⟩
      · exact .step (.call hget hargs) (hcall h)
      · cases h
    | _ => cases h
  | .binary _ _ l r, m, h => by
    rw [Expr.eval] at h
    rcases bind_error h with h | ⟨v, m₁, hl, h⟩
    · exact .step .left (Expr.stops hcall h)
    rcases bind_error h with h | ⟨w, m₂, hr, h⟩
    · exact .step (.right hl) (Expr.stops hcall h)
    rcases bind_error h with h | ⟨u, m₃, _, h⟩
    · obtain ⟨problem, hproblem, rfl, rfl⟩ := ofExcept_error h
      exact .here (.binary hl hr hproblem)
    · cases h
  | .negate _ _ e, m, h => by
    rw [Expr.eval] at h
    rcases bind_error h with h | ⟨v, m₁, he, h⟩
    · exact .step .operand (Expr.stops hcall h)
    rcases bind_error h with h | ⟨u, m₂, _, h⟩
    · obtain ⟨problem, hproblem, rfl, rfl⟩ := ofExcept_error h
      exact .here (.negate he hproblem)
    · cases h
  | .compare _ _ l r, m, h => by
    rw [Expr.eval] at h
    rcases bind_error h with h | ⟨v, m₁, hl, h⟩
    · exact .step .compareLeft (Expr.stops hcall h)
    rcases bind_error h with h | ⟨w, m₂, hr, h⟩
    · exact .step (.compareRight hl) (Expr.stops hcall h)
    rcases bind_error h with h | ⟨u, m₃, _, h⟩
    · obtain ⟨problem, hproblem, rfl, rfl⟩ := ofExcept_error h
      exact .here (.compare hl hr hproblem)
    · cases h
  | .gets _, _, h => .here (.gets h)
  | .assign _ as, m, h => by
    rw [Expr.eval] at h
    rcases bind_error h with h | ⟨v, m₁, _, h⟩
    · exact .step .stores (Assign.stopsAll hcall h)
    · cases h

theorem Expr.stopsAll (hcall : Caller.Blames fuel d stop m') : ∀ {es : List Expr} {m : Machine},
    Expr.evalAll (callAt fuel d) es m = .error stop m' → Stops fuel ⟨d, .exprs es, m⟩ stop m'
  | [], _, h => by cases h
  | e :: es, m, h => by
    rw [Expr.evalAll] at h
    rcases bind_error h with h | ⟨v, m₁, he, h⟩
    · exact .step .expr (Expr.stops hcall h)
    rcases bind_error h with h | ⟨vs, m₂, _, h⟩
    · exact .step (.exprs he) (Expr.stopsAll hcall h)
    · cases h

theorem Assign.stops (hcall : Caller.Blames fuel d stop m') : ∀ {a : Assign} {m : Machine},
    a.eval (callAt fuel d) m = .error stop m' → Stops fuel ⟨d, .assign a, m⟩ stop m'
  | ⟨l, n, e⟩, m, h => by
    rw [Assign.eval] at h
    rcases bind_error h with h | ⟨v, m₁, he, h⟩
    · exact .step .value (Expr.stops hcall h)
    rcases bind_error h with h | ⟨_, m₂, _, h⟩
    · exact .step (.store he) (stops_store h)
    · cases h

theorem Assign.stopsAll (hcall : Caller.Blames fuel d stop m') : ∀ {as : List Assign} {last : Value} {m : Machine},
    Assign.evalAll (callAt fuel d) last as m = .error stop m' →
      Stops fuel ⟨d, .assigns as, m⟩ stop m'
  | [], _, _, h => by cases h
  | a :: as, last, m, h => by
    rw [Assign.evalAll] at h
    rcases bind_error h with h | ⟨v, m₁, ha, h⟩
    · exact .step .assign (Assign.stops hcall h)
    · exact .step (.assigns ha) (Assign.stopsAll hcall h)

end

theorem Expr.eval_truthy {call : Caller} {c : Expr} {m m₁ : Machine} {go : Bool}
    (h : (do return (← c.eval call).isTruthy : Eval Bool) m = .ok go m₁) :
    ∃ v, c.eval call m = .ok v m₁ ∧ v.isTruthy = go := by
  change EStateM.bind _ _ m = _ at h
  unfold EStateM.bind at h
  generalize c.eval call m = r at h ⊢
  cases r with
  | ok v m₂ =>
    cases h
    exact ⟨v, rfl, rfl⟩
  | error stop m₂ => cases h

theorem Point.stops_rounds {c : Expr} {b : Block}
    (hcall : Caller.Blames fuel d stop m')
    (hb : ∀ {m}, b.exec (callAt fuel d) fuel m = .error stop m' →
      Stops fuel ⟨d, .stmts b.stmts, m⟩ stop m') : ∀ {n : Nat} {m : Machine},
    repeatWhile (return (← c.eval (callAt fuel d)).isTruthy) (b.exec (callAt fuel d) fuel) n m =
      .error stop m' → Stops fuel ⟨d, .rounds c b n, m⟩ stop m'
  | 0, _, h => by
    cases h
    exact .here .rounds
  | n + 1, m, h => by
    rw [repeatWhile] at h
    rcases bind_error h with h | ⟨go, m₁, hc, h⟩
    · rcases bind_error h with h | ⟨v, m₁, _, h⟩
      · exact .step .round (Expr.stops hcall h)
      · cases h
    obtain ⟨v, hv, rfl⟩ := Expr.eval_truthy hc
    split at h
    · rename_i ht
      rcases bind_error h with h | ⟨_, m₂, hbody, h⟩
      · exact .step (.roundBody hv ht) (hb h)
      · exact .step (.again hv ht hbody) (stops_rounds hcall hb h)
    · cases h

mutual

theorem Stmt.stops (hcall : Caller.Blames fuel d stop m') : ∀ {s : Stmt} {m : Machine},
    s.exec (callAt fuel d) fuel m = .error stop m' → Stops fuel ⟨d, .stmt s, m⟩ stop m'
  | .assign a, m, h => .step .stmtAssign (Assign.stops hcall (discard_error h))
  | .print l es, m, h => by
    rw [Stmt.exec] at h
    rcases bind_error h with h | ⟨vs, m₁, hvs, h⟩
    · exact .step .print (Expr.stopsAll hcall h)
    · exact .here (.write (.print hvs) h)
  | .puts l [], m, h => .here (.write .feed h)
  | .puts l (e :: es), m, h => by
    rw [Stmt.exec] at h
    rcases bind_error h with h | ⟨vs, m₁, hvs, h⟩
    · exact .step .puts (Expr.stopsAll hcall h)
    · exact .here (.write (.puts hvs) h)
  | .choose a as o, m, h => by
    rw [Stmt.exec] at h
    rcases bind_error h with h | ⟨b, m₁, ha, h⟩
    · exact .step .first (Arm.stops hcall h)
    cases b with
    | true => cases h
    | false =>
      rcases bind_error h with h | ⟨b, m₂, has, h⟩
      · exact .step (.others ha) (Arm.stopsFirst hcall h)
      cases b with
      | true => cases h
      | false =>
        cases o with
        | none => cases h
        | some b => exact .step (.otherwise ha has) (Block.stops hcall h)
  | .loop l c b, m, h => .step .loop (stops_rounds hcall (Block.stops hcall) h)
  | .define f, _, h => .step .define (stops_store h)
  | .gets _, _, h => .here (.stmtGets (discard_error h))
  | .expr e, m, h => .step .stmtExpr (Expr.stops hcall (discard_error h))

theorem Stmt.stopsAll (hcall : Caller.Blames fuel d stop m') : ∀ {ss : List Stmt} {m : Machine},
    Stmt.execAll (callAt fuel d) fuel ss m = .error stop m' → Stops fuel ⟨d, .stmts ss, m⟩ stop m'
  | [], _, h => by cases h
  | s :: ss, m, h => by
    rw [Stmt.execAll] at h
    rcases bind_error h with h | ⟨_, m₁, hs, h⟩
    · exact .step .stmt (Stmt.stops hcall h)
    · exact .step (.stmts hs) (Stmt.stopsAll hcall h)

theorem Block.stops (hcall : Caller.Blames fuel d stop m') : ∀ {b : Block} {m : Machine},
    b.exec (callAt fuel d) fuel m = .error stop m' → Stops fuel ⟨d, .stmts b.stmts, m⟩ stop m'
  | ⟨_, _⟩, _, h => Stmt.stopsAll hcall h

theorem Arm.stops (hcall : Caller.Blames fuel d stop m') : ∀ {a : Arm} {m : Machine},
    a.exec (callAt fuel d) fuel m = .error stop m' → Stops fuel ⟨d, .arm a, m⟩ stop m'
  | ⟨l, c, b⟩, m, h => by
    rw [Arm.exec] at h
    rcases bind_error h with h | ⟨v, m₁, hc, h⟩
    · exact .step .condition (Expr.stops hcall h)
    split at h
    · rename_i hv
      rcases bind_error h with h | ⟨_, m₂, _, h⟩
      · exact .step (.armBody hc hv) (Block.stops hcall h)
      · cases h
    · cases h

theorem Arm.stopsFirst (hcall : Caller.Blames fuel d stop m') : ∀ {as : List Arm} {m : Machine},
    Arm.execFirst (callAt fuel d) fuel as m = .error stop m' → Stops fuel ⟨d, .arms as, m⟩ stop m'
  | [], _, h => by cases h
  | a :: as, m, h => by
    rw [Arm.execFirst] at h
    rcases bind_error h with h | ⟨b, m₁, ha, h⟩
    · exact .step .arm (Arm.stops hcall h)
    cases b with
    | true => cases h
    | false => exact .step (.arms ha) (Arm.stopsFirst hcall h)

end

end

theorem Caller.blames : ∀ (d : Nat) (stop : Stop) (m' : Machine), Blames fuel d stop m'
  | 0, _, _ => by
    intro f args l m h
    cases h
    exact .here .call
  | d + 1, stop, m' => by
    intro f args l m h
    simp only [callAt, within] at h
    split at h
    · cases h
    · rename_i hbody
      cases h
      exact .call (Block.stops (blames d _ _) hbody)

/-- A run that stops has come to a point that fails. -/
theorem Machine.stops_of_exec {m m' : Machine} {b : Block} {stop : Stop} (h : m.exec fuel b = .error stop m') :
    (m.point b).Stops fuel stop m' :=
  Block.stops (Caller.blames _ stop m') h

end

end Sprig
