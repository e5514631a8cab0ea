import Sprig.Proofs.RunBridge
import Sprig.Proofs.FrameLemmas

/-!
# Runs under other lines

The same code under other lines, in a machine whose functions have the other lines too, does the same: it writes and
reads the same, ends in the same way, and leaves the same machine up to lines. New lines must be as different as
the old ones are, because functions are compared line for line.
-/

namespace Sprig

def Frame.mapLine (g : Nat → Nat) (f : Frame) : Frame := ⟨f.bindings.map fun b => (b.1, b.2.mapLine g)⟩

def Machine.mapLine (g : Nat → Nat) (m : Machine) : Machine :=
  { m with globals := m.globals.mapLine g, frames := m.frames.map (Frame.mapLine g), last := m.last.mapLine g }

/-- How a run ends, under other lines. -/
def Eval.mapLine (g : Nat → Nat) : EStateM.Result Stop Machine Unit → EStateM.Result Stop Machine Unit
  | .ok a m => .ok a (m.mapLine g)
  | .error stop m => .error (stop.mapLine g) (m.mapLine g)

section
variable (g : Nat → Nat)

/-! ## Frames -/

namespace Frame

theorem get?_mapLine (f : Frame) (name : String) : (f.mapLine g).get? name = (f.get? name).map (Value.mapLine g) := by
  unfold mapLine get?
  induction f.bindings with
  | nil => rfl
  | cons b bindings ih =>
    rw [List.map_cons, List.lookup_cons, List.lookup_cons, ih]
    cases name == b.1 <;> rfl

theorem set?_mapLine (f : Frame) (name : String) (v : Value) :
    (f.mapLine g).set? name (v.mapLine g) = (f.set? name v).map (mapLine g) := by
  unfold set? contains
  rw [get?_mapLine, Option.isSome_map]
  by_cases h : (f.get? name).isSome = true
  · simp only [h, if_true, Option.map_some, mapLine, List.map_map]
    congr 2
    apply List.map_congr_left
    intro b _
    by_cases hb : b.1 = name <;> simp [hb]
  · simp [h]

theorem ofScope_mapLine (s : Scope) : (ofScope s).mapLine g = ofScope s := by
  unfold ofScope mapLine
  rw [List.map_map]
  rfl

theorem migrate_mapLine (f previous : Frame) :
    (f.migrate previous).mapLine g = (f.mapLine g).migrate (previous.mapLine g) := by
  unfold migrate mapLine
  simp only [List.map_map]
  congr 1
  apply List.map_congr_left
  intro b _
  have hget := get?_mapLine g previous b.1
  unfold mapLine at hget
  simp only [Function.comp_apply, hget]
  cases previous.get? b.1 <;> rfl

end Frame

/-! ## Machines -/

namespace Machine

theorem get?_mapLine (m : Machine) (name : String) : (m.mapLine g).get? name = (m.get? name).map (Value.mapLine g) := by
  unfold get?
  by_cases hn : isGlobalName name = true
  · simp only [hn, if_true]
    exact Frame.get?_mapLine g m.globals name
  · simp only [hn, mapLine]
    cases m.frames with
    | nil => rfl
    | cons f below => exact Frame.get?_mapLine g f name

theorem set?_mapLine (m : Machine) (name : String) (v : Value) :
    (m.mapLine g).set? name (v.mapLine g) = (m.set? name v).map (mapLine g) := by
  obtain ⟨globals, frames, last, hasRun, console⟩ := m
  unfold set?
  by_cases hn : isGlobalName name = true
  · simp only [hn, if_true, mapLine, Frame.set?_mapLine]
    cases globals.set? name v <;> rfl
  · simp only [hn, mapLine]
    cases frames with
    | nil => rfl
    | cons f below =>
      simp only [List.map_cons, Frame.set?_mapLine]
      cases f.set? name v <;> rfl

theorem push_mapLine (m : Machine) (s : Scope) : (m.mapLine g).push s = (m.push s).mapLine g := by
  simp only [push, mapLine, List.map_cons, Frame.ofScope_mapLine, Value.mapLine]

theorem leave_mapLine (m : Machine) : (m.mapLine g).leave = m.leave.mapLine g := by
  simp only [leave, mapLine, List.map_tail]

theorem reset_mapLine (m : Machine) (scopes : ScopeTable) :
    (m.mapLine g).reset scopes = (m.reset scopes).mapLine g := by
  simp only [reset, mapLine, List.map_cons, List.map_nil, Frame.ofScope_mapLine, Value.mapLine]

theorem reset_fixed (m : Machine) (scopes : ScopeTable) : (m.reset scopes).mapLine g = m.reset scopes :=
  (reset_mapLine g m scopes).symm

theorem migrate_mapLine (m : Machine) (scopes : ScopeTable) :
    (m.mapLine g).migrate scopes = (m.migrate scopes).mapLine g := by
  have hlast : (m.mapLine g).frames.getLast?.getD .empty = (m.frames.getLast?.getD .empty).mapLine g := by
    simp only [mapLine, List.getLast?_map]
    cases m.frames.getLast? <;> rfl
  simp only [migrate, hlast]
  simp only [mapLine, List.map_cons, List.map_nil, Frame.migrate_mapLine, Frame.ofScope_mapLine, Value.mapLine]

end Machine

end

/-! ## Runs -/

/-- Machines that are the same up to lines. -/
def RunBridge.renumber {g : Nat → Nat} (hg : Function.Injective g) : RunBridge where
  mapLine := g
  injective := hg
  World := Unit
  inner _ _ _ _ := ()
  machines _ m m' := m' = m.mapLine g
  console h := by rw [h]; rfl
  last h := by rw [h]; rfl
  get? name h := by rw [h, Machine.get?_mapLine]
  set? name v h := by
    rw [h, Machine.set?_mapLine]
    cases hset : Machine.set? _ name v with
    | none => exact .inl ⟨rfl, rfl⟩
    | some m₁ => exact .inr ⟨m₁, _, rfl, rfl, rfl⟩
  remember v h := by rw [h]; rfl
  withConsole console h := by rw [h]; rfl
  push f h := by rw [h, Machine.push_mapLine]
  leave _ h := by rw [h, Machine.leave_mapLine]

namespace Machine

variable {g : Nat → Nat} {b b' : Block}

theorem exec_mapLine (hg : Function.Injective g) (hb : b'.stmts = b.stmts.map (Stmt.mapLine g)) (fuel : Nat)
    (m : Machine) : (m.mapLine g).exec fuel b' = Eval.mapLine g (m.exec fuel b) := by
  -- the line of the block itself is not looked at, so it may be any
  obtain ⟨line, ss⟩ := b
  obtain ⟨line', ss'⟩ := b'
  simp only at hb
  have hdepth : (m.mapLine g).frames.length = m.frames.length := List.length_map _
  have hagrees : (RunBridge.renumber hg).Agrees () id (Stmt.execAll (m.caller fuel) fuel ss m)
      (Stmt.execAll (m.caller fuel) fuel (Stmt.mapLineAll g ss) (m.mapLine g)) :=
    Stmt.relatedAll ((RunBridge.renumber hg).relation.calls fuel _) ss () rfl
  rw [Stmt.mapLineAll_eq, ← hb] at hagrees
  unfold exec caller
  rw [hdepth]
  change Stmt.execAll (m.caller fuel) fuel ss' (m.mapLine g) =
    Eval.mapLine g (Stmt.execAll (m.caller fuel) fuel ss m)
  generalize Stmt.execAll (m.caller fuel) fuel ss m = r at hagrees ⊢
  generalize Stmt.execAll (m.caller fuel) fuel ss' (m.mapLine g) = r' at hagrees ⊢
  cases hagrees with
  | ok hm => exact congrArg (EStateM.Result.ok _) hm
  | error hm => exact congrArg (EStateM.Result.error _) hm

theorem run_mapLine (hg : Function.Injective g) (hb : b'.stmts = b.stmts.map (Stmt.mapLine g)) (fuel : Nat)
    (m : Machine) (scopes : ScopeTable) : (m.mapLine g).run fuel scopes b' = Eval.mapLine g (m.run fuel scopes b) := by
  unfold run
  rw [reset_mapLine]
  exact exec_mapLine hg hb fuel _

theorem resume_mapLine (hg : Function.Injective g) (hb : b'.stmts = b.stmts.map (Stmt.mapLine g)) (fuel : Nat)
    (m : Machine) (scopes : ScopeTable) :
    (m.mapLine g).resume fuel scopes b' = Eval.mapLine g (m.resume fuel scopes b) := by
  unfold resume
  rw [show (m.mapLine g).hasRun = m.hasRun from rfl]
  by_cases hrun : m.hasRun = true
  · simp only [hrun, if_true]
    rw [migrate_mapLine]
    exact exec_mapLine hg hb fuel _
  · simp only [hrun, Bool.false_eq_true, if_false]
    exact run_mapLine hg hb fuel m scopes

end Machine

end Sprig
