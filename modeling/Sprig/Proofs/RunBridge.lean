import Sprig.Proofs.RunRelation

/-!
# Two runs of one program

A `RunBridge` compares two ways to run the same code: the second one has it under other lines, and its machines stand
in a relation to those of the first. What the relation says may depend on the call that is running, so every call
opens a world of its own. `Sim` says that two computations keep to the bridge: both go well or both stop, with the
same result up to lines. It is closed under everything that the evaluator is made of.

Nothing is asked of the code or of the values that are around, so the bridge carries any program there is
(`RunBridge.relation`).
-/

namespace Sprig

def Stop.mapLine (g : Nat → Nat) : Stop → Stop
  | .fault f => .fault (f.mapLine g)
  | .outOfFuel => .outOfFuel

@[simp] theorem Stop.mapLine_id (stop : Stop) : stop.mapLine id = stop := by
  cases stop <;> rfl

/-- The fields after `machines` say what machines in the relation have in common and which changes keep them in it. The
world of a call, `inner`, may depend on the two machines at its start. -/
structure RunBridge where
  mapLine : Nat → Nat
  injective : Function.Injective mapLine
  World : Type
  inner : World → Func → Machine → Machine → World
  machines : World → Machine → Machine → Prop
  console : ∀ {w m m'}, machines w m m' → m'.console = m.console
  last : ∀ {w m m'}, machines w m m' → m'.last = m.last.mapLine mapLine
  get? : ∀ {w m m'} name, machines w m m' → m'.get? name = (m.get? name).map (Value.mapLine mapLine)
  set? : ∀ {w m m'} name v, machines w m m' →
    (m.set? name v = none ∧ m'.set? name (v.mapLine mapLine) = none) ∨
      ∃ m₁ m₁', m.set? name v = some m₁ ∧ m'.set? name (v.mapLine mapLine) = some m₁' ∧ machines w m₁ m₁'
  remember : ∀ {w m m'} v, machines w m m' →
    machines w { m with last := v } { m' with last := v.mapLine mapLine }
  withConsole : ∀ {w m m'} console, machines w m m' → machines w { m with console } { m' with console }
  push : ∀ {w m m'} f, machines w m m' → machines (inner w f m m') (m.push f.scope) (m'.push f.scope)
  leave : ∀ {w m m' m₁ m₁' f}, machines w m m' → machines (inner w f m m') m₁ m₁' → machines w m₁.leave m₁'.leave

namespace RunBridge

variable {α β γ δ : Type} (B : RunBridge)

inductive Agrees (w : B.World) (u : α → β) :
    EStateM.Result Stop Machine α → EStateM.Result Stop Machine β → Prop where
  | ok {a m m'} : B.machines w m m' → Agrees w u (.ok a m) (.ok (u a) m')
  | error {stop m m'} : B.machines w m m' → Agrees w u (.error stop m) (.error (stop.mapLine B.mapLine) m')

/-- From related machines the two runs agree. -/
def Sim (w : B.World) (u : α → β) (x : Eval α) (y : Eval β) : Prop :=
  ∀ ⦃m m'⦄, B.machines w m m' → B.Agrees w u (x m) (y m')

namespace Sim

variable {B} {w : B.World} {u : α → β} {v : γ → δ} {x : Eval α} {y : Eval β}

theorem pure {a : α} {b : β} (h : b = u a) : B.Sim w u (Pure.pure a) (Pure.pure b) := by
  intro m m' hm
  rw [h]
  exact .ok hm

theorem bind {f : α → Eval γ} {f' : β → Eval δ} (h : B.Sim w u x y) (hf : ∀ a, B.Sim w v (f a) (f' (u a))) :
    B.Sim w v (x >>= f) (y >>= f') := by
  intro m m' hm
  have hx := h hm
  show B.Agrees w v (EStateM.bind x f m) (EStateM.bind y f' m')
  unfold EStateM.bind
  generalize x m = r at hx ⊢
  generalize y m' = r' at hx ⊢
  cases hx with
  | ok hm₁ => exact hf _ hm₁
  | error hm₁ => exact .error hm₁

theorem fail (line : Nat) (problem : RuntimeProblem) :
    B.Sim w u (Eval.fail line problem) (Eval.fail (B.mapLine line) problem) := by
  intro m m' hm
  exact .error hm

/-! ## Names and the console -/

theorem remember (v : Value) :
    B.Sim w (Value.mapLine B.mapLine) (Eval.remember v) (Eval.remember (v.mapLine B.mapLine)) := by
  intro m m' hm
  exact .ok (B.remember v hm)

theorem load (line : Nat) (name : String) :
    B.Sim w (Value.mapLine B.mapLine) (Eval.load line name) (Eval.load (B.mapLine line) name) := by
  intro m m' hm
  have hget := B.get? name hm
  cases hv : m.get? name with
  | some v =>
    rw [hv] at hget
    rw [Eval.load_some hv, Eval.load_some hget]
    exact .ok hm
  | none =>
    rw [hv] at hget
    rw [Eval.load_none hv, Eval.load_none hget]
    exact .error hm

theorem store (line : Nat) (name : String) (v : Value) :
    B.Sim w id (Eval.store line name v) (Eval.store (B.mapLine line) name (v.mapLine B.mapLine)) := by
  intro m m' hm
  rcases B.set? name v hm with ⟨hset, hset'⟩ | ⟨m₁, m₁', hset, hset', hm₁⟩
  · rw [Eval.store_none hset, Eval.store_none hset']
    exact .error hm
  · rw [Eval.store_some hset, Eval.store_some hset']
    exact .ok hm₁

theorem write (line : Nat) (text : String) :
    B.Sim w id (Eval.write line text) (Eval.write (B.mapLine line) text) := by
  intro m m' hm
  have hm₁ := B.withConsole (m.console.write text) hm
  rw [Eval.write_apply, Eval.write_apply, B.console hm]
  by_cases hfits : m.console.fits text = true
  · rw [if_pos hfits, if_pos hfits]
    exact .ok hm₁
  · rw [if_neg hfits, if_neg hfits]
    exact .error hm₁

theorem readLine (line : Nat) :
    B.Sim w (Value.mapLine B.mapLine) (Eval.readLine line) (Eval.readLine (B.mapLine line)) := by
  intro m m' hm
  have hnext : m'.console.next? = m.console.next? := by rw [B.console hm]
  rw [Eval.readLine_apply, Eval.readLine_apply, hnext]
  rcases m.console.next? with _ | ⟨_ | _, console⟩
  · exact .ok (B.remember .nil hm)
  · exact .ok (B.remember _ (B.withConsole console hm))
  · exact .error (B.withConsole console hm)

/-! ## Calls -/

theorem bindParams (params : List String) : ∀ (args : List Value) {m m' : Machine}, B.machines w m m' →
    B.machines w (m.bind params args) (m'.bind params (args.map (Value.mapLine B.mapLine))) := by
  induction params with
  | nil => intro args m m' hm; exact hm
  | cons p params ih =>
    intro args m m' hm
    cases args with
    | nil => exact hm
    | cons v args =>
      simp only [List.map_cons, Machine.bind]
      apply ih
      rcases B.set? p v hm with ⟨hset, hset'⟩ | ⟨m₁, m₁', hset, hset', hm₁⟩
      · rw [hset, hset']
        exact hm
      · rw [hset, hset']
        exact hm₁

theorem within {f : Func} {args : List Value} {body body' : Eval Unit}
    (h : ∀ m m', B.Sim (B.inner w f m m') id body body') :
    B.Sim w (Value.mapLine B.mapLine) (Eval.within f args body)
      (Eval.within (f.mapLine B.mapLine) (args.map (Value.mapLine B.mapLine)) body') := by
  intro m m' hm
  have henter : B.machines (B.inner w f m m') (m.enter f args)
      (m'.enter (f.mapLine B.mapLine) (args.map (Value.mapLine B.mapLine))) := by
    cases f
    exact bindParams _ args (B.push _ hm)
  have hbody := h m m' henter
  unfold Eval.within
  generalize body (m.enter f args) = r at hbody ⊢
  generalize body' (m'.enter (f.mapLine B.mapLine) (args.map (Value.mapLine B.mapLine))) = r' at hbody ⊢
  -- with or without success the frame of the call goes, and with it the inner world
  cases hbody with
  | ok hm₁ =>
    simp only [B.last hm₁]
    exact .ok (B.leave hm hm₁)
  | error hm₁ => exact .error (B.leave hm hm₁)

end Sim

/-- What the bridge does not mention it carries anyway. -/
def relation : RunRelation where
  mapLine := B.mapLine
  injective := B.injective
  World := B.World
  Sim := B.Sim
  pure _ := Sim.pure rfl
  bind := Sim.bind
  fail := Sim.fail
  outOfFuel := by
    intro w m m' hm
    exact .error hm
  remember := Sim.remember
  load := Sim.load
  store := Sim.store
  write := Sim.write
  readLine := Sim.readLine
  within h := Sim.within fun _ _ => h _

end RunBridge

end Sprig
