import Sprig.Proofs.Beside
import Sprig.Proofs.ValueLines

/-!
# Relations between two runs of one program

The evaluator is made of few things: results and sequences, faults, the bound of loops, names, the console, and calls.
A relation between computations that is closed under these (`RunRelation`) holds between any program and itself. The
second run may have the code under other lines. What the relation says may depend on a world, and a call has to keep
to it in every world that its body may run in.
-/

namespace Sprig

structure RunRelation where
  mapLine : Nat → Nat
  injective : Function.Injective mapLine
  World : Type
  /-- The second computation goes with the first one, and so does its result with `u` of the other. -/
  Sim : ∀ {α β : Type}, World → (α → β) → Eval α → Eval β → Prop
  pure : ∀ {α β w} {u : α → β} (a : α), Sim w u (Pure.pure a) (Pure.pure (u a))
  bind : ∀ {α β γ δ w} {u : α → β} {v : γ → δ} {x y} {f : α → Eval γ} {f' : β → Eval δ}, Sim w u x y →
    (∀ a, Sim w v (f a) (f' (u a))) → Sim w v (x >>= f) (y >>= f')
  fail : ∀ {α β w} {u : α → β} (line : Nat) (problem : RuntimeProblem),
    Sim w u (Eval.fail line problem) (Eval.fail (mapLine line) problem)
  outOfFuel : ∀ {w}, Sim w (id : Unit → Unit) (throw .outOfFuel) (throw .outOfFuel)
  remember : ∀ {w} (v : Value),
    Sim w (Value.mapLine mapLine) (Eval.remember v) (Eval.remember (v.mapLine mapLine))
  load : ∀ {w} (line : Nat) (name : String),
    Sim w (Value.mapLine mapLine) (Eval.load line name) (Eval.load (mapLine line) name)
  store : ∀ {w} (line : Nat) (name : String) (v : Value),
    Sim w id (Eval.store line name v) (Eval.store (mapLine line) name (v.mapLine mapLine))
  write : ∀ {w} (line : Nat) (text : String), Sim w id (Eval.write line text) (Eval.write (mapLine line) text)
  readLine : ∀ {w} (line : Nat),
    Sim w (Value.mapLine mapLine) (Eval.readLine line) (Eval.readLine (mapLine line))
  within : ∀ {w f args body body'}, (∀ w, Sim w id body body') →
    Sim w (Value.mapLine mapLine) (Eval.within f args body)
      (Eval.within (f.mapLine mapLine) (args.map (Value.mapLine mapLine)) body')

theorem Eval.discard_eq {α : Type} (x : Eval α) : Functor.discard x = x >>= fun _ => Pure.pure () := by
  funext m
  show EStateM.map (fun _ => ()) x m = EStateM.bind x (fun _ => Pure.pure ()) m
  unfold EStateM.map EStateM.bind
  cases x m <;> rfl

namespace RunRelation

variable {α β : Type} {R : RunRelation} {w : R.World} {u : α → β}

theorem discard {x : Eval α} {y : Eval β} (h : R.Sim w u x y) :
    R.Sim w id (Functor.discard x) (Functor.discard y) := by
  rw [Eval.discard_eq, Eval.discard_eq]
  exact R.bind h fun _ => R.pure ()

theorem ofExcept (line : Nat) {e : Except RuntimeProblem α} {e' : Except RuntimeProblem β} (h : e' = e.map u) :
    R.Sim w u (Eval.ofExcept line e) (Eval.ofExcept (R.mapLine line) e') := by
  rw [h]
  cases e with
  | ok a => exact R.pure a
  | error problem => exact R.fail line problem

theorem repeatWhile {c c' : Eval Bool} {body body' : Eval Unit} (hc : R.Sim w id c c') (hb : R.Sim w id body body')
    (n : Nat) : R.Sim w id (Eval.repeatWhile c body n) (Eval.repeatWhile c' body' n) := by
  induction n with
  | zero => exact R.outOfFuel
  | succ n ih =>
    apply R.bind hc
    intro go
    cases go with
    | true => exact R.bind hb fun _ => ih
    | false => exact R.pure ()

variable (R) in
def CallSim (call call' : Caller) : Prop :=
  ∀ (f : Func) (args : List Value) (line : Nat) (w : R.World),
    R.Sim w (Value.mapLine R.mapLine) (call f args line)
      (call' (f.mapLine R.mapLine) (args.map (Value.mapLine R.mapLine)) (R.mapLine line))

end RunRelation

section
open RunRelation

variable {R : RunRelation} {call call' : Caller}

mutual

theorem Expr.related (hcall : R.CallSim call call') : ∀ (e : Expr) (w : R.World),
    R.Sim w (Value.mapLine R.mapLine) (e.eval call) ((e.mapLine R.mapLine).eval call')
  | .literal _ v, w => by
    have h : R.Sim w _ (Eval.remember (.ofLiteral v)) (Eval.remember _) := R.remember (.ofLiteral v)
    rw [Value.mapLine_ofLiteral] at h
    exact h
  | .call line name args, w => by
    apply R.bind (R.load line name)
    intro v
    cases v with
    | func f =>
      apply R.bind (Expr.relatedAll hcall args w)
      intro vs
      exact R.bind (hcall f vs line w) R.remember
    | _ => exact R.remember _
  | .binary line op left right, w => by
    apply R.bind (Expr.related hcall left w)
    intro l
    apply R.bind (Expr.related hcall right w)
    intro r
    exact R.bind (ofExcept line (Value.binary_mapLine op l r)) R.remember
  | .negate line op operand, w => by
    apply R.bind (Expr.related hcall operand w)
    intro v
    exact R.bind (ofExcept line (Value.negate_mapLine op v)) R.remember
  | .compare line op left right, w => by
    apply R.bind (Expr.related hcall left w)
    intro l
    apply R.bind (Expr.related hcall right w)
    intro r
    have hholds : Value.holds op (l.mapLine R.mapLine) (r.mapLine R.mapLine) = (Value.holds op l r).map id := by
      rw [Value.holds_mapLine R.injective]
      cases Value.holds op l r <;> rfl
    exact R.bind (ofExcept line hholds) fun b => R.remember (.boolean b)
  | .gets line, w => R.readLine line
  | .assign _ stores, w => R.bind (Assign.relatedAll hcall stores .nil w) R.remember

theorem Expr.relatedAll (hcall : R.CallSim call call') : ∀ (es : List Expr) (w : R.World),
    R.Sim w (List.map (Value.mapLine R.mapLine)) (Expr.evalAll call es)
      (Expr.evalAll call' (Expr.mapLineAll R.mapLine es))
  | [], _ => R.pure []
  | e :: es, w =>
    R.bind (Expr.related hcall e w) fun v => R.bind (Expr.relatedAll hcall es w) fun vs => R.pure (v :: vs)

theorem Assign.related (hcall : R.CallSim call call') : ∀ (a : Assign) (w : R.World),
    R.Sim w (Value.mapLine R.mapLine) (a.eval call) ((a.mapLine R.mapLine).eval call')
  | ⟨line, name, value⟩, w =>
    R.bind (Expr.related hcall value w) fun v => R.bind (R.store line name v) fun _ => R.pure v

theorem Assign.relatedAll (hcall : R.CallSim call call') : ∀ (as : List Assign) (last : Value) (w : R.World),
    R.Sim w (Value.mapLine R.mapLine) (Assign.evalAll call last as)
      (Assign.evalAll call' (last.mapLine R.mapLine) (Assign.mapLineAll R.mapLine as))
  | [], last, _ => R.pure last
  | a :: as, _, w => R.bind (Assign.related hcall a w) fun v => Assign.relatedAll hcall as v w

end

theorem Expr.related_map (hcall : R.CallSim call call') (es : List Expr) (w : R.World) :
    R.Sim w (List.map (Value.mapLine R.mapLine)) (Expr.evalAll call es)
      (Expr.evalAll call' (es.map (Expr.mapLine R.mapLine))) := by
  rw [← Expr.mapLineAll_eq]
  exact Expr.relatedAll hcall es w

variable {fuel : Nat}

mutual

theorem Stmt.related (hcall : R.CallSim call call') : ∀ (s : Stmt) (w : R.World),
    R.Sim w id (s.exec call fuel) ((s.mapLine R.mapLine).exec call' fuel)
  | .assign a, w => discard (Assign.related hcall a w)
  | .print line values, w => by
    apply R.bind (Expr.related_map hcall values w)
    intro vs
    rw [Value.map_render_mapLine]
    exact R.write line _
  | .puts line [], w => R.write line "\n"
  | .puts line (value :: values), w => by
    apply R.bind (Expr.related_map hcall (value :: values) w)
    intro vs
    have hrender : (vs.map (Value.mapLine R.mapLine)).map (·.render ++ "\n") = vs.map (·.render ++ "\n") := by
      simp
    rw [hrender]
    exact R.write line _
  | .choose first others otherwise, w => by
    apply R.bind (Arm.related hcall first w)
    intro done
    cases done with
    | true => exact R.pure ()
    | false =>
      apply R.bind (Arm.relatedFirst hcall others w)
      intro done
      cases done with
      | true => exact R.pure ()
      | false => exact Block.relatedOption hcall otherwise w
  | .loop _ condition body, w => by
    apply repeatWhile
    · apply R.bind (Expr.related hcall condition w)
      intro v
      rw [Value.isTruthy_mapLine]
      exact R.pure v.isTruthy
    · exact Block.related hcall body w
  | .define f, w => by
    cases f
    exact R.store _ _ _
  | .gets line, w => discard (R.readLine line)
  | .expr e, w => discard (Expr.related hcall e w)

theorem Stmt.relatedAll (hcall : R.CallSim call call') : ∀ (ss : List Stmt) (w : R.World),
    R.Sim w id (Stmt.execAll call fuel ss) (Stmt.execAll call' fuel (Stmt.mapLineAll R.mapLine ss))
  | [], _ => R.pure ()
  | s :: ss, w => R.bind (Stmt.related hcall s w) fun _ => Stmt.relatedAll hcall ss w

theorem Block.related (hcall : R.CallSim call call') : ∀ (b : Block) (w : R.World),
    R.Sim w id (b.exec call fuel) ((b.mapLine R.mapLine).exec call' fuel)
  | ⟨_, stmts⟩, w => Stmt.relatedAll hcall stmts w

theorem Block.relatedOption (hcall : R.CallSim call call') : ∀ (b : Option Block) (w : R.World),
    R.Sim w id (Block.execOption call fuel b) (Block.execOption call' fuel (Block.mapLineOption R.mapLine b))
  | none, _ => R.pure ()
  | some b, w => Block.related hcall b w

theorem Arm.related (hcall : R.CallSim call call') : ∀ (a : Arm) (w : R.World),
    R.Sim w id (a.exec call fuel) ((a.mapLine R.mapLine).exec call' fuel)
  | ⟨_, condition, body⟩, w => by
    apply R.bind (Expr.related hcall condition w)
    intro v
    simp only [Value.isTruthy_mapLine]
    by_cases hv : v.isTruthy = true
    · rw [if_pos hv, if_pos hv]
      exact R.bind (Block.related hcall body w) fun _ => R.pure true
    · rw [if_neg hv, if_neg hv]
      exact R.pure false

theorem Arm.relatedFirst (hcall : R.CallSim call call') : ∀ (as : List Arm) (w : R.World),
    R.Sim w id (Arm.execFirst call fuel as) (Arm.execFirst call' fuel (Arm.mapLineAll R.mapLine as))
  | [], _ => R.pure false
  | a :: as, w => by
    apply R.bind (Arm.related hcall a w)
    intro done
    cases done with
    | true => exact R.pure true
    | false => exact Arm.relatedFirst hcall as w

end

/-- Calls keep to the relation, however deep they may nest. -/
theorem RunRelation.calls (R : RunRelation) (fuel : Nat) (d : Nat) : R.CallSim (callAt fuel d) (callAt fuel d) := by
  induction d with
  | zero =>
    intro f args line w
    cases f
    exact R.fail line _
  | succ d ih =>
    intro f args line w
    have hbody (w : R.World) : R.Sim w id (f.body.exec (callAt fuel d) fuel)
        ((f.body.mapLine R.mapLine).exec (callAt fuel d) fuel) :=
      Block.related ih f.body w
    cases f
    exact R.within hbody

end

end Sprig
