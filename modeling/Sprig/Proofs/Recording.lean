import Sprig.Proofs.FullSink

/-!
# What runs take from the input

A record of a computation (`Recorded`) has its receipts: what each `gets` took off the input and what it evaluated to,
in the order in which they happened. They tell all of what happens to the input. The type of a record is indexed by the
computation, so what is recorded is the evaluator itself and no second one. There is a record of everything that the
evaluator is made of, and so of all that it computes for any code.

Main definition: `Machine.recorded`.
-/

namespace Sprig

/-! ## Receipts -/

inductive Receipt where
  /-- A `gets`: the line it took, if there was one, and what it evaluated to, unless it failed. -/
  | gets (raw : Option RawLine) (value : Option Value)
  /-- The line that the host took, if there was one. -/
  | host (raw : Option RawLine)

namespace Receipt

def raw : Receipt → Option RawLine
  | gets raw _ => raw
  | host raw => raw

/-- What a `gets` is to evaluate to: the line without its break, and nil at the end of the input. A line that is not text
has no value. -/
def valueOf : Option RawLine → Option Value
  | none => some .nil
  | some (.text line) => some (.string (Console.withoutBreak line))
  | some .undecodable => none

def Holds : Receipt → Prop
  | gets raw value => value = valueOf raw
  | host _ => True

end Receipt

/-- From this input come these receipts, one line each until there is none left, and this is left. -/
inductive Drains : List RawLine → List Receipt → List RawLine → Prop where
  | refl {input} : Drains input [] input
  | line {r raw rest log left} : r.raw = some raw → r.Holds → Drains rest log left →
    Drains (raw :: rest) (r :: log) left
  | ended {r log left} : r.raw = none → r.Holds → Drains [] log left → Drains [] (r :: log) left

namespace Drains

variable {input between left : List RawLine} {log more : List Receipt}

theorem trans (h : Drains input log between) (hmore : Drains between more left) : Drains input (log ++ more) left := by
  induction h with
  | refl => exact hmore
  | line hraw hholds _ ih => exact .line hraw hholds (ih hmore)
  | ended hraw hholds _ ih => exact .ended hraw hholds (ih hmore)

theorem getElem? (h : Drains input log left) {i : Nat} {r : Receipt} (hi : log[i]? = some r) :
    r.raw = input[i]? ∧ r.Holds := by
  induction h generalizing i with
  | refl => cases hi
  | line hraw hholds _ ih =>
    cases i with
    | zero =>
      cases hi
      exact ⟨hraw, hholds⟩
    | succ i =>
      rw [List.getElem?_cons_succ] at hi ⊢
      exact ih hi
  | ended hraw hholds _ ih =>
    cases i with
    | zero =>
      cases hi
      exact ⟨hraw, hholds⟩
    | succ i =>
      rw [List.getElem?_cons_succ] at hi
      simpa using ih hi

theorem left_eq (h : Drains input log left) : left = input.drop log.length := by
  induction h with
  | refl => rfl
  | line _ _ _ ih => exact ih
  | ended _ _ _ ih => simpa using ih

/-- The lines that were taken are those at the front. -/
theorem raws (h : Drains input log left) : log.filterMap Receipt.raw ++ left = input := by
  induction h with
  | refl => rfl
  | line hraw _ _ ih => rw [List.filterMap_cons_some hraw, List.cons_append, ih]
  | ended hraw _ _ ih => rwa [List.filterMap_cons_none hraw]

end Drains

/-! ## Records -/

/-- For every machine that the computation may start from, the receipts of all that it takes off the input. -/
structure Recorded {α : Type} (x : Eval α) where
  receipts : Machine → List Receipt
  drains : ∀ m : Machine, Drains m.console.input (receipts m) (Eval.after (x m)).console.input

theorem Console.input_write (c : Console) (text : String) : (c.write text).input = c.input := by
  unfold write
  split <;> rfl

open Eval

namespace Recorded

variable {α β : Type} {x y : Eval α}

/-- What is recorded. -/
def run (_ : Recorded x) : Eval α := x

/-- Nothing is to be recorded of what leaves the input alone and is no `gets`. -/
def quiet (h : ∀ m : Machine, (after (x m)).console.input = m.console.input) : Recorded x where
  receipts _ := []
  drains m := by
    rw [h m]
    exact .refl

def pure (a : α) : Recorded (Pure.pure a : Eval α) := quiet fun _ => rfl

def bind {f : α → Eval β} (h : Recorded x) (hf : ∀ a, Recorded (f a)) : Recorded (x >>= f) where
  receipts m := h.receipts m ++ match x m with
    | .ok a m => (hf a).receipts m
    | .error _ _ => []
  drains m := by
    have hx := h.drains m
    show Drains _ _ (after (EStateM.bind x f m)).console.input
    unfold EStateM.bind
    cases hr : x m with
    | ok a m₁ =>
      rw [hr] at hx
      exact hx.trans ((hf a).drains m₁)
    | error stop m₁ =>
      -- what would come next is not run, and has no receipts
      rw [hr] at hx
      exact hx.trans .refl

def discard (h : Recorded x) : Recorded (Functor.discard x) where
  receipts := h.receipts
  drains m := by
    have hx := h.drains m
    show Drains _ _ (after (EStateM.map (fun _ => ()) x m)).console.input
    unfold EStateM.map
    cases hr : x m <;> rwa [hr] at hx

def ite {c : Prop} [Decidable c] (h : Recorded x) (h' : Recorded y) : Recorded (if c then x else y) where
  receipts m := if c then h.receipts m else h'.receipts m
  drains m := by
    split
    · exact h.drains m
    · exact h'.drains m

def fail (line : Nat) (problem : RuntimeProblem) : Recorded (Eval.fail line problem : Eval α) := quiet fun _ => rfl

def ofExcept (line : Nat) (e : Except RuntimeProblem α) : Recorded (Eval.ofExcept line e) :=
  quiet fun m => by cases e <;> rfl

def remember (v : Value) : Recorded (Eval.remember v) := quiet fun _ => rfl

def load (line : Nat) (name : String) : Recorded (Eval.load line name) :=
  quiet fun m => by
    cases hv : m.get? name with
    | some v => rw [load_some hv]; rfl
    | none => rw [load_none hv]; rfl

def store (line : Nat) (name : String) (v : Value) : Recorded (Eval.store line name v) :=
  quiet fun m => by
    cases hset : m.set? name v with
    | some m₁ =>
      rw [store_some hset]
      exact congrArg Console.input (Machine.console_set? hset)
    | none => rw [store_none hset]; rfl

def write (line : Nat) (text : String) : Recorded (Eval.write line text) :=
  quiet fun m => by
    rw [write_apply]
    split <;> exact m.console.input_write text

/-- A `gets` has one receipt, be there a line or not. -/
def readLine (line : Nat) : Recorded (Eval.readLine line) where
  receipts m := [.gets (m.console.next?.map Prod.fst) (match Eval.readLine line m with
    | .ok v _ => some v
    | .error _ _ => none)]
  drains m := by
    simp only [readLine_apply, Console.next?]
    rcases hinput : m.console.input with _ | ⟨_ | _, rest⟩
    · refine .ended rfl rfl ?_
      show Drains [] [] m.console.input
      rw [hinput]
      exact .refl
    · exact .line rfl rfl .refl
    · exact .line rfl rfl .refl

def repeatWhile {c : Eval Bool} {body : Eval Unit} (hc : Recorded c) (hbody : Recorded body) :
    ∀ n : Nat, Recorded (Eval.repeatWhile c body n)
  | 0 => quiet fun _ => rfl
  | n + 1 => hc.bind fun
    | true => hbody.bind fun _ => repeatWhile hc hbody n
    | false => .pure ()

def within (f : Func) (args : List Value) {body : Eval Unit} (h : Recorded body) :
    Recorded (Eval.within f args body) where
  receipts m := h.receipts (m.enter f args)
  drains m := by
    have hbody := h.drains (m.enter f args)
    rw [m.console_enter f args] at hbody
    unfold Eval.within
    cases hr : body (m.enter f args) <;> rwa [hr] at hbody

/-- A record of every call. -/
abbrev Calls (call : Caller) := ∀ (f : Func) (args : List Value) (line : Nat), Recorded (call f args line)

end Recorded

section
variable {call : Caller}

mutual

def Expr.recorded (calls : Recorded.Calls call) : ∀ e : Expr, Recorded (e.eval call)
  | .literal _ v => .remember (.ofLiteral v)
  | .call line name args => (Recorded.load line name).bind fun
    | .func f => (Expr.recordedAll calls args).bind fun vs => (calls f vs line).bind .remember
    | .nil | .boolean _ | .integer _ | .float _ | .string _ => .remember _
  | .binary line op left right =>
    (left.recorded calls).bind fun l => (right.recorded calls).bind fun r =>
      (Recorded.ofExcept line (Value.binary op l r)).bind .remember
  | .negate line op operand =>
    (operand.recorded calls).bind fun v => (Recorded.ofExcept line (Value.negate op v)).bind .remember
  | .compare line op left right =>
    (left.recorded calls).bind fun l => (right.recorded calls).bind fun r =>
      (Recorded.ofExcept line (Value.holds op l r)).bind fun b => .remember (.boolean b)
  | .gets line => .readLine line
  | .assign _ stores => (Assign.recordedAll calls .nil stores).bind .remember

def Expr.recordedAll (calls : Recorded.Calls call) : ∀ es : List Expr, Recorded (Expr.evalAll call es)
  | [] => .pure []
  | e :: es => (e.recorded calls).bind fun v => (Expr.recordedAll calls es).bind fun vs => .pure (v :: vs)

def Assign.recorded (calls : Recorded.Calls call) : ∀ a : Assign, Recorded (a.eval call)
  | ⟨line, name, value⟩ => (value.recorded calls).bind fun v => (Recorded.store line name v).bind fun _ => .pure v

def Assign.recordedAll (calls : Recorded.Calls call) :
    ∀ (last : Value) (as : List Assign), Recorded (Assign.evalAll call last as)
  | last, [] => .pure last
  | _, a :: as => (a.recorded calls).bind fun v => Assign.recordedAll calls v as

end

variable {fuel : Nat}

mutual

def Stmt.recorded (calls : Recorded.Calls call) : ∀ s : Stmt, Recorded (s.exec call fuel)
  | .assign a => (a.recorded calls).discard
  | .print line values => (Expr.recordedAll calls values).bind fun _ => .write line _
  | .puts line [] => .write line "\n"
  | .puts line (value :: values) => (Expr.recordedAll calls (value :: values)).bind fun _ => .write line _
  | .choose first others otherwise => (Arm.recorded calls first).bind fun
    | true => .pure ()
    | false => (Arm.recordedFirst calls others).bind fun
      | true => .pure ()
      | false => Block.recordedOption calls otherwise
  | .loop _ condition body =>
    .repeatWhile ((condition.recorded calls).bind fun v => .pure v.isTruthy) (Block.recorded calls body) fuel
  | .define f => .store f.line f.name (.func f)
  | .gets line => (Recorded.readLine line).discard
  | .expr e => (e.recorded calls).discard

def Stmt.recordedAll (calls : Recorded.Calls call) : ∀ ss : List Stmt, Recorded (Stmt.execAll call fuel ss)
  | [] => .pure ()
  | s :: ss => (Stmt.recorded calls s).bind fun _ => Stmt.recordedAll calls ss

def Block.recorded (calls : Recorded.Calls call) : ∀ b : Block, Recorded (b.exec call fuel)
  | ⟨_, stmts⟩ => Stmt.recordedAll calls stmts

def Block.recordedOption (calls : Recorded.Calls call) :
    ∀ b : Option Block, Recorded (Block.execOption call fuel b)
  | none => .pure ()
  | some b => Block.recorded calls b

def Arm.recorded (calls : Recorded.Calls call) : ∀ a : Arm, Recorded (a.exec call fuel)
  | ⟨_, condition, body⟩ => (condition.recorded calls).bind fun _ =>
    .ite ((Block.recorded calls body).bind fun _ => .pure true) (.pure false)

def Arm.recordedFirst (calls : Recorded.Calls call) : ∀ as : List Arm, Recorded (Arm.execFirst call fuel as)
  | [] => .pure false
  | a :: as => (Arm.recorded calls a).bind fun
    | true => .pure true
    | false => Arm.recordedFirst calls as

end

end

def Recorded.callsAt (fuel : Nat) : ∀ d : Nat, Calls (callAt fuel d)
  | 0 => fun f _ line => .fail line (.stackTooDeep f.name)
  | d + 1 => fun f args _ => .within f args (Block.recorded (callsAt fuel d) f.body)

/-- The record of the run of a block. -/
def Machine.recorded (fuel : Nat) (m : Machine) (b : Block) : Recorded (b.exec (m.caller fuel) fuel) :=
  Block.recorded (Recorded.callsAt fuel _) b

end Sprig
