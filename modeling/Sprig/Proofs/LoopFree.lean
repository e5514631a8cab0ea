import Sprig.Proofs.Beside
import Sprig.Proofs.Handover

/-!
# Programs without loops

Only loops have a bound that a run may use up. A program without loops stores no functions with loops, so its calls,
which may nest as deep as the limit lets them, come to no loop either. Then the run does not depend on the bound, and
ends with a result or at a fault.

Main statement: `Program.loop_free_ends`.
-/

namespace Sprig

mutual

def Stmt.LoopFree : Stmt → Prop
  | .choose first others otherwise => first.LoopFree ∧ Arm.AllLoopFree others ∧ Block.LoopFreeOption otherwise
  | .loop _ _ _ => False
  | .define f => f.LoopFree
  | .assign _ | .print _ _ | .puts _ _ | .gets _ | .expr _ => True

def Stmt.AllLoopFree : List Stmt → Prop
  | [] => True
  | s :: ss => s.LoopFree ∧ Stmt.AllLoopFree ss

def Arm.LoopFree : Arm → Prop
  | ⟨_, _, body⟩ => body.LoopFree

def Arm.AllLoopFree : List Arm → Prop
  | [] => True
  | a :: as => a.LoopFree ∧ Arm.AllLoopFree as

def Block.LoopFree : Block → Prop
  | ⟨_, stmts⟩ => Stmt.AllLoopFree stmts

def Block.LoopFreeOption : Option Block → Prop
  | none => True
  | some b => b.LoopFree

def Func.LoopFree : Func → Prop
  | ⟨_, _, _, body, _⟩ => body.LoopFree

end

def Value.LoopFree (v : Value) : Prop := ∀ f, v = .func f → f.LoopFree

def Frame.LoopFree (f : Frame) : Prop := ∀ ⦃name v⦄, f.get? name = some v → v.LoopFree

/-- No function that is around has a loop. -/
structure Machine.LoopFree (m : Machine) : Prop where
  globals : m.globals.LoopFree
  frames : ∀ f ∈ m.frames, f.LoopFree
  last : m.last.LoopFree

/-! ## Values and frames -/

theorem Value.loopFree_nil : Value.nil.LoopFree := fun _ h => by cases h

theorem Value.loopFree_binary {l r v : Value} {op : BinaryOp} (hl : l.LoopFree) (hr : r.LoopFree)
    (h : Value.binary op l r = .ok v) : v.LoopFree := by
  rintro f rfl
  rcases binary_eq_func h with h | h
  · exact hl f h
  · exact hr f h

theorem Frame.loopFree_ofScope (s : Scope) : (Frame.ofScope s).LoopFree :=
  forall_get?_ofScope s Value.loopFree_nil

theorem Frame.LoopFree.set? {f g : Frame} {name : String} {v : Value} (h : f.LoopFree) (hv : v.LoopFree)
    (hg : f.set? name v = some g) : g.LoopFree :=
  forall_get?_set? h hv hg

/-! ## Machines -/

namespace Machine

variable {m m' : Machine} {name : String} {v : Value}

theorem LoopFree.get? (h : m.LoopFree) (hv : m.get? name = some v) : v.LoopFree := by
  unfold Machine.get? at hv
  split at hv
  · exact h.globals hv
  · cases hf : m.frames with
    | nil => simp [hf] at hv
    | cons f fs =>
      rw [hf] at hv
      exact h.frames f (by simp [hf]) hv

theorem LoopFree.set? (h : m.LoopFree) (hv : v.LoopFree) (hset : m.set? name v = some m') : m'.LoopFree := by
  rcases set?_cases hset with ⟨g, hg, rfl⟩ | ⟨f, below, g, hf, hg, rfl⟩
  · exact ⟨h.globals.set? hv hg, h.frames, h.last⟩
  · have hframes := h.frames
    rw [hf, List.forall_mem_cons] at hframes
    exact ⟨h.globals, List.forall_mem_cons.mpr ⟨hframes.1.set? hv hg, hframes.2⟩, h.last⟩

theorem LoopFree.bind : ∀ {params : List String} {args : List Value} {m : Machine}, m.LoopFree →
    (∀ v ∈ args, v.LoopFree) → (m.bind params args).LoopFree
  | [], _, _, h, _ => h
  | _ :: _, [], _, h, _ => h
  | p :: _, v :: _, m, h, ha => by
    rw [List.forall_mem_cons] at ha
    rw [Machine.bind]
    cases hset : m.set? p v with
    | none => exact h.bind ha.2
    | some m' => exact (h.set? ha.1 hset).bind ha.2

theorem LoopFree.enter {f : Func} {args : List Value} (h : m.LoopFree) (ha : ∀ v ∈ args, v.LoopFree) :
    (m.enter f args).LoopFree := by
  apply LoopFree.bind _ ha
  exact ⟨h.globals, List.forall_mem_cons.mpr ⟨Frame.loopFree_ofScope f.scope, h.frames⟩, Value.loopFree_nil⟩

theorem LoopFree.leave (h : m.LoopFree) : m.leave.LoopFree :=
  ⟨h.globals, fun f hf => h.frames f (List.mem_of_mem_tail hf), h.last⟩

theorem LoopFree.remember (h : m.LoopFree) (hv : v.LoopFree) : LoopFree { m with last := v } :=
  ⟨h.globals, h.frames, hv⟩

theorem LoopFree.withConsole (h : m.LoopFree) (console : Console) : LoopFree { m with console } :=
  ⟨h.globals, h.frames, h.last⟩

theorem loopFree_reset (m : Machine) (scopes : ScopeTable) : (m.reset scopes).LoopFree :=
  ⟨Frame.loopFree_ofScope _, List.forall_mem_singleton.mpr (Frame.loopFree_ofScope _), Value.loopFree_nil⟩

end Machine

/-! ## Ends that no bound decides -/

namespace Eval

variable {α β : Type} {P : α → Prop} {Q : β → Prop}

/-- A result in `P`, and no function with a loop, or a fault. -/
inductive Ended (P : α → Prop) : EStateM.Result Stop Machine α → Prop where
  | ok {a m} : P a → m.LoopFree → Ended P (.ok a m)
  | fault {f m} : Ended P (.error (.fault f) m)

/-- Both end, and in the same way. -/
def Ends (P : α → Prop) (x y : Eval α) : Prop := ∀ ⦃m⦄, m.LoopFree → Ended P (x m) ∧ y m = x m

namespace Ends

variable {x y : Eval α}

theorem pure {a : α} (h : P a) : Ends P (Pure.pure a) (Pure.pure a) := fun _ hm => ⟨.ok h hm, rfl⟩

theorem bind {f g : α → Eval β} (h : Ends P x y) (hf : ∀ a, P a → Ends Q (f a) (g a)) :
    Ends Q (x >>= f) (y >>= g) := by
  intro m hm
  obtain ⟨hx, hy⟩ := h hm
  show Ended Q (EStateM.bind x f m) ∧ EStateM.bind y g m = EStateM.bind x f m
  unfold EStateM.bind
  rw [hy]
  generalize x m = r at hx
  cases hx with
  | ok ha hm₁ => exact hf _ ha hm₁
  | fault => exact ⟨.fault, rfl⟩

theorem discard (h : Ends P x y) : Ends (fun _ => True) (Functor.discard x) (Functor.discard y) := by
  intro m hm
  obtain ⟨hx, hy⟩ := h hm
  show Ended _ (EStateM.map (fun _ => ()) x m) ∧ EStateM.map (fun _ => ()) y m = EStateM.map (fun _ => ()) x m
  unfold EStateM.map
  rw [hy]
  generalize x m = r at hx
  cases hx with
  | ok _ hm₁ => exact ⟨.ok trivial hm₁, rfl⟩
  | fault => exact ⟨.fault, rfl⟩

theorem fail (line : Nat) (problem : RuntimeProblem) :
    Ends P (fail line problem : Eval α) (Eval.fail line problem) := fun _ _ => ⟨.fault, rfl⟩

theorem ofExcept (line : Nat) {e : Except RuntimeProblem α} (h : ∀ a, e = .ok a → P a) :
    Ends P (ofExcept line e) (Eval.ofExcept line e) := by
  cases e with
  | ok a => exact pure (h a rfl)
  | error problem => exact fail line problem

theorem remember {v : Value} (hv : v.LoopFree) : Ends Value.LoopFree (remember v) (Eval.remember v) :=
  fun _ hm => ⟨.ok hv (hm.remember hv), rfl⟩

theorem load (line : Nat) (name : String) : Ends Value.LoopFree (load line name) (Eval.load line name) := by
  intro m hm
  refine ⟨?_, rfl⟩
  cases hv : m.get? name with
  | some v =>
    rw [load_some hv]
    exact .ok (hm.get? hv) hm
  | none =>
    rw [load_none hv]
    exact .fault

theorem store (line : Nat) (name : String) {v : Value} (hv : v.LoopFree) :
    Ends (fun _ => True) (store line name v) (Eval.store line name v) := by
  intro m hm
  refine ⟨?_, rfl⟩
  cases hset : m.set? name v with
  | some m' =>
    rw [store_some hset]
    exact .ok trivial (hm.set? hv hset)
  | none =>
    rw [store_none hset]
    exact .fault

theorem write (line : Nat) (text : String) : Ends (fun _ => True) (write line text) (Eval.write line text) := by
  intro m hm
  refine ⟨?_, rfl⟩
  rw [write_apply]
  split
  · exact .ok trivial (hm.withConsole _)
  · exact .fault

theorem readLine (line : Nat) : Ends Value.LoopFree (readLine line) (Eval.readLine line) := by
  intro m hm
  refine ⟨?_, rfl⟩
  rw [readLine_apply]
  rcases m.console.next? with _ | ⟨_ | _, console⟩
  · exact .ok Value.loopFree_nil (hm.remember Value.loopFree_nil)
  · have hv (s : String) : (Value.string s).LoopFree := fun _ h => by cases h
    exact .ok (hv _) ((hm.withConsole console).remember (hv _))
  · exact .fault

theorem within {f : Func} {args : List Value} {x y : Eval Unit} (ha : ∀ v ∈ args, v.LoopFree)
    (h : Ends (fun _ => True) x y) : Ends Value.LoopFree (within f args x) (Eval.within f args y) := by
  intro m hm
  obtain ⟨hx, hy⟩ := h (hm.enter (f := f) ha)
  unfold Eval.within
  rw [hy]
  generalize x (m.enter f args) = r at hx
  cases hx with
  | ok _ hm₁ => exact ⟨.ok hm₁.last hm₁.leave, rfl⟩
  | fault => exact ⟨.fault, rfl⟩

end Ends

/-- Calls of functions without loops end, and in the same way. -/
def CallEnds (call call' : Caller) : Prop :=
  ∀ ⦃f args⦄ (line : Nat), f.LoopFree → (∀ v ∈ args, v.LoopFree) →
    Ends Value.LoopFree (call f args line) (call' f args line)

end Eval

section
open Eval
variable {call call' : Caller}

mutual

theorem Expr.ends (hcall : CallEnds call call') : ∀ e : Expr, Ends Value.LoopFree (e.eval call) (e.eval call')
  | .literal _ v => .remember fun _ h => absurd h (Value.ofLiteral_ne_func v)
  | .call line name args => by
    refine (Ends.load line name).bind fun v hv => ?_
    cases v with
    | func f =>
      refine (Expr.endsAll hcall args).bind fun vs hvs => ?_
      exact (hcall line (hv f rfl) hvs).bind fun w hw => .remember hw
    | _ => exact .remember hv
  | .binary line op left right => by
    refine (left.ends hcall).bind fun l hl => (right.ends hcall).bind fun r hr => ?_
    exact (Ends.ofExcept line fun v hv => Value.loopFree_binary hl hr hv).bind fun v hv => .remember hv
  | .negate line op operand => by
    refine (operand.ends hcall).bind fun v _ => ?_
    refine (Ends.ofExcept (P := Value.LoopFree) line ?_).bind fun w hw => .remember hw
    rintro w hw f rfl
    exact absurd hw Value.negate_ne_func
  | .compare line op left right => by
    refine (left.ends hcall).bind fun l _ => (right.ends hcall).bind fun r _ => ?_
    refine (Ends.ofExcept (P := fun _ => True) line fun _ _ => trivial).bind fun b _ => .remember ?_
    exact fun _ h => by cases h
  | .gets line => .readLine line
  | .assign _ stores => (Assign.endsAll hcall stores Value.loopFree_nil).bind fun v hv => .remember hv

theorem Expr.endsAll (hcall : CallEnds call call') : ∀ es : List Expr,
    Ends (fun vs => ∀ v ∈ vs, v.LoopFree) (Expr.evalAll call es) (Expr.evalAll call' es)
  | [] => .pure fun _ hv => by cases hv
  | e :: es => by
    refine (e.ends hcall).bind fun v hv => (Expr.endsAll hcall es).bind fun vs hvs => .pure ?_
    exact List.forall_mem_cons.mpr ⟨hv, hvs⟩

theorem Assign.ends (hcall : CallEnds call call') : ∀ a : Assign,
    Ends Value.LoopFree (a.eval call) (a.eval call')
  | ⟨line, name, value⟩ =>
    (value.ends hcall).bind fun _ hv => (Ends.store line name hv).bind fun _ _ => .pure hv

theorem Assign.endsAll (hcall : CallEnds call call') : ∀ (as : List Assign) {last : Value}, last.LoopFree →
    Ends Value.LoopFree (Assign.evalAll call last as) (Assign.evalAll call' last as)
  | [], _, hlast => .pure hlast
  | a :: as, _, _ => (a.ends hcall).bind fun _ hv => Assign.endsAll hcall as hv

end

variable {fuel fuel' : Nat}

mutual

theorem Stmt.ends (hcall : CallEnds call call') : ∀ {s : Stmt}, s.LoopFree →
    Ends (fun _ => True) (s.exec call fuel) (s.exec call' fuel')
  | .assign a, _ => (a.ends hcall).discard
  | .print line values, _ => (Expr.endsAll hcall values).bind fun _ _ => .write line _
  | .puts line [], _ => .write line "\n"
  | .puts line (value :: values), _ => (Expr.endsAll hcall (value :: values)).bind fun _ _ => .write line _
  | .choose _ _ _, h => by
    refine (Arm.ends hcall h.1).bind fun b _ => ?_
    cases b with
    | true => exact .pure trivial
    | false =>
      refine (Arm.endsFirst hcall h.2.1).bind fun b _ => ?_
      cases b with
      | true => exact .pure trivial
      | false => exact Block.endsOption hcall h.2.2
  | .loop _ _ _, h => absurd h id
  | .define f, h => .store f.line f.name fun _ hf => Value.func.inj hf ▸ h
  | .gets line, _ => (Ends.readLine line).discard
  | .expr e, _ => (e.ends hcall).discard

theorem Stmt.endsAll (hcall : CallEnds call call') : ∀ {ss : List Stmt}, Stmt.AllLoopFree ss →
    Ends (fun _ => True) (Stmt.execAll call fuel ss) (Stmt.execAll call' fuel' ss)
  | [], _ => .pure trivial
  | _ :: _, h => (Stmt.ends hcall h.1).bind fun _ _ => Stmt.endsAll hcall h.2

theorem Block.ends (hcall : CallEnds call call') : ∀ {b : Block}, b.LoopFree →
    Ends (fun _ => True) (b.exec call fuel) (b.exec call' fuel')
  | ⟨_, _⟩, h => Stmt.endsAll hcall h

theorem Block.endsOption (hcall : CallEnds call call') : ∀ {b : Option Block}, Block.LoopFreeOption b →
    Ends (fun _ => True) (Block.execOption call fuel b) (Block.execOption call' fuel' b)
  | none, _ => .pure trivial
  | some _, h => Block.ends hcall h

theorem Arm.ends (hcall : CallEnds call call') : ∀ {a : Arm}, a.LoopFree →
    Ends (fun _ => True) (a.exec call fuel) (a.exec call' fuel')
  | ⟨_, condition, _⟩, h => by
    refine (condition.ends hcall).bind fun v _ => ?_
    split
    · exact (Block.ends hcall h).bind fun _ _ => .pure trivial
    · exact .pure trivial

theorem Arm.endsFirst (hcall : CallEnds call call') : ∀ {as : List Arm}, Arm.AllLoopFree as →
    Ends (fun _ => True) (Arm.execFirst call fuel as) (Arm.execFirst call' fuel' as)
  | [], _ => .pure trivial
  | _ :: _, h => by
    refine (Arm.ends hcall h.1).bind fun b _ => ?_
    cases b with
    | true => exact .pure trivial
    | false => exact Arm.endsFirst hcall h.2

end

/-- The body of a callee is no part of the caller, so the induction is on how deep calls may still nest. -/
theorem callEnds_callAt (fuel fuel' : Nat) : ∀ depth : Nat, CallEnds (callAt fuel depth) (callAt fuel' depth)
  | 0 => fun f _ line _ _ => .fail line (.stackTooDeep f.name)
  | depth + 1 => fun f _ _ hf ha =>
    .within ha (Block.ends (callEnds_callAt fuel fuel' depth) (by
      cases f
      exact hf))

end

/-! ## Runs -/

theorem Block.LoopFree.run {b : Block} (h : b.LoopFree) (fuel fuel' : Nat) (m : Machine) (scopes : ScopeTable) :
    Eval.Ended (fun _ => True) (m.run fuel scopes b) ∧ m.run fuel' scopes b = m.run fuel scopes b := by
  apply Block.ends _ h (Machine.loopFree_reset m scopes)
  exact callEnds_callAt fuel fuel' _

/-- **A program without loops ends.** Be its functions stored, defined anew, or called by themselves and each other:
there is one result or fault, and one machine, that the run comes to, whatever bound is set for loops. -/
theorem Program.loop_free_ends (p : Program) (h : p.body.LoopFree) (m : Machine) :
    ∃ (result : Except Fault Unit) (m' : Machine), ∀ fuel : Nat,
      Session.outcome (m.run fuel p.scopes p.body) = (result.mapError .fault, m') := by
  obtain ⟨hended, -⟩ := h.run 0 0 m p.scopes
  have hrun (fuel : Nat) : m.run fuel p.scopes p.body = m.run 0 p.scopes p.body := (h.run 0 fuel m p.scopes).2
  simp only [hrun]
  generalize m.run 0 p.scopes p.body = r at hended
  cases hended with
  | @ok _ m' _ _ => exact ⟨.ok (), m', fun _ => rfl⟩
  | @fault f m' => exact ⟨.error f, m', fun _ => rfl⟩

/-- A function that calls itself without end is stopped where the calls nest too deep. -/
theorem Program.loop_free_ends_recursion :
    ∃ p, ofSource "def $loop\n  $loop\nend\n$loop" = .ok p ∧ p.body.LoopFree ∧ ∃ m' : Machine, ∀ fuel : Nat,
      Session.outcome ((Machine.start (.start none .empty)).run fuel p.scopes p.body) =
        (.error (.fault ⟨2, .runtime (.stackTooDeep "$loop")⟩), m') := by
  let f : Func := ⟨"$loop", [], 1, ⟨2, [.expr (.call 2 "$loop" [])]⟩, ⟨"$loop", some "Program", []⟩⟩
  let p : Program := ⟨⟨1, [.define f, .expr (.call 4 "$loop" [])]⟩,
    ⟨⟨"Global", none, ["$loop"]⟩, ⟨"Program", some "Global", []⟩, []⟩⟩
  let m : Machine := (Machine.start (.start none .empty)).reset p.scopes
  have hp : ofSource "def $loop\n  $loop\nend\n$loop" = .ok p := by
    have hl : LogicalLine.ofSource "def $loop\n  $loop\nend\n$loop" =
        .ok [[⟨.kwDef, "def", 1⟩, ⟨.identifier, "$loop", 1⟩], [⟨.identifier, "$loop", 2⟩],
          [⟨.kwEnd, "end", 3⟩], [⟨.identifier, "$loop", 4⟩]] := by
      with_unfolding_all rfl
    exact (ofSource_eq_off hl).trans rfl
  have hfree : p.body.LoopFree := ⟨⟨trivial, trivial⟩, trivial, trivial⟩
  obtain ⟨result, m', h⟩ := loop_free_ends p hfree (.start (.start none .empty))
  have hname : isGlobalName "$loop" = true := by decide
  -- the callee finds itself in the globals, at any depth
  have hdeep : ∀ (d line : Nat) (m : Machine), m.get? "$loop" = some (.func f) → ∃ m', callAt 0 d f [] line m =
      .error (.fault ⟨if d = 0 then line else 2, .runtime (.stackTooDeep "$loop")⟩) m' := by
    intro d
    induction d with
    | zero => exact fun line m _ => ⟨m, rfl⟩
    | succ d ih =>
      intro line m hm
      have hm' : (m.enter f []).get? "$loop" = some (.func f) := by
        simp only [Machine.get?, hname, if_true] at hm ⊢
        exact hm
      obtain ⟨m', hcall⟩ := ih 2 (m.enter f []) hm'
      refine ⟨m'.leave, ?_⟩
      simp only [callAt, Eval.within]
      rw [show f.body.exec (callAt 0 d) 0 (m.enter f []) = _ from Stmt.execAll_error (Stmt.exec_call_error hm' hcall)]
      simp only [Nat.succ_ne_zero, if_false, ite_self]
  have hdefine : (Stmt.define f).exec (callAt 0 256) 0 m =
      .ok () { m with globals := ⟨[("$loop", .func f)]⟩ } := by
    apply Eval.store_some
    rw [Machine.set?, hname]
    rfl
  have hf : Machine.get? { m with globals := ⟨[("$loop", .func f)]⟩ } "$loop" = some (.func f) := by
    rw [Machine.get?, hname]
    rfl
  obtain ⟨m₁, hcall⟩ := hdeep 256 4 _ hf
  have hresult : (Session.outcome ((Machine.start (.start none .empty)).run 0 p.scopes p.body)).1 =
      .error (.fault ⟨2, .runtime (.stackTooDeep "$loop")⟩) := by
    rw [show (Machine.start (.start none .empty)).run 0 p.scopes p.body = _ from
      (Stmt.execAll_ok hdefine).trans (Stmt.execAll_error (Stmt.exec_call_error hf hcall))]
    rfl
  rw [h] at hresult
  refine ⟨p, hp, hfree, m', fun fuel => ?_⟩
  rw [h, ← hresult]

end Sprig
