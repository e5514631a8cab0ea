import Mathlib.Data.List.Forall2
import Sprig.Proofs.Batch
import Sprig.Proofs.Visits

/-!
# Stores find their names

While a program runs, the globals bind the global names of the program and the frame on top the names of the
function that runs. The functions that are around, in variables and in values, were all read with these global
names (`Machine.Safe`). So at every point that a run comes to, the names that the task there stores under are bound
(`Point.Safe`): this holds at the start, and `Leads` keeps it. It holds of the parameters of the function too when a
call is about to begin, and so its stores all go well (`Machine.BindsArgs`).

Main statement: `Program.stores_find_names`.
-/

namespace Sprig

def Value.Scoped (G : List String) : Value → Prop
  | .func f => f.Scoped G
  | _ => True

/-- The frame binds these names, and no function in it but those that are scoped. -/
structure Frame.Safe (G L : List String) (f : Frame) : Prop where
  binds : f.Binds L
  values : ∀ ⦃name v⦄, f.get? name = some v → v.Scoped G

/-- The globals bind `G`, and the frames, from the top, the names of their functions. -/
structure Machine.Safe (G : List String) (Ls : List (List String)) (m : Machine) : Prop where
  globals : m.globals.Safe G G
  frames : List.Forall₂ (Frame.Safe G) Ls m.frames
  last : m.last.Scoped G

section
variable {G H : List String} {l r v w : Value}

theorem Value.scoped_iff : v.Scoped G ↔ ∀ f, v = .func f → f.Scoped G := by
  cases v <;> simp [Value.Scoped]

theorem Value.Scoped.mono (hG : ∀ n ∈ G, n ∈ H) (h : v.Scoped G) : v.Scoped H := by
  rw [scoped_iff] at h ⊢
  exact fun f hf => (h f hf).mono hG

theorem Value.scoped_binary {op : BinaryOp} (hl : l.Scoped G) (hr : r.Scoped G) (h : Value.binary op l r = .ok v) :
    v.Scoped G := by
  rw [scoped_iff] at hl hr ⊢
  rintro f rfl
  rcases binary_eq_func h with h | h
  · exact hl f h
  · exact hr f h

theorem Value.scoped_negate {op : Negation} (h : Value.negate op v = .ok w) : w.Scoped G := by
  rw [scoped_iff]
  rintro f rfl
  exact absurd h negate_ne_func

theorem Value.scoped_ofLiteral (v : Literal) : (Value.ofLiteral v).Scoped G :=
  scoped_iff.mpr fun _ h => absurd h (ofLiteral_ne_func v)

end

/-! ## Frames -/

section
variable {G L : List String} {f : Frame} {name : String} {v : Value}

theorem Frame.safe_ofScope (s : Scope) : (Frame.ofScope s).Safe G s.names where
  binds := Frame.binds_ofScope s
  values := Frame.forall_get?_ofScope s trivial

theorem Frame.Safe.set? (h : f.Safe G L) (hv : v.Scoped G) (hn : name ∈ L) :
    ∃ f', f.set? name v = some f' ∧ f'.Safe G L := by
  obtain ⟨f', hf'⟩ := Frame.set?_eq_some (v := v) ((h.binds name).mpr hn)
  exact ⟨f', hf', h.binds.set? hf', Frame.forall_get?_set? h.values hv hf'⟩

/-- A new frame takes over what the old one binds, if the names are still there. -/
theorem Frame.safe_migrate {H : List String} (s : Scope) (hG : ∀ n ∈ G, n ∈ H)
    (h : ∀ ⦃name v⦄, f.get? name = some v → v.Scoped G) : ((Frame.ofScope s).migrate f).Safe H s.names where
  binds := (Frame.binds_ofScope s).migrate f
  values name v hv := by
    rw [Frame.get?_migrate, Frame.get?_ofScope] at hv
    split at hv
    · cases hv
      cases hf : f.get? name with
      | none => trivial
      | some w => exact (h hf).mono hG
    · cases hv

end

/-! ## Arguments -/

namespace Machine

/-- Stores all of these, one after the other, if each finds its name. -/
def storeAll? (m : Machine) (bindings : List (String × Value)) : Option Machine :=
  bindings.foldlM (fun m b => m.set? b.1 b.2) m

/-- A call stores every argument that has a parameter, one after the other, and its body is run with what is stored
last under each name. -/
structure BindsArgs (m : Machine) (f : Func) (args : List Value) : Prop where
  body : ∀ fuel d line : Nat, callAt fuel (d + 1) f args line m =
    match f.body.exec (callAt fuel d) fuel (m.enter f args) with
    | .ok () m' => .ok m'.last m'.leave
    | .error stop m' => .error stop m'.leave
  stored : (m.push f.scope).storeAll? (f.params.zip args) = some (m.enter f args)
  bound : ∀ {before p v behind}, f.params.zip args = before ++ (p, v) :: behind →
    ∃ m₁, (m.push f.scope).storeAll? (before ++ [(p, v)]) = some m₁ ∧ m₁.get? p = some v ∧
      (p ∉ behind.map Prod.fst → (m.enter f args).get? p = some v)

variable {m m' : Machine} {name : String} {v : Value}

theorem storeAll?_cons (m : Machine) (b : String × Value) (bindings : List (String × Value)) :
    m.storeAll? (b :: bindings) = (m.set? b.1 b.2).bind (storeAll? · bindings) := by
  rw [storeAll?, List.foldlM_cons]
  rfl

theorem storeAll?_append {as bs : List (String × Value)} (h : m.storeAll? (as ++ bs) = some m') :
    ∃ m₁, m.storeAll? as = some m₁ ∧ m₁.storeAll? bs = some m' := by
  rw [storeAll?, List.foldlM_append] at h
  exact Option.bind_eq_some_iff.mp h

theorem get?_storeAll? : ∀ {bindings : List (String × Value)} {m : Machine}, m.storeAll? bindings = some m' →
    name ∉ bindings.map Prod.fst → m'.get? name = m.get? name
  | [], _, h, _ => by
    cases h
    rfl
  | (other, v) :: bindings, m, h, hname => by
    rw [List.map_cons, List.mem_cons, not_or] at hname
    rw [storeAll?_cons] at h
    obtain ⟨m₁, hset, h⟩ := Option.bind_eq_some_iff.mp h
    rw [get?_storeAll? h hname.2, get?_set? hset, if_neg hname.1]

theorem BindsArgs.of_storeAll? {f : Func} {args : List Value}
    (h : (m.push f.scope).storeAll? (f.params.zip args) = some (m.enter f args)) : m.BindsArgs f args where
  body _ _ _ := rfl
  stored := h
  bound {before p v behind} hsplit := by
    rw [hsplit, List.append_cons] at h
    obtain ⟨m₁, hfront, hbehind⟩ := storeAll?_append h
    obtain ⟨m₀, -, hlast⟩ := storeAll?_append hfront
    rw [storeAll?_cons] at hlast
    obtain ⟨m₂, hset, hm₂⟩ := Option.bind_eq_some_iff.mp hlast
    cases hm₂
    have hget : m₁.get? p = some v := by rw [get?_set? hset, if_pos rfl]
    exact ⟨m₁, hfront, hget, fun hp => (get?_storeAll? hbehind hp).trans hget⟩

end Machine

/-! ## Machines -/

namespace Machine

variable {G L : List String} {Ls : List (List String)} {m : Machine} {name : String} {v : Value}

theorem Safe.get? (h : m.Safe G Ls) (hv : m.get? name = some v) : v.Scoped G := by
  obtain ⟨globals, frames, last, hasRun, console⟩ := m
  unfold Machine.get? at hv
  split at hv
  · exact h.globals.values hv
  · cases frames with
    | nil => cases hv
    | cons f fs =>
      cases h.frames with
      | cons hf _ => exact hf.values hv

theorem Safe.set? (h : m.Safe G (L :: Ls)) (hv : v.Scoped G) (hn : Bound G L name) :
    ∃ m', m.set? name v = some m' ∧ m'.Safe G (L :: Ls) := by
  obtain ⟨globals, frames, last, hasRun, console⟩ := m
  unfold Bound at hn
  unfold Machine.set?
  by_cases hg : isGlobalName name = true
  · rw [if_pos hg] at hn
    obtain ⟨g, hset, hsafe⟩ := h.globals.set? hv hn
    simp only [hg, if_true, hset, Option.map_some]
    exact ⟨_, rfl, hsafe, h.frames, h.last⟩
  · rw [if_neg hg] at hn
    obtain ⟨hglobals, hframes, hlast⟩ := h
    cases hframes with
    | cons hf hfs =>
      obtain ⟨f', hset, hsafe⟩ := hf.set? hv hn
      simp only [hg, hset, Option.map_some]
      exact ⟨_, rfl, hglobals, .cons hsafe hfs, hlast⟩

/-- Where every parameter is bound, the stores of a call go well. -/
theorem Safe.bind : ∀ {params : List String} {args : List Value} {m : Machine}, m.Safe G (L :: Ls) →
    (∀ p ∈ params, Bound G L p) → (∀ v ∈ args, v.Scoped G) →
      m.storeAll? (params.zip args) = some (m.bind params args) ∧ (m.bind params args).Safe G (L :: Ls)
  | [], _, _, h, _, _ => ⟨rfl, h⟩
  | _ :: _, [], _, h, _, _ => ⟨rfl, h⟩
  | p :: _, v :: _, m, h, hp, ha => by
    rw [List.forall_mem_cons] at hp ha
    obtain ⟨m₁, hset, hsafe⟩ := h.set? ha.1 hp.1
    rw [List.zip_cons_cons, storeAll?_cons, Machine.bind, hset]
    exact hsafe.bind hp.2 ha.2

theorem Safe.push (h : m.Safe G Ls) (s : Scope) : (m.push s).Safe G (s.names :: Ls) :=
  ⟨h.globals, .cons (Frame.safe_ofScope s) h.frames, trivial⟩

section
variable {f : Func} {args : List Value} (h : m.Safe G Ls) (hf : f.Scoped G) (ha : ∀ v ∈ args, v.Scoped G)
include h hf ha

theorem Safe.enter : (m.enter f args).Safe G (f.scope.names :: Ls) := by
  cases f
  exact ((h.push _).bind hf.2.1 ha).2

theorem Safe.bindsArgs : m.BindsArgs f args := by
  cases f
  exact .of_storeAll? ((h.push _).bind hf.2.1 ha).1

end

theorem Safe.leave (h : m.Safe G (L :: Ls)) : m.leave.Safe G Ls := by
  obtain ⟨globals, frames, last, hasRun, console⟩ := m
  obtain ⟨hglobals, hframes, hlast⟩ := h
  cases hframes with
  | cons _ hfs => exact ⟨hglobals, hfs, hlast⟩

theorem Safe.remember (h : m.Safe G Ls) (hv : v.Scoped G) : Safe G Ls { m with last := v } :=
  ⟨h.globals, h.frames, hv⟩

theorem Safe.withConsole (h : m.Safe G Ls) (console : Console) : Safe G Ls { m with console } :=
  ⟨h.globals, h.frames, h.last⟩

end Machine

/-! ## Runs stay safe -/

namespace Eval

variable {α β : Type} {I : Machine → Prop} {P : α → Prop} {Q : β → Prop}

/-- However it ends, `I` is kept, and what it results in is in `P`. -/
def Keeps (I : Machine → Prop) (P : α → Prop) (x : Eval α) : Prop :=
  ∀ ⦃m⦄, I m → match x m with
    | .ok a m' => P a ∧ I m'
    | .error _ m' => I m'

namespace Keeps

variable {x : Eval α}

theorem ok {m m' : Machine} {a : α} (h : Keeps I P x) (hm : I m) (hx : x m = .ok a m') : P a ∧ I m' := by
  have hkeeps := h hm
  rwa [hx] at hkeeps

theorem pure {a : α} (h : P a) : Keeps I P (Pure.pure a) := fun _ hm => ⟨h, hm⟩

theorem bind {f : α → Eval β} (h : Keeps I P x) (hf : ∀ a, P a → Keeps I Q (f a)) : Keeps I Q (x >>= f) := by
  intro m hm
  have hx := h hm
  rw [show (x >>= f) m = EStateM.bind x f m from rfl, EStateM.bind]
  generalize x m = r at hx ⊢
  cases r with
  | ok a m₁ => exact hf a hx.1 hx.2
  | error stop m₁ => exact hx

theorem discard (h : Keeps I P x) : Keeps I (fun _ => True) (Functor.discard x) := by
  intro m hm
  have hx := h hm
  rw [show Functor.discard x m = EStateM.map (fun _ => ()) x m from rfl, EStateM.map]
  generalize x m = r at hx ⊢
  cases r with
  | ok a m₁ => exact ⟨trivial, hx.2⟩
  | error stop m₁ => exact hx

theorem fail {line : Nat} {problem : RuntimeProblem} : Keeps I P (fail line problem : Eval α) := fun _ hm => hm

theorem ofExcept {line : Nat} {e : Except RuntimeProblem α} (h : ∀ a, e = .ok a → P a) :
    Keeps I P (ofExcept line e) := by
  cases e with
  | ok a => exact pure (h a rfl)
  | error problem => exact fail

theorem repeatWhile {c : Eval Bool} {body : Eval Unit} (hc : Keeps I (fun _ => True) c)
    (hb : Keeps I (fun _ => True) body) : ∀ n, Keeps I (fun _ => True) (repeatWhile c body n)
  | 0 => fun _ hm => hm
  | n + 1 => by
    refine hc.bind fun go _ => ?_
    cases go with
    | true => exact hb.bind fun _ _ => repeatWhile hc hb n
    | false => exact pure trivial

section
variable {G L : List String} {Ls : List (List String)}

theorem remember {v : Value} (hv : v.Scoped G) : Keeps (Machine.Safe G Ls) (Value.Scoped G) (remember v) :=
  fun _ hm => ⟨hv, hm.remember hv⟩

theorem load {line : Nat} {name : String} : Keeps (Machine.Safe G Ls) (Value.Scoped G) (load line name) := by
  intro m hm
  cases hv : m.get? name with
  | some v =>
    rw [load_some hv]
    exact ⟨hm.get? hv, hm⟩
  | none =>
    rw [load_none hv]
    exact hm

theorem store {line : Nat} {name : String} {v : Value} (hv : v.Scoped G) (hn : Bound G L name) :
    Keeps (Machine.Safe G (L :: Ls)) (fun _ => True) (store line name v) := by
  intro m hm
  obtain ⟨m', hset, hsafe⟩ := hm.set? hv hn
  rw [store_some hset]
  exact ⟨trivial, hsafe⟩

theorem write {line : Nat} {text : String} : Keeps (Machine.Safe G Ls) (fun _ => True) (write line text) := by
  intro m hm
  rw [write_apply]
  cases m.console.fits text with
  | true => exact ⟨trivial, hm.withConsole _⟩
  | false => exact hm.withConsole _

theorem readLine {line : Nat} : Keeps (Machine.Safe G Ls) (Value.Scoped G) (readLine line) := by
  intro m hm
  rw [readLine_apply]
  rcases m.console.next? with _ | ⟨_ | _, console⟩
  · exact ⟨trivial, hm.remember trivial⟩
  · exact ⟨trivial, (hm.withConsole console).remember trivial⟩
  · exact hm.withConsole console

theorem within {f : Func} {args : List Value} {body : Eval Unit} (hf : f.Scoped G) (ha : ∀ v ∈ args, v.Scoped G)
    (hb : Keeps (Machine.Safe G (f.scope.names :: Ls)) (fun _ => True) body) :
    Keeps (Machine.Safe G Ls) (Value.Scoped G) (within f args body) := by
  intro m hm
  have hbody := hb (hm.enter hf ha)
  unfold Eval.within
  generalize body (m.enter f args) = r at hbody ⊢
  cases r with
  | ok _ m₁ => exact ⟨hbody.2.last, hbody.2.leave⟩
  | error stop m₁ => exact hbody.leave

end

end Keeps

/-- Calls of scoped functions with scoped arguments keep machines safe. -/
def CallKeeps (G : List String) (call : Caller) : Prop :=
  ∀ ⦃f args⦄ (line : Nat) (Ls : List (List String)), f.Scoped G → (∀ v ∈ args, v.Scoped G) →
    Keeps (Machine.Safe G Ls) (Value.Scoped G) (call f args line)

end Eval

section
open Eval

variable {G L : List String} {Ls : List (List String)} {call : Caller} {fuel : Nat}

theorem bound_append {as bs : List String} :
    (∀ n ∈ as ++ bs, Bound G L n) ↔ (∀ n ∈ as, Bound G L n) ∧ ∀ n ∈ bs, Bound G L n :=
  List.forall_mem_append

mutual

theorem Expr.keeps (hcall : CallKeeps G call) : ∀ {e : Expr}, (∀ n ∈ e.targets, Bound G L n) →
    Keeps (Machine.Safe G (L :: Ls)) (Value.Scoped G) (e.eval call)
  | .literal _ v, _ => .remember (Value.scoped_ofLiteral v)
  | .call line name args, h => by
    refine Keeps.load.bind fun v hv => ?_
    cases v with
    | func f =>
      refine (Expr.keepsAll hcall h).bind fun vs hvs => ?_
      exact (hcall line _ hv hvs).bind fun w hw => .remember hw
    | _ => exact .remember trivial
  | .binary line op l r, h => by
    obtain ⟨hl, hr⟩ := bound_append.mp h
    refine (Expr.keeps hcall hl).bind fun v hv => (Expr.keeps hcall hr).bind fun w hw => ?_
    exact (Keeps.ofExcept fun u hu => Value.scoped_binary hv hw hu).bind fun u hu => .remember hu
  | .negate line op e, h => by
    refine (Expr.keeps hcall (e := e) h).bind fun v _ => ?_
    exact (Keeps.ofExcept fun w hw => Value.scoped_negate hw).bind fun w hw => .remember hw
  | .compare line op l r, h => by
    obtain ⟨hl, hr⟩ := bound_append.mp h
    refine (Expr.keeps hcall hl).bind fun v _ => (Expr.keeps hcall hr).bind fun w _ => ?_
    exact (Keeps.ofExcept (P := fun _ => True) fun _ _ => trivial).bind fun _ _ => .remember trivial
  | .gets _, _ => .readLine
  | .assign _ as, h => (Assign.keepsAll hcall .nil h trivial).bind fun v hv => .remember hv

theorem Expr.keepsAll (hcall : CallKeeps G call) : ∀ {es : List Expr}, (∀ n ∈ Expr.targetsAll es, Bound G L n) →
    Keeps (Machine.Safe G (L :: Ls)) (fun vs => ∀ v ∈ vs, v.Scoped G) (Expr.evalAll call es)
  | [], _ => .pure fun _ hv => by cases hv
  | e :: es, h => by
    obtain ⟨he, hes⟩ := bound_append.mp h
    refine (Expr.keeps hcall he).bind fun v hv => (Expr.keepsAll hcall hes).bind fun vs hvs => .pure ?_
    exact List.forall_mem_cons.mpr ⟨hv, hvs⟩

theorem Assign.keeps (hcall : CallKeeps G call) : ∀ {a : Assign}, (∀ n ∈ a.targets, Bound G L n) →
    Keeps (Machine.Safe G (L :: Ls)) (Value.Scoped G) (a.eval call)
  | ⟨line, name, e⟩, h => by
    obtain ⟨hname, he⟩ := List.forall_mem_cons.mp h
    exact (Expr.keeps hcall he).bind fun v hv => (Keeps.store hv hname).bind fun _ _ => .pure hv

theorem Assign.keepsAll (hcall : CallKeeps G call) : ∀ {as : List Assign} (last : Value),
    (∀ n ∈ Assign.targetsAll as, Bound G L n) → last.Scoped G →
      Keeps (Machine.Safe G (L :: Ls)) (Value.Scoped G) (Assign.evalAll call last as)
  | [], _, _, hlast => .pure hlast
  | a :: as, _, h, _ => by
    obtain ⟨ha, has⟩ := bound_append.mp h
    exact (Assign.keeps hcall ha).bind fun v hv => Assign.keepsAll hcall v has hv

end

mutual

theorem Stmt.keeps (hcall : CallKeeps G call) : ∀ {s : Stmt}, s.Scoped G L →
    Keeps (Machine.Safe G (L :: Ls)) (fun _ => True) (s.exec call fuel)
  | .assign _, h => (Assign.keeps hcall h).discard
  | .print _ _, h => (Expr.keepsAll hcall h).bind fun _ _ => .write
  | .puts _ [], _ => .write
  | .puts _ (_ :: _), h => (Expr.keepsAll hcall h).bind fun _ _ => .write
  | .choose _ _ _, h => by
    refine (Arm.keeps hcall h.1).bind fun b _ => ?_
    cases b with
    | true => exact .pure trivial
    | false =>
      refine (Arm.keepsFirst hcall h.2.1).bind fun b _ => ?_
      cases b with
      | true => exact .pure trivial
      | false => exact Block.keepsOption hcall h.2.2
  | .loop _ _ _, h =>
    .repeatWhile ((Expr.keeps hcall h.1).bind fun _ _ => .pure trivial) (Block.keeps hcall h.2) fuel
  | .define _, h => .store h.2 h.1
  | .gets _, _ => Keeps.readLine.discard
  | .expr _, h => (Expr.keeps hcall h).discard

theorem Stmt.keepsAll (hcall : CallKeeps G call) : ∀ {ss : List Stmt}, Stmt.AllScoped G L ss →
    Keeps (Machine.Safe G (L :: Ls)) (fun _ => True) (Stmt.execAll call fuel ss)
  | [], _ => .pure trivial
  | _ :: _, h => (Stmt.keeps hcall h.1).bind fun _ _ => Stmt.keepsAll hcall h.2

theorem Block.keeps (hcall : CallKeeps G call) : ∀ {b : Block}, b.Scoped G L →
    Keeps (Machine.Safe G (L :: Ls)) (fun _ => True) (b.exec call fuel)
  | ⟨_, _⟩, h => Stmt.keepsAll hcall h

theorem Block.keepsOption (hcall : CallKeeps G call) : ∀ {b : Option Block}, Block.ScopedOption G L b →
    Keeps (Machine.Safe G (L :: Ls)) (fun _ => True) (Block.execOption call fuel b)
  | none, _ => .pure trivial
  | some _, h => Block.keeps hcall h

theorem Arm.keeps (hcall : CallKeeps G call) : ∀ {a : Arm}, a.Scoped G L →
    Keeps (Machine.Safe G (L :: Ls)) (fun _ => True) (a.exec call fuel)
  | ⟨_, _, _⟩, h => by
    refine (Expr.keeps hcall h.1).bind fun v _ => ?_
    split
    · exact (Block.keeps hcall h.2).bind fun _ _ => .pure trivial
    · exact .pure trivial

theorem Arm.keepsFirst (hcall : CallKeeps G call) : ∀ {as : List Arm}, Arm.AllScoped G L as →
    Keeps (Machine.Safe G (L :: Ls)) (fun _ => True) (Arm.execFirst call fuel as)
  | [], _ => .pure trivial
  | _ :: _, h => by
    refine (Arm.keeps hcall h.1).bind fun b _ => ?_
    cases b with
    | true => exact .pure trivial
    | false => exact Arm.keepsFirst hcall h.2

end

theorem callKeeps_callAt : ∀ d : Nat, CallKeeps G (callAt fuel d)
  | 0 => fun _ _ _ _ _ _ => .fail
  | d + 1 => fun f _ _ _ hf ha => .within hf ha (Block.keeps (callKeeps_callAt d) (by
      cases f
      exact hf.2.2))

end

/-! ## Points stay safe -/

/-- What the task stores under is bound. -/
def Task.Scoped (G L : List String) : Task → Prop
  | .load _ _ => True
  | .store _ name v => Bound G L name ∧ v.Scoped G
  | .call f args _ => f.Scoped G ∧ ∀ v ∈ args, v.Scoped G
  | .expr e => ∀ n ∈ e.targets, Bound G L n
  | .exprs es => ∀ n ∈ Expr.targetsAll es, Bound G L n
  | .assign a => ∀ n ∈ a.targets, Bound G L n
  | .assigns as => ∀ n ∈ Assign.targetsAll as, Bound G L n
  | .stmt s => s.Scoped G L
  | .stmts ss => Stmt.AllScoped G L ss
  | .arm a => a.Scoped G L
  | .arms as => Arm.AllScoped G L as
  | .rounds condition body _ => (∀ n ∈ condition.targets, Bound G L n) ∧ body.Scoped G L

def Point.Safe (G : List String) (q : Point) : Prop :=
  ∃ L Ls, q.machine.Safe G (L :: Ls) ∧ q.task.Scoped G L

section
variable {G : List String} {fuel : Nat}

theorem Block.Scoped.stmts {L : List String} : ∀ {b : Block}, b.Scoped G L → Stmt.AllScoped G L b.stmts
  | ⟨_, _⟩, h => h

theorem Leads.safe {p q : Point} (hstep : Leads fuel p q) (h : p.Safe G) : q.Safe G := by
  have hcall (d : Nat) : Eval.CallKeeps G (callAt fuel d) := callKeeps_callAt d
  obtain ⟨L, Ls, hm, ht⟩ := h
  cases hstep with
  | load => exact ⟨L, Ls, hm, trivial⟩
  | args => exact ⟨L, Ls, hm, ht⟩
  | call hget hargs =>
    obtain ⟨hvs, hm₁⟩ := (Expr.keepsAll (hcall _) ht).ok hm hargs
    exact ⟨L, Ls, hm₁, hm.get? hget, hvs⟩
  | @body _ f =>
    refine ⟨_, _, hm.enter ht.1 ht.2, ?_⟩
    cases f
    exact ht.1.2.2.stmts
  | left => exact ⟨L, Ls, hm, (bound_append.mp ht).1⟩
  | right hl =>
    obtain ⟨hleft, hright⟩ := bound_append.mp ht
    exact ⟨L, Ls, ((Expr.keeps (hcall _) hleft).ok hm hl).2, hright⟩
  | operand => exact ⟨L, Ls, hm, ht⟩
  | compareLeft => exact ⟨L, Ls, hm, (bound_append.mp ht).1⟩
  | compareRight hl =>
    obtain ⟨hleft, hright⟩ := bound_append.mp ht
    exact ⟨L, Ls, ((Expr.keeps (hcall _) hleft).ok hm hl).2, hright⟩
  | stores => exact ⟨L, Ls, hm, ht⟩
  | expr => exact ⟨L, Ls, hm, (bound_append.mp ht).1⟩
  | exprs he =>
    obtain ⟨hfirst, hrest⟩ := bound_append.mp ht
    exact ⟨L, Ls, ((Expr.keeps (hcall _) hfirst).ok hm he).2, hrest⟩
  | value => exact ⟨L, Ls, hm, (List.forall_mem_cons.mp ht).2⟩
  | store he =>
    obtain ⟨hname, hvalue⟩ := List.forall_mem_cons.mp ht
    obtain ⟨hv, hm₁⟩ := (Expr.keeps (hcall _) hvalue).ok hm he
    exact ⟨L, Ls, hm₁, hname, hv⟩
  | assign => exact ⟨L, Ls, hm, (bound_append.mp ht).1⟩
  | assigns ha =>
    obtain ⟨hfirst, hrest⟩ := bound_append.mp ht
    exact ⟨L, Ls, ((Assign.keeps (hcall _) hfirst).ok hm ha).2, hrest⟩
  | stmtAssign => exact ⟨L, Ls, hm, ht⟩
  | print => exact ⟨L, Ls, hm, ht⟩
  | puts => exact ⟨L, Ls, hm, ht⟩
  | stmtExpr => exact ⟨L, Ls, hm, ht⟩
  | define => exact ⟨L, Ls, hm, ht⟩
  | first => exact ⟨L, Ls, hm, ht.1⟩
  | others ha => exact ⟨L, Ls, ((Arm.keeps (hcall _) ht.1).ok hm ha).2, ht.2.1⟩
  | otherwise ha has =>
    have hm₁ := ((Arm.keeps (hcall _) ht.1).ok hm ha).2
    exact ⟨L, Ls, ((Arm.keepsFirst (hcall _) ht.2.1).ok hm₁ has).2, Block.Scoped.stmts ht.2.2⟩
  | loop => exact ⟨L, Ls, hm, ht⟩
  | round => exact ⟨L, Ls, hm, ht.1⟩
  | roundBody hc => exact ⟨L, Ls, ((Expr.keeps (hcall _) ht.1).ok hm hc).2, ht.2.stmts⟩
  | again hc _ hb =>
    have hm₁ := ((Expr.keeps (hcall _) ht.1).ok hm hc).2
    exact ⟨L, Ls, ((Block.keeps (hcall _) ht.2).ok hm₁ hb).2, ht⟩
  | condition => exact ⟨L, Ls, hm, ht.1⟩
  | armBody hc => exact ⟨L, Ls, ((Expr.keeps (hcall _) ht.1).ok hm hc).2, ht.2.stmts⟩
  | arm => exact ⟨L, Ls, hm, ht.1⟩
  | arms ha => exact ⟨L, Ls, ((Arm.keeps (hcall _) ht.1).ok hm ha).2, ht.2⟩
  | stmt => exact ⟨L, Ls, hm, ht.1⟩
  | stmts hs => exact ⟨L, Ls, ((Stmt.keeps (hcall _) ht.1).ok hm hs).2, ht.2⟩

end

/-! ## Runs -/

/-- Wherever a run of the block comes: a store finds its name, a call binds its parameters to its arguments, and an
undefined variable was to be read. -/
structure Machine.StoresFind (fuel : Nat) (m : Machine) (b : Block) : Prop where
  stores : ∀ {d line name v m₁}, m.Visits fuel b ⟨d, .store line name v, m₁⟩ →
    ∃ m₂, Eval.store line name v m₁ = .ok () m₂ ∧ m₂.get? name = some v
  calls : ∀ {d f args line m₁}, m.Visits fuel b ⟨d, .call f args line, m₁⟩ → m₁.BindsArgs f args
  undefined : ∀ {line name m₁}, m.exec fuel b = .error (undefined line name) m₁ →
    ∃ d m₂, m.Visits fuel b ⟨d, .load line name, m₂⟩ ∧ m₂.get? name = none

namespace Machine

variable {G L : List String} {m : Machine} {b : Block} {fuel : Nat}

theorem Safe.visits (hm : m.Safe G [L]) (hb : b.Scoped G L) {q : Point} (h : m.Visits fuel b q) : q.Safe G :=
  Point.Visits.invariant (I := Point.Safe G) Leads.safe h ⟨L, [], hm, hb.stmts⟩

theorem Safe.storesFind (hm : m.Safe G [L]) (hb : b.Scoped G L) : m.StoresFind fuel b := by
  have hstores {d line name v m₁} (h : m.Visits fuel b ⟨d, .store line name v, m₁⟩) :
      ∃ m₂, m₁.set? name v = some m₂ := by
    obtain ⟨_, _, hm₁, hname, hv⟩ := hm.visits hb h
    obtain ⟨m₂, hset, -⟩ := hm₁.set? hv hname
    exact ⟨m₂, hset⟩
  constructor
  · intro d line name v m₁ h
    obtain ⟨m₂, hset⟩ := hstores h
    exact ⟨m₂, Eval.store_some hset, by rw [get?_set? hset, if_pos rfl]⟩
  · intro d f args line m₁ h
    obtain ⟨_, _, hm₁, hf, hargs⟩ := hm.visits hb h
    exact hm₁.bindsArgs hf hargs
  · intro line name m₁ h
    obtain ⟨q, m₂, hvisits, hbreaks, -⟩ := (stops_of_exec h).visits
    obtain ⟨d, ⟨rfl, hget⟩ | ⟨v, rfl, hset⟩⟩ := hbreaks.missing
    · exact ⟨d, m₂, hvisits, hget⟩
    · obtain ⟨m₃, hset'⟩ := hstores hvisits
      rw [hset] at hset'
      cases hset'

theorem safe_reset (m : Machine) (scopes : ScopeTable) :
    (m.reset scopes).Safe scopes.globals.names [scopes.program.names] :=
  ⟨Frame.safe_ofScope _, .cons (Frame.safe_ofScope _) .nil, trivial⟩

/-- All functions in the frames are scoped. -/
structure Carries (G : List String) (m : Machine) : Prop where
  globals : ∀ ⦃name v⦄, m.globals.get? name = some v → v.Scoped G
  frames : ∀ f ∈ m.frames, ∀ ⦃name v⦄, f.get? name = some v → v.Scoped G

theorem Safe.carries (h : m.Safe G [L]) : m.Carries G := by
  obtain ⟨globals, frames, last, hasRun, console⟩ := m
  obtain ⟨hglobals, hframes, -⟩ := h
  refine ⟨hglobals.values, fun f hf => ?_⟩
  cases hframes with
  | cons hg hnil =>
    cases hnil
    rw [List.mem_singleton.mp hf]
    exact hg.values

/-- New frames for a program, as they are before what is new in it is run. -/
def opened (m : Machine) (scopes : ScopeTable) : Machine := if m.hasRun then m.migrate scopes else m.reset scopes

theorem resume_eq_opened (scopes : ScopeTable) : m.resume fuel scopes b = (m.opened scopes).exec fuel b := by
  rw [resume, opened]
  split <;> rfl

theorem Carries.opened {scopes : ScopeTable} (h : m.Carries G) (hG : ∀ n ∈ G, n ∈ scopes.globals.names) :
    (m.opened scopes).Safe scopes.globals.names [scopes.program.names] := by
  unfold Machine.opened
  split
  · refine ⟨Frame.safe_migrate _ hG h.globals, .cons (Frame.safe_migrate _ hG ?_) .nil, trivial⟩
    cases hlast : m.frames.getLast? with
    | none => exact fun _ _ hv => by cases hv
    | some f => exact h.frames f (List.mem_of_getLast? hlast)
  · exact safe_reset m scopes

theorem Safe.outcome (hm : m.Safe G [L]) (hb : b.Scoped G L) : (Session.outcome (m.exec fuel b)).2.Safe G [L] := by
  have hkeeps : Eval.Keeps (Machine.Safe G [L]) (fun _ => True) (b.exec (m.caller fuel) fuel) :=
    Block.keeps (callKeeps_callAt _) hb
  have hm₁ := hkeeps hm
  unfold Machine.exec
  generalize b.exec (m.caller fuel) fuel m = r at hm₁ ⊢
  cases r with
  | ok a m₁ => exact hm₁.2
  | error stop m₁ => exact hm₁

end Machine

/-! ## Sessions -/

namespace Session

/-- A session that starts with a fresh machine, after any submitting of chunks, taking of input lines, and writing. -/
inductive Reached : Session → Prop where
  | start (console : Console) : Reached (start console)
  | submit {s} (fuel : Nat) (chunk : String) : Reached s → Reached (s.submit fuel chunk).2
  | next {s line s'} : s.next? = some (line, s') → Reached s → Reached s'
  | write {s} (text : String) : Reached s → Reached (s.write text)

variable {s : Session} {p p' : Program} {chunk : String}

/-- What is handed over to be run is scoped within the names of the new program. -/
theorem Reads.scoped_tail (h : s.Reads p) (hp' : Program.ofSource (Session.extend s.source chunk) = .ok p') :
    (p'.body.tail s.executed).Scoped p'.scopes.globals.names p'.scopes.program.names := by
  have hstmts := (h.extend hp').1
  have hbody := (Program.scoped_of_ofSource hp').body.stmts
  rw [hstmts] at hbody
  exact (Stmt.allScoped_append.mp hbody).2

theorem Reached.carries (h : s.Reached) : ∃ p, s.Reads p ∧ s.machine.Carries p.scopes.globals.names := by
  induction h with
  | start console =>
    refine ⟨_, reads_onto (.start console), ⟨fun _ _ hv => ?_, fun _ hf => ?_⟩⟩
    · cases hv
    · cases hf
  | @submit s fuel chunk _ ih =>
    obtain ⟨p, hp, hcarries⟩ := ih
    cases hp' : Program.ofSource (extend s.source chunk) with
    | error f =>
      rw [submit_error hp']
      exact ⟨p, ⟨hp.endsLine, hp.reads, hp.executed⟩, hcarries⟩
    | ok p' =>
      have hsafe := hcarries.opened (hp.extend hp').2.globals
      rw [submit_ok hp', Machine.resume_eq_opened]
      exact ⟨p', ⟨endsLine_endLine _, hp', rfl⟩, (hsafe.outcome (hp.scoped_tail hp')).carries⟩
  | @next s line s' hnext _ ih =>
    obtain ⟨p, hp, hcarries⟩ := ih
    unfold Session.next? at hnext
    cases hline : s.machine.console.next? with
    | none =>
      rw [hline] at hnext
      cases hnext
    | some r =>
      rw [hline] at hnext
      cases hnext
      exact ⟨p, ⟨hp.endsLine, hp.reads, hp.executed⟩, hcarries.globals, hcarries.frames⟩
  | write text _ ih =>
    obtain ⟨p, hp, hcarries⟩ := ih
    exact ⟨p, ⟨hp.endsLine, hp.reads, hp.executed⟩, hcarries.globals, hcarries.frames⟩

end Session

/-- **Stores find their names.** What a program stores under is declared where it belongs, with no name twice. So
wherever a run of the program comes, in whatever machine it starts, a store finds its name, the body of a call starts
with its parameters bound to its arguments, and if the run stops at an undefined variable then that was to be read. The
same holds for what any submission hands over, in a session that starts with a fresh machine. -/
theorem Program.stores_find_names :
    (∀ (source : String) (p : Program), ofSource source = .ok p →
      p.Scoped ∧ ∀ (fuel : Nat) (m : Machine), m.run fuel p.scopes p.body = (m.reset p.scopes).exec fuel p.body ∧
        (m.reset p.scopes).StoresFind fuel p.body) ∧
    ∀ (s : Session), s.Reached → ∀ (chunk : String) (scopes : ScopeTable) (b : Block),
      s.handOver chunk = .ok (scopes, b) →
        ∀ fuel : Nat, s.machine.resume fuel scopes b = (s.machine.opened scopes).exec fuel b ∧
          (s.machine.opened scopes).StoresFind fuel b := by
  refine ⟨fun source p h => ?_, fun s hs chunk scopes b h fuel => ⟨Machine.resume_eq_opened scopes, ?_⟩⟩
  · have hp := scoped_of_ofSource h
    exact ⟨hp, fun fuel m => ⟨rfl, (Machine.safe_reset m p.scopes).storesFind hp.body⟩⟩
  · obtain ⟨p, hp, hcarries⟩ := hs.carries
    cases hp' : ofSource (Session.extend s.source chunk) with
    | error f =>
      rw [Session.handOver_error hp'] at h
      cases h
    | ok p' =>
      rw [Session.handOver_ok hp'] at h
      cases h
      exact (hcarries.opened (hp.extend hp').2.globals).storesFind (hp.scoped_tail hp')

/-- In a call `f(2)` of a function with the one parameter `$b` that global name is bound to 2, in a run of the program
as in a session. -/
theorem Program.stores_find_names_parameter :
    ∃ p, ofSource "def f($b)\nend\nf(2)" = .ok p ∧ p.Scoped ∧
      (∃ d f m₁, ((Machine.start (.start none .empty)).reset p.scopes).Visits 1 p.body
          ⟨d, .call f [.integer 2] 3, m₁⟩ ∧
        f.params = ["$b"] ∧ (m₁.enter f [.integer 2]).get? "$b" = some (.integer 2)) ∧
      ∃ b, (Session.start (.start none .empty)).handOver "def f($b)\nend\nf(2)" = .ok (p.scopes, b) ∧
        ((Machine.start (.start none .empty)).opened p.scopes).StoresFind 1 b := by
  let f : Func := ⟨"f", ["$b"], 1, ⟨2, []⟩, ⟨"f", some "Program", []⟩⟩
  let p : Program := ⟨⟨1, [.define f, .expr (.call 3 "f" [.literal 3 (.integer 2)])]⟩,
    ⟨⟨"Global", none, ["$b"]⟩, ⟨"Program", some "Global", ["f"]⟩, []⟩⟩
  let m : Machine := (Machine.start (.start none .empty)).reset p.scopes
  have hp : ofSource "def f($b)\nend\nf(2)" = .ok p := by
    have hl : LogicalLine.ofSource "def f($b)\nend\nf(2)" =
        .ok [[⟨.kwDef, "def", 1⟩, ⟨.identifier, "f", 1⟩, ⟨.leftParen, "(", 1⟩, ⟨.identifier, "$b", 1⟩,
            ⟨.rightParen, ")", 1⟩], [⟨.kwEnd, "end", 2⟩],
          [⟨.identifier, "f", 3⟩, ⟨.leftParen, "(", 3⟩, ⟨.integer, "2", 3⟩, ⟨.rightParen, ")", 3⟩]] := by
      with_unfolding_all rfl
    exact (ofSource_eq_off hl).trans rfl
  obtain ⟨hprograms, hsessions⟩ := stores_find_names
  obtain ⟨hscoped, hruns⟩ := hprograms _ p hp
  refine ⟨p, hp, hscoped, ?_, ?_⟩
  · -- the definition stores the function, which the call finds
    have hdefine : (Stmt.define f).exec (callAt 1 256) 1 m =
        .ok () { m with frames := [⟨[("f", .func f)]⟩] } := by
      have hname : isGlobalName f.name = false := by decide
      refine Eval.store_some ?_
      rw [Machine.set?, hname]
      rfl
    have hvisits : m.Visits 1 p.body ⟨256, .call f [.integer 2] 3, _⟩ :=
      .head (.stmts hdefine) (.head .stmt (.head .stmtExpr (.single (.call rfl rfl))))
    have hbinds := (hruns 1 (.start (.start none .empty))).2.calls hvisits
    have hzip : f.params.zip [Value.integer 2] = [] ++ ("$b", .integer 2) :: [] := rfl
    obtain ⟨-, -, -, hlast⟩ := hbinds.bound hzip
    exact ⟨_, f, _, hvisits, rfl, hlast List.not_mem_nil⟩
  · have hhand : (Session.start (.start none .empty)).handOver "def f($b)\nend\nf(2)" =
        .ok (p.scopes, p.body.tail 0) := by
      apply Session.handOver_ok
      rw [show Session.extend (Session.start (.start none .empty)).source "def f($b)\nend\nf(2)" =
        "def f($b)\nend\nf(2)" ++ "\n" by decide]
      exact ofSource_concat hp
    exact ⟨_, hhand, (hsessions _ (.start _) _ _ _ hhand 1).2⟩

end Sprig
