import Mathlib.Data.Finset.Card
import Sprig.Proofs.CallFrames

/-!
# What frames take over

The program frame that a program takes over is the one frame that the last program left. That there is one, with the
names of that program, whatever the programs before did and wherever they stopped, is because a run changes nothing of
the shape of a machine (`Machine.shape_exec`). The bindings of a frame have no order: visited one by one in whatever
order, they make the same new frame (`Frame.takeOver_perm`).

Main statement: `Machine.shared_names_carried`.
-/

namespace Sprig

namespace Frame

variable {f g previous : Frame} {name : String} {v : Value} {bs : List (String × Value)}

/-! ## The names of a frame -/

def names (f : Frame) : List String := f.bindings.map Prod.fst

@[simp] theorem names_ofScope (s : Scope) : (ofScope s).names = s.names := by
  unfold names ofScope
  rw [List.map_map]
  exact List.map_id _

theorem names_set? (h : f.set? name v = some g) : g.names = f.names := by
  unfold set? at h
  split at h
  · cases h
    unfold names
    rw [List.map_map]
    apply List.map_congr_left
    intro b _
    by_cases hb : b.1 = name
    · simp [hb]
    · simp [hb]
  · cases h

@[simp] theorem names_migrate (f g : Frame) : (f.migrate g).names = f.names := by
  unfold names migrate
  rw [List.map_map]
  rfl

theorem contains_iff : f.contains name = true ↔ name ∈ f.names := by
  unfold contains get? names
  rw [List.lookup_isSome_iff]
  simp

theorem get?_eq_some_iff (h : f.names.Nodup) : f.get? name = some v ↔ (name, v) ∈ f.bindings := by
  unfold get?
  unfold names at h
  generalize f.bindings = bs at h ⊢
  induction bs with
  | nil => simp
  | cons b bs ih =>
    obtain ⟨n, w⟩ := b
    rw [List.map_cons, List.nodup_cons] at h
    rw [List.lookup_cons, List.mem_cons, Prod.mk.injEq]
    by_cases hn : name = n
    · subst hn
      have hnot : (name, v) ∉ bs := fun hmem => h.1 (List.mem_map.mpr ⟨_, hmem, rfl⟩)
      simp [hnot, eq_comm]
    · rw [beq_eq_false_iff_ne.mpr hn, ih h.2]
      simp [hn]

/-! ## Bindings one by one -/

/-- Takes over one binding, if the name is bound, and counts it. -/
def carry : Frame × Nat → String × Value → Frame × Nat
  | (f, carried), (name, v) =>
    match f.set? name v with
    | some g => (g, carried + 1)
    | none => (f, carried)

/-- Takes over these bindings one after the other, and says how many. -/
def takeOver (f : Frame) (bs : List (String × Value)) : Frame × Nat := bs.foldl carry (f, 0)

theorem migrate_cons_of_not_contains (h : f.contains name = false) : f.migrate ⟨(name, v) :: bs⟩ = f.migrate ⟨bs⟩ := by
  unfold migrate
  congr 1
  apply List.map_congr_left
  rintro ⟨n, w⟩ hb
  have hn : n ≠ name := by
    rintro rfl
    rw [contains_iff.mpr (List.mem_map_of_mem hb)] at h
    cases h
  simp [get?, List.lookup_cons, beq_eq_false_iff_ne.mpr hn]

theorem migrate_cons_of_set? (h : f.set? name v = some g) (hname : name ∉ bs.map Prod.fst) :
    f.migrate ⟨(name, v) :: bs⟩ = g.migrate ⟨bs⟩ := by
  have hnone : bs.lookup name = none := by
    rw [List.lookup_eq_none_iff]
    intro b hb
    rw [bne_iff_ne]
    rintro rfl
    exact hname (List.mem_map_of_mem hb)
  unfold set? at h
  split at h
  · cases h
    unfold migrate
    rw [List.map_map]
    congr 1
    apply List.map_congr_left
    rintro ⟨n, w⟩ -
    by_cases hn : n = name
    · simp [hn, get?, hnone]
    · simp [hn, get?, List.lookup_cons, beq_eq_false_iff_ne.mpr hn]
  · cases h

theorem foldl_carry : ∀ {bs : List (String × Value)} (f : Frame) (carried : Nat), (bs.map Prod.fst).Nodup →
    bs.foldl carry (f, carried) = (f.migrate ⟨bs⟩, carried + bs.countP fun b => f.contains b.1)
  | [], f, carried, _ => by
    rw [List.foldl_nil, List.countP_nil, Nat.add_zero]
    exact congrArg (·, carried) (migrate_empty f).symm
  | (name, v) :: bs, f, carried, h => by
    rw [List.map_cons, List.nodup_cons] at h
    rw [List.foldl_cons, List.countP_cons, carry]
    by_cases hb : f.contains name = true
    · -- the name does not come again, so what is stored now stays
      obtain ⟨g, hg⟩ := set?_eq_some (v := v) hb
      rw [hg, foldl_carry g (carried + 1) h.2, migrate_cons_of_set? hg h.1, contains_set? hg, if_pos hb,
        Nat.add_right_comm, Nat.add_assoc]
    · have hget : f.get? name = none := by simpa [contains] using hb
      rw [set?_eq_none hget, foldl_carry f carried h.2, migrate_cons_of_not_contains (by simpa using hb), if_neg hb,
        Nat.add_zero]

theorem countP_contains (hg : g.names.Nodup) :
    (g.bindings.countP fun b => f.contains b.1) = (f.names.toFinset ∩ g.names.toFinset).card := by
  have hinter : f.names.toFinset ∩ g.names.toFinset = (g.names.filter f.contains).toFinset := by
    ext name
    simp [contains_iff, and_comm]
  rw [hinter, List.toFinset_card_of_nodup (hg.filter _), ← List.countP_eq_length_filter, names, List.countP_map]
  rfl

theorem shared_eq (hf : f.names.Nodup) (g : Frame) : f.shared g = (f.names.toFinset ∩ g.names.toFinset).card := by
  rw [Finset.inter_comm]
  exact countP_contains hf

theorem takeOver_perm (hprevious : previous.names.Nodup) (h : bs.Perm previous.bindings) :
    f.takeOver bs = (f.migrate previous, (f.names.toFinset ∩ previous.names.toFinset).card) := by
  have hnames : (bs.map Prod.fst).Nodup := (h.map Prod.fst).nodup_iff.mpr hprevious
  have hget (name : String) : (⟨bs⟩ : Frame).get? name = previous.get? name := by
    apply Option.ext
    intro v
    rw [get?_eq_some_iff (f := ⟨bs⟩) hnames, get?_eq_some_iff hprevious, h.mem_iff]
  have hmigrate : f.migrate ⟨bs⟩ = f.migrate previous := by
    unfold migrate
    simp only [hget]
  rw [takeOver, foldl_carry f 0 hnames, hmigrate, Nat.zero_add, h.countP_eq, countP_contains hprevious]

/-- The frame binds the names of the scope and no others: to what the previous one binds them to, or else to nil. In
whatever order the previous bindings are taken over they make this frame, and as many are counted as the two have names
in common. -/
structure TakesOver (new : Frame) (scope : Scope) (previous : Frame) : Prop where
  values : ∀ name, new.get? name = if name ∈ scope.names then some ((previous.get? name).getD .nil) else none
  visited : ∀ bs, bs.Perm previous.bindings →
    (ofScope scope).takeOver bs = (new, (scope.names.toFinset ∩ previous.names.toFinset).card)
  shared : (ofScope scope).shared previous = (scope.names.toFinset ∩ previous.names.toFinset).card

theorem takesOver_migrate {scope : Scope} (hscope : scope.names.Nodup) (hprevious : previous.names.Nodup) :
    ((ofScope scope).migrate previous).TakesOver scope previous where
  values := by
    intro name
    rw [get?_migrate, get?_ofScope]
    split <;> rfl
  visited := by
    intro bs h
    rw [takeOver_perm hprevious h, names_ofScope]
  shared := by
    rw [shared_eq (by rwa [names_ofScope]), names_ofScope]

end Frame

/-! ## The shape of a machine -/

/-- What a run does not change: whether there was one, and the names of the globals and of the frames. -/
structure Shape where
  hasRun : Bool
  globals : List String
  frames : List (List String)

namespace Machine

open Eval

variable {m m' : Machine} {fuel : Nat}

def shape (m : Machine) : Shape := ⟨m.hasRun, m.globals.names, m.frames.map Frame.names⟩

theorem shape_set? {name : String} {v : Value} (h : m.set? name v = some m') : m'.shape = m.shape := by
  rcases set?_cases h with ⟨g, hg, rfl⟩ | ⟨f, below, g, hf, hg, rfl⟩
  · simp [shape, Frame.names_set? hg]
  · simp [shape, hf, Frame.names_set? hg]

/-- A machine held against itself, for its shape. -/
def shapeBridge : RunBridge where
  mapLine := id
  injective := Function.injective_id
  World := Shape
  inner w f _ _ := { w with frames := f.scope.names :: w.frames }
  machines w m m' := m' = m ∧ m.shape = w
  console h := by rw [h.1]
  last h := by rw [h.1, Value.mapLine_id]
  get? name h := by
    rw [h.1]
    cases Machine.get? _ name <;> simp
  set? {w m m'} name v h := by
    rw [h.1, Value.mapLine_id]
    cases hset : m.set? name v with
    | none => exact .inl ⟨rfl, rfl⟩
    | some m₁ => exact .inr ⟨m₁, m₁, rfl, rfl, rfl, (shape_set? hset).trans h.2⟩
  remember v h := by
    rw [h.1, Value.mapLine_id]
    exact ⟨rfl, h.2⟩
  withConsole _ h := by
    rw [h.1]
    exact ⟨rfl, h.2⟩
  push f h := by
    obtain ⟨rfl, rfl⟩ := h
    refine ⟨rfl, ?_⟩
    simp [shape, push]
  leave h h₁ := by
    obtain ⟨rfl, rfl⟩ := h
    obtain ⟨rfl, h₁⟩ := h₁
    unfold shape at h₁
    obtain ⟨hrun, hglobals, hframes⟩ := Shape.mk.inj h₁
    refine ⟨rfl, ?_⟩
    simp only [shape, leave, hrun, hglobals, List.map_tail, hframes, List.tail_cons]

/-- However a run ends, it leaves the shape of the machine alone. -/
theorem shape_exec (m : Machine) (b : Block) : (after (m.exec fuel b)).shape = m.shape := by
  have hm : shapeBridge.machines m.shape m m := ⟨rfl, rfl⟩
  have h : shapeBridge.Agrees m.shape id (m.exec fuel b) ((b.mapLine id).exec (m.caller fuel) fuel m) :=
    Block.related (shapeBridge.relation.calls fuel _) b m.shape hm
  exact h.after.2

/-! ## Steps -/

/-- A program for a machine to run, in new frames that are empty or else take over what the last ones bind. -/
structure Step where
  anew : Bool
  fuel : Nat
  scopes : ScopeTable
  block : Block

end Machine

/-- The scopes of a source that can be read. -/
def ScopeTable.Parsed (scopes : ScopeTable) : Prop := ∃ source p, Program.ofSource source = .ok p ∧ p.scopes = scopes

namespace Machine

open Eval

variable {m : Machine} {fuel : Nat} {scopes : ScopeTable}

def Step.take (s : Step) (m : Machine) : EStateM.Result Stop Machine Unit :=
  if s.anew then m.run s.fuel s.scopes s.block else m.resume s.fuel s.scopes s.block

/-- The machine that these steps leave, whichever of them fail. -/
def afterSteps (m : Machine) (steps : List Step) : Machine := steps.foldl (fun m s => after (s.take m)) m

theorem shape_take (s : Step) (m : Machine) :
    (after (s.take m)).shape = ⟨true, s.scopes.globals.names, [s.scopes.program.names]⟩ := by
  have hreset : (m.reset s.scopes).shape = ⟨true, s.scopes.globals.names, [s.scopes.program.names]⟩ := by
    simp [shape, reset]
  unfold Step.take
  split
  · rw [run, shape_exec, hreset]
  · rw [resume_eq_opened, shape_exec, opened]
    split
    · rename_i hrun
      simp [shape, migrate, hrun]
    · exact hreset

theorem nodup_of_parsed (h : scopes.Parsed) : scopes.globals.names.Nodup ∧ scopes.program.names.Nodup := by
  obtain ⟨source, p, hp, rfl⟩ := h
  have hscoped := Program.scoped_of_ofSource hp
  exact ⟨hscoped.globals.nodup, hscoped.program.nodup⟩

/-- The new machine has new frames, which take over the globals and this program frame of the old one. -/
structure TakesOver (next m : Machine) (scopes : ScopeTable) (previous : Frame) : Prop where
  globals : next.globals.TakesOver scopes.globals m.globals
  program : ∃ f, next.frames = [f] ∧ f.TakesOver scopes.program previous
  last : next.last = .nil
  console : next.console = m.console

/-- **Shared names are carried over.** After any steps on one machine, whichever of them failed, the globals bind the
global names of the last step, and one frame is left, the program frame of that step. A program that takes over starts
with globals and with a program frame that bind its own names, each of them as before if it was bound before. The first
step of all has nothing to take over, and starts with empty frames. -/
theorem shared_names_carried (console : Console) (steps : List Step) (hsteps : ∀ s ∈ steps, s.scopes.Parsed)
    (scopes : ScopeTable) (hscopes : scopes.Parsed) (fuel : Nat) (b : Block) :
    let m := (start console).afterSteps steps
    (steps = [] → m.resume fuel scopes b = m.run fuel scopes b) ∧
    ∀ earlier last, steps = earlier ++ [last] → ∃ previous, m.globals.names = last.scopes.globals.names ∧
      m.frames = [previous] ∧ previous.names = last.scopes.program.names ∧
      ∃ next : Machine, m.resume fuel scopes b = next.exec fuel b ∧ next.TakesOver m scopes previous := by
  intro m
  constructor
  · intro hnil
    have hrun : m.hasRun = false := by
      unfold m
      rw [hnil]
      rfl
    rw [resume, hrun]
    rfl
  · intro earlier last hlast
    have hshape : m.shape = ⟨true, last.scopes.globals.names, [last.scopes.program.names]⟩ := by
      unfold m
      rw [hlast, afterSteps, List.foldl_append]
      exact shape_take last _
    obtain ⟨hrun, hglobals, hframes⟩ := Shape.mk.inj hshape
    obtain ⟨previous, hprevious, hnames⟩ := List.map_eq_singleton_iff.mp hframes
    obtain ⟨hlastGlobals, hlastProgram⟩ := nodup_of_parsed (hsteps last (by simp [hlast]))
    obtain ⟨hnewGlobals, hnewProgram⟩ := nodup_of_parsed hscopes
    rw [← hglobals] at hlastGlobals
    rw [← hnames] at hlastProgram
    refine ⟨previous, hglobals, hprevious, hnames, m.migrate scopes, ?_, ?_⟩
    · rw [resume, if_pos hrun]
    · constructor
      · exact Frame.takesOver_migrate hnewGlobals hlastGlobals
      · refine ⟨(Frame.ofScope scopes.program).migrate previous, ?_, Frame.takesOver_migrate hnewProgram hlastProgram⟩
        rw [migrate, hprevious]
        rfl
      · rfl
      · rfl

/-- The first program fails in a call of `$f`. The second one takes over what that name is bound to; its other names are
new. -/
theorem shared_names_carried_failed :
    ∃ p q, Program.ofSource "def $f()\n1 / 0\nend\n$f()" = .ok p ∧ Program.ofSource "$f = 1\n$g = 2\nx = 3" = .ok q ∧
      let failed : Step := ⟨true, 1, p.scopes, p.body⟩
      let m := (start (.start none .empty)).afterSteps [failed]
      (Session.outcome (failed.take (start (.start none .empty)))).1 = .error (.fault ⟨2, .runtime .divisionByZero⟩) ∧
      ∃ next : Machine, m.resume 1 q.scopes q.body = next.exec 1 q.body ∧
        (∃ f, next.globals.get? "$f" = some (.func f)) ∧ next.globals.get? "$g" = some .nil ∧
        (Frame.ofScope q.scopes.globals).takeOver m.globals.bindings = (next.globals, 1) := by
  let f : Func := ⟨"$f", [], 1, ⟨2, [.expr (.binary 2 (.arithmetic .divide) (.literal 2 (.integer 1))
    (.literal 2 (.integer 0)))]⟩, ⟨"$f", some "Program", []⟩⟩
  let p : Program := ⟨⟨1, [.define f, .expr (.call 4 "$f" [])]⟩,
    ⟨⟨"Global", none, ["$f"]⟩, ⟨"Program", some "Global", []⟩, []⟩⟩
  let q : Program := ⟨⟨1, [.assign ⟨1, "$f", .literal 1 (.integer 1)⟩, .assign ⟨2, "$g", .literal 2 (.integer 2)⟩,
    .assign ⟨3, "x", .literal 3 (.integer 3)⟩]⟩,
    ⟨⟨"Global", none, ["$f", "$g"]⟩, ⟨"Program", some "Global", ["x"]⟩, []⟩⟩
  have hp : Program.ofSource "def $f()\n1 / 0\nend\n$f()" = .ok p := by
    have hl : LogicalLine.ofSource "def $f()\n1 / 0\nend\n$f()" =
        .ok [[⟨.kwDef, "def", 1⟩, ⟨.identifier, "$f", 1⟩, ⟨.leftParen, "(", 1⟩, ⟨.rightParen, ")", 1⟩],
          [⟨.integer, "1", 2⟩, ⟨.slash, "/", 2⟩, ⟨.integer, "0", 2⟩], [⟨.kwEnd, "end", 3⟩],
          [⟨.identifier, "$f", 4⟩, ⟨.leftParen, "(", 4⟩, ⟨.rightParen, ")", 4⟩]] := by
      with_unfolding_all rfl
    exact (Program.ofSource_eq_off hl).trans rfl
  have hq : Program.ofSource "$f = 1\n$g = 2\nx = 3" = .ok q := by
    have hl : LogicalLine.ofSource "$f = 1\n$g = 2\nx = 3" =
        .ok [[⟨.identifier, "$f", 1⟩, ⟨.equal, "=", 1⟩, ⟨.integer, "1", 1⟩],
          [⟨.identifier, "$g", 2⟩, ⟨.equal, "=", 2⟩, ⟨.integer, "2", 2⟩],
          [⟨.identifier, "x", 3⟩, ⟨.equal, "=", 3⟩, ⟨.integer, "3", 3⟩]] := by
      with_unfolding_all rfl
    exact (Program.ofSource_eq_off hl).trans rfl
  let failed : Step := ⟨true, 1, p.scopes, p.body⟩
  have hfails : ∃ last, failed.take (start (.start none .empty)) = .error (.fault ⟨2, .runtime .divisionByZero⟩)
      ⟨⟨[("$f", .func f)]⟩, [⟨[]⟩], last, true, .start none .empty⟩ := by
    have hname : isGlobalName f.name = true := by decide
    have hdefine : (Stmt.define f).exec (callAt 1 256) 1 ((start (.start none .empty)).reset p.scopes) =
        .ok () ⟨⟨[("$f", .func f)]⟩, [⟨[]⟩], .nil, true, .start none .empty⟩ := by
      apply store_some
      rw [Machine.set?, hname]
      rfl
    have hget : Machine.get? ⟨⟨[("$f", .func f)]⟩, [⟨[]⟩], .nil, true, .start none .empty⟩ "$f" = some (.func f) := by
      rw [Machine.get?, show isGlobalName "$f" = true from hname]
      rfl
    exact ⟨_, (Stmt.execAll_ok hdefine).trans (Stmt.execAll_error (Stmt.exec_call_error hget rfl))⟩
  obtain ⟨last, hfails⟩ := hfails
  have hm : ((start (.start none .empty)).afterSteps [failed]).globals = ⟨[("$f", .func f)]⟩ := by
    rw [afterSteps, List.foldl_cons, hfails]
    rfl
  obtain ⟨-, hnext⟩ := shared_names_carried (.start none .empty) [failed] (by simpa using ⟨_, p, hp, rfl⟩) q.scopes
    ⟨_, q, hq, rfl⟩ 1 q.body
  obtain ⟨previous, hnames, -, -, next, hrun, hglobals, -⟩ := hnext [] failed rfl
  have hcount : (q.scopes.globals.names.toFinset ∩
      ((start (.start none .empty)).afterSteps [failed]).globals.names.toFinset).card = 1 := by
    rw [hnames]
    decide
  refine ⟨p, q, hp, hq, ?_, next, hrun, ⟨f, ?_⟩, ?_, ?_⟩
  · rw [hfails]
    rfl
  · rw [hglobals.values, hm]
    rfl
  · rw [hglobals.values, hm]
    rfl
  · rw [hglobals.visited _ (.refl _), hcount]

end Machine

end Sprig
