import Sprig.Proofs.ScopeLemmas

/-!
# The stack of scopes

What a table of scopes holds after any pushes, pops and declarations. Which pop belongs to which push is said of the
operations alone: what stands between the two is balanced (`ScopeTable.Balanced`). As many functions are open as pushes
have no pop (`ScopeTable.length_performAll`), and whatever is balanced leaves the table as it was, but for the names of
the innermost scope and of the globals (`ScopeTable.performAll_balanced`).

Main statement: `ScopeTable.pops_match_pushes`.
-/

namespace Sprig

namespace Scope

/-! ## Each name once -/

def declareAll (s : Scope) (names : List String) : Scope := names.foldl declare s

theorem declare_eraseDups (title : String) (parent : Option String) (seen : List String) (name : String) :
    declare ⟨title, parent, seen.eraseDups⟩ name = ⟨title, parent, (seen ++ [name]).eraseDups⟩ := by
  rw [List.eraseDups_append]
  by_cases h : name ∈ seen
  · rw [declare_of_mem (List.mem_eraseDups.mpr h)]
    simp [List.removeAll, h]
  · rw [declare_of_not_mem fun hm => h (List.mem_eraseDups.mp hm)]
    simp [List.removeAll, h, List.eraseDups_cons]

theorem declareAll_eraseDups (title : String) (parent : Option String) : ∀ (names seen : List String),
    declareAll ⟨title, parent, seen.eraseDups⟩ names = ⟨title, parent, (seen ++ names).eraseDups⟩
  | [], seen => by
    rw [List.append_nil]
    rfl
  | name :: names, seen => by
    have ih := declareAll_eraseDups title parent names (seen ++ [name])
    rw [← declare_eraseDups, List.append_assoc] at ih
    exact ih

theorem declareAll_empty (title : String) (parent : Option String) (names : List String) :
    (empty title parent).declareAll names = ⟨title, parent, names.eraseDups⟩ :=
  declareAll_eraseDups title parent names []

end Scope

namespace ScopeTable

variable {t below : ScopeTable} {s : Scope}

/-! ## The scopes by index -/

/-- The scopes of a table, the outermost first. -/
def scopes (t : ScopeTable) : List Scope := t.globals :: t.program :: t.functions.reverse

theorem length_scopes (t : ScopeTable) : t.scopes.length = t.depth := by
  rw [scopes, List.length_cons, List.length_cons, List.length_reverse, depth]
  omega

theorem getLast?_scopes (t : ScopeTable) : t.scopes.getLast? = some t.current := by
  rcases t with ⟨globals, program, _ | ⟨s, fs⟩⟩
  · rfl
  · rw [scopes, List.reverse_cons, ← List.cons_append, ← List.cons_append, List.getLast?_concat]
    rfl

theorem pop?_eq_none_iff : t.pop? = none ↔ t.depth = 2 := by
  rcases t with ⟨globals, program, _ | ⟨s, fs⟩⟩
  · exact ⟨fun _ => rfl, fun _ => rfl⟩
  · constructor
    · intro h
      cases h
    · intro h
      simp only [depth, List.length_cons] at h
      omega

/-- What is taken off is the last scope, and never one of the base scopes. -/
theorem scopes_of_pop? (h : t.pop? = some (s, below)) : t.scopes = below.scopes ++ [s] ∧ 2 ≤ below.depth := by
  rcases t with ⟨globals, program, _ | ⟨f, fs⟩⟩
  · cases h
  · cases h
    refine ⟨?_, Nat.le_add_right ..⟩
    rw [scopes, List.reverse_cons, ← List.cons_append, ← List.cons_append]
    rfl

/-! ## Operations -/

/-- What can be done to a table. -/
inductive Op where
  | push (name : String)
  | pop
  | declareLocal (name : String)
  | declareGlobal (name : String)
  deriving DecidableEq, Repr

/-- A pop that is refused leaves the table as it is. -/
def perform (t : ScopeTable) : Op → ScopeTable
  | .push name => t.push name
  | .pop => match t.pop? with
    | some (_, below) => below
    | none => t
  | .declareLocal name => t.declareLocal name
  | .declareGlobal name => t.declareGlobal name

def performAll (t : ScopeTable) (ops : List Op) : ScopeTable := ops.foldl perform t

theorem performAll_cons (t : ScopeTable) (op : Op) (ops : List Op) :
    t.performAll (op :: ops) = (t.perform op).performAll ops := rfl

theorem performAll_append (t : ScopeTable) (as bs : List Op) :
    t.performAll (as ++ bs) = (t.performAll as).performAll bs :=
  List.foldl_append

theorem perform_pop (t : ScopeTable) : t.perform .pop = t.leave := by
  rcases t with ⟨globals, program, _ | ⟨s, fs⟩⟩ <;> rfl

theorem declareGlobal_of_globals_ne {op : Op} (h : (t.perform op).globals.names ≠ t.globals.names) :
    ∃ name, op = .declareGlobal name := by
  cases op with
  | push name => exact absurd rfl h
  | pop => exact absurd (by rw [perform_pop]; rfl) h
  | declareLocal name => exact absurd (congrArg Scope.names (globals_declareLocal t name)) h
  | declareGlobal name => exact ⟨name, rfl⟩

theorem declareLocal_of_program_ne {op : Op} (h : (t.perform op).program.names ≠ t.program.names) :
    ∃ name, op = .declareLocal name ∧ t.depth = 2 := by
  cases op with
  | push name => exact absurd rfl h
  | pop => exact absurd (by rw [perform_pop]; rfl) h
  | declareLocal name =>
    rcases t with ⟨globals, program, _ | ⟨s, fs⟩⟩
    · exact ⟨name, rfl, rfl⟩
    · exact absurd rfl h
  | declareGlobal name => exact absurd rfl h

/-! ## Which pop belongs to which push -/

variable {ops inside : List Op}

/-- Every push has its pop here and every pop its push. -/
inductive Balanced : List Op → Prop
  | nil : Balanced []
  | declareLocal {ops : List Op} (name : String) (h : Balanced ops) : Balanced (.declareLocal name :: ops)
  | declareGlobal {ops : List Op} (name : String) (h : Balanced ops) : Balanced (.declareGlobal name :: ops)
  | block {inside ops : List Op} (name : String) (hinside : Balanced inside) (h : Balanced ops) :
    Balanced (.push name :: (inside ++ .pop :: ops))

/-- A push right in front of these operations has its pop among them. -/
def Closes (ops : List Op) : Prop := ∃ inside rest, ops = inside ++ .pop :: rest ∧ Balanced inside

/-- The number of pops that have no push here. -/
def surplus : List Op → Nat
  | [] => 0
  | .push _ :: ops => surplus ops - 1
  | .pop :: ops => surplus ops + 1
  | .declareLocal _ :: ops | .declareGlobal _ :: ops => surplus ops

theorem surplus_append (h : Balanced inside) (rest : List Op) : surplus (inside ++ rest) = surplus rest := by
  induction h generalizing rest with
  | nil => rfl
  | declareLocal name h ih => exact ih rest
  | declareGlobal name h ih => exact ih rest
  | block name hinside h ihinside ih =>
    rw [List.cons_append, List.append_assoc, List.cons_append, surplus, ihinside, surplus, ih, Nat.add_sub_cancel]

/-- In front of the first pop without a push everything is balanced. -/
theorem exists_pop_of_surplus (ops : List Op) (h : 0 < surplus ops) :
    ∃ inside rest, ops = inside ++ .pop :: rest ∧ Balanced inside ∧ surplus ops = surplus rest + 1 := by
  match ops with
  | [] => exact absurd h (Nat.lt_irrefl 0)
  | .pop :: ops => exact ⟨[], ops, rfl, .nil, rfl⟩
  | .declareLocal name :: ops =>
    obtain ⟨inside, rest, rfl, hinside, hrest⟩ := exists_pop_of_surplus ops h
    exact ⟨_, rest, rfl, hinside.declareLocal name, hrest⟩
  | .declareGlobal name :: ops =>
    obtain ⟨inside, rest, rfl, hinside, hrest⟩ := exists_pop_of_surplus ops h
    exact ⟨_, rest, rfl, hinside.declareGlobal name, hrest⟩
  | .push name :: ops =>
    -- what follows has two pops too many: the first belongs to this push, the second is the one to find
    rw [surplus] at h
    obtain ⟨own, behind, hops, hown, hbehind⟩ := exists_pop_of_surplus ops (by omega)
    have hlength : behind.length < ops.length := by
      rw [hops, List.length_append, List.length_cons]
      omega
    obtain ⟨inside, rest, rfl, hinside, hrest⟩ := exists_pop_of_surplus behind (by omega)
    refine ⟨_, rest, ?_, hown.block name hinside, ?_⟩
    · rw [hops, List.cons_append, List.append_assoc, List.cons_append]
    · rw [surplus]
      omega
termination_by ops.length
decreasing_by all_goals simp only [List.length_cons]; omega

theorem closes_iff : Closes ops ↔ 0 < surplus ops := by
  constructor
  · rintro ⟨inside, rest, rfl, hinside⟩
    rw [surplus_append hinside]
    exact Nat.succ_pos _
  · intro h
    obtain ⟨inside, rest, hops, hinside, -⟩ := exists_pop_of_surplus ops h
    exact ⟨inside, rest, hops, hinside⟩

instance (ops : List Op) : Decidable (Closes ops) := decidable_of_iff _ closes_iff.symm

/-- The number of pushes that have no pop here. -/
def unmatched : List Op → Nat
  | [] => 0
  | .push _ :: ops => (if Closes ops then 0 else 1) + unmatched ops
  | .pop :: ops | .declareLocal _ :: ops | .declareGlobal _ :: ops => unmatched ops

theorem unmatched_append (h : Balanced inside) (rest : List Op) : unmatched (inside ++ rest) = unmatched rest := by
  induction h generalizing rest with
  | nil => rfl
  | declareLocal name h ih => exact ih rest
  | declareGlobal name h ih => exact ih rest
  | block name hinside h ihinside ih =>
    rw [List.cons_append, List.append_assoc, List.cons_append, unmatched, if_pos ⟨_, _, rfl, hinside⟩, ihinside,
      unmatched, ih, Nat.zero_add]

theorem balanced_of_unmatched (ops : List Op) (hpush : unmatched ops = 0) (hpop : surplus ops = 0) : Balanced ops := by
  match ops with
  | [] => exact .nil
  | .pop :: ops => cases hpop
  | .declareLocal name :: ops => exact (balanced_of_unmatched ops hpush hpop).declareLocal name
  | .declareGlobal name :: ops => exact (balanced_of_unmatched ops hpush hpop).declareGlobal name
  | .push name :: ops =>
    rw [unmatched] at hpush
    rw [surplus] at hpop
    by_cases hcloses : Closes ops
    · obtain ⟨inside, rest, hops, hinside⟩ := hcloses
      have hlength : rest.length < ops.length := by
        rw [hops, List.length_append, List.length_cons]
        omega
      rw [hops, unmatched_append hinside, unmatched] at hpush
      rw [hops, surplus_append hinside, surplus] at hpop
      rw [hops]
      exact hinside.block name (balanced_of_unmatched rest (by omega) (by omega))
    · rw [if_neg hcloses] at hpush
      omega
termination_by ops.length
decreasing_by all_goals simp only [List.length_cons]; omega

/-- Behind the last push without a pop everything is balanced. -/
theorem exists_push_of_unmatched : ∀ (ops : List Op), 0 < unmatched ops →
    ∃ outer name inside, ops = outer ++ .push name :: inside ∧ Balanced inside
  | [], h => absurd h (Nat.lt_irrefl 0)
  | op :: ops, h => by
    by_cases hops : 0 < unmatched ops
    · obtain ⟨outer, name, inside, rfl, hinside⟩ := exists_push_of_unmatched ops hops
      exact ⟨op :: outer, name, inside, rfl, hinside⟩
    · cases op with
      | push name =>
        have hcloses : ¬ Closes ops := by
          intro hc
          rw [unmatched, if_pos hc] at h
          omega
        rw [closes_iff] at hcloses
        exact ⟨[], name, ops, rfl, balanced_of_unmatched ops (by omega) (by omega)⟩
      | pop => exact absurd h hops
      | declareLocal name => exact absurd h hops
      | declareGlobal name => exact absurd h hops

/-- The pushes without a pop open as many functions, on top of what the pops without a push leave open. -/
theorem length_performAll : ∀ (ops : List Op) (t : ScopeTable),
    (t.performAll ops).functions.length = unmatched ops + (t.functions.length - surplus ops)
  | [], t => (Nat.zero_add _).symm
  | .push name :: ops, t => by
    have hpush : (t.perform (.push name)).functions.length = t.functions.length + 1 := rfl
    rw [performAll_cons, length_performAll ops, hpush, unmatched, surplus]
    by_cases hcloses : Closes ops
    · have := closes_iff.mp hcloses
      rw [if_pos hcloses]
      omega
    · have := mt closes_iff.mpr hcloses
      rw [if_neg hcloses]
      omega
  | .pop :: ops, t => by
    rw [performAll_cons, length_performAll ops, perform_pop, leave, List.length_tail, unmatched, surplus]
    omega
  | .declareLocal name :: ops, t => by
    rw [performAll_cons, length_performAll ops, perform, length_declareLocal]
    rfl
  | .declareGlobal name :: ops, t => length_performAll ops (t.declareGlobal name)

/-- A refused pop takes no push with it. -/
example : unmatched [.pop, .push "f", .push "g", .pop, .pop, .pop, .push "h"] = 1 := by decide

/-! ## Which names are declared where -/

def globalNames : List Op → List String
  | [] => []
  | .declareGlobal name :: ops => name :: globalNames ops
  | .push _ :: ops | .pop :: ops | .declareLocal _ :: ops => globalNames ops

/-- The names that are declared in one scope, from where there are so many others above it. It takes the names that are
declared while there are none: then it is the innermost one. -/
def ownNames : (above : Nat) → List Op → List String
  | _, [] => []
  | 0, .declareLocal name :: ops => name :: ownNames 0 ops
  | above + 1, .declareLocal _ :: ops => ownNames (above + 1) ops
  | above, .push _ :: ops => ownNames (above + 1) ops
  | above, .pop :: ops => ownNames (above - 1) ops
  | above, .declareGlobal _ :: ops => ownNames above ops

theorem globalNames_append : ∀ (as bs : List Op), globalNames (as ++ bs) = globalNames as ++ globalNames bs
  | [], _ => rfl
  | .declareGlobal name :: as, bs => congrArg (name :: ·) (globalNames_append as bs)
  | .push _ :: as, bs | .pop :: as, bs | .declareLocal _ :: as, bs => globalNames_append as bs

theorem ownNames_append (h : Balanced inside) (above : Nat) (rest : List Op) :
    ownNames (above + 1) (inside ++ rest) = ownNames (above + 1) rest := by
  induction h generalizing above rest with
  | nil => rfl
  | declareLocal name h ih => exact ih above rest
  | declareGlobal name h ih => exact ih above rest
  | block name hinside h ihinside ih =>
    rw [List.cons_append, List.append_assoc, List.cons_append, ownNames, ihinside, ownNames, Nat.add_sub_cancel, ih]

theorem ownNames_block (hinside : Balanced inside) (name : String) (ops : List Op) :
    ownNames 0 (.push name :: (inside ++ .pop :: ops)) = ownNames 0 ops := by
  rw [ownNames, ownNames_append hinside, ownNames]

theorem globals_performAll : ∀ (ops : List Op) (t : ScopeTable),
    (t.performAll ops).globals = t.globals.declareAll (globalNames ops)
  | [], _ => rfl
  | .push name :: ops, t => globals_performAll ops (t.push name)
  | .pop :: ops, t => by
    rw [performAll_cons, globals_performAll ops, perform_pop]
    rfl
  | .declareLocal name :: ops, t => by
    rw [performAll_cons, globals_performAll ops, perform, globals_declareLocal]
    rfl
  | .declareGlobal name :: ops, t => globals_performAll ops (t.declareGlobal name)

theorem program_performAll : ∀ (ops : List Op) (t : ScopeTable),
    (t.performAll ops).program = t.program.declareAll (ownNames t.functions.length ops)
  | [], ⟨_, _, fs⟩ => by cases fs <;> rfl
  | .push name :: ops, t => by
    rw [performAll_cons, program_performAll ops, ownNames]
    rfl
  | .pop :: ops, t => by
    rw [performAll_cons, program_performAll ops, perform_pop, leave, List.length_tail, ownNames]
  | .declareLocal name :: ops, ⟨globals, program, []⟩ => program_performAll ops ⟨globals, program.declare name, []⟩
  | .declareLocal name :: ops, ⟨globals, program, s :: fs⟩ =>
    program_performAll ops ⟨globals, program, s.declare name :: fs⟩
  | .declareGlobal name :: ops, t => by
    rw [performAll_cons, program_performAll ops, ownNames]
    rfl

/-! ## What a pop gives back -/

theorem performAll_balanced (h : Balanced ops) (globals program s : Scope) (fs : List Scope) :
    performAll ⟨globals, program, s :: fs⟩ ops =
      ⟨globals.declareAll (globalNames ops), program, s.declareAll (ownNames 0 ops) :: fs⟩ := by
  induction h generalizing globals s fs with
  | nil => rfl
  | declareLocal name h ih => exact ih globals (s.declare name) fs
  | declareGlobal name h ih => exact ih (globals.declare name) s fs
  | @block inside ops name hinside h ihinside ih =>
    have hglobals : (globals.declareAll (globalNames inside)).declareAll (globalNames ops) =
        globals.declareAll (globalNames (.push name :: (inside ++ .pop :: ops))) := by
      rw [globalNames, globalNames_append, globalNames, Scope.declareAll, Scope.declareAll, Scope.declareAll,
        List.foldl_append]
    calc performAll ⟨globals, program, s :: fs⟩ (.push name :: (inside ++ .pop :: ops))
      _ = ((performAll ⟨globals, program, .empty name (some s.name) :: s :: fs⟩ inside).perform .pop).performAll
          ops := by
        rw [performAll_cons, performAll_append, performAll_cons]
        rfl
      _ = performAll ⟨globals.declareAll (globalNames inside), program, s :: fs⟩ ops := by
        rw [ihinside, perform_pop]
        rfl
      _ = ⟨globals.declareAll (globalNames (.push name :: (inside ++ .pop :: ops))), program,
          s.declareAll (ownNames 0 (.push name :: (inside ++ .pop :: ops))) :: fs⟩ := by
        rw [ih, hglobals, ownNames_block hinside]

theorem performAll_push (hinside : Balanced inside) (t : ScopeTable) (name : String) :
    t.performAll (.push name :: inside) = ⟨t.globals.declareAll (globalNames inside), t.program,
      ⟨name, some t.current.name, (ownNames 0 inside).eraseDups⟩ :: t.functions⟩ := by
  have h := performAll_balanced hinside t.globals t.program (.empty name (some t.current.name)) t.functions
  rw [Scope.declareAll_empty] at h
  exact h

/-- **Pops match pushes.** After any operations on a new table its depth is two more than the number of pushes without a
pop, and the globals and the program are the scopes at 0 and 1, with the names declared in them, each once and in order.
A pop takes the last scope off, which is neither of these two, or is refused if there are only these. It gives back the
scope of the push that it belongs to: with the name that was pushed, with the scope right below as the parent, and with
the names that were declared while it was the innermost one, each once and in order. Below it is the table as it was
before the push, but for the globals. No other operation than a global declaration changes the names of the globals, and
none but a declaration at depth 2 those of the program. -/
theorem pops_match_pushes (ops : List Op) :
    let t := initial.performAll ops
    t.depth = 2 + unmatched ops ∧
    t.scopes[0]? = some ⟨"Global", none, (globalNames ops).eraseDups⟩ ∧
    t.scopes[1]? = some ⟨"Program", some "Global", (ownNames 0 ops).eraseDups⟩ ∧
    (t.pop? = none ↔ t.depth = 2) ∧
    (∀ s below, t.pop? = some (s, below) → t.scopes = below.scopes ++ [s] ∧ 2 ≤ below.depth ∧
      ∃ outer name inside, ops = outer ++ .push name :: inside ∧ Balanced inside) ∧
    (∀ outer name inside, ops = outer ++ .push name :: inside → Balanced inside →
      let below := { initial.performAll outer with globals := t.globals }
      t.pop? = some (⟨name, below.scopes.getLast?.map Scope.name, (ownNames 0 inside).eraseDups⟩, below)) ∧
    ∀ op,
      ((t.perform op).globals.names ≠ t.globals.names → ∃ name, op = .declareGlobal name) ∧
      ((t.perform op).program.names ≠ t.program.names → ∃ name, op = .declareLocal name ∧ t.depth = 2) := by
  intro t
  have hdepth : t.depth = 2 + unmatched ops := by
    unfold t
    rw [depth, length_performAll, initial, List.length_nil, Nat.zero_sub, Nat.add_zero]
  have hglobals : t.globals = ⟨"Global", none, (globalNames ops).eraseDups⟩ :=
    (globals_performAll ops initial).trans (Scope.declareAll_empty ..)
  have hprogram : t.program = ⟨"Program", some "Global", (ownNames 0 ops).eraseDups⟩ :=
    (program_performAll ops initial).trans (Scope.declareAll_empty ..)
  refine ⟨hdepth, congrArg some hglobals, congrArg some hprogram, pop?_eq_none_iff, ?_, ?_, ?_⟩
  · intro s below hpop
    obtain ⟨hscopes, hbelow⟩ := scopes_of_pop? hpop
    refine ⟨hscopes, hbelow, exists_push_of_unmatched ops ?_⟩
    have hlength := congrArg List.length hscopes
    rw [List.length_append, length_scopes, length_scopes, List.length_singleton] at hlength
    omega
  · rintro outer name inside rfl hinside below
    rw [getLast?_scopes]
    unfold below t
    rw [performAll_append, performAll_push hinside]
    rfl
  · intro op
    exact ⟨declareGlobal_of_globals_ne, declareLocal_of_program_ne⟩

/-- A function inside of `f` is opened and closed, which takes no names of `f`; a declaration at depth 2 comes after
`f` is closed. -/
theorem pops_match_pushes_nested :
    let inside : List Op := [.declareLocal "b", .declareGlobal "$g", .push "h", .declareLocal "z", .pop,
      .declareLocal "a", .declareLocal "b"]
    let t := initial.performAll ([.pop, .declareLocal "x"] ++ .push "f" :: inside)
    let below : ScopeTable := ⟨⟨"Global", none, ["$g"]⟩, ⟨"Program", some "Global", ["x"]⟩, []⟩
    Balanced inside ∧ t.pop? = some (⟨"f", some "Program", ["b", "a"]⟩, below) ∧ t.depth = 3 ∧ 2 ≤ below.depth ∧
      (t.perform (.declareGlobal "$k")).globals.names ≠ t.globals.names := by
  intro inside t below
  have hblock := Balanced.block "h" (Balanced.nil.declareLocal "z") ((Balanced.nil.declareLocal "b").declareLocal "a")
  have hinside : Balanced inside := (hblock.declareGlobal "$g").declareLocal "b"
  obtain ⟨hdepth, -, -, -, hpops, hmatching, -⟩ := pops_match_pushes ([.pop, .declareLocal "x"] ++ .push "f" :: inside)
  have hpop : t.pop? = some (⟨"f", some "Program", ["b", "a"]⟩, below) := hmatching _ "f" inside rfl hinside
  obtain ⟨-, hbelow, -⟩ := hpops _ _ hpop
  exact ⟨hinside, hpop, hdepth, hbelow, by decide⟩

end ScopeTable

end Sprig
