import Sprig.Proofs.Beside
import Sprig.Proofs.Handover

/-!
# Sessions and whole programs

A session runs a program in parts, and each part in frames that bind the names read so far. A run of the whole
program binds all of its names from the start. Between two parts the machine of the session trails behind the
one of that run: what it binds it binds to the same values, and the names that are still to come are nil over
there (`Machine.Trails`). A part that goes well keeps it so.

Main statement: `Session.agrees_with_run`.
-/

namespace Sprig

/-- The names of the whole program that are not known yet. -/
def missing (whole known : List String) (name : String) : Bool := whole.contains name && !known.contains name

theorem missing_eq_true {whole known : List String} {name : String} :
    missing whole known name = true ↔ name ∈ whole ∧ name ∉ known := by
  rw [missing, Bool.and_eq_true, Bool.not_eq_true', List.contains_iff_mem, List.contains_eq_mem,
    decide_eq_false_iff_not]

theorem missing_self (names : List String) (name : String) : missing names names name = false :=
  Bool.and_not_self _

/-! ## Frames -/

/-- The one frame binds the known names, the other one the missing names too. -/
structure Frame.Trails (whole known G : List String) (f f' : Frame) : Prop where
  binds : f.Binds known
  others : f.Extends (missing whole known) f'
  params : f.ParamsIn G

theorem Frame.trails_empty (s : Scope) (G : List String) : Frame.empty.Trails s.names [] G (.ofScope s) where
  binds := Frame.binds_empty
  others name := by
    rw [Frame.get?_ofScope, Frame.get?_empty, Option.none_or, missing, List.contains_nil, Bool.not_false,
      Bool.and_true, List.contains_eq_mem]
    simp only [decide_eq_true_eq]
  params _ _ h := by cases h

theorem Frame.Trails.migrate {whole known G H : List String} {f f' : Frame} {s : Scope}
    (h : f.Trails whole known G f') (hknown : ∀ n ∈ known, n ∈ s.names) (hwhole : ∀ n ∈ s.names, n ∈ whole)
    (hGH : ∀ n ∈ G, n ∈ H) : ((Frame.ofScope s).migrate f).Trails whole s.names H f' where
  binds := (Frame.binds_ofScope s).migrate f
  others name := by
    rw [h.others name, Frame.get?_migrate, Frame.get?_ofScope]
    by_cases hk : name ∈ known
    · obtain ⟨v, hv⟩ := Option.isSome_iff_exists.mp ((h.binds name).mpr hk)
      rw [hv, if_pos (hknown name hk)]
      rfl
    rw [h.binds.get?_eq_none hk, Option.none_or]
    by_cases hs : name ∈ s.names
    · rw [if_pos (missing_eq_true.mpr ⟨hwhole name hs, hk⟩), if_pos hs]
      rfl
    · have hsame : missing whole known name = missing whole s.names name :=
        Bool.eq_iff_iff.mpr (by simp only [missing_eq_true, hk, hs])
      rw [hsame, if_neg hs]
      rfl
  params name v hv := by
    rw [Frame.get?_migrate, Frame.get?_ofScope] at hv
    split at hv
    · cases hv
      cases hg : f.get? name with
      | none => trivial
      | some w => exact (h.params hg).mono hGH
    · cases hv

/-! ## Machines -/

/-- The one machine has run a part of the program, which declares the known names. The other one has run as
much of it in frames for the whole. -/
structure Machine.Trails (whole known : ScopeTable) (m m' : Machine) : Prop where
  console : m'.console = m.console
  fresh : m.hasRun = false → m.globals = .empty ∧ m.frames = []
  globals : m.globals.Trails whole.globals.names known.globals.names known.globals.names m'.globals
  program : ∃ f', m'.frames = [f'] ∧ (m.frames.getLast?.getD .empty).Trails whole.program.names
    known.program.names known.globals.names f'

/-- While a part is run that declares the known names. -/
def ScopeTable.sides (whole known : ScopeTable) : Sides :=
  ⟨known.program.names, missing whole.program.names known.program.names, [], [], False⟩

section
variable {whole known known' : ScopeTable} {m m' : Machine} {fuel fuel' : Nat}

/-- The first run has no frames to take over, and might as well take over empty ones. -/
theorem Machine.resume_eq (h : m.hasRun = false → m.globals = .empty ∧ m.frames = []) (scopes : ScopeTable)
    (b : Block) : m.resume fuel scopes b = ({ m with hasRun := true }.migrate scopes).exec fuel b := by
  rw [Machine.resume]
  cases hrun : m.hasRun with
  | true =>
    rw [if_pos rfl]
    congr 2
    rw [← hrun]
  | false =>
    obtain ⟨hglobals, hframes⟩ := h hrun
    rw [if_neg Bool.false_ne_true, Machine.run, Machine.reset, Machine.migrate, hglobals, hframes]
    simp only [List.getLast?_nil, Option.getD_none, Frame.migrate_empty]

theorem Machine.trails_start (whole : ScopeTable) (console : Console) :
    (Machine.start console).Trails whole .initial ((Machine.start console).reset whole) where
  console := rfl
  fresh _ := ⟨rfl, rfl⟩
  globals := Frame.trails_empty _ _
  program := ⟨_, rfl, Frame.trails_empty _ _⟩

namespace Machine.Trails

theorem beside (h : m.Trails whole known m') (hknown : known.Within known') (hwhole : known'.Within whole) :
    Beside known'.globals.names (missing whole.globals.names known'.globals.names) (whole.sides known')
      ({ m with hasRun := true }.migrate known') m' := by
  obtain ⟨f', hf', hprogram⟩ := h.program
  have hglobals := h.globals.migrate hknown.globals hwhole.globals hknown.globals
  have hprogram := hprogram.migrate hknown.program hwhole.program hknown.globals
  exact
    { console := h.console
      hasRun := rfl
      binds := hglobals.binds
      globals := hglobals.others
      globalParams := hglobals.params
      frames := ⟨_, f', rfl, hf', hprogram.binds, hprogram.others, hprogram.params⟩
      last := False.elim
      lastParams := trivial }

theorem of_beside (h : Beside known.globals.names (missing whole.globals.names known.globals.names)
    (whole.sides known) m m') : m.Trails whole known m' := by
  obtain ⟨f, f', hf, hf', hbinds, hothers, hparams⟩ := h.frames
  refine ⟨h.console, fun hrun => ?_, ⟨h.binds, h.globals, h.globalParams⟩, f', hf', ?_⟩
  · rw [h.hasRun] at hrun
    cases hrun
  · rw [hf]
    exact ⟨hbinds, hothers, hparams⟩

theorem resume (h : m.Trails whole known m') (hknown : known.Within known') (hwhole : known'.Within whole)
    (hfuel : fuel ≤ fuel') {b : Block} (hb : Stmt.AllParamsIn known'.globals.names b.stmts) :
    Agree known'.globals.names (missing whole.globals.names known'.globals.names) (whole.sides known')
      (fun _ => True) (m.resume fuel known' b)
      (Stmt.execAll (callAt fuel' maxCallDepth) fuel' b.stmts m') := by
  rw [Machine.resume_eq h.fresh]
  cases b
  exact Stmt.simAll (callSim_callAt hfuel maxCallDepth) hfuel _ _ hb (h.beside hknown hwhole)

end Machine.Trails

end

theorem Stmt.execAll_append (call : Caller) (fuel : Nat) (ss ss' : List Stmt) :
    Stmt.execAll call fuel (ss ++ ss') = Stmt.execAll call fuel ss >>= fun _ => Stmt.execAll call fuel ss' := by
  induction ss with
  | nil => rfl
  | cons s ss ih => rw [List.cons_append, Stmt.execAll, Stmt.execAll, ih, bind_assoc]

theorem Stmt.execAll_append_ok {call : Caller} {fuel : Nat} {ss : List Stmt} {m m₁ : Machine}
    (h : Stmt.execAll call fuel ss m = .ok () m₁) (ss' : List Stmt) :
    Stmt.execAll call fuel (ss ++ ss') m = Stmt.execAll call fuel ss' m₁ := by
  rw [Stmt.execAll_append]
  show EStateM.bind _ _ m = _
  rw [EStateM.bind, h]

/-! ## Sessions -/

/-- The same output and input, and the same bindings of the global names and of the names of the program. -/
structure Machine.Matches (m m' : Machine) : Prop where
  console : m'.console = m.console
  globals : ∀ name, m'.globals.get? name = m.globals.get? name
  program : ∃ f f', m.frames = [f] ∧ m'.frames = [f'] ∧ ∀ name, f'.get? name = f.get? name

theorem Beside.same {G : List String} {extra : String → Bool} {d : Sides} {m m' : Machine}
    (h : Beside G extra d m m') (hbelow : d.below = []) (hbelow' : d.below' = []) (hd : d.Exact extra) :
    m.Matches m' := by
  obtain ⟨f, f', hf, hf', -, hframe, -⟩ := h.frames
  rw [hbelow] at hf
  rw [hbelow'] at hf'
  refine ⟨h.console, fun name => ?_, f, f', hf, hf', fun name => ?_⟩
  · rw [h.globals name, (hd name).1]
    exact Option.or_none
  · rw [hframe name, (hd name).2]
    exact Option.or_none

theorem Program.paramsIn_of_ofSource {text : String} {p : Program} (h : ofSource text = .ok p) :
    Stmt.AllParamsIn p.scopes.globals.names p.body.stmts := by
  have hbody := (scoped_of_ofSource h).body
  obtain ⟨⟨line, stmts⟩, scopes⟩ := p
  exact Stmt.AllScoped.paramsIn hbody

namespace Session

variable {fuel fuel' : Nat} {whole : ScopeTable}

theorem Reads.resume {s : Session} {p p' : Program} {m' : Machine} {chunk : String} (h : s.Reads p)
    (ht : s.machine.Trails whole p.scopes m') (hp' : Program.ofSource (Session.extend s.source chunk) = .ok p')
    (hwhole : p'.scopes.Within whole) (hfuel : fuel ≤ fuel') :
    Agree p'.scopes.globals.names (missing whole.globals.names p'.scopes.globals.names) (whole.sides p'.scopes)
      (fun _ => True) (s.machine.resume fuel p'.scopes (p'.body.tail s.executed))
      (Stmt.execAll (callAt fuel' maxCallDepth) fuel' (p'.body.tail s.executed).stmts m') := by
  obtain ⟨hstmts, hknown⟩ := h.extend hp'
  have hparams := Program.paramsIn_of_ofSource hp'
  rw [hstmts] at hparams
  exact ht.resume hknown hwhole hfuel (Stmt.allParamsIn_append.mp hparams).2

theorem Reads.step (hfuel : fuel ≤ fuel') {s : Session} {p : Program} {m' : Machine} {chunk : String}
    (h : s.Reads p) (ht : s.machine.Trails whole p.scopes m') (hresult : (s.submit fuel chunk).1 = .ok ())
    (hwhole : ∀ q, (s.submit fuel chunk).2.Reads q → q.scopes.Within whole) :
    ∃ p' fresh m₁', (s.submit fuel chunk).2.Reads p' ∧ p'.body.stmts = p.body.stmts ++ fresh ∧
      Stmt.execAll (callAt fuel' maxCallDepth) fuel' fresh m' = .ok () m₁' ∧
        (s.submit fuel chunk).2.machine.Trails whole p'.scopes m₁' := by
  cases hp : Program.ofSource (Session.extend s.source chunk) with
  | error f =>
    rw [submit_error hp] at hresult
    cases hresult
  | ok p' =>
    have hnext : (s.submit fuel chunk).2.Reads p' := by
      rw [submit_ok hp]
      exact ⟨endsLine_endLine _, hp, rfl⟩
    refine ⟨p', (p'.body.tail s.executed).stmts, ?_⟩
    have hagree := h.resume ht hp (hwhole p' hnext) hfuel
    rw [submit_ok hp] at hresult hnext ⊢
    generalize s.machine.resume fuel p'.scopes (p'.body.tail s.executed) = x at hagree hresult hnext ⊢
    generalize Stmt.execAll (callAt fuel' maxCallDepth) fuel' (p'.body.tail s.executed).stmts m' = y at hagree ⊢
    cases hagree with
    | ok _ hm => exact ⟨_, hnext, (h.extend hp).1, rfl, .of_beside hm⟩
    | _ => cases hresult

/-- As long as every submission goes well, so does a run of what they hand over. -/
theorem Reads.run (hfuel : fuel ≤ fuel') : ∀ {chunks : List String} {s : Session} {p : Program} {m' : Machine},
    s.Reads p → s.machine.Trails whole p.scopes m' → (∀ e ∈ s.history fuel chunks, e.result = .ok ()) →
      (∀ q, (s.submitAll fuel chunks).Reads q → q.scopes.Within whole) →
        ∃ q fresh m₁', (s.submitAll fuel chunks).Reads q ∧ q.body.stmts = p.body.stmts ++ fresh ∧
          Stmt.execAll (callAt fuel' maxCallDepth) fuel' fresh m' = .ok () m₁' ∧
            (s.submitAll fuel chunks).machine.Trails whole q.scopes m₁'
  | [], s, p, m', h, ht, _, _ => ⟨p, [], m', h, (List.append_nil _).symm, rfl, ht⟩
  | chunk :: chunks, s, p, m', h, ht, hlog, hwhole => by
    rw [Session.history, List.forall_mem_cons] at hlog
    obtain ⟨hresult, hrest⟩ := hlog
    simp only at hresult
    -- later chunks lose no names, so the whole binds those of this part
    obtain ⟨p₁, fresh₁, m₁', h₁, hfresh₁, hrun₁, ht₁⟩ := h.step hfuel ht hresult fun q hq => by
      obtain ⟨r, hr, hqr, -⟩ := @Reads.history fuel chunks _ _ hq
      exact hqr.trans (hwhole r hr)
    obtain ⟨q, fresh, m₂', hq, hfresh, hrun, ht₂⟩ := Reads.run hfuel h₁ ht₁ hrest hwhole
    refine ⟨q, fresh₁ ++ fresh, m₂', hq, ?_, ?_, ht₂⟩
    · rw [hfresh, hfresh₁, List.append_assoc]
    · rw [Stmt.execAll_append_ok hrun₁, hrun]

/-- **A session agrees with a run of the whole program.** If every submission goes well but for the last one,
which need only be read and end, then the accepted source reads as a program, and running that from the start
ends the same way, with the same output, the same input left, and the same value for every global name and
every name of the program. -/
theorem agrees_with_run (hfuel : fuel ≤ fuel') (console : Console) (init : List String) (last : String)
    (hinit : ∀ e ∈ (start console).history fuel init, e.result = .ok ())
    (hread : (((start console).submitAll fuel init).handOver last).isOk = true)
    (hend : (((start console).submitAll fuel init).submit fuel last).1 ≠ .error .outOfFuel) :
    let session := ((start console).submitAll fuel init).submit fuel last
    ∃ p, Program.ofSource session.2.source = .ok p ∧
      let whole := outcome ((Machine.start console).run fuel' p.scopes p.body)
      whole.1 = session.1 ∧ session.2.machine.Matches whole.2 := by
  generalize hs : (start console).submitAll fuel init = s at hread hend ⊢
  cases hp : Program.ofSource (extend s.source last) with
  | error f =>
    rw [handOver_error hp] at hread
    cases hread
  | ok p =>
    rw [submit_ok hp] at hend ⊢
    refine ⟨p, hp, ?_⟩
    obtain ⟨q, fresh, m', hq, hfresh, hrun, htrails⟩ := Reads.run hfuel (reads_onto (.start console))
      (Machine.trails_start p.scopes console) hinit fun q hq => ((show s.Reads q from hs ▸ hq).extend hp).2
    rw [show (onto (.start console)).submitAll fuel init = s from hs] at hq htrails
    have hbatch : (Machine.start console).run fuel' p.scopes p.body =
        Stmt.execAll (callAt fuel' maxCallDepth) fuel' (p.body.tail s.executed).stmts m' := by
      rw [← Stmt.execAll_append_ok hrun, ← show q.body.stmts = fresh from hfresh, ← (hq.extend hp).1]
      rcases p with ⟨⟨_, _⟩, _⟩
      rfl
    have hagree := hq.resume htrails hp (.refl _) hfuel
    -- the last part binds all names there are, so its faults are those of the whole
    have hexact : (ScopeTable.sides p.scopes p.scopes).Exact
        (missing p.scopes.globals.names p.scopes.globals.names) :=
      fun name => ⟨missing_self _ name, missing_self _ name⟩
    rw [hbatch]
    generalize s.machine.resume fuel p.scopes (p.body.tail s.executed) = x at hagree hend ⊢
    generalize Stmt.execAll (callAt fuel' maxCallDepth) fuel' (p.body.tail s.executed).stmts m' = y at hagree ⊢
    cases hagree with
    | ok _ hm => exact ⟨rfl, hm.same rfl rfl hexact⟩
    | fault hm => exact ⟨rfl, hm.same rfl rfl hexact⟩
    | apart hd => exact absurd hexact hd
    | outOfFuel => exact absurd rfl hend

/-- Behind `x = 1` a division of `x` by zero is at fault on line 2, in a session as in a run of the whole. -/
theorem agrees_with_run_division :
    let s := (start (.start none .empty)).submitAll 1 ["x = 1"]
    (s.submit 1 "x / 0").1 = .error (.fault ⟨2, .runtime .divisionByZero⟩) ∧
      ∃ p, Program.ofSource (s.submit 1 "x / 0").2.source = .ok p ∧
        let whole := outcome ((Machine.start (.start none .empty)).run 2 p.scopes p.body)
        whole.1 = .error (.fault ⟨2, .runtime .divisionByZero⟩) ∧
          (s.submit 1 "x / 0").2.machine.Matches whole.2 := by
  have h₁ : Program.ofSource "x = 1\n" = .ok ⟨⟨1, [.assign ⟨1, "x", .literal 1 (.integer 1)⟩]⟩,
      { ScopeTable.initial with program := ⟨"Program", some "Global", ["x"]⟩ }⟩ := by
    have hl : LogicalLine.ofSource "x = 1\n" =
        .ok [[⟨.identifier, "x", 1⟩, ⟨.equal, "=", 1⟩, ⟨.integer, "1", 1⟩]] := by with_unfolding_all rfl
    exact (Program.ofSource_eq_off hl).trans rfl
  have h₂ : Program.ofSource "x = 1\nx / 0\n" = .ok ⟨⟨1, [.assign ⟨1, "x", .literal 1 (.integer 1)⟩,
      .expr (.binary 2 (.arithmetic .divide) (.call 2 "x" []) (.literal 2 (.integer 0)))]⟩,
      { ScopeTable.initial with program := ⟨"Program", some "Global", ["x"]⟩ }⟩ := by
    have hl : LogicalLine.ofSource "x = 1\nx / 0\n" =
        .ok [[⟨.identifier, "x", 1⟩, ⟨.equal, "=", 1⟩, ⟨.integer, "1", 1⟩],
          [⟨.identifier, "x", 2⟩, ⟨.slash, "/", 2⟩, ⟨.integer, "0", 2⟩]] := by with_unfolding_all rfl
    exact (Program.ofSource_eq_off hl).trans rfl
  let m : Machine := ⟨.empty, [⟨[("x", .integer 1)]⟩], .integer 1, true, .start none .empty⟩
  let s : Session := ⟨"x = 1\n", "x = 1\n", 1, m⟩
  have htext : "x = 1\n" = extend (start (.start none .empty)).source "x = 1" := by decide
  rw [htext] at h₁
  rw [show "x = 1\nx / 0\n" = extend s.source "x / 0" by decide] at h₂
  have hs₁ : (start (.start none .empty)).submit 1 "x = 1" = (.ok (), s) := by
    rw [submit_ok h₁, ← htext]
    rfl
  have hs : (start (.start none .empty)).submitAll 1 ["x = 1"] = s := congrArg (·.2) hs₁
  have hresult : (s.submit 1 "x / 0").1 = .error (.fault ⟨2, .runtime .divisionByZero⟩) := by
    rw [submit_ok h₂]
    rfl
  rw [← hs] at h₂ hresult
  have hinit : ∀ e ∈ (start (.start none .empty)).history 1 ["x = 1"], e.result = .ok () := by
    intro e he
    rw [List.mem_singleton.mp he, hs₁]
  have hread : (((start (.start none .empty)).submitAll 1 ["x = 1"]).handOver "x / 0").isOk = true := by
    rw [handOver_ok h₂]
    rfl
  have hagree := agrees_with_run (show 1 ≤ 2 by decide) (.start none .empty) ["x = 1"] "x / 0" hinit hread (by
    rw [hresult]
    exact fun h => by cases h)
  obtain ⟨p, hp, hrun, hmatches⟩ := hagree
  exact ⟨hresult, p, hp, hrun.trans hresult, hmatches⟩

end Session

end Sprig
