import Mathlib.Logic.Equiv.Basic
import Sprig.Diagnostic
import Sprig.Proofs.Renumbering
import Sprig.Proofs.Stores

/-!
# Faults are on lines of the source

The lines in what is read from a source, and so in the functions of a machine and in the faults of a run, are lines of
the source that hold something. To see it, the source is held against itself under other line numbers: numbers that
differ only where a line is blank change nothing that is read from it (`LogicalLine.ofSource_fixed`), and so nothing in
a run. If a fault were on such a line, or on none, then exchanging its number with that of another would change it
(`hasText_of_fixed`).

Main statement: `Session.faults_have_lines`.
-/

namespace Sprig

/-- There is a line with this number, counted from 1, and there is something on it besides the break at its end. -/
def HasText (source : String) (line : Nat) : Prop :=
  ∃ n text, line = n + 1 ∧ (physicalLines source.toList)[n]? = some text ∧ ∃ c ∈ text, Span.isBreak c = false

/-- Other line numbers, but not for lines that hold something. -/
structure Fixes (g : Nat → Nat) (source : String) : Prop where
  injective : Function.Injective g
  fixed : ∀ line, HasText source line → g line = line

theorem hasText_of_fixed {source : String} {line : Nat} (h : ∀ g, Fixes g source → g line = line) :
    HasText source line := by
  by_contra hline
  -- something to exchange it with: 0 is no line, and neither is a number behind the last line
  have hother : ∃ other, other ≠ line ∧ ¬ HasText source other := by
    by_cases hzero : line = 0
    · refine ⟨(physicalLines source.toList).length + 1, by omega, ?_⟩
      rintro ⟨n, text, hn, htext, -⟩
      have hlt := (List.getElem?_eq_some_iff.mp htext).1
      omega
    · refine ⟨0, by omega, ?_⟩
      rintro ⟨n, text, hn, -⟩
      omega
  obtain ⟨other, hne, hother⟩ := hother
  have hswap : Fixes (Equiv.swap line other) source := by
    refine ⟨(Equiv.swap line other).injective, ?_⟩
    intro l hl
    apply Equiv.swap_apply_of_ne_of_ne
    · rintro rfl
      exact hline hl
    · rintro rfl
      exact hother hl
  have hfixed := h _ hswap
  rw [Equiv.swap_apply_left] at hfixed
  exact hne hfixed

/-! ## Reading -/

theorem isSpace_of_isBreak {c : Char} (h : Span.isBreak c = true) : Lexeme.isSpace c = true := by
  simp only [Span.isBreak, Bool.or_eq_true, beq_iff_eq] at h
  rcases h with rfl | rfl <;> decide

/-- Numbers that stay where a physical line holds something change nothing that is scanned. -/
theorem scanFrom_fixed (g : Nat → Nat) (lines : List (List Char)) : ∀ start : Nat,
    (∀ n text, lines[n]? = some text → (∃ c ∈ text, Span.isBreak c = false) → g (start + n) = start + n) →
    movedBy g (mapLines g) (scanFrom start lines) = scanFrom start lines := by
  induction lines with
  | nil => intro start _; rfl
  | cons cs lines ih =>
    intro start h
    have hscan : movedBy g (List.map (Token.mapLine g)) (scan start cs) = scan start cs := by
      by_cases htext : ∃ c ∈ cs, Span.isBreak c = false
      · have hstart : g start = start := h 0 cs rfl htext
        have hmoved := scan_mapLine g start cs
        rw [hstart] at hmoved
        exact hmoved.symm
      -- a line without text may get another number, but it has no tokens to show it
      · have hspaces : ∀ c ∈ cs, Lexeme.isSpace c = true := by
          intro c hc
          apply isSpace_of_isBreak
          by_contra hb
          exact htext ⟨c, hc, Bool.eq_false_iff.mpr hb⟩
        rw [scan_spaces start hspaces]
        rfl
    have hrest : movedBy g (mapLines g) (scanFrom (start + 1) lines) = scanFrom (start + 1) lines := by
      apply ih
      intro n text hn htext
      rw [show start + 1 + n = start + (n + 1) by omega]
      exact h (n + 1) text hn htext
    rw [scanFrom]
    generalize scan start cs = x at hscan ⊢
    generalize scanFrom (start + 1) lines = y at hrest ⊢
    cases x with
    | error f => exact congrArg Except.error (Except.error.inj hscan)
    | ok ts =>
      have hts := Except.ok.inj hscan
      cases y with
      | error f => exact congrArg Except.error (Except.error.inj hrest)
      | ok tss =>
        have htss := Except.ok.inj hrest
        exact congrArg Except.ok (congrArg₂ List.cons hts htss)

theorem LogicalLine.ofSource_fixed {g : Nat → Nat} {source : String} (hg : Fixes g source) :
    movedBy g (mapLines g) (ofSource source) = ofSource source := by
  have hscan : movedBy g (mapLines g) (scanFrom 1 (physicalLines source.toList)) =
      scanFrom 1 (physicalLines source.toList) := by
    apply scanFrom_fixed
    intro n text hn htext
    exact hg.fixed _ ⟨n, text, Nat.add_comm 1 n, hn, htext⟩
  rw [ofSource_eq]
  generalize scanFrom 1 (physicalLines source.toList) = x at hscan ⊢
  cases x with
  | error f => exact congrArg Except.error (Except.error.inj hscan)
  | ok tss =>
    have htss := Except.ok.inj hscan
    have hjoin := join_mapLine g tss []
    rw [List.map_nil, htss] at hjoin
    exact congrArg Except.ok hjoin.symm

namespace Program

variable {g : Nat → Nat} {source : String}

/-- Numbers that stay where a line holds something change nothing that is read. -/
theorem ofSource_fixed (hg : Fixes g source) : match ofSource source with
    | .error f => f.mapLine g = f
    | .ok p => p.body.stmts.map (Stmt.mapLine g) = p.body.stmts := by
  have hlines := LogicalLine.ofSource_fixed hg
  unfold ofSource
  cases h : LogicalLine.ofSource source with
  | error f =>
    rw [h] at hlines
    exact Except.error.inj hlines
  | ok lines =>
    rw [h] at hlines
    have hread := ofLines_renumbered g (LogicalLine.ne_nil_of_ofSource h)
    rw [show mapLines g lines = lines from Except.ok.inj hlines] at hread
    show match ofLines lines with
      | .error f => f.mapLine g = f
      | .ok p => p.body.stmts.map (Stmt.mapLine g) = p.body.stmts
    cases hp : ofLines lines with
    | error f =>
      rw [hp] at hread
      exact (Except.error.inj hread).symm
    | ok p =>
      rw [hp] at hread
      exact congrArg (fun p : Program => p.body.stmts) (Except.ok.inj hread).symm

theorem fault_fixed {f : Fault} (hg : Fixes g source) (h : ofSource source = .error f) : g f.line = f.line := by
  have hfixed := ofSource_fixed hg
  rw [h] at hfixed
  exact congrArg Fault.line hfixed

theorem stmts_fixed {p : Program} (hg : Fixes g source) (h : ofSource source = .ok p) :
    p.body.stmts.map (Stmt.mapLine g) = p.body.stmts := by
  have hfixed := ofSource_fixed hg
  rw [h] at hfixed
  exact hfixed

end Program

/-! ## Running -/

namespace Machine

variable {g : Nat → Nat} {fuel : Nat} {m : Machine} {b : Block}

theorem exec_fixed (hg : Function.Injective g) (hm : m.mapLine g = m) (hb : b.stmts.map (Stmt.mapLine g) = b.stmts) :
    Eval.mapLine g (m.exec fuel b) = m.exec fuel b := by
  have h := exec_mapLine hg hb.symm fuel m
  rw [hm] at h
  exact h.symm

theorem resume_fixed (hg : Function.Injective g) (hm : m.mapLine g = m)
    (hb : b.stmts.map (Stmt.mapLine g) = b.stmts) (scopes : ScopeTable) :
    Eval.mapLine g (m.resume fuel scopes b) = m.resume fuel scopes b := by
  have h := resume_mapLine hg hb.symm fuel m scopes
  rw [hm] at h
  exact h.symm

end Machine

namespace Session

variable {g : Nat → Nat} {s : Session}

theorem outcome_fixed {r : EStateM.Result Stop Machine Unit} (h : Eval.mapLine g r = r) :
    (outcome r).2.mapLine g = (outcome r).2 ∧
      ∀ f, (outcome r).1 = .error (.fault f) → g f.line = f.line := by
  cases r with
  | ok a m =>
    injection h with _ hm
    refine ⟨hm, ?_⟩
    intro f hf
    cases hf
  | error stop m =>
    injection h with hstop hm
    refine ⟨hm, ?_⟩
    intro f hf
    cases hf
    injection hstop with hf
    exact congrArg Fault.line hf

/-! ## Sessions -/

theorem hasText_append {a : String} (ha : EndsLine a) (b : String) {line : Nat} (h : HasText a line) :
    HasText (a ++ b) line := by
  obtain ⟨n, text, hline, hn, htext⟩ := h
  refine ⟨n, text, hline, ?_, htext⟩
  have hlt := (List.getElem?_eq_some_iff.mp hn).1
  unfold physicalLines at hn hlt ⊢
  rw [String.toList_append, splitAfter_append _ ha, List.getElem?_append_left hlt]
  exact hn

/-- The accepted source is at the front of every text that is submitted. -/
theorem fixes_source {p : Program} (hp : s.Reads p) {chunk : String} (hg : Fixes g (extend s.source chunk)) :
    Fixes g s.source := by
  obtain ⟨more, hmore, -⟩ := extend_eq hp.endsLine chunk
  rw [hmore] at hg
  exact ⟨hg.injective, fun line hline => hg.fixed line (hasText_append hp.endsLine more hline)⟩

/-- What a submission hands over is run by a machine whose functions are from the accepted source. -/
theorem handed_fixed {p p' : Program} {chunk : String} (hp : s.Reads p)
    (hm : ∀ g, Fixes g s.source → s.machine.mapLine g = s.machine)
    (hp' : Program.ofSource (extend s.source chunk) = .ok p') (hg : Fixes g (extend s.source chunk)) (fuel : Nat) :
    Eval.mapLine g (s.machine.resume fuel p'.scopes (p'.body.tail s.executed)) =
      s.machine.resume fuel p'.scopes (p'.body.tail s.executed) := by
  apply Machine.resume_fixed hg.injective (hm g (fixes_source hp hg))
  show (p'.body.stmts.drop s.executed).map (Stmt.mapLine g) = p'.body.stmts.drop s.executed
  rw [List.map_drop, Program.stmts_fixed hg hp']

theorem Reached.fixed (h : s.Reached) : ∀ g, Fixes g s.source → s.machine.mapLine g = s.machine := by
  induction h with
  | start console => intro g _; rfl
  | @submit s fuel chunk hs ih =>
    obtain ⟨p, hp, -⟩ := hs.carries
    intro g hg
    cases hp' : Program.ofSource (extend s.source chunk) with
    | error f =>
      rw [submit_error hp'] at hg ⊢
      exact ih g hg
    | ok p' =>
      rw [submit_ok hp'] at hg ⊢
      exact (outcome_fixed (handed_fixed hp ih hp' hg fuel)).1
  | @next s line s' hnext _ ih =>
    intro g hg
    unfold Session.next? at hnext
    cases hline : s.machine.console.next? with
    | none =>
      rw [hline] at hnext
      cases hnext
    | some r =>
      rw [hline] at hnext
      cases hnext
      exact congrArg (fun m : Machine => { m with console := r.2 }) (ih g hg)
  | write text _ ih =>
    intro g hg
    exact congrArg (fun m : Machine => { m with console := m.console.write text }) (ih g hg)

/-- **Faults are on lines of the source.** If a text cannot be read, the fault is on a line of it that holds something
besides its break, and so is the fault of any run of the program that it reads as. In a session that starts with a fresh
machine, whatever was done before, a submission that fails, be it in a function of an earlier chunk, is at fault on such
a line of the text that it was the last to attempt. -/
theorem faults_have_lines :
    (∀ source : String,
      (∀ f, Program.ofSource source = .error f → HasText source f.line) ∧
      ∀ p, Program.ofSource source = .ok p → ∀ (fuel : Nat) (m : Machine) (f : Fault) (m' : Machine),
        m.run fuel p.scopes p.body = .error (.fault f) m' → HasText source f.line) ∧
    ∀ s : Session, s.Reached → ∀ (fuel : Nat) (chunk : String) (f : Fault),
      (s.submit fuel chunk).1 = .error (.fault f) → HasText (s.submit fuel chunk).2.attempt f.line := by
  refine ⟨fun source => ⟨?_, ?_⟩, ?_⟩
  · intro f hf
    exact hasText_of_fixed fun g hg => Program.fault_fixed hg hf
  · intro p hp fuel m f m' hrun
    apply hasText_of_fixed
    intro g hg
    have hfixed : Eval.mapLine g (m.run fuel p.scopes p.body) = m.run fuel p.scopes p.body :=
      Machine.exec_fixed hg.injective (Machine.reset_fixed g m p.scopes) (Program.stmts_fixed hg hp)
    apply (outcome_fixed hfixed).2
    rw [hrun]
    rfl
  · intro s hs fuel chunk f hf
    obtain ⟨p, hp, -⟩ := hs.carries
    cases hp' : Program.ofSource (extend s.source chunk) with
    | error f' =>
      rw [submit_error hp'] at hf ⊢
      cases hf
      exact hasText_of_fixed fun g hg => Program.fault_fixed hg hp'
    | ok p' =>
      rw [submit_ok hp'] at hf ⊢
      exact hasText_of_fixed fun g hg => (outcome_fixed (handed_fixed hp hs.fixed hp' hg fuel)).2 f hf

/-- A chunk that calls `f` fails on line 2 of the attempted text, in the body that an earlier chunk gave `f`. -/
theorem faults_have_lines_earlier :
    let s := ((start (.start none .empty)).submit 1 "def f()\n1 / 0\nend").2
    s.Reached ∧ (s.submit 1 "f()").1 = .error (.fault ⟨2, .runtime .divisionByZero⟩) ∧
      (s.submit 1 "f()").2.attempt = "def f()\n1 / 0\nend\nf()\n" ∧ HasText (s.submit 1 "f()").2.attempt 2 := by
  let f : Func := ⟨"f", [], 1, ⟨2, [.expr (.binary 2 (.arithmetic .divide) (.literal 2 (.integer 1))
    (.literal 2 (.integer 0)))]⟩, ⟨"f", some "Program", []⟩⟩
  let scopes : ScopeTable := ⟨⟨"Global", none, []⟩, ⟨"Program", some "Global", ["f"]⟩, []⟩
  let p : Program := ⟨⟨1, [.define f]⟩, scopes⟩
  let p₁ : Program := ⟨⟨1, [.define f, .expr (.call 4 "f" [])]⟩, scopes⟩
  let m : Machine := (Machine.start (.start none .empty)).reset scopes
  let s₁ : Session := ⟨"def f()\n1 / 0\nend\n", "def f()\n1 / 0\nend\n", 1,
    { m with frames := [⟨[("f", .func f)]⟩] }⟩
  have hfirst : ((start (.start none .empty)).submit 1 "def f()\n1 / 0\nend").2 = s₁ := by
    have hextend : extend (start (.start none .empty)).source "def f()\n1 / 0\nend" = s₁.source := by decide
    have hp : Program.ofSource (extend (start (.start none .empty)).source "def f()\n1 / 0\nend") = .ok p := by
      have hl : LogicalLine.ofSource "def f()\n1 / 0\nend\n" =
          .ok [[⟨.kwDef, "def", 1⟩, ⟨.identifier, "f", 1⟩, ⟨.leftParen, "(", 1⟩, ⟨.rightParen, ")", 1⟩],
            [⟨.integer, "1", 2⟩, ⟨.slash, "/", 2⟩, ⟨.integer, "0", 2⟩], [⟨.kwEnd, "end", 3⟩]] := by
        with_unfolding_all rfl
      rw [hextend]
      exact (Program.ofSource_eq_off hl).trans rfl
    have hrun : (start (.start none .empty)).machine.resume 1 p.scopes
        (p.body.tail (start (.start none .empty)).executed) = .ok () s₁.machine := by
      have hdefine : (Stmt.define f).exec (callAt 1 256) 1 m = .ok () s₁.machine := by
        have hname : isGlobalName f.name = false := by decide
        apply Eval.store_some
        rw [Machine.set?, hname]
        rfl
      show EStateM.bind ((Stmt.define f).exec (callAt 1 256) 1) _ m = _
      rw [EStateM.bind, hdefine]
      rfl
    have hsubmit := @submit_ok 1 (start (.start none .empty)) _ p hp
    rw [hrun, hextend] at hsubmit
    rw [hsubmit]
    rfl
  have hattempt : extend s₁.source "f()" = "def f()\n1 / 0\nend\nf()\n" := by decide
  have hsecond : Program.ofSource (extend s₁.source "f()") = .ok p₁ := by
    have hl : LogicalLine.ofSource "def f()\n1 / 0\nend\nf()\n" =
        .ok [[⟨.kwDef, "def", 1⟩, ⟨.identifier, "f", 1⟩, ⟨.leftParen, "(", 1⟩, ⟨.rightParen, ")", 1⟩],
          [⟨.integer, "1", 2⟩, ⟨.slash, "/", 2⟩, ⟨.integer, "0", 2⟩], [⟨.kwEnd, "end", 3⟩],
          [⟨.identifier, "f", 4⟩, ⟨.leftParen, "(", 4⟩, ⟨.rightParen, ")", 4⟩]] := by
      with_unfolding_all rfl
    rw [hattempt]
    exact (Program.ofSource_eq_off hl).trans rfl
  have hsubmit := @submit_ok 1 s₁ "f()" p₁ hsecond
  have hfails : (s₁.submit 1 "f()").1 = .error (.fault ⟨2, .runtime .divisionByZero⟩) := by
    rw [hsubmit]
    rfl
  have hreached : s₁.Reached := by
    rw [← hfirst]
    exact .submit 1 _ (.start (.start none .empty))
  intro s
  rw [show s = s₁ from hfirst]
  refine ⟨hreached, hfails, ?_, faults_have_lines.2 s₁ hreached 1 "f()" _ hfails⟩
  rw [hsubmit, hattempt]

end Session

end Sprig
