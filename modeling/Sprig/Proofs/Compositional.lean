import Sprig.Proofs.Append
import Sprig.Proofs.ScanLines

/-!
# Reading is compositional

A text that reads as a program ends with its last logical line: no token in it waits for more. So behind a line
feed a second text is scanned and read as it would be on its own, further down.

Main statement: `Program.ofSource_compositional`.
-/

namespace Sprig

/-- The text is empty or ends in a line feed. -/
abbrev EndsLine (text : String) : Prop := Closed (· == '\n') text.toList

/-- How many line feeds there are. -/
abbrev lineBreaks (text : String) : Nat := text.toList.count '\n'

theorem endsLine_concat (text : String) : EndsLine (text ++ "\n") := by
  rw [EndsLine, Closed, String.toList_append]
  exact congrArg (Option.all _) List.getLast?_concat

namespace LogicalLine

theorem ne_nil_of_ofSource {text : String} {lines : List LogicalLine} (h : ofSource text = .ok lines) :
    ∀ ts ∈ lines, ts ≠ [] := by
  rw [ofSource_eq] at h
  cases hs : scanFrom 1 (physicalLines text.toList) with
  | error f => rw [hs] at h; cases h
  | ok tss =>
    rw [hs] at h
    cases h
    exact fun ts hts => ne_nil_of_mem_join hts

/-- Behind a text whose logical lines are complete, the lines of another text are what they are, but for their
numbers. -/
theorem ofSource_append {a b : String} (ha : EndsLine a) {lines : List LogicalLine} (h : ofSource a = .ok lines)
    (hlines : ∀ ts ∈ lines, Token.isDangling ts = false) :
    ofSource (a ++ b) = (movedBy (· + lineBreaks a) (mapLines (· + lineBreaks a)) (ofSource b)).map (lines ++ ·) := by
  have hlen : (physicalLines a.toList).length = lineBreaks a := length_splitAfter ha
  rw [ofSource_eq] at h ⊢
  rw [ofSource_eq b, String.toList_append, physicalLines, splitAfter_append _ ha, ← physicalLines, ← physicalLines,
    scanFrom_append, hlen, scanFrom_add]
  cases hs : scanFrom 1 (physicalLines a.toList) with
  | error f => rw [hs] at h; cases h
  | ok tss =>
    rw [hs] at h
    cases h
    cases scanFrom 1 (physicalLines b.toList) with
    | error f => rfl
    | ok uss =>
      show Except.ok (join [] (tss ++ mapLines _ uss)) = .ok (join [] tss ++ mapLines _ (join [] uss))
      rw [join_append _ (Or.inl rfl) hlines, ← join_mapLine]
      rfl

theorem scanFrom_concat {n : Nat} {lines : List (List Char)} {cs : List Char} {tss : List (List Token)}
    (h : scanFrom n (lines ++ [cs]) = .ok tss) : scanFrom n (lines ++ [cs ++ ['\n']]) = .ok tss := by
  rw [scanFrom_append] at h ⊢
  cases hs : scanFrom n lines with
  | error f => rw [hs] at h; cases h
  | ok uss =>
    rw [hs] at h
    cases hc : scan (n + lines.length) cs with
    | error f => simp only [scanFrom, hc] at h; cases h
    | ok ts =>
      simp only [scanFrom, hc] at h
      simp only [scanFrom, scan_concat hc]
      exact h

theorem ofSource_concat {a : String} {lines : List LogicalLine} (h : ofSource a = .ok lines) :
    ofSource (a ++ "\n") = .ok lines := by
  rw [ofSource_eq] at h ⊢
  cases hs : scanFrom 1 (physicalLines a.toList) with
  | error f => rw [hs] at h; cases h
  | ok tss =>
    rw [hs] at h
    cases h
    rw [String.toList_append, show "\n".toList = ['\n'] from rfl, physicalLines]
    by_cases ha : EndsLine a
    · have hfeed (n : Nat) : scanFrom n [['\n']] = .ok [[]] := by
        rw [scanFrom, scan_blank rfl, scan]
        rfl
      rw [splitAfter_append _ ha, ← physicalLines, scanFrom_append, hs]
      show Except.map _ (scanFrom _ [['\n']] >>= fun uss => _) = _
      rw [hfeed]
      exact congrArg Except.ok (join_concat_nil (Or.inl rfl))
    · obtain ⟨init, line, h₁, h₂⟩ := splitAfter_concat (e := '\n') (by rfl) ha
      rw [physicalLines, h₁] at hs
      rw [h₂, scanFrom_concat hs]
      rfl

end LogicalLine

namespace Program

variable {a b : String} {p : Program}

theorem ofSource_ok (h : ofSource a = .ok p) :
    ∃ lines, LogicalLine.ofSource a = .ok lines ∧ ofLines lines = .ok p := by
  unfold ofSource at h
  cases hl : LogicalLine.ofSource a with
  | error f => rw [hl] at h; cases h
  | ok lines => rw [hl] at h; exact ⟨lines, rfl, h⟩

theorem ofSource_eq_off {lines : List LogicalLine} (h : LogicalLine.ofSource a = .ok lines) :
    ofSource a = ofLinesWith .off lines := by
  rw [ofSource, h]
  exact ofLines_eq_off lines

theorem not_dangling_of_ofLines {lines : List LogicalLine} (h : ofLines lines = .ok p)
    (hlines : ∀ ts ∈ lines, ts ≠ []) : ∀ ts ∈ lines, Token.isDangling ts = false := by
  obtain ⟨used, hused, hsettled⟩ := (readsBlock_of_ofLines h hlines).2.passes
  rw [List.append_nil] at hused
  exact fun ts hts => (hsettled ts (hused ▸ hts)).isDangling

theorem ofSource_append (ha : EndsLine a) (h : ofSource a = .ok p) (b : String) :
    match ofSource b with
    | .error f => ofSource (a ++ b) = .error (f.mapLine (· + lineBreaks a))
    | .ok q => ∃ line, ofSource (a ++ b) =
        .ok ⟨⟨line, p.body.stmts ++ q.body.stmts.map (Stmt.mapLine (· + lineBreaks a))⟩, q.scopes.after p.scopes⟩ := by
  obtain ⟨lines, hl, hp⟩ := ofSource_ok h
  have hlines := LogicalLine.ne_nil_of_ofSource hl
  have hab := LogicalLine.ofSource_append (b := b) ha hl (not_dangling_of_ofLines hp hlines)
  unfold ofSource
  rw [hab]
  cases hb : LogicalLine.ofSource b with
  | error f => rfl
  | ok more =>
    have happend := ofLines_append (· + lineBreaks a) hp hlines (LogicalLine.ne_nil_of_ofSource hb)
    show match ofLines more with
      | .error f => ofLines (lines ++ mapLines _ more) = _
      | .ok q => ∃ line, ofLines (lines ++ mapLines _ more) = _
    rw [happend]
    cases ofLines more with
    | error f => rfl
    | ok q => exact ⟨_, rfl⟩

theorem ofSource_concat (h : ofSource a = .ok p) : ofSource (a ++ "\n") = .ok p := by
  obtain ⟨lines, hl, hp⟩ := ofSource_ok h
  unfold ofSource
  rw [LogicalLine.ofSource_concat hl]
  exact hp

/-- **Reading is compositional.** A second text behind a program is at fault exactly if it is on its own, and
then for the same reason, as many lines further down as the program takes. Otherwise its statements come after
those of the program, as many lines further down, and the names that are new come after the names of the
program. -/
theorem ofSource_compositional (s₁ s₂ : String) (p₁ : Program) (h : ofSource s₁ = .ok p₁) :
    match ofSource s₂, ofSource (s₁ ++ "\n" ++ s₂) with
    | .error f₂, .error f =>
      f.problem = f₂.problem ∧ f.help = f₂.help ∧ f.line = f₂.line + (lineBreaks s₁ + 1)
    | .ok p₂, .ok p =>
      p.body.stmts = p₁.body.stmts ++ p₂.body.stmts.map (Stmt.mapLine (· + (lineBreaks s₁ + 1))) ∧
      p.scopes.globals.names = p₁.scopes.globals.names ++
        p₂.scopes.globals.names.filter (fun name => !p₁.scopes.globals.names.contains name) ∧
      p.scopes.program.names = p₁.scopes.program.names ++
        p₂.scopes.program.names.filter (fun name => !p₁.scopes.program.names.contains name)
    | _, _ => False := by
  have hbreaks : lineBreaks (s₁ ++ "\n") = lineBreaks s₁ + 1 := by
    rw [lineBreaks, String.toList_append, List.count_append]
    rfl
  have happend := ofSource_append (endsLine_concat s₁) (ofSource_concat h) s₂
  rw [hbreaks] at happend
  cases h₂ : ofSource s₂ with
  | error f =>
    rw [h₂] at happend
    rw [happend]
    exact ⟨rfl, rfl, rfl⟩
  | ok q =>
    rw [h₂] at happend
    obtain ⟨line, happend⟩ := happend
    rw [happend]
    exact ⟨rfl, rfl, rfl⟩

/-- Behind `x = 1` an `end` is misplaced on line 2, as it is on line 1 of a text of its own. -/
theorem ofSource_assign_end :
    ∃ p₁, ofSource "x = 1" = .ok p₁ ∧ ∃ f, ofSource ("x = 1" ++ "\n" ++ "end") = .error f ∧
      f.line = 2 ∧ f.problem = .syntactic (.misplacedKeyword "end") := by
  have h₁ : ofSource "x = 1" = .ok ⟨⟨1, [.assign ⟨1, "x", .literal 1 (.integer 1)⟩]⟩,
      { ScopeTable.initial with program := ⟨"Program", some "Global", ["x"]⟩ }⟩ := by
    have hl : LogicalLine.ofSource "x = 1" =
        .ok [[⟨.identifier, "x", 1⟩, ⟨.equal, "=", 1⟩, ⟨.integer, "1", 1⟩]] := by with_unfolding_all rfl
    exact (ofSource_eq_off hl).trans rfl
  have h₂ : ofSource "end" = .error ⟨1, .syntactic (.misplacedKeyword "end")⟩ := by
    have hl : LogicalLine.ofSource "end" = .ok [[⟨.kwEnd, "end", 1⟩]] := by with_unfolding_all rfl
    exact (ofSource_eq_off hl).trans rfl
  have h := ofSource_compositional "x = 1" "end" _ h₁
  rw [h₂] at h
  cases h₁₂ : ofSource ("x = 1" ++ "\n" ++ "end") with
  | error f =>
    rw [h₁₂] at h
    exact ⟨_, h₁, f, rfl, h.2.2, h.1⟩
  | ok p =>
    rw [h₁₂] at h
    exact h.elim

end Program

end Sprig
