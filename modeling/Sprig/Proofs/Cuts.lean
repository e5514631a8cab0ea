import Mathlib.Data.List.TakeWhile
import Sprig.Proofs.Compositional
import Sprig.Text.Blank

/-!
# Where a text can be cut

A text that reads as a program can be cut behind a line where it is not incomplete: counting parentheses and
block keywords up to there is enough to know that the part in front reads as a program too.
-/

namespace Sprig

namespace LogicalLine

theorem not_dangling_of_join : ∀ {lines : List (List Token)} {pending : LogicalLine},
    (join pending lines).getLast?.any Token.isDangling = false →
      ∀ line ∈ join pending lines, Token.isDangling line = false
  | [], pending, h, line, hline => by
    unfold join at h hline
    split at hline
    · cases hline
    · rename_i hp
      rw [if_neg hp] at h
      rw [List.mem_singleton.mp hline]
      exact h
  | ts :: lines, pending, h, line, hline => by
    rw [join] at h hline
    split at hline
    · rename_i hgo
      rw [if_pos hgo] at h
      exact not_dangling_of_join h line hline
    · rename_i hgo
      rw [if_neg hgo] at h
      rcases List.mem_cons.mp hline with rfl | hline
      · exact (Bool.or_eq_false_iff.mp (Bool.eq_false_iff.mpr hgo)).2
      · -- the last line is one of the others
        cases hj : join [] lines with
        | nil => rw [hj] at hline; cases hline
        | cons l ls =>
          rw [hj, List.getLast?_cons_cons, ← hj] at h
          exact not_dangling_of_join h line hline

theorem ofSource_front {b c : String} (hb : EndsLine b) {lines : List LogicalLine}
    (h : ofSource (b ++ c) = .ok lines) : ∃ front, ofSource b = .ok front := by
  rw [ofSource_eq, String.toList_append, physicalLines, splitAfter_append _ hb, ← physicalLines, scanFrom_append] at h
  rw [ofSource_eq]
  cases hs : scanFrom 1 (physicalLines b.toList) with
  | error f => rw [hs] at h; cases h
  | ok tss => exact ⟨_, rfl⟩

theorem not_dangling_of_ofSource {b : String} {lines : List LogicalLine} (h : ofSource b = .ok lines)
    (hlast : lines.getLast?.any Token.isDangling = false) : ∀ ts ∈ lines, Token.isDangling ts = false := by
  rw [ofSource_eq] at h
  cases hs : scanFrom 1 (physicalLines b.toList) with
  | error f => rw [hs] at h; cases h
  | ok tss =>
    rw [hs] at h
    cases h
    exact not_dangling_of_join hlast

end LogicalLine

namespace Program

open LogicalLine

theorem ofLines_of_readsBlock {lines : List LogicalLine} {ss : List Stmt} {s : ScopeTable}
    (h : ReadsBlock .initial lines ss [] s) : ofLines lines = .ok ⟨⟨Reader.blockLine [] lines, ss⟩, s⟩ := by
  rw [ofLines_eq, h.statements_eq (Nat.le_refl _)]
  rfl

theorem ofSource_of_nil {b : String} (h : LogicalLine.ofSource b = .ok []) :
    ofSource b = .ok ⟨⟨1, []⟩, .initial⟩ :=
  (ofSource_eq_off h).trans rfl

theorem isIncomplete_of_ofSource {b : String} {p : Program} (h : ofSource b = .ok p) : isIncomplete b = false := by
  obtain ⟨lines, hl, hp⟩ := ofSource_ok h
  have hlines := ne_nil_of_ofSource hl
  have hdepth := (readsBlock_of_ofLines hp hlines).2.level.total
  have hdangle := not_dangling_of_ofLines hp hlines
  unfold isIncomplete
  rw [hl]
  simp only [isUnfinished_eq, hdepth, Bool.or_eq_false_iff, decide_eq_false_iff_not]
  refine ⟨?_, by decide⟩
  cases hlast : lines.getLast? with
  | none => rfl
  | some ts => exact hdangle ts (List.mem_of_getLast? hlast)

/-- **Where a text can be cut.** The front of a program reads as a program if no block and no line is open at
its end. -/
theorem ofSource_cut {b c : String} {p : Program} (hb : EndsLine b ∨ c = "") (h : ofSource (b ++ c) = .ok p)
    (hcut : isIncomplete b = false) : ∃ q, ofSource b = .ok q := by
  rcases hb with hb | rfl
  · obtain ⟨lines, hl, hp⟩ := ofSource_ok h
    obtain ⟨front, hfront⟩ := ofSource_front hb hl
    unfold isIncomplete at hcut
    rw [hfront] at hcut
    simp only [isUnfinished_eq, Bool.or_eq_false_iff, decide_eq_false_iff_not] at hcut
    have happend := LogicalLine.ofSource_append (b := c) hb hfront (not_dangling_of_ofSource hfront hcut.1)
    rw [hl] at happend
    cases hc : movedBy (· + lineBreaks b) (mapLines (· + lineBreaks b)) (LogicalLine.ofSource c) with
    | error f => rw [hc] at happend; cases happend
    | ok back =>
      rw [hc] at happend
      cases happend
      have hread := (readsBlock_of_ofLines hp (ne_nil_of_ofSource hl)).2
      obtain ⟨ss, s, hread⟩ := hread.cut rfl rfl (Int.not_lt.mp hcut.2)
      refine ⟨⟨⟨Reader.blockLine [] front, ss⟩, s⟩, ?_⟩
      unfold ofSource
      rw [hfront]
      exact ofLines_of_readsBlock hread
  · rw [String.append_empty] at h
    exact ⟨p, h⟩

/-- **What incomplete means.** Of the fronts of a program that end with a line, `isIncomplete` picks out just
those that do not read as a program. -/
theorem isIncomplete_iff_unreadable {front back : String} {p : Program} (h : ofSource (front ++ back) = .ok p)
    (hfront : EndsLine front ∨ back = "") :
    (isIncomplete front = true ↔ ∃ f, ofSource front = .error f) ∧ isIncomplete (front ++ back) = false := by
  refine ⟨⟨fun hopen => ?_, fun ⟨f, hf⟩ => ?_⟩, isIncomplete_of_ofSource h⟩
  · cases hread : ofSource front with
    | error f => exact ⟨f, rfl⟩
    | ok q =>
      rw [isIncomplete_of_ofSource hread] at hopen
      cases hopen
  · by_contra hclosed
    obtain ⟨q, hq⟩ := ofSource_cut hfront h (eq_false_of_ne_true hclosed)
    rw [hf] at hq
    cases hq

/-- The cut is inside a block and inside a line of tokens. -/
theorem isIncomplete_iff_unreadable_open :
    (∃ p, ofSource ("while n >\n" ++ "0\nend\n") = .ok p) ∧ EndsLine "while n >\n" ∧
      isIncomplete "while n >\n" = true ∧ ∃ f, ofSource "while n >\n" = .error f := by
  have hl : LogicalLine.ofSource ("while n >\n" ++ "0\nend\n") =
      .ok [[⟨.kwWhile, "while", 1⟩, ⟨.identifier, "n", 1⟩, ⟨.greater, ">", 1⟩, ⟨.integer, "0", 2⟩],
        [⟨.kwEnd, "end", 3⟩]] := by
    with_unfolding_all rfl
  have hp : ofSource ("while n >\n" ++ "0\nend\n") = .ok _ := (ofSource_eq_off hl).trans rfl
  have hends : EndsLine "while n >\n" := endsLine_concat "while n >"
  have hopen : isIncomplete "while n >\n" = true := by with_unfolding_all rfl
  exact ⟨⟨_, hp⟩, hends, hopen, (isIncomplete_iff_unreadable hp (.inl hends)).1.mp hopen⟩

end Program

/-! ## Blank lines -/

theorem isBlank_of_trimBlanks {cs : List Char} (h : trimBlanks cs = []) : ∀ c ∈ cs, isBlank c = true := by
  have hall : ∀ c ∈ (cs.dropWhile isBlank).reverse, isBlank c = true :=
    List.dropWhile_eq_nil_iff.mp (List.reverse_eq_nil_iff.mp h)
  refine List.dropWhile_eq_nil_iff.mp ?_
  cases hd : cs.dropWhile isBlank with
  | nil => rfl
  | cons c rest =>
    have hc := List.head_dropWhile_not isBlank (l := cs) (by simp [hd])
    simp only [hd, List.head_cons] at hc
    rw [hall c (by simp [hd])] at hc
    cases hc

theorem toNat_of_isBlank {c : Char} (h : isBlank c = true) : c.toNat ≤ 32 ∨ 127 < c.toNat := by
  simp only [isBlank, Bool.or_eq_true, Bool.and_eq_true, decide_eq_true_eq, beq_iff_eq] at h
  omega

/-- A blank character is passed over, or it is one that no source may have outside of strings. -/
theorem Lexeme.read_of_isBlank {c : Char} (h : isBlank c = true) (cs : List Char) :
    read c cs = .blank cs ∨ ∃ problem, read c cs = .illegal problem := by
  by_cases hspace : isSpace c = true
  · exact .inl (if_pos hspace)
  right
  have hn := toNat_of_isBlank h
  have hne (d : Char) (hd : 32 < d.toNat ∧ d.toNat ≤ 127) : c ≠ d := by
    rintro rfl
    omega
  have hdigit : ¬ c.isDigit = true := by
    simp only [Char.isDigit, ge_iff_le, UInt32.le_iff_toNat_le, Bool.and_eq_true, decide_eq_true_eq]
    intro hd
    have : c.toNat = c.val.toNat := rfl
    simp at hd
    omega
  have hword : ¬ isWordStart c = true := by
    have hlow : c.toNat = c.val.toNat := rfl
    have halpha : c.isAlpha = (decide (65 ≤ c.val ∧ c.val ≤ 90) || decide (97 ≤ c.val) && decide (c.val ≤ 122)) := rfl
    simp only [isWordStart, halpha, UInt32.le_iff_toNat_le, Bool.or_eq_true, Bool.and_eq_true, decide_eq_true_eq,
      beq_iff_eq]
    have hunderscore := hne '_' (by decide)
    have hdollar := hne '$' (by decide)
    intro hw
    simp [hunderscore, hdollar] at hw
    omega
  unfold read
  rw [if_neg hspace, if_neg (hne '#' (by decide)), if_neg (hne '"' (by decide)), if_neg hdigit, if_neg hword]
  refine ⟨.illegalSymbol c, ?_⟩
  unfold punctuation
  split
  all_goals first
    | rfl
    | exact absurd h (by decide)

theorem scan_of_isBlank {line : Nat} : ∀ {cs : List Char} {ts : List Token}, (∀ c ∈ cs, isBlank c = true) →
    scan line cs = .ok ts → ts = []
  | [], ts, _, h => by
    rw [scan] at h
    cases h
    rfl
  | c :: cs, ts, hblank, h => by
    rcases Lexeme.read_of_isBlank (hblank c List.mem_cons_self) cs with hl | ⟨problem, hl⟩
    · rw [scan_blank hl] at h
      exact scan_of_isBlank (fun d hd => hblank d (List.mem_cons_of_mem c hd)) h
    · rw [scan_illegal hl] at h
      cases h

theorem Program.ofSource_of_isBlank {text : String} (hline : physicalLines text.toList = [text.toList])
    (hblank : ∀ c ∈ text.toList, isBlank c = true) {lines : List LogicalLine}
    (h : LogicalLine.ofSource text = .ok lines) : ofSource text = .ok ⟨⟨1, []⟩, .initial⟩ := by
  refine ofSource_of_nil ?_
  rw [LogicalLine.ofSource_eq, hline] at h ⊢
  cases hs : scan 1 text.toList with
  | error f => simp only [scanFrom, hs] at h; cases h
  | ok ts =>
    simp only [scanFrom, hs, scan_of_isBlank hblank hs]
    rfl

end Sprig
