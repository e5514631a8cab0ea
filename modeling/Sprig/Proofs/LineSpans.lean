import Mathlib.Data.List.DropRight
import Sprig.Diagnostic
import Sprig.Proofs.ScanLines

/-!
# What a line number points at

`IsLine` says which characters are a line of a text, without cutting it into lines. The span of such a line starts
right behind the characters before it and covers what `shown` keeps of it, so that the spans of two lines have no
character in common. A number that no line has points at the last character.

Main statement: `Span.ofLine_covers`.
-/

namespace Sprig

/-- The line of a text with this number is `text`, between the characters `before` it and those `after` it. -/
structure IsLine (source : List Char) (line : Nat) (before text after : List Char) : Prop where
  source_eq : source = before ++ (text ++ after)
  number : line = before.count '\n' + 1
  begins : before = [] ∨ before.getLast? = some '\n'
  nonempty : text ≠ []
  single : '\n' ∉ text.dropLast
  ends : after = [] ∨ text.getLast? = some '\n'

def HasLine (source : List Char) (line : Nat) : Prop := ∃ before text after, IsLine source line before text after

/-! ## Lines as pieces -/

section
variable {α : Type} {isEnd : α → Bool}

theorem splitAfter_of_single : ∀ {xs : List α}, xs ≠ [] → (∀ x ∈ xs.dropLast, isEnd x = false) →
    splitAfter isEnd xs = [xs]
  | [], h, _ => absurd rfl h
  | [x], _, _ => by
    rw [splitAfter_cons, splitAfter_nil]
    cases hx : isEnd x <;> simp [splitAfter.put, hx]
  | x :: y :: xs, _, h => by
    rw [List.dropLast_cons_cons, List.forall_mem_cons] at h
    rw [splitAfter_cons, splitAfter_of_single (List.cons_ne_nil y xs) h.2]
    simp [splitAfter.put, h.1]

/-- Before each of the pieces there are as many ends as pieces. -/
theorem splitAfter_getElem? : ∀ {n : Nat} {xs text : List α}, (splitAfter isEnd xs)[n]? = some text →
    ∃ before after, xs = before ++ (text ++ after) ∧ before.countP isEnd = n ∧ Closed isEnd before ∧
      before = ((splitAfter isEnd xs).take n).flatten ∧ text ≠ [] ∧ (after = [] ∨ Closed isEnd text)
  | n, xs, text, h => by
    cases hs : splitAfter isEnd xs with
    | nil =>
      rw [hs] at h
      cases h
    | cons line lines =>
      obtain ⟨hne, hline, rest, rfl, rfl, hclosed⟩ := splitAfter_eq_cons hs
      rw [hs] at h
      cases n with
      | zero =>
        cases h
        exact ⟨[], rest, rfl, rfl, rfl, rfl, hne, hclosed.symm⟩
      | succ n =>
        rw [List.getElem?_cons_succ] at h
        obtain ⟨before, after, hrest, hcount, hbefore, hflatten, htext⟩ := splitAfter_getElem? h
        have hline_closed : Closed isEnd line := hclosed.resolve_right (by
          rintro rfl
          cases h)
        have hone : line.countP isEnd = 1 := by rw [← length_splitAfter hline_closed, hline, List.length_singleton]
        refine ⟨line ++ before, after, ?_, ?_, ?_, ?_, htext⟩
        · rw [hrest, List.append_assoc]
        · rw [List.countP_append, hone, hcount, Nat.add_comm]
        · unfold Closed at *
          rw [List.getLast?_append]
          cases hlast : before.getLast? with
          | none => exact hline_closed
          | some x =>
            rw [hlast] at hbefore
            exact hbefore
        · rw [List.take_succ_cons, List.flatten_cons, hflatten]

end

theorem closed_iff {text : List Char} : Closed (· == '\n') text ↔ text = [] ∨ text.getLast? = some '\n' := by
  unfold Closed
  rcases List.eq_nil_or_concat text with rfl | ⟨front, c, rfl⟩
  · simp
  · simp

namespace IsLine

variable {source before text after : List Char} {n line : Nat}

theorem getElem? (h : IsLine source (n + 1) before text after) :
    (physicalLines source)[n]? = some text ∧ ((physicalLines source).take n).flatten = before := by
  have hbefore : Closed (· == '\n') before := closed_iff.mpr h.begins
  have htext : splitAfter (· == '\n') text = [text] := by
    refine splitAfter_of_single h.nonempty fun c hc => beq_eq_false_iff_ne.mpr ?_
    rintro rfl
    exact h.single hc
  have hlines : physicalLines source = physicalLines before ++ text :: physicalLines after := by
    rw [physicalLines, h.source_eq, splitAfter_append _ hbefore]
    rcases h.ends with hafter | hlast
    · rw [hafter, List.append_nil, htext]
      rfl
    · rw [splitAfter_append _ (closed_iff.mpr (.inr hlast)), htext]
      rfl
  have hlength : (physicalLines before).length = n := by
    rw [physicalLines, length_splitAfter hbefore]
    exact (Nat.succ.inj h.number).symm
  rw [hlines, ← hlength]
  refine ⟨by simp, ?_⟩
  rw [List.take_left, physicalLines, flatten_splitAfter]

theorem of_getElem? (h : (physicalLines source)[n]? = some text) :
    ∃ after, IsLine source (n + 1) ((physicalLines source).take n).flatten text after := by
  obtain ⟨before, after, hsource, hcount, hclosed, hflatten, hne, hends⟩ := splitAfter_getElem? h
  refine ⟨after, ?_⟩
  rw [show ((physicalLines source).take n).flatten = before from hflatten.symm]
  refine ⟨hsource, congrArg (· + 1) hcount.symm, closed_iff.mp hclosed, hne, ?_, ?_⟩
  · intro hfeed
    exact absurd (isEnd_of_mem_dropLast (List.mem_of_getElem? h) hfeed) (by decide)
  · exact hends.imp_right fun hc => (closed_iff.mp hc).resolve_left hne

theorem number_ne_zero (h : IsLine source line before text after) : line ≠ 0 := by
  rw [h.number]
  exact Nat.succ_ne_zero _

end IsLine

theorem hasLine_iff {source : List Char} {n : Nat} : HasLine source (n + 1) ↔ n < (physicalLines source).length := by
  constructor
  · rintro ⟨before, text, after, h⟩
    exact (List.getElem?_eq_some_iff.mp h.getElem?.1).1
  · intro h
    obtain ⟨after, hline⟩ := IsLine.of_getElem? (List.getElem?_eq_getElem h)
    exact ⟨_, _, after, hline⟩

/-! ## Spans -/

namespace Span

/-- The characters of a text that a span covers. -/
def text (source : List Char) (s : Span) : List Char := (source.drop s.start).take (s.stop - s.start)

/-- The spans have no character in common. -/
def Apart (s s' : Span) : Prop := s.stop ≤ s'.start ∨ s'.stop ≤ s.start

/-- What is shown of a line: its text without the breaks at its end, or its first character when nothing else is
left. -/
def shown (line : List Char) : List Char :=
  let content := line.rdropWhile fun c => c == '\r' || c == '\n'
  if content = [] then line.take 1 else content

variable {source line : List Char} {n : Nat}

theorem take_shownLength (line : List Char) : line.take (shownLength line) = shown line := by
  have hcontent : line.rdropWhile (fun c => c == '\r' || c == '\n') = (line.reverse.dropWhile isBreak).reverse := by
    unfold List.rdropWhile isBreak
    simp only [Bool.or_comm]
  have hprefix : line.rdropWhile (fun c => c == '\r' || c == '\n') <+: line := List.rdropWhile_prefix _ _
  unfold shown
  rw [hcontent] at hprefix ⊢
  unfold shownLength
  generalize line.reverse.dropWhile isBreak = content at hprefix ⊢
  simp only [List.length_eq_zero_iff, List.reverse_eq_nil_iff]
  split
  · cases line <;> simp
  · rw [List.prefix_iff_eq_take.mp hprefix]
    simp

theorem shownLength_le (line : List Char) : shownLength line ≤ line.length := by
  have hlength := (List.dropWhile_suffix isBreak (l := line.reverse)).length_le
  rw [List.length_reverse] at hlength
  unfold shownLength
  simp only
  split
  · exact Nat.min_le_left _ _
  · exact hlength

theorem shownLength_pos (h : line ≠ []) : 0 < shownLength line := by
  have := List.length_pos_iff.mpr h
  unfold shownLength
  simp only
  split <;> omega

theorem ofLine_of_isLine {before after : List Char} (h : IsLine source n before line after) :
    ofLine source n = ⟨before.length, before.length + shownLength line⟩ := by
  obtain ⟨n, rfl⟩ := Nat.exists_eq_succ_of_ne_zero h.number_ne_zero
  obtain ⟨hline, hbefore⟩ := h.getElem?
  simp only [ofLine, hline, hbefore]

theorem ofLine_of_not_hasLine (h : ¬ HasLine source n) : ofLine source n = ⟨source.length - 1, source.length⟩ := by
  cases n with
  | zero => rfl
  | succ n =>
    rw [hasLine_iff, Nat.not_lt] at h
    simp only [ofLine, List.getElem?_eq_none h]
    rfl

/-- A line that comes earlier is over where a later one starts. -/
theorem stop_le_start {m : Nat} (hnm : n < m) (hn : HasLine source n) (hm : HasLine source m) :
    (ofLine source n).stop ≤ (ofLine source m).start := by
  obtain ⟨before, text, after, h⟩ := hn
  obtain ⟨before', text', after', h'⟩ := hm
  rw [ofLine_of_isLine h, ofLine_of_isLine h']
  show before.length + shownLength text ≤ before'.length
  obtain ⟨n, rfl⟩ := Nat.exists_eq_succ_of_ne_zero h.number_ne_zero
  obtain ⟨m, rfl⟩ := Nat.exists_eq_succ_of_ne_zero h'.number_ne_zero
  -- the lines before the later one are those before the earlier one, that one, and the lines between
  have htake : (physicalLines source).take (n + 1) = (physicalLines source).take n ++ [text] := by
    rw [List.take_add_one, h.getElem?.1]
    rfl
  have hprefix := List.take_prefix_take_left (l := physicalLines source) (Nat.lt_of_succ_lt_succ hnm)
  obtain ⟨between, hbetween⟩ := hprefix
  rw [Nat.succ_eq_add_one, htake] at hbetween
  have hbefore' : before' = before ++ (text ++ between.flatten) := by
    rw [← h'.getElem?.2, ← hbetween, List.flatten_append, List.flatten_append, List.flatten_singleton, h.getElem?.2,
      List.append_assoc]
  have hshown := shownLength_le text
  rw [hbefore', List.length_append, List.length_append]
  omega

theorem apart_of_ne {m : Nat} (hnm : n ≠ m) (hn : HasLine source n) (hm : HasLine source m) :
    (ofLine source n).Apart (ofLine source m) := by
  rcases Nat.lt_or_gt_of_ne hnm with hlt | hgt
  · exact .inl (stop_le_start hlt hn hm)
  · exact .inr (stop_le_start hgt hm hn)

theorem text_of_isLine {before after : List Char} (h : IsLine source n before line after) :
    (ofLine source n).text source = shown line := by
  rw [ofLine_of_isLine h]
  show (source.drop before.length).take (before.length + shownLength line - before.length) = shown line
  rw [Nat.add_sub_cancel_left, h.source_eq, List.drop_left, List.take_append_of_le_length (shownLength_le line),
    take_shownLength]

/-- **A line number points at what is shown of its line.** The span for any number lies within the text, and is empty
for the empty text alone. That of a line starts behind the characters before the line and covers what is shown of it,
and the spans of two lines are apart. A number that no line has points at the last character. -/
theorem ofLine_covers (source : List Char) (line : Nat) :
    let s := ofLine source line
    s.start ≤ s.stop ∧ s.stop ≤ source.length ∧ (source ≠ [] → s.start < s.stop) ∧
    (∀ before text after, IsLine source line before text after →
      s.start = before.length ∧ s.text source = shown text) ∧
    (∀ other, HasLine source line → HasLine source other → line ≠ other → s.Apart (ofLine source other)) ∧
    (¬ HasLine source line → s = ⟨source.length - 1, source.length⟩) := by
  intro s
  by_cases hline : HasLine source line
  · have ⟨before, text, after, h⟩ := hline
    have hs : s = ⟨before.length, before.length + shownLength text⟩ := ofLine_of_isLine h
    have hlength : source.length = before.length + (text.length + after.length) := by
      rw [h.source_eq, List.length_append, List.length_append]
    have hshown := shownLength_le text
    have hpos := shownLength_pos h.nonempty
    refine ⟨?_, ?_, fun _ => ?_, ?_, fun _ h₁ h₂ hne => apart_of_ne hne h₁ h₂, fun hno => absurd hline hno⟩
    · rw [hs]
      exact Nat.le_add_right _ _
    · rw [hs, hlength]
      exact Nat.add_le_add_left (Nat.le_trans hshown (Nat.le_add_right _ _)) _
    · rw [hs]
      exact Nat.lt_add_of_pos_right hpos
    · intro before' text' after' h'
      exact ⟨congrArg Span.start (ofLine_of_isLine h'), text_of_isLine h'⟩
  · have hs : s = ⟨source.length - 1, source.length⟩ := ofLine_of_not_hasLine hline
    rw [hs]
    refine ⟨Nat.sub_le _ _, Nat.le_refl _, fun hne => ?_, ?_, fun _ h => absurd h hline, fun _ => rfl⟩
    · exact Nat.sub_lt (List.length_pos_iff.mpr hne) Nat.one_pos
    · exact fun before text after h => absurd ⟨before, text, after, h⟩ hline

/-- In `a\r\n\nb` the second line is all break, and so its line feed is shown. -/
example : (List.range 5).map (ofLine "a\r\n\nb".toList) = [⟨4, 5⟩, ⟨0, 1⟩, ⟨3, 4⟩, ⟨4, 5⟩, ⟨4, 5⟩] := by
  decide

end Span

end Sprig
