import Sprig.Proofs.TextBridge

/-!
# Scanning texts put together

Physical lines are scanned one by one, so the lines of a text do not depend on what comes before it, but for
their numbers; and a line feed at the end of the last one adds nothing. Behind logical lines that wait for
nothing, joining starts anew.
-/

namespace Sprig

/-! ## Cutting into lines -/

section
variable {α β : Type} {isEnd : α → Bool}

/-- The last element ends a line, if there is one. -/
def Closed (isEnd : α → Bool) (xs : List α) : Prop := xs.getLast?.all isEnd = true

theorem not_mem_dropLast_of_append {x : α} (xs : List α) {ys : List α} (h : x ∉ (xs ++ ys).dropLast) :
    x ∉ ys.dropLast := by
  by_cases hys : ys = []
  · simp [hys]
  · rw [List.dropLast_append_of_ne_nil hys, List.mem_append, not_or] at h
    exact h.2

theorem splitAfter_nil : splitAfter isEnd [] = [] := rfl

theorem splitAfter_cons (x : α) (xs : List α) :
    splitAfter isEnd (x :: xs) = splitAfter.put isEnd x (splitAfter isEnd xs) := rfl

theorem splitAfter_ne_nil (isEnd : α → Bool) (x : α) (xs : List α) : splitAfter isEnd (x :: xs) ≠ [] := by
  rw [splitAfter_cons]
  unfold splitAfter.put
  split <;> exact List.cons_ne_nil _ _

theorem splitAfter_append (ys : List α) : ∀ {xs : List α}, Closed isEnd xs →
    splitAfter isEnd (xs ++ ys) = splitAfter isEnd xs ++ splitAfter isEnd ys
  | [], _ => rfl
  | [x], h => by
    have hx : isEnd x = true := h
    simp only [splitAfter_cons, splitAfter_nil, splitAfter.put, hx, List.cons_append, List.nil_append]
  | x :: y :: xs, h => by
    have ih := splitAfter_append ys (show Closed isEnd (y :: xs) from h)
    rw [List.cons_append, splitAfter_cons, ih, splitAfter_cons x]
    obtain ⟨line, rest, hl⟩ := List.exists_cons_of_ne_nil (splitAfter_ne_nil isEnd y xs)
    rw [hl, List.cons_append]
    cases hx : isEnd x <;> simp only [splitAfter.put, hx, List.cons_append]

theorem splitAfter_concat {e : α} (he : isEnd e = true) : ∀ {xs : List α}, ¬ Closed isEnd xs →
    ∃ lines line, splitAfter isEnd xs = lines ++ [line] ∧ splitAfter isEnd (xs ++ [e]) = lines ++ [line ++ [e]]
  | [], h => absurd rfl h
  | [x], h => by
    have hx : isEnd x = false := Bool.eq_false_iff.mpr h
    refine ⟨[], [x], ?_, ?_⟩
    · simp only [splitAfter_cons, splitAfter_nil, splitAfter.put, hx, List.nil_append]
    · simp only [List.singleton_append, splitAfter_cons, splitAfter_nil, splitAfter.put, hx, he, List.nil_append]
  | x :: y :: xs, h => by
    obtain ⟨lines, line, h₁, h₂⟩ := splitAfter_concat he (show ¬ Closed isEnd (y :: xs) from h)
    rw [List.cons_append, splitAfter_cons, splitAfter_cons x, h₁, h₂]
    cases hx : isEnd x with
    | true => exact ⟨[x] :: lines, line, by simp only [splitAfter.put, hx, List.cons_append],
        by simp only [splitAfter.put, hx, List.cons_append]⟩
    | false =>
      cases lines with
      | nil => exact ⟨[], x :: line, by simp only [splitAfter.put, hx, List.nil_append],
          by simp only [splitAfter.put, hx, List.nil_append, List.cons_append]⟩
      | cons l lines => exact ⟨(x :: l) :: lines, line, by simp only [splitAfter.put, hx, List.cons_append],
          by simp only [splitAfter.put, hx, List.cons_append]⟩

theorem length_splitAfter : ∀ {xs : List α}, Closed isEnd xs → (splitAfter isEnd xs).length = xs.countP isEnd
  | [], _ => rfl
  | [x], h => by
    have hx : isEnd x = true := h
    simp only [splitAfter_cons, splitAfter_nil, splitAfter.put, hx, List.length_singleton, List.countP_cons,
      List.countP_nil, if_true]
  | x :: y :: xs, h => by
    have ih := length_splitAfter (show Closed isEnd (y :: xs) from h)
    obtain ⟨line, rest, hl⟩ := List.exists_cons_of_ne_nil (splitAfter_ne_nil isEnd y xs)
    rw [splitAfter_cons, List.countP_cons, ← ih, hl]
    cases hx : isEnd x <;> simp only [splitAfter.put, hx, List.length_cons, if_true, Bool.false_eq_true, if_false,
      Nat.add_zero]

theorem isEnd_of_mem_dropLast {x : α} {xs line : List α}
    (hline : line ∈ splitAfter isEnd xs) (hx : x ∈ line.dropLast) : isEnd x = false := by
  induction xs generalizing line with
  | nil => cases hline
  | cons y ys ih =>
    rw [splitAfter_cons] at hline
    unfold splitAfter.put at hline
    generalize splitAfter isEnd ys = lines at hline ih
    cases hy : isEnd y with
    | true =>
      simp only [hy, List.mem_cons] at hline
      rcases hline with rfl | hline
      · cases hx
      · exact ih hline hx
    | false =>
      cases lines with
      | nil =>
        simp only [hy, List.mem_cons, List.not_mem_nil, or_false] at hline
        subst hline
        cases hx
      | cons first rest =>
        simp only [hy, List.mem_cons] at hline
        rcases hline with rfl | hline
        · cases first with
          | nil => cases hx
          | cons z zs =>
            rcases List.mem_cons.mp hx with rfl | hx
            · exact hy
            · exact ih List.mem_cons_self hx
        · exact ih (List.mem_cons_of_mem _ hline) hx

theorem splitAfter_eq_cons : ∀ {xs line : List α} {lines : List (List α)}, splitAfter isEnd xs = line :: lines →
    line ≠ [] ∧ splitAfter isEnd line = [line] ∧
      ∃ rest, xs = line ++ rest ∧ splitAfter isEnd rest = lines ∧ (Closed isEnd line ∨ rest = [])
  | [], line, lines, h => by cases h
  | x :: xs, line, lines, h => by
    rw [splitAfter_cons] at h
    unfold splitAfter.put at h
    cases hx : isEnd x with
    | true =>
      simp only [hx] at h
      cases h
      have hline : splitAfter isEnd [x] = [[x]] := by simp [splitAfter_cons, splitAfter_nil, splitAfter.put, hx]
      exact ⟨List.cons_ne_nil _ _, hline, xs, rfl, rfl, .inl hx⟩
    | false =>
      cases hs : splitAfter isEnd xs with
      | nil =>
        cases xs with
        | nil =>
          simp only [hx, hs] at h
          cases h
          have hline : splitAfter isEnd [x] = [[x]] := by simp [splitAfter_cons, splitAfter_nil, splitAfter.put, hx]
          exact ⟨List.cons_ne_nil _ _, hline, [], rfl, rfl, .inr rfl⟩
        | cons y ys => exact absurd hs (splitAfter_ne_nil isEnd y ys)
      | cons l ls =>
        simp only [hx, hs] at h
        cases h
        obtain ⟨hl, hline, rest, rfl, hrest, hclosed⟩ := splitAfter_eq_cons hs
        have hline : splitAfter isEnd (x :: l) = [x :: l] := by simp [splitAfter_cons, hline, splitAfter.put, hx]
        refine ⟨List.cons_ne_nil _ _, hline, rest, rfl, hrest, hclosed.imp_left fun hc => ?_⟩
        obtain ⟨y, l, rfl⟩ := List.exists_cons_of_ne_nil hl
        exact hc

theorem flatten_splitAfter : ∀ xs : List α, (splitAfter isEnd xs).flatten = xs
  | [] => rfl
  | x :: xs => by
    have ih := flatten_splitAfter xs
    rw [splitAfter_cons]
    cases hs : splitAfter isEnd xs with
    | nil =>
      rw [hs] at ih
      cases hx : isEnd x <;> simp [splitAfter.put, hx, ← ih]
    | cons line lines =>
      rw [hs] at ih
      cases hx : isEnd x <;> simp [splitAfter.put, hx, ← ih]

/-- Only the last line may lack its end. -/
theorem closed_flatten : ∀ {lines more : List (List α)} {xs : List α}, splitAfter isEnd xs = lines ++ more →
    more ≠ [] → Closed isEnd lines.flatten
  | [], _, _, _, _ => rfl
  | line :: lines, more, xs, h, hmore => by
    obtain ⟨hline, -, rest, -, hrest, hclosed⟩ := splitAfter_eq_cons h
    have hne : rest ≠ [] := by
      rintro rfl
      exact hmore (List.append_eq_nil_iff.mp hrest.symm).2
    have ih := closed_flatten hrest hmore
    have hlast := hclosed.resolve_right hne
    rw [List.flatten_cons, Closed, List.getLast?_append]
    cases hr : lines.flatten.getLast? with
    | none => exact hlast
    | some x =>
      rw [Closed, hr] at ih
      exact ih

theorem splitAfter_append_of_none : ∀ {xs : List α}, xs ≠ [] → (∀ x ∈ xs, isEnd x = false) → ∀ ys : List α,
    splitAfter isEnd (xs ++ ys) = match splitAfter isEnd ys with
      | [] => [xs]
      | line :: lines => (xs ++ line) :: lines
  | [], h, _, _ => absurd rfl h
  | [x], _, hno, ys => by
    have hx := hno x List.mem_cons_self
    rw [List.singleton_append, splitAfter_cons]
    unfold splitAfter.put
    cases splitAfter isEnd ys <;> simp [hx]
  | x :: y :: xs, _, hno, ys => by
    have hx := hno x List.mem_cons_self
    have ih := splitAfter_append_of_none (List.cons_ne_nil y xs) (fun z hz => hno z (List.mem_cons_of_mem x hz)) ys
    rw [List.cons_append, splitAfter_cons, ih]
    unfold splitAfter.put
    cases splitAfter isEnd ys <;> simp [hx]

/-- Lines may be cut before or after their elements are encoded, if only the ends of lines encode to such. -/
theorem splitAfter_flatMap {isEnd' : β → Bool} {f : α → List β}
    (hend : ∀ x, isEnd x = true → ∃ b, f x = [b] ∧ isEnd' b = true)
    (hno : ∀ x, isEnd x = false → f x ≠ [] ∧ ∀ b ∈ f x, isEnd' b = false) : ∀ xs : List α,
      splitAfter isEnd' (xs.flatMap f) = (splitAfter isEnd xs).map (·.flatMap f)
  | [] => rfl
  | x :: xs => by
    have ih := splitAfter_flatMap hend hno xs
    rw [List.flatMap_cons, splitAfter_cons]
    cases hx : isEnd x with
    | true =>
      obtain ⟨b, hb, hb'⟩ := hend x hx
      rw [hb, List.singleton_append, splitAfter_cons, ih]
      simp [splitAfter.put, hx, hb', hb]
    | false =>
      obtain ⟨hne, hno'⟩ := hno x hx
      rw [splitAfter_append_of_none hne hno', ih]
      cases splitAfter isEnd xs <;> simp [splitAfter.put, hx]

end

/-! ## A line feed at the end -/

namespace Lexeme

/-- The lexeme in a text with a line feed at the end. -/
def concat : Lexeme → Lexeme
  | blank rest => blank (rest ++ ['\n'])
  | token kind text rest => token kind text (rest ++ ['\n'])
  | illegal problem => illegal problem

/-- The lexeme is the same in a text with a line feed at the end, if it is legal. -/
def Stays (l l' : Lexeme) : Prop := l.rest?.isSome = true → l' = l.concat

section
variable {p : Char → Bool} (hp : p '\n' = false)
include hp

theorem takeWhile_concat : ∀ cs : List Char, (cs ++ ['\n']).takeWhile p = cs.takeWhile p
  | [] => by rw [List.nil_append, List.takeWhile_cons_of_neg (Bool.eq_false_iff.mp hp)]; rfl
  | c :: cs => by
    rw [List.cons_append, List.takeWhile_cons, List.takeWhile_cons, takeWhile_concat cs]

theorem dropWhile_concat : ∀ cs : List Char, (cs ++ ['\n']).dropWhile p = cs.dropWhile p ++ ['\n']
  | [] => by rw [List.nil_append, List.dropWhile_cons_of_neg (Bool.eq_false_iff.mp hp)]; rfl
  | c :: cs => by
    rw [List.cons_append, List.dropWhile_cons, List.dropWhile_cons, dropWhile_concat cs]
    split <;> rfl

end

theorem quoted_concat {cs content rest : List Char} (h : quoted cs = .ok (content, rest)) :
    quoted (cs ++ ['\n']) = .ok (content, rest ++ ['\n']) := by
  fun_induction quoted cs generalizing content rest with
  | case1 | case3 | case4 | case5 => cases h
  | case2 => cases h; rfl
  | case6 c r e he ih =>
    obtain ⟨content', rfl, hq⟩ := quoted_of_map h
    rw [List.cons_append, List.cons_append, quoted, he, ih hq]
    rfl
  | case7 c r hquote hfeed hlast hescape ih =>
    obtain ⟨content', rfl, hq⟩ := quoted_of_map h
    have hback : c ≠ '\\' := by
      intro hc
      cases r with
      | nil => exact hlast hc rfl
      | cons d r => exact hescape d r hc rfl
    rw [List.cons_append, quoted, ih hq]
    · rfl
    · exact hquote
    · exact hfeed
    · exact fun hc _ => hback hc
    · exact fun _ _ hc _ => hback hc

theorem integer_stays (digits rest : List Char) :
    Stays (number.integer digits rest) (number.integer digits (rest ++ ['\n'])) := by
  intro h
  unfold number.integer at *
  split at h
  · rename_i hn
    rw [if_pos hn, if_pos hn]
    rfl
  · cases h

theorem number_stays (cs : List Char) : Stays (number cs) (number (cs ++ ['\n'])) := by
  intro h
  unfold number at *
  simp only [takeWhile_concat (p := Char.isDigit) rfl, dropWhile_concat (p := Char.isDigit) rfl] at *
  generalize cs.dropWhile Char.isDigit = us at *
  generalize cs.takeWhile Char.isDigit = whole at *
  split at h
  · rename_i d rest
    simp only [List.cons_append]
    by_cases hd : d.isDigit = true
    · rw [if_pos hd, if_pos hd, ← List.cons_append, takeWhile_concat rfl, dropWhile_concat rfl]
      rfl
    · rw [if_neg hd] at h
      rw [if_neg hd, if_neg hd]
      exact integer_stays whole ('.' :: d :: rest) h
  · rename_i hne
    split
    · -- the line feed is no digit behind a point
      rename_i d rest heq
      rcases us with _ | ⟨u, _ | ⟨v, us⟩⟩
      · cases heq
      · cases heq
        exact integer_stays whole ['.'] h
      · cases heq
        exact absurd rfl (hne _ _)
    · exact integer_stays whole us h

theorem word_stays (c : Char) (cs : List Char) : Stays (word c cs) (word c (cs ++ ['\n'])) := by
  intro h
  unfold word at *
  simp only [takeWhile_concat (p := isWordChar) rfl, dropWhile_concat (p := isWordChar) rfl] at *
  split at h
  · cases h
  · rename_i hc
    rw [if_neg hc, if_neg hc]
    rfl

theorem extended_stays {first second : Char} (hs : second ≠ '\n') (short long : Kind) (cs : List Char) :
    Stays (extended first second short long cs) (extended first second short long (cs ++ ['\n'])) := by
  intro _
  cases cs with
  | nil =>
    simp only [List.nil_append, extended, if_neg hs.symm]
    rfl
  | cons c cs =>
    simp only [List.cons_append, extended]
    split <;> rfl

theorem doubled_stays (c : Char) (kind : Kind) (cs : List Char) :
    Stays (doubled c kind cs) (doubled c kind (cs ++ ['\n'])) := by
  intro h
  cases cs with
  | nil => cases h
  | cons d cs =>
    simp only [List.cons_append, doubled] at *
    split at h
    · rename_i hd
      rw [if_pos hd, if_pos hd]
      rfl
    · cases h

theorem punctuation_stays (c : Char) (cs : List Char) : Stays (punctuation c cs) (punctuation c (cs ++ ['\n'])) := by
  unfold punctuation
  split
  all_goals first
    | exact fun _ => rfl
    | exact extended_stays (by decide) _ _ _
    | exact doubled_stays _ _ _

theorem read_stays (c : Char) (cs : List Char) : Stays (read c cs) (read c (cs ++ ['\n'])) := by
  unfold read
  split
  · exact fun _ => rfl
  split
  · intro _
    rw [dropWhile_concat (by decide)]
    rfl
  split
  · intro h
    cases hq : quoted cs with
    | error problem => rw [hq] at h; cases h
    | ok r => rw [quoted_concat hq]; rfl
  split
  · exact number_stays (c :: cs)
  split
  · exact word_stays c cs
  · exact punctuation_stays c cs

end Lexeme

section
variable {line : Nat} {c : Char} {cs rest text : List Char} {kind : Kind} {problem : LexicalProblem}

theorem scan_blank (h : Lexeme.read c cs = .blank rest) : scan line (c :: cs) = scan line rest := by
  rw [scan]
  split <;> rename_i hl <;> rw [h] at hl <;> cases hl
  rfl

theorem scan_token (h : Lexeme.read c cs = .token kind text rest) :
    scan line (c :: cs) = (scan line rest).map (⟨kind, String.ofList text, line⟩ :: ·) := by
  rw [scan]
  split <;> rename_i hl <;> rw [h] at hl <;> cases hl
  rfl

theorem scan_illegal (h : Lexeme.read c cs = .illegal problem) :
    scan line (c :: cs) = .error ⟨line, .lexical problem⟩ := by
  rw [scan]
  split <;> rename_i hl <;> rw [h] at hl <;> cases hl
  rfl

theorem scan_space (h : Lexeme.isSpace c = true) : scan line (c :: cs) = scan line cs := by
  apply scan_blank
  unfold Lexeme.read
  rw [if_pos h]

end

theorem scan_spaces (line : Nat) {cs : List Char} (h : ∀ c ∈ cs, Lexeme.isSpace c = true) :
    scan line cs = .ok [] := by
  induction cs with
  | nil => rw [scan]
  | cons c cs ih =>
    rw [List.forall_mem_cons] at h
    rw [scan_space h.1]
    exact ih h.2

theorem scan_concat {line : Nat} {cs : List Char} {ts : List Token} (h : scan line cs = .ok ts) :
    scan line (cs ++ ['\n']) = .ok ts := by
  -- along the lexemes; a legal one ends before the line feed or takes it for a blank
  fun_induction scan line cs generalizing ts with
  | case1 =>
    cases h
    rw [List.nil_append, scan_blank (c := '\n') rfl, scan]
  | case2 c cs rest hl hlen ih =>
    have hl' := Lexeme.read_stays c cs (by rw [hl]; rfl)
    rw [hl] at hl'
    rw [List.cons_append, scan_blank hl']
    exact ih h
  | case3 c cs kind text rest hl hlen ih =>
    have hl' := Lexeme.read_stays c cs (by rw [hl]; rfl)
    rw [hl] at hl'
    rw [List.cons_append, scan_token hl']
    cases hr : scan line rest with
    | error f => rw [hr] at h; cases h
    | ok us => rw [ih hr, ← h, hr]
  | case4 => cases h

/-! ## Other lines -/

/-- What scanning or joining finds, with other lines. -/
def movedBy {α : Type} (g : Nat → Nat) (u : α → α) : Except Fault α → Except Fault α
  | .error f => .error (f.mapLine g)
  | .ok a => .ok (u a)

theorem scan_mapLine (g : Nat → Nat) (line : Nat) (cs : List Char) :
    scan (g line) cs = movedBy g (List.map (Token.mapLine g)) (scan line cs) := by
  fun_induction scan line cs with
  | case1 => rw [scan]; rfl
  | case2 c cs rest hl hlen ih => rw [scan_blank hl, ih]
  | case3 c cs kind text rest hl hlen ih =>
    rw [scan_token hl, ih]
    cases scan line rest <;> rfl
  | case4 c cs problem hl => rw [scan_illegal hl]; rfl

/-- Scans physical lines, of which the first has the given number. -/
def scanFrom (line : Nat) : List (List Char) → Except Fault (List (List Token))
  | [] => .ok []
  | cs :: rest => do
    let ts ← scan line cs
    return ts :: (← scanFrom (line + 1) rest)

theorem scanFrom_append (line : Nat) (more : List (List Char)) : ∀ lines : List (List Char),
    scanFrom line (lines ++ more) = (do
      let tss ← scanFrom line lines
      return tss ++ (← scanFrom (line + lines.length) more))
  | [] => by
    show scanFrom line more = (scanFrom line more >>= fun uss => pure uss)
    cases scanFrom line more <;> rfl
  | cs :: lines => by
    rw [List.cons_append, scanFrom, scanFrom, scanFrom_append (line + 1) more lines, List.length_cons,
      show line + 1 + lines.length = line + (lines.length + 1) by omega]
    cases scan line cs with
    | error f => rfl
    | ok ts =>
      cases scanFrom (line + 1) lines with
      | error f => rfl
      | ok tss => cases scanFrom (line + (lines.length + 1)) more <;> rfl

theorem scanFrom_add (k line : Nat) : ∀ lines : List (List Char),
    scanFrom (line + k) lines = movedBy (· + k) (mapLines (· + k)) (scanFrom line lines)
  | [] => rfl
  | cs :: lines => by
    rw [scanFrom, scanFrom, show line + k + 1 = line + 1 + k by omega, scanFrom_add k (line + 1) lines,
      scan_mapLine (· + k) line cs]
    cases scan line cs with
    | error f => rfl
    | ok ts => cases scanFrom (line + 1) lines <;> rfl

/-! ## Joining -/

theorem Token.isDangling_mapLine (g : Nat → Nat) (ts : List Token) :
    isDangling (ts.map (Token.mapLine g)) = isDangling ts := by
  rw [isDangling, balance, List.foldr_map, List.getLast?_map, Option.any_map]
  rfl

namespace LogicalLine

theorem ofSource_eq (source : String) :
    ofSource source = (scanFrom 1 (physicalLines source.toList)).map (join []) := by
  have h (lines : List (List Char)) (n : Nat) :
      (lines.zipIdx n).mapM (fun p => scan p.2 p.1) = scanFrom n lines := by
    induction lines generalizing n with
    | nil => rfl
    | cons cs lines ih => rw [List.zipIdx_cons, List.mapM_cons, ih, scanFrom]
  show (((physicalLines source.toList).zipIdx 1).mapM fun p => scan p.2 p.1) >>= (fun lines => pure (join [] lines)) = _
  rw [h]
  cases scanFrom 1 (physicalLines source.toList) <;> rfl

/-- Tokens wait for more only if they are nothing yet or dangle. -/
def Waits (pending : LogicalLine) : Prop := pending = [] ∨ Token.isDangling pending = true

theorem waits_of_goes {line : LogicalLine} (h : (line.isEmpty || Token.isDangling line) = true) : Waits line := by
  rcases Bool.or_eq_true_iff.mp h with h | h
  · exact Or.inl (List.isEmpty_iff.mp h)
  · exact Or.inr h

theorem join_append (more : List (List Token)) : ∀ {lines : List (List Token)} {pending : LogicalLine},
    Waits pending → (∀ line ∈ join pending lines, Token.isDangling line = false) →
      join pending (lines ++ more) = join pending lines ++ join [] more
  | [], pending, hw, h => by
    rcases hw with rfl | hw
    · rfl
    · unfold join at h
      split at h
      · rename_i he
        rw [List.isEmpty_iff.mp he] at hw
        cases hw
      · rw [h pending List.mem_cons_self] at hw
        cases hw
  | ts :: lines, pending, _, h => by
    rw [List.cons_append, join, join]
    rw [join] at h
    split
    · rename_i hgo
      rw [if_pos hgo] at h
      exact join_append more (waits_of_goes hgo) h
    · rename_i hgo
      rw [if_neg hgo] at h
      rw [List.cons_append]
      exact congrArg _ (join_append more (Or.inl rfl) fun line hl => h line (List.mem_cons_of_mem _ hl))

theorem join_concat_nil : ∀ {lines : List (List Token)} {pending : LogicalLine}, Waits pending →
    join pending (lines ++ [[]]) = join pending lines
  | [], pending, hw => by
    simp only [List.nil_append, join, List.append_nil]
    rcases hw with rfl | hw
    · rfl
    · rw [hw, Bool.or_true, if_pos rfl]
  | ts :: lines, pending, _ => by
    rw [List.cons_append, join, join]
    split
    · rename_i hgo
      exact join_concat_nil (waits_of_goes hgo)
    · exact congrArg _ (join_concat_nil (Or.inl rfl))

theorem join_mapLine (g : Nat → Nat) : ∀ (lines : List (List Token)) (pending : LogicalLine),
    join (pending.map (Token.mapLine g)) (mapLines g lines) = mapLines g (join pending lines)
  | [], pending => by
    cases pending <;> rfl
  | ts :: lines, pending => by
    rw [mapLines, List.map_cons, join, join, ← List.map_append, Token.isDangling_mapLine, List.isEmpty_map]
    split
    · exact join_mapLine g lines (pending ++ ts)
    · exact congrArg _ (join_mapLine g lines [])

theorem ne_nil_of_mem_join : ∀ {lines : List (List Token)} {pending line : LogicalLine},
    line ∈ join pending lines → line ≠ []
  | [], pending, line, h => by
    unfold join at h
    split at h
    · cases h
    · rename_i he
      rw [List.mem_singleton.mp h]
      exact fun hp => he (List.isEmpty_iff.mpr hp)
  | ts :: lines, pending, line, h => by
    rw [join] at h
    split at h
    · exact ne_nil_of_mem_join h
    · rename_i hgo
      rcases List.mem_cons.mp h with rfl | h
      · intro he
        rw [he] at hgo
        exact hgo rfl
      · exact ne_nil_of_mem_join h

end LogicalLine

end Sprig
