import Mathlib.Data.List.TakeWhile
import Sprig.Proofs.ScanLines

/-!
# Tokens are scanned as they are written

Logical lines are written one to a physical line, with a space between tokens, and with the escapes of a string put
back. That is enough for every token to be scanned as it was, since none of them can go on with a space or a line feed
(`Lexeme.Again`), and for every line to be a logical line again (`LogicalLine.Joined`).

Main statement: `LogicalLine.ofSource_print`.
-/

namespace Sprig

/-! ## Writing -/

namespace Lexeme

/-- How a character stands in a string literal. -/
def escaped : Char → List Char
  | '"' => ['\\', '"']
  | '\\' => ['\\', '\\']
  | '\n' => ['\\', 'n']
  | '\t' => ['\\', 't']
  | c => [c]

def written (kind : Kind) (text : List Char) : List Char :=
  if kind = .string then '"' :: (text.flatMap escaped ++ ['"']) else text

end Lexeme

def Token.written (t : Token) : List Char := Lexeme.written t.kind t.text.toList

namespace LogicalLine

/-- Without the line feed. -/
def spaced (line : LogicalLine) : List Char := [' '].intercalate (line.map Token.written)

def written (line : LogicalLine) : List Char := line.spaced ++ ['\n']

def print (lines : List LogicalLine) : String := String.ofList (lines.flatMap written)

/-- The lines with the physical lines they stand on if the first one has the given number. -/
def numbered (first : Nat) : List LogicalLine → List LogicalLine
  | [] => []
  | line :: lines => line.map (Token.mapLine fun _ => first) :: numbered (first + 1) lines

end LogicalLine

/-! ## Tokens -/

namespace Lexeme

/-- A space or the end of the text comes next. -/
def Apart (tail : List Char) : Prop := tail.head?.all isSpace = true

section
variable {c first second : Char} {cs text tail rest digits fraction : List Char} {kind short long : Kind}

theorem apart_cons : Apart (c :: cs) ↔ isSpace c = true := Iff.rfl

theorem isSpace_iff : isSpace c = true ↔ c = ' ' ∨ c = '\t' ∨ c = '\r' ∨ c = '\n' := by
  simp [isSpace, or_assoc]

/-- No space is among the characters with this property. -/
def Tight (p : Char → Bool) : Prop := ∀ c, isSpace c = true → p c = false

theorem tight_isDigit : Tight Char.isDigit := by
  intro c hc
  rcases isSpace_iff.mp hc with rfl | rfl | rfl | rfl <;> rfl

theorem tight_isWordChar : Tight isWordChar := by
  intro c hc
  rcases isSpace_iff.mp hc with rfl | rfl | rfl | rfl <;> rfl

theorem Tight.not_mem {p : Char → Bool} (hp : Tight p) (ht : ∀ c ∈ text, p c = true) : '\n' ∉ text := by
  intro hmem
  have hfeed := hp '\n' rfl
  rw [ht _ hmem] at hfeed
  cases hfeed

theorem Tight.span {p : Char → Bool} (hp : Tight p) (ht : ∀ c ∈ text, p c = true) (h : Apart tail) :
    (text ++ tail).takeWhile p = text ∧ (text ++ tail).dropWhile p = tail := by
  rw [List.takeWhile_append_of_pos ht, List.dropWhile_append_of_pos ht]
  cases tail with
  | nil => simp
  | cons c cs =>
    have hc := hp c (apart_cons.mp h)
    simp [hc]

/-- The token that `f` finds behind the character `first` is found again where a space comes next. -/
structure Again (f : List Char → Lexeme) (first : Char) (kind : Kind) (text : List Char) : Prop where
  notString : kind ≠ .string
  noFeed : '\n' ∉ text
  reads : ∃ more, text = first :: more ∧ ∀ ⦃tail⦄, Apart tail → f (more ++ tail) = .token kind text tail

theorem quoted_escaped (tail : List Char) : ∀ text : List Char,
    quoted (text.flatMap escaped ++ '"' :: tail) = .ok (text, tail)
  | [] => rfl
  | c :: text => by
    have ih := quoted_escaped tail text
    rw [List.flatMap_cons, List.append_assoc]
    generalize text.flatMap escaped ++ '"' :: tail = cs at ih ⊢
    unfold escaped
    split
    · simp [quoted, escape?, ih, Except.map]
    · simp [quoted, escape?, ih, Except.map]
    · simp [quoted, escape?, ih, Except.map]
    · simp [quoted, escape?, ih, Except.map]
    · rename_i hquote hback hfeed htab
      rw [List.singleton_append, quoted, ih]
      · rfl
      · exact hquote
      · exact hfeed
      · exact fun hc _ => hback hc
      · exact fun _ _ hc _ => hback hc

theorem not_mem_escaped (c : Char) : '\n' ∉ escaped c := by
  unfold escaped
  split <;> simp_all [eq_comm]

theorem ofWord_ne_string (word : String) : Kind.ofWord word ≠ .string := by
  unfold Kind.ofWord
  cases h : Kind.reserved.lookup word with
  | none => decide
  | some k =>
    obtain ⟨l₁, l₂, heq, -⟩ := List.lookup_eq_some_iff.mp h
    have hall : ∀ p ∈ Kind.reserved, p.2 ≠ .string := by decide
    exact hall (word, k) (by simp [heq])

theorem number_integer (hd : ∀ c ∈ digits, c.isDigit = true) (hn : Integer.naturalOfDigits digits < Nat.pow 2 63)
    (h : Apart tail) : number (digits ++ tail) = .token .integer digits tail := by
  obtain ⟨htake, hdrop⟩ := tight_isDigit.span hd h
  unfold number
  simp only [htake, hdrop]
  split
  · cases apart_cons.mp h
  · rw [number.integer, if_pos hn]

theorem number_float (hd : ∀ c ∈ digits, c.isDigit = true) (hc : c.isDigit = true)
    (hf : ∀ c ∈ fraction, c.isDigit = true) (h : Apart tail) :
    number (digits ++ '.' :: c :: fraction ++ tail) = .token .float (digits ++ '.' :: c :: fraction) tail := by
  have hcf : ∀ d ∈ c :: fraction, d.isDigit = true := List.forall_mem_cons.mpr ⟨hc, hf⟩
  obtain ⟨htake, hdrop⟩ := tight_isDigit.span hcf h
  have hpoint : Char.isDigit '.' = false := rfl
  unfold number
  rw [List.append_assoc, List.takeWhile_append_of_pos hd, List.dropWhile_append_of_pos hd]
  simp only [List.cons_append] at htake hdrop ⊢
  simp [hpoint, hc, htake, hdrop]

theorem again_number (hc : c.isDigit = true) (h : number (c :: cs) = .token kind text rest) :
    Again (fun more => number (c :: more)) c kind text := by
  have hdigits : ∀ d ∈ c :: cs.takeWhile Char.isDigit, d.isDigit = true :=
    List.forall_mem_cons.mpr ⟨hc, fun d hd => List.mem_takeWhile_imp hd⟩
  have hinteger {us} (h : number.integer (c :: cs.takeWhile Char.isDigit) us = .token kind text rest) :
      Again (fun more => number (c :: more)) c kind text := by
    unfold number.integer at h
    split at h
    · rename_i hn
      cases h
      exact ⟨by decide, tight_isDigit.not_mem hdigits, _, rfl, fun tail ht => number_integer hdigits hn ht⟩
    · cases h
  unfold number at h
  simp only [List.takeWhile_cons_of_pos hc] at h
  split at h
  · rename_i d us _
    by_cases hd : d.isDigit = true
    · rw [if_pos hd, List.takeWhile_cons_of_pos hd] at h
      cases h
      have hfraction : ∀ x ∈ us.takeWhile Char.isDigit, x.isDigit = true := fun x hx => List.mem_takeWhile_imp hx
      refine ⟨by decide, ?_, _, rfl, fun tail ht => number_float hdigits hd hfraction ht⟩
      have hfeed := tight_isDigit.not_mem hdigits
      have hfeed' := tight_isDigit.not_mem (List.forall_mem_cons.mpr ⟨hd, hfraction⟩)
      rw [List.mem_append, not_or]
      exact ⟨hfeed, List.not_mem_cons_of_ne_of_not_mem (by decide) hfeed'⟩
    · rw [if_neg hd] at h
      exact hinteger h
  · exact hinteger h

theorem again_word (hc : c ≠ '\n') (h : word c cs = .token kind text rest) : Again (word c) c kind text := by
  have hchars : ∀ d ∈ cs.takeWhile isWordChar, isWordChar d = true := fun d hd => List.mem_takeWhile_imp hd
  unfold word at h
  simp only at h
  split at h
  · cases h
  · rename_i hname
    cases h
    refine ⟨ofWord_ne_string _, ?_, _, rfl, fun tail ht => ?_⟩
    · have hfeed := tight_isWordChar.not_mem hchars
      simp [hc.symm, hfeed]
    · obtain ⟨htake, hdrop⟩ := tight_isWordChar.span hchars ht
      unfold word
      simp only [htake, hdrop]
      rw [if_neg hname]

theorem again_extended (hfirst : first ≠ '\n') (hs : isSpace second = false) (hshort : short ≠ .string)
    (hlong : long ≠ .string) (h : extended first second short long cs = .token kind text rest) :
    Again (extended first second short long) first kind text := by
  have hfeed : second ≠ '\n' := fun he => by rw [he] at hs; cases hs
  have hagain : Again (extended first second short long) first short [first] := by
    refine ⟨hshort, by simp [hfirst.symm], [], rfl, fun tail ht => ?_⟩
    cases tail with
    | nil => rfl
    | cons c cs =>
      have hc : c ≠ second := fun he => by rw [he, apart_cons, hs] at ht; cases ht
      simp [extended, hc]
  cases cs with
  | nil =>
    cases h
    exact hagain
  | cons c cs =>
    simp only [extended] at h
    split at h
    · cases h
      exact ⟨hlong, by simp [hfirst.symm, hfeed.symm], [second], rfl, fun tail _ => by simp [extended]⟩
    · cases h
      exact hagain

theorem again_doubled (hc : c ≠ '\n') (hshort : short ≠ .string) (h : doubled c short cs = .token kind text rest) :
    Again (doubled c short) c kind text := by
  cases cs with
  | nil => cases h
  | cons d cs =>
    simp only [doubled] at h
    split at h
    · cases h
      exact ⟨hshort, by simp [hc.symm], [c], rfl, fun tail _ => by simp [doubled]⟩
    · cases h

theorem again_single (hc : c ≠ '\n') (hk : kind ≠ .string) : Again (.token kind [c]) c kind [c] :=
  ⟨hk, by simp [hc.symm], [], rfl, fun _ _ => rfl⟩

theorem again_punctuation (h : punctuation c cs = .token kind text rest) : Again (punctuation c) c kind text := by
  unfold punctuation at h
  split at h
  case h_15 => cases h
  all_goals first
    | exact again_extended (by decide) rfl (by decide) (by decide) h
    | exact again_doubled (by decide) (by decide) h
    | (cases h; exact again_single (by decide) (by decide))

theorem not_mem_written_string : '\n' ∉ written .string text := by
  simp [written, not_mem_escaped]

theorem read_cases (h : read c cs = .token kind text rest) :
    (c = '"' ∧ kind = .string ∧ quoted cs = .ok (text, rest)) ∨
      (c.isDigit = true ∧ number (c :: cs) = .token kind text rest) ∨
      (isWordStart c = true ∧ word c cs = .token kind text rest) ∨ punctuation c cs = .token kind text rest := by
  unfold read at h
  split at h
  · cases h
  split at h
  · cases h
  split at h
  · rename_i hc
    split at h
    · rename_i hq
      cases h
      exact .inl ⟨hc, rfl, hq⟩
    · cases h
  split at h
  · rename_i hdigit
    exact .inr (.inl ⟨hdigit, h⟩)
  split at h
  · rename_i hword
    exact .inr (.inr (.inl ⟨hword, h⟩))
  · exact .inr (.inr (.inr h))

/-- Written out, the token is read as it was. -/
theorem read_written (h : read c cs = .token kind text rest) : '\n' ∉ written kind text ∧
    ∃ first more, written kind text = first :: more ∧
      ∀ ⦃tail⦄, Apart tail → read first (more ++ tail) = .token kind text tail := by
  unfold read at h
  split at h
  · cases h
  rename_i hspace
  split at h
  · cases h
  rename_i hcomment
  split at h
  · split at h
    · rename_i content us _
      cases h
      refine ⟨not_mem_written_string, '"', text.flatMap escaped ++ ['"'], rfl, fun tail _ => ?_⟩
      rw [List.append_assoc, List.singleton_append]
      simp [read, isSpace, quoted_escaped]
    · cases h
  rename_i hquote
  have hfeed : c ≠ '\n' := fun he => hspace (by rw [he]; rfl)
  have hplain {f : List Char → Lexeme} (hf : ∀ more, read c more = f more) (h : Again f c kind text) :
      '\n' ∉ written kind text ∧ ∃ first more, written kind text = first :: more ∧
        ∀ ⦃tail⦄, Apart tail → read first (more ++ tail) = .token kind text tail := by
    obtain ⟨more, hmore, hreads⟩ := h.reads
    rw [written, if_neg h.notString]
    exact ⟨h.noFeed, c, more, hmore, fun tail ht => (hf _).trans (hreads ht)⟩
  split at h
  · rename_i hdigit
    exact hplain (fun more => by simp [read, hspace, hcomment, hquote, hdigit]) (again_number hdigit h)
  rename_i hdigit
  split at h
  · rename_i hword
    exact hplain (fun more => by simp [read, hspace, hcomment, hquote, hdigit, hword]) (again_word hfeed h)
  · rename_i hword
    exact hplain (fun more => by simp [read, hspace, hcomment, hquote, hdigit, hword]) (again_punctuation h)

end

end Lexeme

/-- Written out, the token stays on its line and is read as it is. -/
structure Token.Rereads (t : Token) : Prop where
  noFeed : '\n' ∉ t.written
  reads : ∃ first more, t.written = first :: more ∧
    ∀ ⦃tail⦄, Lexeme.Apart tail → Lexeme.read first (more ++ tail) = .token t.kind t.text.toList tail

theorem forall_of_scan {P : Token → Prop} {n : Nat} (hread : ∀ {c : Char} {cs text rest : List Char} {kind : Kind},
    Lexeme.read c cs = .token kind text rest → P ⟨kind, String.ofList text, n⟩) {cs : List Char} {ts : List Token}
    (h : scan n cs = .ok ts) : ∀ t ∈ ts, P t := by
  fun_induction scan n cs generalizing ts with
  | case1 =>
    cases h
    exact fun _ ht => by cases ht
  | case2 _ _ _ _ _ ih => exact ih h
  | case3 c cs kind text rest hl _ ih =>
    cases hr : scan n rest with
    | error f =>
      rw [hr] at h
      cases h
    | ok us =>
      rw [hr] at h
      cases h
      exact List.forall_mem_cons.mpr ⟨hread hl, ih hr⟩
  | case4 => cases h

theorem Token.rereads_of_scan {n : Nat} {cs : List Char} {ts : List Token} (h : scan n cs = .ok ts) :
    ∀ t ∈ ts, t.Rereads := by
  refine forall_of_scan (fun hl => ?_) h
  obtain ⟨hfeed, hreads⟩ := Lexeme.read_written hl
  constructor
  · simpa [Token.written] using hfeed
  · simpa [Token.written] using hreads

theorem Token.Rereads.scan {t : Token} (h : t.Rereads) (n : Nat) {tail : List Char} (ht : Lexeme.Apart tail) :
    Sprig.scan n (t.written ++ tail) = (Sprig.scan n tail).map (t.mapLine (fun _ => n) :: ·) := by
  obtain ⟨first, more, hw, hreads⟩ := h.reads
  rw [hw, List.cons_append, scan_token (hreads ht), String.ofList_toList]
  rfl

/-! ## Lines -/

theorem splitAfter_line {α : Type} {isEnd : α → Bool} {e : α} (he : isEnd e = true) :
    ∀ {xs : List α}, (∀ x ∈ xs, isEnd x = false) → splitAfter isEnd (xs ++ [e]) = [xs ++ [e]]
  | [], _ => by simp [splitAfter_cons, splitAfter_nil, splitAfter.put, he]
  | x :: xs, h => by
    rw [List.forall_mem_cons] at h
    simp [splitAfter_cons, splitAfter_line he h.2, splitAfter.put, h.1]

namespace LogicalLine

@[simp] theorem spaced_singleton (t : Token) : spaced [t] = t.written := by
  simp [spaced]

@[simp] theorem spaced_cons_cons (t t' : Token) (line : LogicalLine) :
    spaced (t :: t' :: line) = t.written ++ ' ' :: spaced (t' :: line) := by
  simp [spaced, List.intercalate_cons_cons]

theorem scan_feed (n : Nat) : scan n ['\n'] = .ok [] :=
  scan_spaces n (List.forall_mem_singleton.mpr rfl)

theorem scan_written (n : Nat) : ∀ {line : LogicalLine}, (∀ t ∈ line, t.Rereads) →
    scan n line.written = .ok (line.map (Token.mapLine fun _ => n))
  | [], _ => scan_feed n
  | [t], h => by
    have ht := h t List.mem_cons_self
    rw [written, spaced_singleton, ht.scan n (Lexeme.apart_cons.mpr rfl), scan_feed]
    rfl
  | t :: t' :: line, h => by
    rw [List.forall_mem_cons] at h
    have ih := scan_written n h.2
    rw [written] at ih ⊢
    rw [spaced_cons_cons, List.append_assoc, List.cons_append, h.1.scan n (Lexeme.apart_cons.mpr rfl),
      scan_space rfl, ih]
    rfl

theorem noFeed_spaced : ∀ {line : LogicalLine}, (∀ t ∈ line, t.Rereads) → '\n' ∉ line.spaced
  | [], _ => List.not_mem_nil
  | [t], h => by
    rw [spaced_singleton]
    exact (h t List.mem_cons_self).noFeed
  | t :: t' :: line, h => by
    rw [List.forall_mem_cons] at h
    simp [h.1.noFeed, noFeed_spaced h.2]

theorem physicalLines_written : ∀ {lines : List LogicalLine}, (∀ line ∈ lines, ∀ t ∈ line, t.Rereads) →
    physicalLines (lines.flatMap written) = lines.map written
  | [], _ => rfl
  | line :: lines, h => by
    rw [List.forall_mem_cons] at h
    have hclosed : Closed (· == '\n') line.written := by simp [Closed, written]
    have hline : physicalLines line.written = [line.written] :=
      splitAfter_line rfl fun c hc => beq_eq_false_iff_ne.mpr fun he => noFeed_spaced h.1 (he ▸ hc)
    rw [List.flatMap_cons, physicalLines, splitAfter_append _ hclosed, ← physicalLines, ← physicalLines, hline,
      physicalLines_written h.2]
    rfl

theorem scanFrom_written (first : Nat) : ∀ {lines : List LogicalLine}, (∀ line ∈ lines, ∀ t ∈ line, t.Rereads) →
    scanFrom first (lines.map written) = .ok (numbered first lines)
  | [], _ => rfl
  | line :: lines, h => by
    rw [List.forall_mem_cons] at h
    rw [List.map_cons, scanFrom, scan_written first h.1, scanFrom_written (first + 1) h.2]
    rfl

theorem exists_of_scanFrom : ∀ {lines : List (List Char)} {first : Nat} {tss : List (List Token)},
    scanFrom first lines = .ok tss → ∀ ts ∈ tss, ∃ n cs, lines[n]? = some cs ∧ scan (first + n) cs = .ok ts
  | [], _, _, h => by
    cases h
    simp
  | cs :: lines, first, tss, h => by
    rw [scanFrom] at h
    cases hs : scan first cs with
    | error f =>
      rw [hs] at h
      cases h
    | ok ts =>
      cases hr : scanFrom (first + 1) lines with
      | error f =>
        rw [hs, hr] at h
        cases h
      | ok tss =>
        rw [hs, hr] at h
        cases h
        refine List.forall_mem_cons.mpr ⟨⟨0, cs, rfl, hs⟩, fun us hus => ?_⟩
        obtain ⟨n, ds, hds, hscan⟩ := exists_of_scanFrom hr us hus
        refine ⟨n + 1, ds, hds, ?_⟩
        rwa [Nat.add_assoc, Nat.add_comm 1 n] at hscan

theorem rereads_of_scanFrom {lines : List (List Char)} {first : Nat} {tss : List (List Token)}
    (h : scanFrom first lines = .ok tss) : ∀ ts ∈ tss, ∀ t ∈ ts, t.Rereads := by
  intro ts hts
  obtain ⟨n, cs, -, hscan⟩ := exists_of_scanFrom h ts hts
  exact Token.rereads_of_scan hscan

/-! ## Joining -/

/-- No line is empty, and none but the last waits for more. -/
inductive Joined : List LogicalLine → Prop where
  | nil : Joined []
  | last {line} : line ≠ [] → Joined [line]
  | cons {line lines} : line ≠ [] → Token.isDangling line = false → Joined lines → Joined (line :: lines)

theorem joined_join : ∀ (tss : List (List Token)) (pending : LogicalLine), Joined (join pending tss)
  | [], pending => by
    unfold join
    by_cases hp : pending = []
    · simp [hp, Joined.nil]
    · simp [hp, Joined.last]
  | ts :: tss, pending => by
    rw [join]
    by_cases hgo : ((pending ++ ts).isEmpty || Token.isDangling (pending ++ ts)) = true
    · rw [if_pos hgo]
      exact joined_join tss (pending ++ ts)
    · rw [if_neg hgo]
      rw [Bool.or_eq_true, not_or, List.isEmpty_iff, Bool.not_eq_true] at hgo
      exact .cons hgo.1 hgo.2 (joined_join tss [])

theorem Joined.join {lines : List LogicalLine} (h : Joined lines) : LogicalLine.join [] lines = lines := by
  induction h with
  | nil => rfl
  | @last line hline => cases hd : Token.isDangling line <;> simp [LogicalLine.join, hline, hd]
  | cons hline hdangling _ ih => simp [LogicalLine.join, hline, hdangling, ih]

theorem Joined.numbered {lines : List LogicalLine} (h : Joined lines) (first : Nat) :
    Joined (numbered first lines) := by
  induction h generalizing first with
  | nil => exact .nil
  | last hline => exact .last (by simpa using hline)
  | cons hline hdangling _ ih =>
    refine .cons (by simpa using hline) ?_ (ih (first + 1))
    rwa [Token.isDangling_mapLine]

theorem forall_mem_join {P : Token → Prop} : ∀ {tss : List (List Token)} {pending : LogicalLine},
    (∀ t ∈ pending, P t) → (∀ ts ∈ tss, ∀ t ∈ ts, P t) → ∀ line ∈ join pending tss, ∀ t ∈ line, P t
  | [], pending, hp, _ => by
    unfold join
    by_cases he : pending.isEmpty = true
    · simp [he]
    · simpa [he] using hp
  | ts :: tss, pending, hp, h => by
    rw [List.forall_mem_cons] at h
    have hline := List.forall_mem_append.mpr ⟨hp, h.1⟩
    rw [join]
    split
    · exact forall_mem_join hline h.2
    · refine List.forall_mem_cons.mpr ⟨hline, forall_mem_join ?_ h.2⟩
      simp

theorem map_numbered (first : Nat) (lines : List LogicalLine) :
    (numbered first lines).map (·.map fun t => (t.kind, t.text)) = lines.map (·.map fun t => (t.kind, t.text)) := by
  induction lines generalizing first with
  | nil => rfl
  | cons line lines ih => simp [numbered, ih]

/-- **Tokens are scanned as they are written.** If a source has logical lines, they can be written one to a physical
line, tokens a space apart and strings with their escapes: scanned again, the text has the same logical lines, with
the same kinds and texts, only on other physical lines. -/
theorem ofSource_print {source : String} {lines : List LogicalLine} (h : ofSource source = .ok lines) :
    ofSource (print lines) = .ok (numbered 1 lines) ∧
      (numbered 1 lines).map (·.map fun t => (t.kind, t.text)) = lines.map (·.map fun t => (t.kind, t.text)) := by
  refine ⟨?_, map_numbered 1 lines⟩
  rw [ofSource_eq] at h ⊢
  cases hs : scanFrom 1 (physicalLines source.toList) with
  | error f =>
    rw [hs] at h
    cases h
  | ok tss =>
    rw [hs] at h
    cases h
    have hrereads : ∀ line ∈ join [] tss, ∀ t ∈ line, t.Rereads :=
      forall_mem_join (fun _ ht => by cases ht) (rereads_of_scanFrom hs)
    rw [print, String.toList_ofList, physicalLines_written hrereads, scanFrom_written 1 hrereads]
    exact congrArg Except.ok ((joined_join tss []).numbered 1).join

/-- Two physical lines with a comment between them, an escaped quote, and a dangling operator at the end. -/
theorem ofSource_print_dangling :
    let line (second : Nat) : LogicalLine := [⟨.kwPuts, "puts", 1⟩, ⟨.string, "\t\"#", 1⟩, ⟨.comma, ",", 1⟩,
      ⟨.float, "1.5", second⟩, ⟨.plus, "+", second⟩]
    ofSource "puts \"\\t\\\"#\", # both\n1.5 +" = .ok [line 2] ∧
      print [line 2] = "puts \"\\t\\\"#\" , 1.5 +\n" ∧ ofSource (print [line 2]) = .ok [line 1] := by
  intro line
  have h : ofSource "puts \"\\t\\\"#\", # both\n1.5 +" = .ok [line 2] := by
    with_unfolding_all rfl
  exact ⟨h, by decide, (ofSource_print h).1⟩

end LogicalLine

end Sprig
