import Sprig.Proofs.Rescan

/-!
# Where tokens come from

A source that has logical lines is a row of pieces (`Piece`): spans that tokens were scanned from, and between them
blanks and comments. Nothing of the source is lost, and a token is on the line its span is on. The lines of a source are
the lines of its pieces, so that the places where a logical line may end are places among the pieces
(`LogicalLine.join_cut`).

Main statement: `LogicalLine.tokens_placed`.
-/

namespace Sprig

/-! ## Spans -/

/-- What a string literal stands for, from what is between its quotes. A quote, a backslash or a line feed cannot stand
there by itself. -/
def Lexeme.unescape? : List Char → Option (List Char)
  | [] => some []
  | '\\' :: c :: cs => do return (← escape? c) :: (← unescape? cs)
  | c :: cs => if c = '"' ∨ c = '\\' ∨ c = '\n' then none else (unescape? cs).map (c :: ·)

/-- The token was scanned from this text: its own one, or if it is a string a literal of that. -/
structure Token.Spans (t : Token) (text : List Char) : Prop where
  nonempty : text ≠ []
  noFeed : '\n' ∉ text
  plain : t.kind ≠ .string → text = t.text.toList
  literal : t.kind = .string → ∃ body, text = '"' :: (body ++ ['"']) ∧ Lexeme.unescape? body = some t.text.toList

namespace Lexeme

variable {c first second : Char} {cs text rest : List Char} {kind short long : Kind} {problem : LexicalProblem}

theorem unescape_of_quoted (h : quoted cs = .ok (text, rest)) :
    ∃ body, cs = body ++ '"' :: rest ∧ unescape? body = some text ∧ '\n' ∉ body := by
  fun_induction quoted cs generalizing text rest with
  | case1 | case3 | case4 | case5 => cases h
  | case2 =>
    cases h
    exact ⟨[], rfl, rfl, List.not_mem_nil⟩
  | case6 c cs e he ih =>
    obtain ⟨content, rfl, hq⟩ := quoted_of_map h
    obtain ⟨body, rfl, hbody, hfeed⟩ := ih hq
    have hc : c ≠ '\n' := by
      rintro rfl
      cases he
    exact ⟨'\\' :: c :: body, rfl, by simp [unescape?, he, hbody], by simp [hc.symm, hfeed]⟩
  | case7 c cs hquote hc hlast hescape ih =>
    obtain ⟨content, rfl, hq⟩ := quoted_of_map h
    obtain ⟨body, rfl, hbody, hfeed⟩ := ih hq
    have hback : c ≠ '\\' := by
      intro hback
      cases hr : body ++ '"' :: rest with
      | nil => exact hlast hback hr
      | cons d ds => exact hescape d ds hback hr
    refine ⟨c :: body, rfl, ?_, List.not_mem_cons_of_ne_of_not_mem (Ne.symm hc) hfeed⟩
    rw [unescape?]
    · have hplain : ¬ (c = '"' ∨ c = '\\' ∨ c = '\n') := by
        rintro (h | h | h)
        · exact hquote h
        · exact hback h
        · exact hc h
      rw [if_neg hplain, hbody]
      rfl
    · exact fun _ _ hc _ => hback hc

theorem number_text (h : number cs = .token kind text rest) : text ++ rest = cs := by
  have hinteger {us} (h : number.integer (cs.takeWhile Char.isDigit) us = .token kind text rest)
      (hus : cs.dropWhile Char.isDigit = us) : text ++ rest = cs := by
    unfold number.integer at h
    split at h <;> cases h
    rw [← hus, List.takeWhile_append_dropWhile]
  unfold number at h
  simp only at h
  split at h
  · rename_i d us heq
    split at h
    · cases h
      rw [List.append_assoc, List.cons_append, List.takeWhile_append_dropWhile, ← heq, List.takeWhile_append_dropWhile]
    · exact hinteger h heq
  · exact hinteger h rfl

theorem word_text (h : word c cs = .token kind text rest) : text ++ rest = c :: cs := by
  unfold word at h
  simp only at h
  split at h <;> cases h
  rw [List.cons_append, List.takeWhile_append_dropWhile]

theorem extended_text (h : extended first second short long cs = .token kind text rest) :
    text ++ rest = first :: cs := by
  cases cs with
  | nil => cases h; rfl
  | cons c cs =>
    simp only [extended] at h
    split at h
    · rename_i hc
      cases h
      rw [hc]
      rfl
    · cases h
      rfl

theorem doubled_text (h : doubled c short cs = .token kind text rest) : text ++ rest = c :: cs := by
  cases cs with
  | nil => cases h
  | cons d cs =>
    simp only [doubled] at h
    split at h
    · rename_i hd
      cases h
      rw [hd]
      rfl
    · cases h

theorem punctuation_text (h : punctuation c cs = .token kind text rest) : text ++ rest = c :: cs := by
  unfold punctuation at h
  split at h
  case h_15 => cases h
  all_goals first
    | exact extended_text h
    | exact doubled_text h
    | (cases h; rfl)

theorem read_text (h : read c cs = .token kind text rest) (hk : kind ≠ .string) : text ++ rest = c :: cs := by
  rcases read_cases h with ⟨-, hstring, -⟩ | ⟨-, h⟩ | ⟨-, h⟩ | h
  · exact absurd hstring hk
  · exact number_text h
  · exact word_text h
  · exact punctuation_text h

theorem read_literal (h : read c cs = .token .string text rest) : c = '"' ∧ quoted cs = .ok (text, rest) := by
  rcases read_cases h with ⟨hc, -, hq⟩ | ⟨hdigit, h⟩ | ⟨-, h⟩ | h
  · exact ⟨hc, hq⟩
  · exact absurd rfl (again_number hdigit h).notString
  · unfold word at h
    simp only at h
    split at h
    · cases h
    · injection h with hk
      exact absurd hk (ofWord_ne_string _)
  · exact absurd rfl (again_punctuation h).notString

theorem read_spans (h : read c cs = .token kind text rest) (line : Nat) :
    ∃ span, span ++ rest = c :: cs ∧ Token.Spans ⟨kind, String.ofList text, line⟩ span := by
  by_cases hk : kind = .string
  · subst hk
    obtain ⟨rfl, hq⟩ := read_literal h
    obtain ⟨body, rfl, hbody, hfeed⟩ := unescape_of_quoted hq
    refine ⟨'"' :: (body ++ ['"']), by simp, List.cons_ne_nil _ _, by simp [hfeed], fun hne => absurd rfl hne, ?_⟩
    exact fun _ => ⟨body, rfl, by rw [String.toList_ofList, hbody]⟩
  · obtain ⟨hfeed, first, more, hwritten, -⟩ := read_written h
    rw [written, if_neg hk] at hfeed hwritten
    refine ⟨text, read_text h hk, hwritten ▸ List.cons_ne_nil _ _, hfeed, ?_, fun heq => absurd heq hk⟩
    exact fun _ => String.toList_ofList.symm

theorem number_ne_blank : number cs ≠ .blank rest := by
  grind [number, number.integer]

theorem word_ne_blank : word c cs ≠ .blank rest := by
  grind [word]

theorem extended_ne_blank : extended first second short long cs ≠ .blank rest := by
  cases cs <;> grind [extended]

theorem doubled_ne_blank : doubled c short cs ≠ .blank rest := by
  cases cs <;> grind [doubled]

theorem punctuation_ne_blank : punctuation c cs ≠ .blank rest := by
  unfold punctuation
  split
  all_goals first
    | exact extended_ne_blank
    | exact doubled_ne_blank
    | exact nofun

theorem read_blank (h : read c cs = .blank rest) :
    (isSpace c = true ∧ rest = cs) ∨ (c = '#' ∧ rest = cs.dropWhile (· ≠ '\n')) := by
  grind [read, number_ne_blank, word_ne_blank, punctuation_ne_blank]

end Lexeme

/-! ## Pieces -/

/-- A piece of a source: a blank, a comment, of which the text behind the `#` is given, or the span of a token. -/
inductive Piece where
  | blank (c : Char) (h : Lexeme.isSpace c = true)
  | comment (text : List Char) (h : '\n' ∉ text)
  | span (t : Token) (text : List Char) (h : t.Spans text)

namespace Piece

def text : Piece → List Char
  | blank c _ => [c]
  | comment text _ => '#' :: text
  | span _ text _ => text

def token? : Piece → Option Token
  | blank _ _ | comment _ _ => none
  | span t _ _ => some t

def source (ps : List Piece) : List Char := ps.flatMap text

def tokens (ps : List Piece) : List Token := ps.filterMap token?

/-- The piece can stand on this line in front of this text: a comment goes to the end of the line. -/
def Fits (line : Nat) (after : List Char) : Piece → Prop
  | blank _ _ => True
  | comment _ _ => after.head?.all (· == '\n') = true
  | span t _ _ => t.line = line

/-- All the pieces fit, if they begin on this line. -/
def Laid : Nat → List Piece → Prop
  | _, [] => True
  | n, p :: ps => p.Fits n (source ps) ∧ Laid (n + p.text.count '\n') ps

def isFeed : Piece → Bool
  | blank c _ => c == '\n'
  | comment _ _ | span _ _ _ => false

variable {p : Piece} {ps qs front : List Piece} {n : Nat}

@[simp] theorem source_nil : source [] = [] := rfl

@[simp] theorem source_cons (p : Piece) (ps : List Piece) : source (p :: ps) = p.text ++ source ps := rfl

@[simp] theorem source_append (ps qs : List Piece) : source (ps ++ qs) = source ps ++ source qs := List.flatMap_append

theorem tokens_flatten (rows : List (List Piece)) : tokens rows.flatten = (rows.map tokens).flatten :=
  List.filterMap_flatten

/-- The logical line behind these ends with this front of the pieces. It could not have ended before: at the end of any
earlier physical line that some tokens of it were on, they waited for more. -/
structure Closes (front : List Piece) (done : List LogicalLine) (line : LogicalLine) : Prop where
  tokens : tokens front = done.flatten ++ line
  first : ∀ early part, early <+: front → early ≠ front → (source early).getLast? = some '\n' →
    Piece.tokens early = done.flatten ++ part → part ≠ [] → Token.isDangling part = true

theorem text_ne_nil (p : Piece) : p.text ≠ [] := by
  cases p with
  | blank | comment => exact List.cons_ne_nil _ _
  | span _ _ h => exact h.nonempty

theorem text_of_isFeed (h : p.isFeed = true) : p.text = ['\n'] := by
  cases p with
  | blank c _ => rw [text, eq_of_beq h]
  | comment | span => cases h

theorem ne_feed_of_mem (h : p.isFeed = false) : ∀ c ∈ p.text, (c == '\n') = false := by
  have hnot : '\n' ∉ p.text := by
    cases p with
    | blank c _ => exact List.not_mem_cons_of_ne_of_not_mem (Ne.symm (beq_eq_false_iff_ne.mp h)) List.not_mem_nil
    | comment text hfeed => exact List.not_mem_cons_of_ne_of_not_mem (by decide) hfeed
    | span _ _ hspan => exact hspan.noFeed
  intro c hc
  rw [beq_eq_false_iff_ne]
  rintro rfl
  exact hnot hc

theorem physicalLines_source (ps : List Piece) : physicalLines (source ps) = (splitAfter isFeed ps).map source :=
  splitAfter_flatMap (fun _ hp => ⟨'\n', text_of_isFeed hp, rfl⟩) (fun p hp => ⟨p.text_ne_nil, ne_feed_of_mem hp⟩) ps

theorem source_eq_nil (h : source ps = []) : ps = [] := by
  cases ps with
  | nil => rfl
  | cons p ps => exact absurd (List.append_eq_nil_iff.mp h).1 p.text_ne_nil

theorem closed_of_source (h : (source ps).getLast? = some '\n') : Closed isFeed ps := by
  rcases List.eq_nil_or_concat ps with rfl | ⟨front, p, rfl⟩
  · rfl
  · rw [List.concat_eq_append] at h ⊢
    rw [source_append, List.getLast?_append, source_cons, source_nil, List.append_nil] at h
    have hlast : p.text.getLast? = some '\n' := by
      cases hp : p.text.getLast? with
      | none => exact absurd (List.getLast?_eq_none_iff.mp hp) p.text_ne_nil
      | some c =>
        rw [hp] at h
        exact h
    have hfeed : p.isFeed = true := by
      by_contra hp
      have := ne_feed_of_mem (Bool.eq_false_iff.mpr hp) '\n' (List.mem_of_getLast? hlast)
      cases this
    simpa [Closed] using hfeed

theorem source_of_closed (h : Closed isFeed ps) (hne : ps ≠ []) : (source ps).getLast? = some '\n' := by
  rcases List.eq_nil_or_concat ps with rfl | ⟨front, p, rfl⟩
  · exact absurd rfl hne
  · rw [List.concat_eq_append] at h ⊢
    have hfeed : p.isFeed = true := by simpa [Closed] using h
    simp [text_of_isFeed hfeed]

/-! ### Lines and pieces -/

theorem Fits.append {after : List Char} (h : p.Fits n after) (hafter : p.isFeed = true ∨ after ≠ [])
    (more : List Char) : p.Fits n (after ++ more) := by
  cases p with
  | blank => trivial
  | comment =>
    obtain ⟨c, cs, rfl⟩ := List.exists_cons_of_ne_nil (hafter.resolve_left nofun)
    exact h
  | span => exact h

theorem Laid.append : ∀ {ps : List Piece} {n : Nat}, Laid n ps → Closed isFeed ps →
    Laid (n + (source ps).count '\n') qs → Laid n (ps ++ qs)
  | [], _, _, _, hqs => hqs
  | [p], n, ⟨hp, _⟩, hclosed, hqs => by
    refine ⟨hp.append (.inl hclosed) (source qs), ?_⟩
    simpa using hqs
  | p :: q :: ps, n, ⟨hp, hps⟩, hclosed, hqs => by
    have hne : source (q :: ps) ≠ [] := fun h => q.text_ne_nil (List.append_eq_nil_iff.mp h).1
    refine ⟨?_, hps.append hclosed ?_⟩
    · have hfits := hp.append (.inr hne) (source qs)
      rwa [← source_append] at hfits
    · rwa [Nat.add_assoc, ← List.count_append, ← source_cons]

theorem Laid.fits {after : List Piece} : ∀ {before : List Piece} {n : Nat}, Laid n (before ++ p :: after) →
    p.Fits (n + (source before).count '\n') (source after)
  | [], _, h => h.1
  | q :: before, n, h => by
    rw [source_cons, List.count_append, ← Nat.add_assoc]
    exact Laid.fits h.2

end Piece

open Piece

theorem scan_pieces {n : Nat} {cs : List Char} {ts : List Token} (h : scan n cs = .ok ts) (hlast : '\n' ∉ cs.dropLast) :
    ∃ ps, source ps = cs ∧ tokens ps = ts ∧ Laid n ps := by
  fun_induction scan n cs generalizing ts with
  | case1 =>
    cases h
    exact ⟨[], rfl, rfl, trivial⟩
  | case2 c cs rest hl _ ih =>
    rcases Lexeme.read_blank hl with ⟨hspace, rfl⟩ | ⟨rfl, rfl⟩
    · obtain ⟨ps, rfl, rfl, hps⟩ := ih h (not_mem_dropLast_of_append [c] hlast)
      refine ⟨blank c hspace :: ps, rfl, rfl, trivial, ?_⟩
      by_cases hfeed : c = '\n'
      · -- nothing is behind the line feed
        have hnil : ps = [] := by
          apply source_eq_nil
          cases hs : source ps with
          | nil => rfl
          | cons d ds => simp [hs, hfeed] at hlast
        rw [hnil]
        trivial
      · simpa [text, hfeed] using hps
    · have hcs : cs.takeWhile (· ≠ '\n') ++ cs.dropWhile (· ≠ '\n') = cs := List.takeWhile_append_dropWhile
      have hrest : '\n' ∉ (cs.dropWhile (· ≠ '\n')).dropLast := by
        rw [← hcs] at hlast
        exact not_mem_dropLast_of_append ('#' :: cs.takeWhile (· ≠ '\n')) hlast
      obtain ⟨ps, hsource, rfl, hps⟩ := ih h hrest
      have hfeed : '\n' ∉ cs.takeWhile (· ≠ '\n') := fun hmem => by simpa using List.mem_takeWhile_imp hmem
      refine ⟨comment _ hfeed :: ps, ?_, rfl, ?_, ?_⟩
      · rw [source_cons, hsource, text, List.cons_append, hcs]
      · rw [hsource, Fits]
        have hhead := List.head?_dropWhile_not (fun c : Char => decide (c ≠ '\n')) cs
        cases hd : (cs.dropWhile (· ≠ '\n')).head? with
        | none => rfl
        | some c =>
          rw [hd] at hhead
          simpa using hhead
      · rw [text, List.count_cons_of_ne (by decide), List.count_eq_zero_of_not_mem hfeed]
        exact hps
  | case3 c cs kind text rest hl _ ih =>
    cases hr : scan n rest with
    | error f =>
      rw [hr] at h
      cases h
    | ok us =>
      rw [hr] at h
      cases h
      obtain ⟨span, hspan, hspans⟩ := Lexeme.read_spans hl n
      rw [← hspan] at hlast ⊢
      obtain ⟨ps, rfl, rfl, hps⟩ := ih hr (not_mem_dropLast_of_append span hlast)
      refine ⟨.span _ span hspans :: ps, rfl, rfl, rfl, ?_⟩
      simpa [Piece.text, List.count_eq_zero_of_not_mem hspans.noFeed] using hps
  | case4 => cases h

/-- Pieces that make up one line have no line feed but at the end. -/
theorem splitAfter_isFeed_of_single {ps : List Piece} {row : List Char} (h : physicalLines (source ps) = [row]) :
    splitAfter isFeed ps = [ps] := by
  rw [physicalLines_source] at h
  obtain ⟨line, hline, -⟩ := List.map_eq_singleton_iff.mp h
  have hflat : (splitAfter isFeed ps).flatten = ps := flatten_splitAfter ps
  rw [hline] at hflat ⊢
  simpa using hflat

theorem getLast?_of_closed {row : List Char} (h : Closed (· == '\n') row) (hne : row ≠ []) :
    row.getLast? = some '\n' := by
  obtain ⟨c, hc⟩ := Option.ne_none_iff_exists'.mp (mt List.getLast?_eq_none_iff.mp hne)
  rw [Closed, hc] at h
  rw [hc, eq_of_beq h]

theorem count_feed_eq_one {row : List Char} (hend : row.getLast? = some '\n') (hlast : '\n' ∉ row.dropLast) :
    row.count '\n' = 1 := by
  obtain ⟨front, rfl⟩ := List.getLast?_eq_some_iff.mp hend
  rw [List.dropLast_concat] at hlast
  rw [List.count_append, List.count_eq_zero_of_not_mem hlast]
  rfl

theorem scanFrom_pieces : ∀ {rows : List (List Char)} {cs : List Char} {n : Nat} {tss : List (List Token)},
    physicalLines cs = rows → scanFrom n rows = .ok tss →
      ∃ ps, source ps = cs ∧ Laid n ps ∧ (splitAfter isFeed ps).map tokens = tss
  | [], cs, n, tss, hrows, h => by
    cases h
    cases cs with
    | nil => exact ⟨[], rfl, trivial, rfl⟩
    | cons c cs => exact absurd hrows (splitAfter_ne_nil _ c cs)
  | row :: rows, cs, n, tss, hrows, h => by
    obtain ⟨hne, hrow, rest, rfl, hrest, hclosed⟩ := splitAfter_eq_cons hrows
    rw [scanFrom] at h
    cases hs : scan n row with
    | error f =>
      rw [hs] at h
      cases h
    | ok ts =>
      cases hr : scanFrom (n + 1) rows with
      | error f =>
        rw [hs, hr] at h
        cases h
      | ok uss =>
        rw [hs, hr] at h
        cases h
        have hmem : row ∈ splitAfter (· == '\n') row := by rw [hrow]; exact List.mem_singleton_self row
        have hlast : '\n' ∉ row.dropLast := fun hfeed => by cases isEnd_of_mem_dropLast hmem hfeed
        obtain ⟨ps, rfl, rfl, hps⟩ := scan_pieces hs hlast
        obtain ⟨qs, rfl, hqs, rfl⟩ := scanFrom_pieces hrest hr
        have hsingle := splitAfter_isFeed_of_single hrow
        rcases hclosed with hclosed | hnil
        · have hend := getLast?_of_closed hclosed hne
          have hends := closed_of_source hend
          rw [← count_feed_eq_one hend hlast] at hqs
          refine ⟨ps ++ qs, source_append ps qs, hps.append hends hqs, ?_⟩
          rw [splitAfter_append qs hends, hsingle]
          rfl
        · rw [source_eq_nil hnil]
          refine ⟨ps, (List.append_nil _).symm, hps, ?_⟩
          rw [hsingle]
          rfl

/-! ## Where logical lines end -/

namespace LogicalLine

theorem prefix_of_join : ∀ {tss : List (List Token)} {pending line : LogicalLine} {more : List LogicalLine},
    join pending tss = line :: more → pending <+: line
  | [], pending, line, more, h => by
    unfold join at h
    split at h <;> cases h
    exact List.prefix_rfl
  | ts :: tss, pending, line, more, h => by
    rw [join] at h
    split at h
    · exact (List.prefix_append pending ts).trans (prefix_of_join h)
    · cases h
      exact List.prefix_append pending ts

/-- Behind the tokens pending and those of `k` more physical lines the logical line ends. It could not have ended before,
and it ends for good if more logical lines follow. -/
structure Cut (pending : LogicalLine) (tss : List (List Token)) (done : List LogicalLine) (line : LogicalLine)
    (more : List LogicalLine) (k : Nat) : Prop where
  le : k ≤ tss.length
  tokens : pending ++ (tss.take k).flatten = done.flatten ++ line
  first : ∀ j < k, ∀ part, pending ++ (tss.take j).flatten = done.flatten ++ part → part ≠ [] →
    Token.isDangling part = true
  ends : more ≠ [] → k < tss.length ∧ Token.isDangling line = false

section
variable {pending line : LogicalLine} {ts : List Token} {tss : List (List Token)}
  {done more : List LogicalLine} {k : Nat}

/-- The physical line leaves its tokens pending. -/
theorem Cut.goesOn (h : Cut (pending ++ ts) tss done line more k) (hw : Waits pending)
    (hpending : ∀ part, pending = done.flatten ++ part → part ≠ [] → done = []) :
    Cut pending (ts :: tss) done line more (k + 1) where
  le := Nat.succ_le_succ h.le
  tokens := by simpa using h.tokens
  first j hj part hpart hne := by
    cases j with
    | zero =>
      rw [List.take_zero, List.flatten_nil, List.append_nil] at hpart
      obtain rfl := hpending part hpart hne
      obtain rfl : pending = part := hpart
      exact hw.resolve_left hne
    | succ j => exact h.first j (Nat.lt_of_succ_lt_succ hj) part (by simpa using hpart) hne
  ends hne := ⟨Nat.succ_lt_succ (h.ends hne).1, (h.ends hne).2⟩

/-- The physical line ends the first logical line, and the cut is further on. -/
theorem Cut.behind (h : Cut [] tss done line more k) : Cut pending (ts :: tss) ((pending ++ ts) :: done) line more (k + 1)
    where
  le := Nat.succ_le_succ h.le
  tokens := by simpa using h.tokens
  first j hj part hpart hne := by
    cases j with
    | zero =>
      have hlength := congrArg List.length hpart
      have hpos := List.length_pos_iff.mpr hne
      simp only [List.take_zero, List.flatten_nil, List.length_append, List.flatten_cons, List.length_nil] at hlength
      omega
    | succ j => exact h.first j (Nat.lt_of_succ_lt_succ hj) part (by simpa using hpart) hne
  ends hne := ⟨Nat.succ_lt_succ (h.ends hne).1, (h.ends hne).2⟩

/-- The physical line ends the logical line. -/
theorem Cut.here (hw : Waits pending) (hends : Token.isDangling (pending ++ ts) = false) :
    Cut pending (ts :: tss) [] (pending ++ ts) (join [] tss) 1 where
  le := by simp
  tokens := by simp
  first j hj part hpart hne := by
    obtain rfl : j = 0 := by omega
    obtain rfl : pending = part := by simpa using hpart
    exact hw.resolve_left hne
  ends hne := by
    refine ⟨?_, hends⟩
    cases tss with
    | nil => exact absurd rfl hne
    | cons us tss => simp

end

/-- A logical line ends as soon as its tokens wait for nothing, where a physical line does. -/
theorem join_cut : ∀ {tss : List (List Token)} {pending : LogicalLine}, Waits pending →
    ∀ {done : List LogicalLine} {line : LogicalLine} {more : List LogicalLine}, join pending tss = done ++ line :: more →
      ∃ k, Cut pending tss done line more k
  | [], pending, _, done, line, more, h => by
    unfold join at h
    split at h
    · cases done <;> cases h
    · cases done with
      | cons first done => simp at h
      | nil =>
        cases h
        exact ⟨0, Nat.le_refl 0, by simp, by simp, fun hmore => absurd rfl hmore⟩
  | ts :: tss, pending, hw, done, line, more, h => by
    rw [join] at h
    split at h
    · rename_i hgo
      obtain ⟨k, hcut⟩ := join_cut (waits_of_goes hgo) h
      refine ⟨k + 1, hcut.goesOn hw fun part hpart hne => ?_⟩
      -- the first line has at least what is pending
      cases done with
      | nil => rfl
      | cons first done =>
        have hlength := (prefix_of_join h).length_le
        have hlength' := congrArg List.length hpart
        have hpos := List.length_pos_iff.mpr hne
        simp only [List.length_append, List.flatten_cons] at hlength hlength'
        omega
    · rename_i hgo
      rw [Bool.or_eq_true, not_or, Bool.not_eq_true] at hgo
      cases done with
      | nil =>
        obtain ⟨rfl, rfl⟩ := List.cons.inj h
        exact ⟨1, .here hw (by simpa using hgo.2)⟩
      | cons first done =>
        obtain ⟨rfl, hjoin⟩ := List.cons.inj h
        obtain ⟨k, hcut⟩ := join_cut (.inl rfl) hjoin
        exact ⟨k + 1, hcut.behind⟩

theorem flatten_join : ∀ (tss : List (List Token)) (pending : LogicalLine),
    (join pending tss).flatten = pending ++ tss.flatten
  | [], pending => by
    unfold join
    cases pending <;> simp
  | ts :: tss, pending => by
    rw [join]
    split
    · rw [flatten_join tss, List.append_assoc, List.flatten_cons]
    · rw [List.flatten_cons, flatten_join tss, List.append_assoc, List.nil_append, List.flatten_cons]

/-- The front is closed where joining cuts the lines of the pieces. -/
theorem closes_take {ps : List Piece} {done : List LogicalLine} {line : LogicalLine} {k : Nat}
    (htokens : (((splitAfter isFeed ps).map tokens).take k).flatten = done.flatten ++ line)
    (hfirst : ∀ j < k, ∀ part, (((splitAfter isFeed ps).map tokens).take j).flatten = done.flatten ++ part →
      part ≠ [] → Token.isDangling part = true) :
    Closes ((splitAfter isFeed ps).take k).flatten done line where
  tokens := by rw [tokens_flatten, List.map_take, htokens]
  first := by
    intro early part hearly hne hend hpart hpos
    obtain ⟨rest, rfl⟩ : ∃ rest, early ++ rest = ps := by
      obtain ⟨rest, hrest⟩ := hearly
      refine ⟨rest ++ ((splitAfter isFeed ps).drop k).flatten, ?_⟩
      rw [← List.append_assoc, hrest, ← List.flatten_append, List.take_append_drop, flatten_splitAfter]
    have hlines : splitAfter isFeed (early ++ rest) = splitAfter isFeed early ++ splitAfter isFeed rest :=
      splitAfter_append rest (closed_of_source hend)
    rw [hlines] at hearly hne hfirst
    refine hfirst (splitAfter isFeed early).length ?_ part ?_ hpos
    · by_contra hk
      apply hne
      rw [List.take_append_of_le_length (Nat.le_of_not_lt hk)] at hearly ⊢
      refine hearly.eq_of_length_le ?_
      have hflat : (splitAfter isFeed early).flatten = early := flatten_splitAfter early
      have hlength := congrArg List.length hflat
      rw [← List.take_append_drop k (splitAfter isFeed early), List.flatten_append, List.length_append] at hlength
      omega
    · rw [List.map_append, List.take_append_of_le_length (by simp), List.take_of_length_le (by simp), ← tokens_flatten,
        flatten_splitAfter, hpart]

/-- **The lexer loses nothing.** A source with logical lines is a row of pieces: the spans of the tokens of these lines,
in their order, and between them blanks and comments, of which each goes to the end of its line. A token is on the line
that the line feeds before its span make up. No logical line is empty. Each but the last ends at the end of a physical
line, where no parenthesis is open and the last token is no connective; and no logical line could have ended before,
since there it was still waiting. -/
theorem tokens_placed {source : String} {lines : List LogicalLine} (h : ofSource source = .ok lines) :
    ∃ ps : List Piece, Piece.source ps = source.toList ∧
      (∀ before p after, ps = before ++ p :: after →
        p.Fits (1 + (Piece.source before).count '\n') (Piece.source after)) ∧
      Piece.tokens ps = lines.flatten ∧
      ∀ done line more, lines = done ++ line :: more → line ≠ [] ∧ ∃ front, front <+: ps ∧ Closes front done line ∧
        (more ≠ [] → (Piece.source front).getLast? = some '\n' ∧ Token.isDangling line = false) := by
  rw [ofSource_eq] at h
  cases hs : scanFrom 1 (physicalLines source.toList) with
  | error f =>
    rw [hs] at h
    cases h
  | ok tss =>
    rw [hs] at h
    cases h
    obtain ⟨ps, hsource, hlaid, rfl⟩ := scanFrom_pieces rfl hs
    refine ⟨ps, hsource, ?_, ?_, ?_⟩
    · rintro before p after rfl
      exact hlaid.fits
    · rw [flatten_join, List.nil_append, ← tokens_flatten, flatten_splitAfter]
    · intro done line more hlines
      have hline : line ≠ [] := ne_nil_of_mem_join (hlines ▸ List.mem_append_right done List.mem_cons_self)
      obtain ⟨k, hcut⟩ := join_cut (.inl rfl) hlines
      have hcloses := closes_take hcut.tokens hcut.first
      have hrows := List.take_append_drop k (splitAfter isFeed ps)
      refine ⟨hline, _, ⟨((splitAfter isFeed ps).drop k).flatten, ?_⟩, hcloses, fun hne => ⟨?_, (hcut.ends hne).2⟩⟩
      · rw [← List.flatten_append, hrows, flatten_splitAfter]
      · apply source_of_closed
        · apply closed_flatten hrows.symm
          have hk := (hcut.ends hne).1
          rw [List.length_map] at hk
          exact fun hnil => absurd (List.drop_eq_nil_iff.mp hnil) (Nat.not_le_of_lt hk)
        · intro hnil
          have hempty := hcloses.tokens
          rw [hnil] at hempty
          exact hline (List.append_eq_nil_iff.mp hempty.symm).2

/-- A comment and a blank line in the parentheses, and an escape in a string. -/
theorem tokens_placed_continued :
    let first : LogicalLine :=
      [⟨.kwPuts, "puts", 1⟩, ⟨.leftParen, "(", 1⟩, ⟨.string, "\"", 3⟩, ⟨.rightParen, ")", 3⟩]
    let second : LogicalLine := [⟨.kwGets, "gets", 4⟩]
    ofSource "puts ( # one\n\n\"\\\"\")\ngets" = .ok [first, second] ∧
      ∃ ps : List Piece, Piece.source ps = "puts ( # one\n\n\"\\\"\")\ngets".toList ∧
        Piece.tokens ps = first ++ second ∧
        ∃ front, front <+: ps ∧ (Piece.source front).getLast? = some '\n' ∧ Piece.tokens front = first := by
  intro first second
  have hl : ofSource "puts ( # one\n\n\"\\\"\")\ngets" = .ok [first, second] := by
    with_unfolding_all rfl
  obtain ⟨ps, hsource, -, htokens, hlines⟩ := tokens_placed hl
  obtain ⟨-, front, hfront, hcloses, hends⟩ := hlines [] first [second] rfl
  exact ⟨hl, ps, hsource, htokens, front, hfront, (hends (List.cons_ne_nil _ _)).1, hcloses.tokens⟩

end LogicalLine

end Sprig
