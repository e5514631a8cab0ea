import Mathlib.Algebra.Group.Nat.Defs
import Sprig.Proofs.Complaints

/-!
# How tokens are spelled

Every kind of token has its texts (`Kind.Spells`). What is scanned has one of them, and each of them is scanned as a
token of that kind. The names are letters, digits and underscores, with a `$` in front or without; a digit may not come
first, but it may come right behind the `$`.

Main statement: `LogicalLine.tokens_spelled`.
-/

namespace Sprig

namespace Lexeme

def isLetter (c : Char) : Bool := c.isAlpha || c == '_'

/-- A letter, with letters and digits behind it and maybe a `$` in front. -/
def IsName (text : List Char) : Prop :=
  ∃ c cs, (text = c :: cs ∨ text = '$' :: c :: cs) ∧ isLetter c = true ∧ ∀ d ∈ cs, isWordChar d = true

/-- A `$` and a digit, with letters and digits behind them. -/
def IsNumbered (text : List Char) : Prop :=
  ∃ d cs, text = '$' :: d :: cs ∧ d.isDigit = true ∧ ∀ e ∈ cs, isWordChar e = true

def IsNumeral (text : List Char) : Prop := text ≠ [] ∧ ∀ c ∈ text, c.isDigit = true

end Lexeme

open Lexeme in
/-- What the text of a token of this kind may be. That of a string is its content, which may be anything. -/
def Kind.Spells : Kind → List Char → Prop
  | identifier, text => (IsName text ∨ IsNumbered text) ∧ String.ofList text ∉ reserved.map Prod.fst
  | integer, text => IsNumeral text ∧ Integer.naturalOfDigits text < 2 ^ 63
  | float, text => ∃ whole fraction, text = whole ++ '.' :: fraction ∧ IsNumeral whole ∧ IsNumeral fraction
  | string, _ => True
  | k, text => k.spelling? = some (String.ofList text)

namespace Kind

theorem spells_of_spelling {k : Kind} {text : List Char} (h : k.spelling? = some (String.ofList text)) :
    k.Spells text := by
  cases k with
  | identifier | integer | float | string => cases h
  | _ => exact h

theorem spelling_of_reserved : ∀ p ∈ reserved, p.2.spelling? = some p.1 := by decide

theorem mem_reserved_of_spells {k : Kind} {text : List Char} (hk : k.isKeyword = true) (h : k.Spells text) :
    (String.ofList text, k) ∈ reserved := by
  have hspelling : ∀ k : Kind, k.isKeyword = true → ∀ word ∈ k.spelling?, (word, k) ∈ reserved := by
    intro k
    cases k <;> decide
  apply hspelling k hk
  cases k with
  | identifier | integer | float | string => cases hk
  | _ => exact h

end Kind

namespace Lexeme

variable {c : Char} {cs text rest : List Char} {kind : Kind}

/-! ## What is scanned -/

theorem isWordStart_of_isLetter (h : isLetter c = true) : isWordStart c = true := by
  unfold isLetter at h
  unfold isWordStart
  simp [h]

theorem isDigit_of_isWordStart (hc : isWordStart c = true) : c.isDigit = false := by
  rw [Bool.eq_false_iff]
  intro hdigit
  unfold Char.isDigit at hdigit
  unfold isWordStart Char.isAlpha Char.isUpper Char.isLower at hc
  simp only [Bool.or_eq_true, Bool.and_eq_true, decide_eq_true_eq, beq_iff_eq, UInt32.le_iff_toNat_le,
    ge_iff_le] at hdigit hc
  rcases hc with ((⟨h, -⟩ | ⟨h, -⟩) | rfl) | rfl
  · have := Nat.le_trans h hdigit.2
    revert this
    decide
  · have := Nat.le_trans h hdigit.2
    revert this
    decide
  · exact absurd hdigit.2 (by decide)
  · exact absurd hdigit.1 (by decide)

theorem isName_or_isNumbered (hc : isWordStart c = true) (hcs : ∀ d ∈ cs, isWordChar d = true)
    (hne : c :: cs ≠ ['$']) : IsName (c :: cs) ∨ IsNumbered (c :: cs) := by
  by_cases hletter : isLetter c = true
  · exact .inl ⟨c, cs, .inl rfl, hletter, hcs⟩
  obtain rfl : c = '$' := by
    unfold isWordStart at hc
    unfold isLetter at hletter
    simpa [hletter] using hc
  cases cs with
  | nil => exact absurd rfl hne
  | cons d ds =>
    rw [List.forall_mem_cons] at hcs
    by_cases hd : d.isDigit = true
    · exact .inr ⟨d, ds, rfl, hd, hcs.2⟩
    · have hletter : isLetter d = true := by
        have hword := hcs.1
        unfold isWordChar Char.isAlphanum at hword
        unfold isLetter
        simpa [hd] using hword
      exact .inl ⟨d, ds, .inr rfl, hletter, hcs.2⟩

theorem not_isNumbered_of_isName (h : IsName text) : ¬ IsNumbered text := by
  rintro ⟨d, ds, rfl, hd, -⟩
  obtain ⟨c, cs, heq | heq, hc, -⟩ := h
  · obtain ⟨rfl, -⟩ := List.cons.inj heq
    cases hc
  · obtain ⟨rfl, -⟩ := List.cons.inj (List.cons.inj heq).2
    rw [isDigit_of_isWordStart (isWordStart_of_isLetter hc)] at hd
    cases hd

theorem spells_word (hc : isWordStart c = true) (h : word c cs = .token kind text rest) : kind.Spells text := by
  unfold word at h
  simp only at h
  split at h
  · cases h
  rename_i hne
  cases h
  cases hk : Kind.reserved.lookup (String.ofList (c :: cs.takeWhile isWordChar)) with
  | some k =>
    obtain ⟨front, back, hreserved, -⟩ := List.lookup_eq_some_iff.mp hk
    have hmem : (String.ofList (c :: cs.takeWhile isWordChar), k) ∈ Kind.reserved := by
      rw [hreserved]
      exact List.mem_append_right _ List.mem_cons_self
    rw [Kind.ofWord, hk]
    exact Kind.spells_of_spelling (Kind.spelling_of_reserved _ hmem)
  | none =>
    rw [Kind.ofWord, hk]
    refine ⟨isName_or_isNumbered hc (fun d hd => List.mem_takeWhile_imp hd) (by simpa using hne), ?_⟩
    rw [List.lookup_eq_none_iff] at hk
    rintro hmem
    obtain ⟨p, hp, hword⟩ := List.mem_map.mp hmem
    have := hk p hp
    simp [hword] at this

theorem spells_number (hc : c.isDigit = true) (h : number (c :: cs) = .token kind text rest) : kind.Spells text := by
  have hwhole : IsNumeral (c :: cs.takeWhile Char.isDigit) :=
    ⟨List.cons_ne_nil _ _, List.forall_mem_cons.mpr ⟨hc, fun d hd => List.mem_takeWhile_imp hd⟩⟩
  have hinteger {us} (h : number.integer (c :: cs.takeWhile Char.isDigit) us = .token kind text rest) :
      kind.Spells text := by
    unfold number.integer at h
    split at h
    · rename_i hn
      cases h
      exact ⟨hwhole, hn⟩
    · cases h
  unfold number at h
  simp only [List.takeWhile_cons_of_pos hc] at h
  split at h
  · rename_i d us _
    by_cases hd : d.isDigit = true
    · rw [if_pos hd, List.takeWhile_cons_of_pos hd] at h
      cases h
      exact ⟨_, _, rfl, hwhole, List.cons_ne_nil _ _,
        List.forall_mem_cons.mpr ⟨hd, fun e he => List.mem_takeWhile_imp he⟩⟩
    · rw [if_neg hd] at h
      exact hinteger h
  · exact hinteger h

theorem spells_of_read (h : read c cs = .token kind text rest) : kind.Spells text := by
  rcases read_cases h with ⟨-, rfl, -⟩ | ⟨hdigit, h⟩ | ⟨hword, h⟩ | h
  · trivial
  · exact spells_number hdigit h
  · exact spells_word hword h
  · exact Kind.spells_of_spelling (spelled_punctuation h)

/-! ## What is spelled -/

theorem read_digit (hc : c.isDigit = true) : read c cs = number (c :: cs) := by
  have hspace : isSpace c = false := Bool.eq_false_iff.mpr fun hs => by rw [tight_isDigit c hs] at hc; cases hc
  have hcomment : c ≠ '#' := by rintro rfl; cases hc
  have hquote : c ≠ '"' := by rintro rfl; cases hc
  simp [read, hspace, hcomment, hquote, hc]

theorem read_word (hc : isWordStart c = true) : read c cs = word c cs := by
  have hspace : isSpace c = false := by
    rw [Bool.eq_false_iff]
    intro hs
    rcases isSpace_iff.mp hs with rfl | rfl | rfl | rfl <;> cases hc
  have hcomment : c ≠ '#' := by rintro rfl; cases hc
  have hquote : c ≠ '"' := by rintro rfl; cases hc
  simp [read, hspace, hcomment, hquote, isDigit_of_isWordStart hc, hc]

theorem word_whole (hcs : ∀ d ∈ cs, isWordChar d = true) (hne : c :: cs ≠ ['$']) :
    word c cs = .token (.ofWord (String.ofList (c :: cs))) (c :: cs) [] := by
  have htake : cs.takeWhile isWordChar = cs := List.takeWhile_eq_self_iff.mpr hcs
  have hdrop : cs.dropWhile isWordChar = [] := List.dropWhile_eq_nil_iff.mpr hcs
  have hname : ¬ (c :: cs == ['$']) = true := fun h => hne (eq_of_beq h)
  simp only [word, htake, hdrop, if_neg hname]

theorem read_spelling {word : String} (h : kind.spelling? = some word) :
    read (word.toList.headD ' ') word.toList.tail = .token kind word.toList [] := by
  cases kind <;> cases h <;> rfl

theorem exists_read_of_spells (h : kind.Spells text) : ∃ c cs, read c cs = .token kind text [] := by
  cases kind with
  | identifier =>
    obtain ⟨hname, hreserved⟩ := h
    have hword : Kind.ofWord (String.ofList text) = .identifier := by
      rw [Kind.ofWord, List.lookup_eq_none_iff.mpr]
      · rfl
      · intro p hp
        simp only [bne_iff_ne, ne_eq]
        exact fun heq => hreserved (List.mem_map.mpr ⟨p, hp, heq.symm⟩)
    have hreads {c cs} (htext : text = c :: cs) (hc : isWordStart c = true) (hcs : ∀ d ∈ cs, isWordChar d = true)
        (hne : c :: cs ≠ ['$']) : ∃ c cs, read c cs = .token .identifier text [] := by
      rw [htext] at hword
      exact ⟨c, cs, by rw [read_word hc, word_whole hcs hne, hword, htext]⟩
    rcases hname with ⟨c, cs, rfl | rfl, hc, hcs⟩ | ⟨d, ds, rfl, hd, hds⟩
    · exact hreads rfl (isWordStart_of_isLetter hc) hcs (by rintro ⟨⟩; cases hc)
    · have hc : isWordChar c = true := by
        unfold isLetter at hc
        unfold isWordChar Char.isAlphanum
        rcases Bool.or_eq_true_iff.mp hc with hc | hc <;> simp [hc]
      exact hreads rfl rfl (List.forall_mem_cons.mpr ⟨hc, hcs⟩) (by simp)
    · have hd : isWordChar d = true := by simp [isWordChar, Char.isAlphanum, hd]
      exact hreads rfl rfl (List.forall_mem_cons.mpr ⟨hd, hds⟩) (by simp)
  | integer =>
    obtain ⟨⟨hne, hdigits⟩, hn⟩ := h
    obtain ⟨c, cs, rfl⟩ := List.exists_cons_of_ne_nil hne
    have hnumber := number_integer hdigits hn (rfl : Apart [])
    rw [List.append_nil] at hnumber
    exact ⟨c, cs, by rw [read_digit (hdigits c List.mem_cons_self), hnumber]⟩
  | float =>
    obtain ⟨whole, fraction, rfl, ⟨hw, hwhole⟩, hf, hfraction⟩ := h
    obtain ⟨c, cs, rfl⟩ := List.exists_cons_of_ne_nil hw
    obtain ⟨d, ds, rfl⟩ := List.exists_cons_of_ne_nil hf
    rw [List.forall_mem_cons] at hfraction
    have hnumber := number_float hwhole hfraction.1 hfraction.2 (rfl : Apart [])
    rw [List.append_nil] at hnumber
    exact ⟨c, cs ++ '.' :: d :: ds, by rw [read_digit (hwhole c List.mem_cons_self)]; exact hnumber⟩
  | string => exact ⟨'"', text.flatMap escaped ++ ['"'], by simp [read, isSpace, quoted_escaped]⟩
  | _ =>
    have hread := read_spelling h
    rw [String.toList_ofList] at hread
    exact ⟨_, _, hread⟩

end Lexeme

namespace LogicalLine

theorem ofSource_print_of_rereads {t : Token} (h : t.Rereads) (hline : t.line = 1) :
    ofSource (print [[t]]) = .ok [[t]] := by
  have hrereads : ∀ line ∈ [[t]], ∀ t ∈ line, t.Rereads := by simpa using h
  have hnumbered : numbered 1 [[t]] = [[t]] := by
    obtain ⟨kind, text, line⟩ := t
    cases hline
    rfl
  rw [ofSource_eq, print, String.toList_ofList, physicalLines_written hrereads, scanFrom_written 1 hrereads, hnumbered]
  exact congrArg Except.ok (Joined.last (List.cons_ne_nil t [])).join

/-- **How tokens are spelled.** Every token of a source has a text of its kind: an identifier is not reserved, and it is
a name unless it is a `$` with a digit behind it; a keyword is its reserved word; an integer is digits, of a value below
2^63; a float has digits in front of its point and behind it. And every such text is that of a token, which can be
written on a line of its own. -/
theorem tokens_spelled {source : String} {lines : List LogicalLine} (h : ofSource source = .ok lines) :
    (∀ line ∈ lines, ∀ t ∈ line, t.kind.Spells t.text.toList ∧
      (t.kind.isKeyword = true → (t.text, t.kind) ∈ Kind.reserved) ∧
      (t.kind = .identifier → (Lexeme.IsName t.text.toList ↔ ¬ Lexeme.IsNumbered t.text.toList))) ∧
    ∀ (kind : Kind) (text : List Char), kind.Spells text →
      ofSource (print [[⟨kind, String.ofList text, 1⟩]]) = .ok [[⟨kind, String.ofList text, 1⟩]] := by
  constructor
  · refine forall_of_ofSource h fun _ hscan => forall_of_scan (fun hread => ?_) hscan
    have hspells := Lexeme.spells_of_read hread
    rw [String.toList_ofList]
    refine ⟨hspells, fun hk => Kind.mem_reserved_of_spells hk hspells, fun hk => ?_⟩
    subst hk
    exact ⟨Lexeme.not_isNumbered_of_isName, hspells.1.resolve_right⟩
  · intro kind text h
    obtain ⟨c, cs, hread⟩ := Lexeme.exists_read_of_spells h
    refine ofSource_print_of_rereads ?_ rfl
    obtain ⟨hfeed, hreads⟩ := Lexeme.read_written hread
    constructor
    · rwa [Token.written, String.toList_ofList]
    · rwa [Token.written, String.toList_ofList]

/-- An identifier with a digit where a name has a letter. -/
theorem tokens_spelled_numbered :
    ofSource "$1 = 2" = .ok [[⟨.identifier, "$1", 1⟩, ⟨.equal, "=", 1⟩, ⟨.integer, "2", 1⟩]] ∧
      Kind.Spells .identifier "$1".toList ∧ Lexeme.IsNumbered "$1".toList ∧ ¬ Lexeme.IsName "$1".toList := by
  have hl : ofSource "$1 = 2" = .ok [[⟨.identifier, "$1", 1⟩, ⟨.equal, "=", 1⟩, ⟨.integer, "2", 1⟩]] := by
    with_unfolding_all rfl
  obtain ⟨hspells, -, hname⟩ := (tokens_spelled hl).1 _ List.mem_cons_self _ List.mem_cons_self
  have hnumbered : Lexeme.IsNumbered "$1".toList := ⟨'1', [], rfl, rfl, by simp⟩
  exact ⟨hl, hspells, hnumbered, fun h => (hname rfl).mp h hnumbered⟩

end LogicalLine

end Sprig
