import Sprig.Proofs.Cuts
import Sprig.Proofs.FaultWords
import Sprig.Proofs.Rescan

/-!
# Messages that name a word

A message of the form "The 'word' on line n is not ..." has the line of the fault in it. In the source, that is the line
the word is on, unless the word is a comma.

Main statement: `Program.line_of_message`.
-/

namespace Sprig

/-! ## Sources -/

theorem Kind.spelling_ofWord (text : String) : ∀ word ∈ (ofWord text).spelling?, text = word := by
  intro word hword
  cases hk : reserved.lookup text with
  | none => rw [ofWord, hk] at hword; cases hword
  | some k =>
    obtain ⟨front, back, hreserved, -⟩ := List.lookup_eq_some_iff.mp hk
    have hspelled : ∀ p ∈ reserved, p.2.spelling? = some p.1 := by decide
    have hp := hspelled (text, k) (by simp [hreserved])
    rw [ofWord, hk, Option.getD_some, hp] at hword
    exact Option.some.inj hword

namespace Lexeme

variable {c first second : Char} {cs text rest : List Char} {kind short long : Kind}

theorem kind_number (h : number cs = .token kind text rest) : kind = .integer ∨ kind = .float := by
  have hinteger {digits us : List Char} (h : number.integer digits us = .token kind text rest) :
      kind = .integer ∨ kind = .float := by
    unfold number.integer at h
    split at h <;> cases h
    exact .inl rfl
  unfold number at h
  simp only at h
  split at h
  · split at h
    · cases h
      exact .inr rfl
    · exact hinteger h
  · exact hinteger h

theorem spelled_extended (hs : short.spelling? = some (String.ofList [first]))
    (hl : long.spelling? = some (String.ofList [first, second]))
    (h : extended first second short long cs = .token kind text rest) :
    kind.spelling? = some (String.ofList text) := by
  cases cs with
  | nil => cases h; exact hs
  | cons c cs =>
    simp only [extended] at h
    split at h
    · cases h; exact hl
    · cases h; exact hs

theorem spelled_doubled (hs : short.spelling? = some (String.ofList [c, c]))
    (h : doubled c short cs = .token kind text rest) : kind.spelling? = some (String.ofList text) := by
  cases cs with
  | nil => cases h
  | cons d cs =>
    simp only [doubled] at h
    split at h <;> cases h
    exact hs

theorem spelled_punctuation (h : punctuation c cs = .token kind text rest) :
    kind.spelling? = some (String.ofList text) := by
  unfold punctuation at h
  split at h
  case h_15 => cases h
  all_goals first
    | exact spelled_extended rfl rfl h
    | exact spelled_doubled rfl h
    | (cases h; rfl)

theorem spelled_of_read (h : read c cs = .token kind text rest) :
    ∀ word ∈ kind.spelling?, String.ofList text = word := by
  rcases read_cases h with ⟨-, rfl, -⟩ | ⟨-, h⟩ | ⟨-, h⟩ | h
  · nofun
  · rcases kind_number h with rfl | rfl <;> nofun
  · simp only [word] at h
    split at h <;> cases h
    exact Kind.spelling_ofWord _
  · rw [spelled_punctuation h]
    simp

end Lexeme

/-- A token of this text that is no string is scanned on the line. -/
def HasToken (source : String) (line : Nat) (text : String) : Prop :=
  ∃ n cs ts, line = n + 1 ∧ (physicalLines source.toList)[n]? = some cs ∧ scan line cs = .ok ts ∧
    ∃ t ∈ ts, t.kind ≠ .string ∧ t.text = text

namespace LogicalLine

variable {source : String} {lines : List LogicalLine} (h : ofSource source = .ok lines)
include h

theorem forall_of_ofSource {P : Token → Prop} (hP : ∀ {n : Nat} {cs : List Char} {ts : List Token},
    (physicalLines source.toList)[n]? = some cs → scan (n + 1) cs = .ok ts → ∀ t ∈ ts, P t) :
    ∀ ts ∈ lines, ∀ t ∈ ts, P t := by
  rw [ofSource_eq] at h
  cases hs : scanFrom 1 (physicalLines source.toList) with
  | error f =>
    rw [hs] at h
    cases h
  | ok tss =>
    rw [hs] at h
    cases h
    refine forall_mem_join nofun fun ts hts => ?_
    obtain ⟨n, cs, hcs, hscan⟩ := exists_of_scanFrom hs ts hts
    rw [Nat.add_comm] at hscan
    exact hP hcs hscan

theorem spelled_of_ofSource : ∀ ts ∈ lines, ∀ t ∈ ts, t.Spelled :=
  forall_of_ofSource h fun _ hscan => forall_of_scan Lexeme.spelled_of_read hscan

theorem hasToken_of_ofSource : ∀ ts ∈ lines, ∀ t ∈ ts, t.kind ≠ .string → HasToken source t.line t.text := by
  refine forall_of_ofSource h fun {n cs ts} hcs hscan t ht hstring => ?_
  have hline : t.line = n + 1 := forall_of_scan (P := fun t => t.line = n + 1) (fun _ => rfl) hscan t ht
  exact ⟨n, cs, ts, hline, hcs, hline ▸ hscan, t, ht, hstring, rfl⟩

end LogicalLine

/-! ## Messages -/

theorem append_cons_inj {α : Type} {x : α} {as bs cs ds : List α} (ha : x ∉ as) (hb : x ∉ bs)
    (h : as ++ x :: cs = bs ++ x :: ds) : as = bs ∧ cs = ds := by
  rcases List.append_eq_append_iff.mp h with ⟨es, rfl, he⟩ | ⟨es, rfl, he⟩
  all_goals cases es with
    | nil => simpa [eq_comm] using he
    | cons e es =>
      obtain ⟨rfl, -⟩ := List.cons.inj he
      simp at ha hb

theorem toString_self (s : String) : toString s = s := rfl

theorem complaint_toList (word tail : String) (n : Nat) : (s!"The '{word}' on line {n} is not {tail}").toList =
    "The '".toList ++ (word.toList ++ '\'' :: (" on line ".toList ++ (Nat.toDigits 10 n ++
      ' ' :: ("is not ".toList ++ tail.toList)))) := by
  simp [String.toList_append, toString_self]

/-- A word is told from what follows it by its quote, and a line by the space behind it. -/
theorem complaint_inj {word other tail ending : String} {n m : Nat} (hq : '\'' ∉ word.toList)
    (hq' : '\'' ∉ other.toList)
    (h : s!"The '{word}' on line {n} is not {tail}" = s!"The '{other}' on line {m} is not {ending}") :
    word = other ∧ n = m := by
  have hdigits (n : Nat) : ' ' ∉ Nat.toDigits 10 n := by
    intro hspace
    cases Nat.isDigit_of_mem_toDigits (by decide) (by decide) hspace
  have hchars := congrArg String.toList h
  rw [complaint_toList, complaint_toList] at hchars
  obtain ⟨hword, hrest⟩ := append_cons_inj hq hq' (List.append_cancel_left hchars)
  obtain ⟨hline, -⟩ := append_cons_inj (hdigits n) (hdigits m) (List.append_cancel_left hrest)
  have hvalue := congrArg (Nat.ofDigitChars 10 · 0) hline
  simp only [Nat.ofDigitChars_ten_toDigits] at hvalue
  exact ⟨String.toList_injective hword, hvalue⟩

theorem Fault.message_of_word {f : Fault} {word : String} (h : f.word? = some word) :
    ∃ tail : String, f.message = s!"The '{word}' on line {f.line} is not {tail}" := by
  obtain ⟨line, problem⟩ := f
  unfold word? at h
  split at h
  · rename_i after wanted hproblem
    cases h
    cases hproblem
    refine ⟨"followed by " ++ wanted.phrase, String.toList_injective ?_⟩
    rw [complaint_toList]
    simp [message, String.toList_append, toString_self]
  · rename_i hproblem
    cases h
    cases hproblem
    refine ⟨"terminated by an 'end'", String.toList_injective ?_⟩
    rw [complaint_toList]
    simp [message, String.toList_append, toString_self]
  · cases h

theorem Fault.word_of_message {f : Fault} {word tail : String} {n : Nat}
    (h : f.message = s!"The '{word}' on line {n} is not {tail}") : ∃ word, f.word? = some word := by
  obtain ⟨line, problem⟩ := f
  have hchars := congrArg String.toList h
  rw [complaint_toList] at hchars
  simp only [message] at hchars
  -- the other messages differ in their first characters
  split at hchars
  case h_5 after _ => exact ⟨after, rfl⟩
  case h_9 keyword => exact ⟨keyword, rfl⟩
  all_goals simp [String.toList_append, toString_self] at hchars

theorem Kind.quote_notMem_spelling {k : Kind} {word : String} (h : k.spelling? = some word) :
    '\'' ∉ word.toList := by
  revert h
  cases k <;> rintro ⟨⟩ <;> decide

theorem Token.Names.spelling {ts : List Token} {word : String} {n : Nat} (h : Token.Names ts word n) :
    ∃ k : Kind, k.spelling? = some word := by
  cases h with
  | word _ _ hspelling => exact ⟨_, hspelling⟩
  | comma _ _ => exact ⟨.comma, rfl⟩

theorem Kind.eq_comma {k : Kind} (h : k.spelling? = some ",") : k = .comma := by
  revert h
  cases k <;> decide

theorem Token.Names.on_source {source : String} {lines : List LogicalLine}
    (hl : LogicalLine.ofSource source = .ok lines) {ts : LogicalLine} (hts : ts ∈ lines) {word : String} {n : Nat}
    (h : Token.Names ts word n) : (word ≠ "," → HasToken source n word) ∧
      (word = "," → ∃ front t back, ts = front ++ t :: back ∧ t.kind = .comma ∧ HasToken source t.line "," ∧
        n = (back.head?.map (·.line)).getD t.line) := by
  have hhas {t : Token} {word : String} (ht : t ∈ ts) (hspelling : t.kind.spelling? = some word) :
      HasToken source t.line word := by
    have hstring : t.kind ≠ .string := by
      intro hstring
      rw [hstring] at hspelling
      cases hspelling
    rw [← LogicalLine.spelled_of_ofSource hl ts hts t ht word hspelling]
    exact LogicalLine.hasToken_of_ofSource hl ts hts t ht hstring
  cases h with
  | word ht hcomma hspelling =>
    exact ⟨fun _ => hhas ht hspelling, fun he => absurd (Kind.eq_comma (he ▸ hspelling)) hcomma⟩
  | comma hfront hk =>
    refine ⟨fun hne => absurd rfl hne, fun _ => ⟨_, _, _, hfront, hk, hhas ?_ (by rw [hk]; rfl), rfl⟩⟩
    simp [hfront]

namespace Program

/-- **Which line a fault gives with a word.** When a source has logical lines but is no program, and the message says
that something is not behind a keyword, an operator or a comma, then the line in the message is the line of the fault.
The word is on that line of the source, but for a comma: there it is the line of the token behind the comma, if the
logical line goes on. -/
theorem line_of_message {source : String} {lines : List LogicalLine} (hl : LogicalLine.ofSource source = .ok lines)
    {f : Fault} (h : ofSource source = .error f) {word tail : String} {n : Nat}
    (hword : ∃ k : Kind, k.spelling? = some word) (hm : f.message = s!"The '{word}' on line {n} is not {tail}") :
    f.line = n ∧ (word ≠ "," → HasToken source n word) ∧
      (word = "," → ∃ ts ∈ lines, ∃ front t back, ts = front ++ t :: back ∧ t.kind = .comma ∧
        HasToken source t.line "," ∧ n = (back.head?.map (·.line)).getD t.line) := by
  have hlines : ofLines lines = .error f := by
    rw [ofSource, hl] at h
    exact h
  obtain ⟨named, hnamed⟩ := Fault.word_of_message hm
  obtain ⟨ts, hts, hnames⟩ := named_of_ofLines (LogicalLine.spelled_of_ofSource hl) hlines named hnamed
  -- the word of the message is that of the fault, since neither has a quote in it
  obtain ⟨k, hk⟩ := hword
  obtain ⟨k', hk'⟩ := hnames.spelling
  obtain ⟨tail', hm'⟩ := Fault.message_of_word hnamed
  have hsame := hm'.symm.trans hm
  obtain ⟨rfl, rfl⟩ := complaint_inj (Kind.quote_notMem_spelling hk') (Kind.quote_notMem_spelling hk) hsame
  obtain ⟨hplain, hcomma⟩ := hnames.on_source hl hts
  exact ⟨rfl, hplain, fun he => ⟨ts, hts, hcomma he⟩⟩

/-- The comma is on the first line, and the message gives the second, which has no comma. -/
theorem line_of_message_comma :
    ofSource "puts 1,\n)" = .error ⟨2, .syntactic (.missing "," .value)⟩ ∧ ¬ HasToken "puts 1,\n)" 2 "," ∧
      ∃ t : Token, t.kind = .comma ∧ HasToken "puts 1,\n)" t.line "," := by
  have hl : LogicalLine.ofSource "puts 1,\n)" =
      .ok [[⟨.kwPuts, "puts", 1⟩, ⟨.integer, "1", 1⟩, ⟨.comma, ",", 1⟩, ⟨.rightParen, ")", 2⟩]] := by
    with_unfolding_all rfl
  have h : ofSource "puts 1,\n)" = .error ⟨2, .syntactic (.missing "," .value)⟩ := (ofSource_eq_off hl).trans rfl
  refine ⟨h, ?_, ?_⟩
  · rintro ⟨n, cs, ts, hn, hcs, hscan, t, ht, -, htext⟩
    obtain rfl : n = 1 := by omega
    have hlines : physicalLines "puts 1,\n)".toList = ["puts 1,\n".toList, [')']] := by decide
    have hclosing : scan 2 [')'] = .ok [⟨.rightParen, ")", 2⟩] := by with_unfolding_all rfl
    rw [hlines] at hcs
    cases hcs
    rw [hclosing] at hscan
    cases hscan
    rw [List.mem_singleton.mp ht] at htext
    revert htext
    decide
  · obtain ⟨-, -, hcomma⟩ := @line_of_message _ _ hl _ h "," "followed by a value" 2 ⟨.comma, rfl⟩ rfl
    obtain ⟨_, _, _, t, _, _, hk, hhas, _⟩ := hcomma rfl
    exact ⟨t, hk, hhas⟩

end Program

end Sprig
