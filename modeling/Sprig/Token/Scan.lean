import Sprig.Fault
import Sprig.Number.Integer
import Sprig.Token

/-!
# Scanning a physical line

`Lexeme.read` takes what starts at one character: a blank, a comment, a token, or something illegal.
`scan` repeats it to the end of the line. A physical line includes its line feed. What follows a lexeme is
no longer than what followed its first character (`Lexeme.read_length_le`), so `scan` ends.
-/

namespace Sprig

/-- What the text at one place starts with, and the text after it. -/
inductive Lexeme where
  | blank (rest : List Char)
  | token (kind : Kind) (text : List Char) (rest : List Char)
  | illegal (problem : LexicalProblem)

namespace Lexeme

def isSpace (c : Char) : Bool := c == ' ' || c == '\t' || c == '\r' || c == '\n'

def isWordStart (c : Char) : Bool := c.isAlpha || c == '_' || c == '$'

def isWordChar (c : Char) : Bool := c.isAlphanum || c == '_'

def escape? : Char → Option Char
  | 'n' => some '\n'
  | 't' => some '\t'
  | '"' => some '"'
  | '\\' => some '\\'
  | _ => none

/-- The content of a string up to its closing quote, and the text after that quote. A string ends on the
line it starts on; an escape at the very end of the text stands for NUL. -/
def quoted : List Char → Except LexicalProblem (List Char × List Char)
  | [] => .error .unterminatedString
  | '"' :: rest => .ok ([], rest)
  | '\n' :: _ => .error .unterminatedString
  | ['\\'] => .error (.unknownEscape '\x00')
  | '\\' :: c :: rest =>
    match escape? c with
    | none => .error (.unknownEscape c)
    | some e => (quoted rest).map fun (content, rest) => (e :: content, rest)
  | c :: rest => (quoted rest).map fun (content, rest) => (c :: content, rest)

/-- Digits, with a fraction if a point and a digit follow. Without a fraction the value has to fit 64
bits with a sign. -/
def number (text : List Char) : Lexeme :=
  let whole := text.takeWhile Char.isDigit
  match text.dropWhile Char.isDigit with
  | '.' :: d :: rest =>
    if d.isDigit then
      let fraction := (d :: rest).takeWhile Char.isDigit
      .token .float (whole ++ '.' :: fraction) ((d :: rest).dropWhile Char.isDigit)
    else integer whole ('.' :: d :: rest)
  | rest => integer whole rest
where
  integer (digits rest : List Char) : Lexeme :=
    if Integer.naturalOfDigits digits < Nat.pow 2 63 then .token .integer digits rest
    else .illegal (.integerOutOfRange (String.ofList digits))

/-- A name or a reserved word, of which `first` is the first character. A `$` alone is no name. -/
def word (first : Char) (rest : List Char) : Lexeme :=
  let text := first :: rest.takeWhile isWordChar
  if text == ['$'] then .illegal (.illegalSymbol '$')
  else .token (.ofWord (String.ofList text)) text (rest.dropWhile isWordChar)

/-- An operator that a second character may extend. -/
def extended (first second : Char) (short long : Kind) : List Char → Lexeme
  | [] => .token short [first] []
  | c :: rest => if c = second then .token long [first, second] rest else .token short [first] (c :: rest)

/-- An operator that needs its character twice. -/
def doubled (c : Char) (kind : Kind) : List Char → Lexeme
  | [] => .illegal (.illegalSymbol c)
  | d :: rest => if d = c then .token kind [c, c] rest else .illegal (.illegalSymbol c)

def punctuation (c : Char) (rest : List Char) : Lexeme :=
  match c with
  | '(' => .token .leftParen [c] rest
  | ')' => .token .rightParen [c] rest
  | ',' => .token .comma [c] rest
  | '+' => .token .plus [c] rest
  | '-' => .token .minus [c] rest
  | '/' => .token .slash [c] rest
  | '%' => .token .percent [c] rest
  | '*' => extended c '*' .star .starStar rest
  | '!' => extended c '=' .bang .bangEqual rest
  | '=' => extended c '=' .equal .equalEqual rest
  | '<' => extended c '=' .less .lessEqual rest
  | '>' => extended c '=' .greater .greaterEqual rest
  | '&' => doubled c .andAnd rest
  | '|' => doubled c .orOr rest
  | c => .illegal (.illegalSymbol c)

/-- The lexeme that starts with the character `c`. -/
def read (c : Char) (rest : List Char) : Lexeme :=
  if isSpace c then .blank rest
  else if c = '#' then .blank (rest.dropWhile (· ≠ '\n'))
  else if c = '"' then
    match quoted rest with
    | .ok (content, rest) => .token .string content rest
    | .error problem => .illegal problem
  else if c.isDigit then number (c :: rest)
  else if isWordStart c then word c rest
  else punctuation c rest

/-! ## What follows a lexeme is no longer than what followed its first character -/

/-- What follows, if the text is legal. -/
def rest? : Lexeme → Option (List Char)
  | blank rest | token _ _ rest => some rest
  | illegal _ => none

theorem length_dropWhile_le (p : Char → Bool) (cs : List Char) : (cs.dropWhile p).length ≤ cs.length :=
  (List.dropWhile_sublist p).length_le

theorem quoted_of_map {e : Char} {r content rest : List Char}
    (h : ((quoted r).map fun (content, rest) => (e :: content, rest)) = .ok (content, rest)) :
    ∃ content', content = e :: content' ∧ quoted r = .ok (content', rest) := by
  cases hq : quoted r with
  | error => simp [hq, Except.map] at h
  | ok p =>
    simp only [hq, Except.map, Except.ok.injEq, Prod.mk.injEq] at h
    exact ⟨p.1, h.1.symm, by rw [← h.2]⟩

theorem quoted_length_le {cs content rest : List Char} (h : quoted cs = .ok (content, rest)) :
    rest.length ≤ cs.length := by
  fun_induction quoted cs generalizing content rest with
  | case1 | case3 | case4 | case5 => simp at h
  | case2 => simp_all
  | case6 c r e _ ih =>
    obtain ⟨_, _, h⟩ := quoted_of_map h
    exact Nat.le_succ_of_le (Nat.le_succ_of_le (ih h))
  | case7 c r _ _ _ _ ih =>
    obtain ⟨_, _, h⟩ := quoted_of_map h
    exact Nat.le_succ_of_le (ih h)

theorem number_length_le {c : Char} {cs rest : List Char} (hc : c.isDigit = true)
    (h : (number (c :: cs)).rest? = some rest) : rest.length ≤ cs.length := by
  have hd : ((c :: cs).dropWhile Char.isDigit).length ≤ cs.length := by
    simpa [hc] using length_dropWhile_le _ cs
  have hi {ds r : List Char} (h : (number.integer ds r).rest? = some rest) : rest = r := by
    unfold number.integer at h
    split at h <;> simp_all [rest?]
  unfold number at h
  simp only at h
  split at h
  · rename_i d r heq
    rw [heq] at hd
    split at h
    · simp only [rest?, Option.some.injEq] at h
      have := length_dropWhile_le Char.isDigit (d :: r)
      simp only [List.length_cons] at hd this
      rw [← h]; omega
    · rw [hi h]; exact hd
  · rw [hi h]; exact hd

theorem extended_length_le {a b : Char} {s l : Kind} {cs rest : List Char}
    (h : (extended a b s l cs).rest? = some rest) : rest.length ≤ cs.length := by
  cases cs with
  | nil => simp_all [extended, rest?]
  | cons c cs =>
    simp only [extended] at h
    split at h <;> simp only [rest?, Option.some.injEq] at h <;> simp [← h]

theorem doubled_length_le {a : Char} {k : Kind} {cs rest : List Char}
    (h : (doubled a k cs).rest? = some rest) : rest.length ≤ cs.length := by
  cases cs with
  | nil => simp [doubled, rest?] at h
  | cons c cs =>
    simp only [doubled] at h
    split at h <;> simp_all [rest?]

theorem word_length_le {c : Char} {cs rest : List Char} (h : (word c cs).rest? = some rest) :
    rest.length ≤ cs.length := by
  simp only [word] at h
  split at h
  · simp [rest?] at h
  · simp only [rest?, Option.some.injEq] at h
    exact h ▸ length_dropWhile_le _ _

theorem punctuation_length_le {c : Char} {cs rest : List Char}
    (h : (punctuation c cs).rest? = some rest) : rest.length ≤ cs.length := by
  unfold punctuation at h
  split at h <;>
    first
    | exact extended_length_le h
    | exact doubled_length_le h
    | simp_all [rest?]

theorem read_length_le {c : Char} {cs rest : List Char} (h : (read c cs).rest? = some rest) :
    rest.length ≤ cs.length := by
  unfold read at h
  split at h
  · simp_all [rest?]
  split at h
  · simp only [rest?, Option.some.injEq] at h
    exact h ▸ length_dropWhile_le _ _
  split at h
  · split at h
    · rename_i heq
      simp only [rest?, Option.some.injEq] at h
      exact h ▸ quoted_length_le heq
    · simp [rest?] at h
  split at h
  · rename_i hc
    exact number_length_le hc h
  split at h
  · exact word_length_le h
  · exact punctuation_length_le h

end Lexeme

/-- The tokens of the physical line with the given number. -/
def scan (line : Nat) : List Char → Except Fault (List Token)
  | [] => .ok []
  | c :: cs =>
    match h : Lexeme.read c cs with
    | .blank rest =>
      have := Lexeme.read_length_le (h ▸ rfl : (Lexeme.read c cs).rest? = some rest)
      scan line rest
    | .token kind text rest =>
      have := Lexeme.read_length_le (h ▸ rfl : (Lexeme.read c cs).rest? = some rest)
      (scan line rest).map (⟨kind, String.ofList text, line⟩ :: ·)
    | .illegal problem => .error ⟨line, .lexical problem⟩
  termination_by cs => cs.length
  decreasing_by all_goals simp only [List.length_cons]; omega

end Sprig
