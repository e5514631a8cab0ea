import Mathlib.Algebra.Ring.Nat
import Sprig.Proofs.DescentState

/-!
# Weights

How much is in front of a production, in one number: the tokens and ends of lines from its position on, and among
productions at one position how tight it is. Whatever a production enters weighs less (`weight_lt`,
`weight_lt_of_beyond`, `weight_lt_of_line`).
-/

namespace Sprig.Descent

variable {lines : List LogicalLine} {s : State} {ts : List Token} {t : Token} {tr : Trace Table} {l : Nat}

/-- How much of the lines is in front of a position: tokens and ends of lines. -/
def ahead (lines : List LogicalLine) (position : Position) : Nat :=
  ((lines.drop position.line).map (·.length + 1)).sum - position.index

def Nonterminal.rank : Nonterminal → Nat
  | .literal | .string | .boolean | .nil | .gets | .var => 1
  | .leftValues | .varList | .call => 2
  | .assign => 3
  | .highFactor | .numberFactor => 4
  | .highTerm | .numberTerm => 5
  | .highBoolean | .number => 6
  | .conditionValue | .orderingOperand => 7
  | .valueCondition | .numberCondition => 8
  | .condition => 9
  | .lowFactor => 10
  | .lowTerm => 11
  | .lowBoolean => 12
  | .value => 13
  | .valueList => 14

def Part.rank : Part → Nat
  | .item p => p.rank
  | .printStatement | .putsStatement | .getsStatement | .ifStatement _ | .whileStatement | .functionDefinition => 15
  | .instruction => 16
  | .instructions => 17

/-- Statements are read from the start of a line, wherever the cursor stands. -/
def weight (lines : List LogicalLine) : Part → Position → Nat
  | .instructions, position => ahead lines position.lineStart * 18 + Part.rank .instructions
  | p, position => ahead lines position * 18 + p.rank

theorem Nonterminal.rank_le (p : Nonterminal) : p.rank ≤ 14 := by
  cases p <;> decide

theorem ahead_lt {p q : Position} (h : Beyond lines p q) : ahead lines q < ahead lines p := by
  have hinside := Nat.lt_of_lt_of_le h.index h.within
  have hline := index_lt_of_line hinside
  have hindex := h.index
  have hwithin := h.within
  rw [lineAt, List.getElem?_eq_getElem hline, Option.getD_some] at hwithin
  rw [ahead, ahead, h.line, List.drop_eq_getElem_cons hline, List.map_cons, List.sum_cons]
  omega

theorem weight_lt {p q : Nonterminal} {position : Position} (h : q.rank < p.rank) :
    weight lines (.item q) position < weight lines (.item p) position := Nat.add_lt_add_left h _

theorem weight_lt_of_beyond {p q : Nonterminal} {position stop : Position} (h : Beyond lines position stop) :
    weight lines (.item q) stop < weight lines (.item p) position := by
  have hahead := ahead_lt h
  have hrank := q.rank_le
  show ahead lines stop * 18 + q.rank < ahead lines position * 18 + p.rank
  omega

/-- How many tokens are left of the line. -/
def left (lines : List LogicalLine) (position : Position) : Nat := (lineAt lines position.line).length - position.index

theorem left_lt {p q : Position} (h : Beyond lines p q) : left lines q < left lines p := by
  have hindex := h.index
  have hwithin := h.within
  rw [left, left, h.line]
  omega

theorem Sees.exists_rules {k : Nat} (hs : Sees lines s (t :: ts) tr) (hk : Descent.left lines s.position ≤ k) :
    ∃ m, k = m + 1 := by
  have hlength := hs.length
  rw [List.length_cons] at hlength
  exact Nat.exists_eq_add_one_of_ne_zero fun h0 => by rw [Descent.left] at hk; omega

theorem left_le_ahead {position : Position} : left lines position ≤ ahead lines position := by
  by_cases hline : position.line < lines.length
  · rw [left, lineAt, List.getElem?_eq_getElem hline, Option.getD_some, ahead, List.drop_eq_getElem_cons hline,
      List.map_cons, List.sum_cons]
    omega
  · rw [left, lineAt, List.getElem?_eq_none (Nat.le_of_not_lt hline), Option.getD_none, List.length_nil, Nat.zero_sub]
    exact Nat.zero_le _

theorem left_lt_weight {p : Nonterminal} {position : Position} :
    left lines position < weight lines (.item p) position := by
  have hahead : left lines position ≤ ahead lines position := left_le_ahead
  have hrank : 0 < p.rank := by cases p <;> decide
  show left lines position < ahead lines position * 18 + p.rank
  omega

/-! ## Lines -/

theorem length_le_ahead : lines.length - l ≤ ahead lines ⟨l, 0⟩ := by
  rw [ahead, ← List.length_drop]
  induction lines.drop l with
  | nil => exact Nat.le_refl _
  | cons ts rest ih =>
    rw [List.map_cons, List.sum_cons, List.length_cons]
    simp only [Nat.sub_zero] at ih ⊢
    omega

theorem ahead_succ (h : l < lines.length) :
    ahead lines ⟨l, 0⟩ = (lineAt lines l).length + 1 + ahead lines ⟨l + 1, 0⟩ := by
  rw [ahead, ahead, drop_eq_cons h, List.map_cons, List.sum_cons]
  rfl

theorem ahead_le {l' : Nat} (h : l ≤ l') : ahead lines ⟨l', 0⟩ ≤ ahead lines ⟨l, 0⟩ := by
  induction h with
  | refl => exact Nat.le_refl _
  | @step m _ ih =>
    refine Nat.le_trans ?_ ih
    by_cases hm : m < lines.length
    · rw [ahead_succ hm]
      exact Nat.le_add_left _ _
    · rw [ahead, List.drop_eq_nil_of_le (Nat.le_succ_of_le (Nat.le_of_not_lt hm))]
      exact Nat.zero_le _

theorem weight_le (lines : List LogicalLine) (p : Part) (position : Position) :
    weight lines p position ≤ ahead lines position.lineStart * 18 + 17 := by
  have hahead : ahead lines position ≤ ahead lines position.lineStart := Nat.sub_le_sub_left (Nat.zero_le _) _
  have hrank : p.rank ≤ 17 := by
    cases p with
    | item p => exact Nat.le_trans p.rank_le (by decide)
    | _ => simp [Part.rank]
  cases p with
  | instructions => exact Nat.le_refl _
  | _ => exact Nat.add_le_add (Nat.mul_le_mul_right _ hahead) hrank

theorem le_weight (lines : List LogicalLine) (p : Part) {position : Position} (h : position.index = 0) :
    ahead lines position.lineStart * 18 ≤ weight lines p position := by
  have hstart : position.lineStart = position := by
    cases position
    exact congrArg _ h.symm
  rw [hstart]
  cases p with
  | instructions =>
    rw [weight, hstart]
    exact Nat.le_add_right _ _
  | _ => exact Nat.le_add_right _ _

theorem weight_lt_of_line {p q : Part} {start stop : Position} (hindex : start.index = 0)
    (hline : start.line < lines.length) (h : start.line < stop.line) : weight lines q stop < weight lines p start := by
  have hahead : ahead lines stop.lineStart < ahead lines start.lineStart := by
    have hle : ahead lines stop.lineStart ≤ ahead lines ⟨start.line + 1, 0⟩ := ahead_le h
    have hsucc : ahead lines start.lineStart = _ := ahead_succ hline
    omega
  have hle := weight_le lines q stop
  have hge := le_weight lines p hindex
  omega

theorem weight_item_lt {p : Part} {q : Nonterminal} {start stop : Position} (hindex : start.index = 0)
    (h : Beyond lines start stop) : weight lines (.item q) stop < weight lines p start := by
  have hstart : start.lineStart = start := by
    cases start
    exact congrArg _ hindex.symm
  have hahead := ahead_lt h
  have hge := le_weight lines p hindex
  have hrank := q.rank_le
  rw [hstart] at hge
  show ahead lines stop * 18 + q.rank < weight lines p start
  omega

/-- More than any production weighs. -/
def depth (lines : List LogicalLine) : Nat := ahead lines ⟨0, 0⟩ * 18 + 18

theorem weight_lt_depth {p : Part} {position : Position} : weight lines p position < depth lines := by
  have hahead : ahead lines position.lineStart ≤ ahead lines ⟨0, 0⟩ := ahead_le (Nat.zero_le _)
  have hle := weight_le lines p position
  rw [depth]
  omega

end Sprig.Descent
