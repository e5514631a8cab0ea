import Sprig.Proofs.Descent
import Sprig.Proofs.Finds

/-!
# What the cursor sees

A cursor on a line sees the tokens that are left of it (`Sees`), and what it keeps of attempts at positions is what the
notes of a reading hold for the tokens left (`Noted`). At the ends of lines the two may differ: the cursor tries more
productions there, and none matches.
-/

namespace Sprig.Descent

abbrev Table := Std.HashMap (Rule × Nat × Nat) Attempt

abbrev Memo := Std.HashMap (Rule × Position) (Option (Expr × Position))

/-- The page for the line in the notes of a reading. -/
def pageOf (lines : List LogicalLine) (line : Nat) : Memory Table := Notebook.table.page (lines.length - 1 - line)

/-- Further on the same line, but not past its end. -/
structure Beyond (lines : List LogicalLine) (p q : Position) : Prop where
  line : q.line = p.line
  index : p.index < q.index
  within : q.index ≤ (lineAt lines p.line).length

variable {lines : List LogicalLine} {p q r : Position} {s s' : State}

theorem Beyond.trans (h : Beyond lines p q) (h' : Beyond lines q r) : Beyond lines p r where
  line := h'.line.trans h.line
  index := Nat.lt_trans h.index h'.index
  within := h.line ▸ h'.within

theorem Beyond.before (h : Beyond lines p q) : p.Before q := .inr ⟨h.line.symm, h.index⟩

/-! ## What is kept -/

/-- The attempt, by the tokens left on the line where it ended. -/
def attemptOn (ts : LogicalLine) : Option (Expr × Position) → Attempt :=
  Option.map fun (e, stop) => (e, ts.drop stop.index)

def Table.FailsAtEnds (table : Table) : Prop :=
  ∀ {rule : Rule} {page : Nat} {a : Attempt}, table[(rule, page, 0)]? = some a → a = none

/-- The cursor's table and the notes of a reading hold the same attempts, but for those at the ends of lines, of which
none matched. -/
structure Noted (lines : List LogicalLine) (memo : Memo) (table : Table) : Prop where
  beyond : ∀ {rule : Rule} {position : Position} {e : Expr} {stop : Position},
    memo[(rule, position)]? = some (some (e, stop)) → Beyond lines position stop
  ends : table.FailsAtEnds
  same : ∀ {rule : Rule} {position : Position}, position.index < (lineAt lines position.line).length →
    table[(rule, lines.length - 1 - position.line, (lineAt lines position.line).length - position.index)]? =
      (memo[(rule, position)]?).map (attemptOn (lineAt lines position.line))

/-- No more was noted than attempts at the ends of lines. -/
structure Idle (table table' : Table) : Prop where
  ends : table'.FailsAtEnds
  same : ∀ {rule : Rule} {page n : Nat}, n ≠ 0 → table'[(rule, page, n)]? = table[(rule, page, n)]?

section
variable {memo : Memo} {table table' table'' : Table} {rule : Rule}

theorem Idle.refl (h : table.FailsAtEnds) : Idle table table := ⟨h, fun _ => rfl⟩

theorem Idle.trans (h : Idle table table') (h' : Idle table' table'') : Idle table table'' :=
  ⟨h'.ends, fun hn => (h'.same hn).trans (h.same hn)⟩

theorem Idle.insert (h : Idle table table') (page : Nat) : Idle table (table'.insert (rule, page, 0) none) where
  ends := by
    intro rule' page' a ha
    rw [Std.HashMap.getElem?_insert] at ha
    split at ha
    · exact (Option.some.inj ha).symm
    · exact h.ends ha
  same := by
    intro rule' page' n hn
    rw [Std.HashMap.getElem?_insert, if_neg (by simpa using fun _ _ => Ne.symm hn), h.same hn]

theorem Noted.idle (h : Noted lines memo table) (hi : Idle table table') : Noted lines memo table' where
  beyond := h.beyond
  ends := hi.ends
  same hlt := (hi.same (Nat.sub_ne_zero_of_lt hlt)).trans (h.same hlt)

theorem Noted.of_idle (h : Noted lines memo table') (hi : Idle table table')
    (hends : table.FailsAtEnds) : Noted lines memo table :=
  h.idle ⟨hends, fun hn => (hi.same hn).symm⟩

theorem Noted.empty : Noted lines ∅ ∅ where
  beyond h := by simp at h
  ends h := by simp at h
  same _ := by simp

theorem index_lt_of_line (h : p.index < (lineAt lines p.line).length) : p.line < lines.length := by
  refine Nat.lt_of_not_le fun hle => ?_
  rw [lineAt, List.getElem?_eq_none hle] at h
  exact Nat.not_lt_zero _ h

theorem drop_eq_cons (h : l < lines.length) : lines.drop l = lineAt lines l :: lines.drop (l + 1) := by
  rw [lineAt, List.getElem?_eq_getElem h, List.drop_eq_getElem_cons h]
  rfl

theorem lineAt_of_le (h : lines.length ≤ l) : lineAt lines l = [] := by
  rw [lineAt, List.getElem?_eq_none h]
  rfl

theorem Noted.insert (h : Noted lines memo table) (hp : p.index < (lineAt lines p.line).length)
    {a : Option (Expr × Position)} (ha : ∀ e stop, a = some (e, stop) → Beyond lines p stop) :
    Noted lines (memo.insert (rule, p) a) (table.insert
      (rule, lines.length - 1 - p.line, (lineAt lines p.line).length - p.index)
      (attemptOn (lineAt lines p.line) a)) where
  beyond := by
    intro rule' q e stop hq
    rw [Std.HashMap.getElem?_insert] at hq
    split at hq
    · rename_i heq
      obtain ⟨-, rfl⟩ := Prod.mk.inj (beq_iff_eq.mp heq)
      exact ha e stop (Option.some.inj hq)
    · exact h.beyond hq
  ends := by
    intro rule' page b hb
    have hne := Nat.sub_ne_zero_of_lt hp
    rw [Std.HashMap.getElem?_insert, if_neg (by simpa using fun _ _ => hne)] at hb
    exact h.ends hb
  same := by
    intro rule' q hq
    rw [Std.HashMap.getElem?_insert, Std.HashMap.getElem?_insert]
    have hpl := index_lt_of_line hp
    have hql := index_lt_of_line hq
    by_cases heq : rule = rule' ∧ p = q
    · obtain ⟨rfl, rfl⟩ := heq
      simp
    · have hkeys : ¬(rule = rule' ∧ lines.length - 1 - p.line = lines.length - 1 - q.line ∧
          (lineAt lines p.line).length - p.index = (lineAt lines q.line).length - q.index) := by
        rintro ⟨hrule, hpage, hindex⟩
        have hline : p.line = q.line := by omega
        rw [hline] at hp hindex
        refine heq ⟨hrule, ?_⟩
        cases p
        cases q
        simp only [Position.mk.injEq] at *
        omega
      rw [if_neg (by simpa using fun h₁ h₂ h₃ => hkeys ⟨h₁, h₂, h₃⟩), if_neg (by simpa using fun hr hq => heq ⟨hr, hq⟩)]
      exact h.same hq

theorem Noted.insert_end (h : Noted lines memo table) (hp : ¬p.index < (lineAt lines p.line).length) :
    Noted lines (memo.insert (rule, p) none) table where
  beyond := by
    intro rule' q e stop hq
    rw [Std.HashMap.getElem?_insert] at hq
    split at hq
    · cases hq
    · exact h.beyond hq
  ends := h.ends
  same := by
    intro rule' q hq
    have hne : p ≠ q := by
      rintro rfl
      exact hp hq
    rw [Std.HashMap.getElem?_insert, if_neg (by simpa using fun _ => hne)]
    exact h.same hq

end

/-! ## What the cursor sees -/

structure Knows (lines : List LogicalLine) (s : State) (tr : Trace Table) : Prop where
  scopes : tr.scopes = s.scopes
  noted : Noted lines s.memo tr.memory

/-- The cursor stands in front of these tokens, the last of its line. -/
structure Sees (lines : List LogicalLine) (s : State) (ts : List Token) (tr : Trace Table) : Prop
    extends Knows lines s tr where
  left : (lineAt lines s.position.line).drop s.position.index = ts

section
variable {ts : List Token} {t : Token} {tr tr' : Trace Table}

theorem Knows.at (h : Knows lines s tr) (position : Position) : Knows lines { s with position } tr :=
  ⟨h.scopes, h.noted⟩

theorem Knows.sees (h : Knows lines s' tr') (hs : Sees lines s ts tr) (hp : s'.position = s.position) :
    Sees lines s' ts tr' := ⟨h, hp ▸ hs.left⟩

theorem Sees.tokenAt (h : Sees lines s ts tr) : tokenAt lines s.position = ts.head? := by
  rw [Descent.tokenAt, ← h.left, List.head?_drop]

theorem Sees.next (h : Sees lines s ts tr) : (Descent.tokenAt lines s.position).map (·.kind) = Token.next ts := by
  rw [h.tokenAt]

theorem Sees.inside (h : Sees lines s (t :: ts) tr) : s.position.index < (lineAt lines s.position.line).length := by
  refine Nat.lt_of_not_le fun hle => ?_
  have hleft := h.left
  rw [List.drop_eq_nil_of_le hle] at hleft
  cases hleft

theorem Sees.not_inside (h : Sees lines s [] tr) : ¬s.position.index < (lineAt lines s.position.line).length :=
  Nat.not_lt_of_le (List.drop_eq_nil_iff.mp h.left)

theorem Sees.beyond (h : Sees lines s (t :: ts) tr) : Beyond lines s.position s.position.step where
  line := rfl
  index := Nat.lt_succ_self _
  within := h.inside

theorem Sees.step (h : Sees lines s (t :: ts) tr) : Sees lines { s with position := s.position.step } ts tr where
  toKnows := h.toKnows.at _
  left := by
    have hleft := h.left
    rw [List.drop_eq_getElem_cons h.inside] at hleft
    exact (List.cons.inj hleft).2

theorem Sees.length (h : Sees lines s ts tr) :
    ts.length = (lineAt lines s.position.line).length - s.position.index := by
  rw [← h.left, List.length_drop]

theorem Sees.shorter {us : List Token} (h : Sees lines s ts tr) (h' : Sees lines s' us tr')
    (hbeyond : Beyond lines s.position s'.position) : us.length < ts.length := by
  have hindex := hbeyond.index
  have hwithin := hbeyond.within
  rw [h.length, h'.length, hbeyond.line]
  omega

theorem Sees.lineNumberAt (h : Sees lines s (t :: ts) tr) : lineNumberAt lines s.position = t.line := by
  rw [Descent.lineNumberAt, h.tokenAt]
  rfl

theorem Sees.lineNumberAt_step (h : Sees lines s (t :: ts) tr) :
    Descent.lineNumberAt lines s.position.step = (ts.head?.map (·.line)).getD t.line := by
  have hstep : Descent.tokenAt lines s.position.step = ts.head? := h.step.tokenAt
  cases ts with
  | cons u ts => rw [Descent.lineNumberAt, hstep]; rfl
  | nil =>
    have hlast : (lineAt lines s.position.line).getLast? = some t := by
      have hleft := congrArg List.getLast? h.left
      rwa [List.getLast?_drop, if_neg (Nat.not_le_of_lt h.inside)] at hleft
    have hline := index_lt_of_line h.inside
    rw [lineAt, List.getElem?_eq_getElem hline, Option.getD_some] at hlast
    rw [Descent.lineNumberAt, hstep, show s.position.step.line = s.position.line from rfl,
      List.getElem?_eq_getElem hline]
    simp [hlast]

end

end Sprig.Descent
