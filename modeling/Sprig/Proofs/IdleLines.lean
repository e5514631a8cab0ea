import Mathlib.Order.Monotone.Basic
import Sprig.Proofs.Cuts
import Sprig.Proofs.Renumbering

/-!
# Blank lines and comments

Lines that are blank or hold only a comment may stand anywhere in a source, also where a logical line goes on. They
have no tokens, so joining passes over them (`LogicalLine.join_spread`), and what is left of them is that the lines
behind them have other numbers. Those are as different as the old ones, so nothing that is read or run depends on
them.

Main statement: `Program.idle_lines_pass`.
-/

namespace Sprig

/-- Blank, or nothing but a comment. -/
def IsIdle (text : List Char) : Prop := (text.dropWhile Lexeme.isSpace).head?.all (· == '#') = true

instance : DecidablePred IsIdle := fun text =>
  inferInstanceAs (Decidable ((text.dropWhile Lexeme.isSpace).head?.all (· == '#') = true))

/-- A physical line of a longer text: one of a shorter text too, or one that was put in. -/
inductive Placed where
  | kept (text : List Char)
  | added (text : List Char)

namespace Placed

def text : Placed → List Char
  | kept text | added text => text

def kept? : Placed → Option (List Char)
  | kept text => some text
  | added _ => none

/-- Where the lines of the shorter text are in the longer one, counted from 0. -/
def place : List Placed → Nat → Nat
  | [], n => n
  | added _ :: ls, n => place ls n + 1
  | kept _ :: _, 0 => 0
  | kept _ :: ls, n + 1 => place ls n + 1

/-- The new numbers of the lines, counted from 1. -/
def newLine (ls : List Placed) : Nat → Nat
  | 0 => 0
  | n + 1 => place ls n + 1

theorem place_strictMono (ls : List Placed) : StrictMono (place ls) := by
  apply strictMono_nat_of_lt_succ
  induction ls with
  | nil => intro n; exact Nat.lt_succ_self n
  | cons l ls ih =>
    intro n
    cases l with
    | added text => exact Nat.succ_lt_succ (ih n)
    | kept text =>
      cases n with
      | zero => exact Nat.succ_pos _
      | succ n => exact Nat.succ_lt_succ (ih n)

theorem newLine_strictMono (ls : List Placed) : StrictMono (newLine ls) := by
  intro i j h
  cases j with
  | zero => omega
  | succ j =>
    cases i with
    | zero => exact Nat.succ_pos _
    | succ i => exact Nat.succ_lt_succ (place_strictMono ls (Nat.lt_of_succ_lt_succ h))

theorem getElem?_place (text : List Char) (ls : List Placed) : ∀ n, (ls.filterMap kept?)[n]? = some text →
    (ls.map Placed.text)[place ls n]? = some text := by
  induction ls with
  | nil => intro n h; exact h
  | cons l ls ih =>
    intro n h
    cases l with
    | added _ => exact ih n h
    | kept _ =>
      cases n with
      | zero => exact h
      | succ n => exact ih n h

end Placed

/-- The second text has the physical lines of the first one and, where the list says so, blank lines and comments. -/
structure Inserts (old new : String) (ls : List Placed) : Prop where
  old : physicalLines old.toList = ls.filterMap Placed.kept?
  new : physicalLines new.toList = ls.map Placed.text
  idle : ∀ {text}, Placed.added text ∈ ls → IsIdle text

/-! ## Scanning -/

theorem lineFeed_of_dropWhile {cs : List Char} (h : '\n' ∉ cs.dropLast) :
    ∀ c ∈ cs.dropWhile (· ≠ '\n'), c = '\n' := by
  induction cs with
  | nil => simp
  | cons d cs ih =>
    intro c hc
    by_cases hd : d = '\n'
    · cases cs with
      | nil =>
        simp only [hd] at hc
        simpa using hc
      | cons e cs => simp [hd] at h
    · rw [List.dropWhile_cons_of_pos (by simpa using hd)] at hc
      exact ih (not_mem_dropLast_of_append [_] h) c hc

theorem scan_idle {text : List Char} (h : IsIdle text) (hlast : '\n' ∉ text.dropLast) (line : Nat) :
    scan line text = .ok [] := by
  induction text with
  | nil => rw [scan]
  | cons c cs ih =>
    by_cases hspace : Lexeme.isSpace c = true
    · rw [scan_space hspace]
      apply ih
      · unfold IsIdle at h ⊢
        rwa [List.dropWhile_cons_of_pos hspace] at h
      · exact not_mem_dropLast_of_append [_] hlast
    · have hc : c = '#' := by
        unfold IsIdle at h
        rw [List.dropWhile_cons_of_neg hspace] at h
        exact eq_of_beq h
      have hblank : Lexeme.read c cs = .blank (cs.dropWhile (· ≠ '\n')) := by
        unfold Lexeme.read
        rw [if_neg hspace, if_pos hc]
      rw [scan_blank hblank]
      apply scan_spaces
      intro d hd
      rw [lineFeed_of_dropWhile (not_mem_dropLast_of_append [_] hlast) d hd]
      rfl

/-! ## Joining -/

/-- The second list has the lines of the first one, and empty ones between them. -/
inductive Spread : List (List Token) → List (List Token) → Prop where
  | nil : Spread [] []
  | line {ts tss tss'} : Spread tss tss' → Spread (ts :: tss) (ts :: tss')
  | skip {tss tss'} : Spread tss tss' → Spread tss ([] :: tss')

theorem LogicalLine.join_spread {tss tss' : List (List Token)} (h : Spread tss tss') : ∀ {pending : LogicalLine},
    Waits pending → join pending tss' = join pending tss := by
  induction h with
  | nil => intro pending _; rfl
  | @line ts tss tss' _ ih =>
    intro pending _
    rw [join, join]
    by_cases hgo : ((pending ++ ts).isEmpty || Token.isDangling (pending ++ ts)) = true
    · rw [if_pos hgo, if_pos hgo]
      exact ih (waits_of_goes hgo)
    · rw [if_neg hgo, if_neg hgo]
      exact congrArg _ (ih (.inl rfl))
  -- what is pending waits, and an empty line does not end its waiting
  | @skip tss tss' _ ih =>
    intro pending hw
    have hgo : ((pending ++ []).isEmpty || Token.isDangling (pending ++ [])) = true := by
      rw [List.append_nil]
      rcases hw with rfl | hw
      · rfl
      · rw [hw, Bool.or_true]
    rw [join, if_pos hgo, List.append_nil]
    exact ih hw

/-- Scanned with the lines that were put in, the lines are the same but for their numbers. -/
theorem scanFrom_spread (g : Nat → Nat) (ls : List Placed)
    (hidle : ∀ text, Placed.added text ∈ ls → ∀ line, scan line text = .ok []) : ∀ a b : Nat,
    (∀ n, g (a + n) = b + Placed.place ls n) → match scanFrom a (ls.filterMap Placed.kept?) with
      | .error f => scanFrom b (ls.map Placed.text) = .error (f.mapLine g)
      | .ok tss => ∃ tss', scanFrom b (ls.map Placed.text) = .ok tss' ∧ Spread (mapLines g tss) tss' := by
  -- `b` gets ahead of `a` with each line that was put in
  induction ls with
  | nil => intro a b _; exact ⟨[], rfl, .nil⟩
  | cons l ls ih =>
    intro a b hg
    have ih := ih (fun text h => hidle text (List.mem_cons_of_mem _ h))
    cases l with
    | added text =>
      have hrest := ih a (b + 1) (by
        intro n
        rw [hg n, Placed.place]
        omega)
      have hscan : scanFrom b ((Placed.added text :: ls).map Placed.text) =
          (scanFrom (b + 1) (ls.map Placed.text)).map ([] :: ·) := by
        rw [List.map_cons, scanFrom, Placed.text, hidle text List.mem_cons_self b]
        cases scanFrom (b + 1) (ls.map Placed.text) <;> rfl
      rw [hscan]
      show match scanFrom a (ls.filterMap Placed.kept?) with
        | .error f => _
        | .ok tss => _
      cases hkept : scanFrom a (ls.filterMap Placed.kept?) with
      | error f =>
        rw [hkept] at hrest
        simp only [hrest]
        rfl
      | ok tss =>
        rw [hkept] at hrest
        obtain ⟨tss', hrest, hspread⟩ := hrest
        rw [hrest]
        exact ⟨_, rfl, .skip hspread⟩
    | kept text =>
      have hrest := ih (a + 1) (b + 1) (by
        intro n
        rw [show a + 1 + n = a + (n + 1) by omega, hg (n + 1), Placed.place]
        omega)
      have hscan := scan_mapLine g a text
      rw [show g a = b from hg 0] at hscan
      rw [List.map_cons, scanFrom, Placed.text, hscan]
      show match (scan a text >>= fun ts =>
          scanFrom (a + 1) (ls.filterMap Placed.kept?) >>= fun tss => pure (ts :: tss)) with
        | .error f => _
        | .ok tss => _
      cases scan a text with
      | error f => rfl
      | ok ts =>
        cases hkept : scanFrom (a + 1) (ls.filterMap Placed.kept?) with
        | error f =>
          rw [hkept] at hrest
          simp only [hrest]
          rfl
        | ok tss =>
          rw [hkept] at hrest
          obtain ⟨tss', hrest, hspread⟩ := hrest
          rw [hrest]
          exact ⟨_, rfl, .line hspread⟩

/-! ## Reading and running -/

section
open Placed

variable {old new : String} {ls : List Placed}

theorem newLine_one_add (ls : List Placed) (n : Nat) : newLine ls (1 + n) = 1 + place ls n := by
  rw [Nat.add_comm 1 n, newLine, Nat.add_comm]

theorem LogicalLine.ofSource_inserts (h : Inserts old new ls) :
    ofSource new = movedBy (newLine ls) (mapLines (newLine ls)) (ofSource old) := by
  have hidle : ∀ text, Placed.added text ∈ ls → ∀ line, scan line text = .ok [] := by
    intro text hmem line
    have htext : text ∈ physicalLines new.toList := by
      rw [h.new]
      exact List.mem_map_of_mem hmem
    apply scan_idle (h.idle hmem)
    intro hfeed
    cases isEnd_of_mem_dropLast htext hfeed
  have hscan := scanFrom_spread (newLine ls) ls hidle 1 1 (newLine_one_add ls)
  rw [ofSource_eq, ofSource_eq, h.old, h.new]
  cases hold : scanFrom 1 (ls.filterMap kept?) with
  | error f =>
    rw [hold] at hscan
    simp only [hscan]
    rfl
  | ok tss =>
    rw [hold] at hscan
    obtain ⟨tss', hnew, hspread⟩ := hscan
    have hjoin := join_mapLine (newLine ls) tss []
    rw [hnew]
    exact congrArg Except.ok ((join_spread hspread (.inl rfl)).trans hjoin)

theorem Reader.blockLine_mapLines (g : Nat → Nat) {lines : List LogicalLine} (hlines : ∀ ts ∈ lines, ts ≠ [])
    (hne : lines ≠ []) : blockLine [] (mapLines g lines) = g (blockLine [] lines) := by
  cases lines with
  | nil => exact absurd rfl hne
  | cons ts rest =>
    cases ts with
    | nil => exact absurd rfl (hlines [] List.mem_cons_self)
    | cons t ts => rfl

namespace Program

theorem ofSource_inserts (h : Inserts old new ls) : match ofSource old with
    | .error f => ofSource new = .error (f.mapLine (newLine ls))
    | .ok p => ∃ line, ofSource new = .ok ⟨⟨line, p.body.stmts.map (Stmt.mapLine (newLine ls))⟩, p.scopes⟩ ∧
      (LogicalLine.ofSource old ≠ .ok [] → line = newLine ls p.body.line) := by
  have hnew := LogicalLine.ofSource_inserts h
  unfold ofSource
  cases hold : LogicalLine.ofSource old with
  | error f =>
    rw [hold] at hnew
    rw [hnew]
    rfl
  | ok lines =>
    rw [hold] at hnew
    rw [hnew]
    have hlines := LogicalLine.ne_nil_of_ofSource hold
    have hread := ofLines_renumbered (newLine ls) hlines
    show match ofLines lines with
      | .error f => ofLines (mapLines (newLine ls) lines) = .error (f.mapLine (newLine ls))
      | .ok p => ∃ line, ofLines (mapLines (newLine ls) lines) = _ ∧ _
    cases hp : ofLines lines with
    | error f =>
      rw [hp] at hread
      exact hread
    | ok p =>
      rw [hp] at hread
      refine ⟨_, hread, ?_⟩
      intro htokens
      rw [(readsBlock_of_ofLines hp hlines).1]
      apply Reader.blockLine_mapLines _ hlines
      rintro rfl
      exact htokens rfl

/-- **Blank lines and comments do not matter.** Put in between the physical lines of a source, wherever that is, they
leave what is scanned and what is read as it is, up to the new numbers of its lines: the same faults, or the same
statements and scopes. And the programs run in the same way, from any machine: they write and read the same, end in
the same way, and leave the same bindings. Only a program without tokens has no place among the lines: it is an empty
block on line 1, whatever lines there are. -/
theorem idle_lines_pass (old new : String) (ls : List Placed) (h : Inserts old new ls) :
    StrictMono (newLine ls) ∧
    (∀ n text, (physicalLines old.toList)[n]? = some text →
      ∃ k, newLine ls (n + 1) = k + 1 ∧ (physicalLines new.toList)[k]? = some text) ∧
    LogicalLine.ofSource new = movedBy (newLine ls) (mapLines (newLine ls)) (LogicalLine.ofSource old) ∧
    match ofSource old, ofSource new with
    | .error f, .error f' => f' = f.mapLine (newLine ls)
    | .ok p, .ok p' =>
      p'.scopes = p.scopes ∧
      (LogicalLine.ofSource old ≠ .ok [] → p'.body = p.body.mapLine (newLine ls)) ∧
      (LogicalLine.ofSource old = .ok [] → p.body = ⟨1, []⟩ ∧ p'.body = ⟨1, []⟩) ∧
      ∀ (fuel : Nat) (m : Machine),
        m.run fuel p'.scopes p'.body = Eval.mapLine (newLine ls) (m.run fuel p.scopes p.body)
    | _, _ => False := by
  have hlines := LogicalLine.ofSource_inserts h
  refine ⟨newLine_strictMono ls, ?_, hlines, ?_⟩
  · intro n text hn
    rw [h.old] at hn
    refine ⟨place ls n, rfl, ?_⟩
    rw [h.new]
    exact getElem?_place text ls n hn
  · have hread := ofSource_inserts h
    cases hp : ofSource old with
    | error f =>
      rw [hp] at hread
      rw [hread]
    | ok p =>
      rw [hp] at hread
      obtain ⟨line, hread, hline⟩ := hread
      rw [hread]
      refine ⟨rfl, ?_, ?_, ?_⟩
      · intro htokens
        obtain ⟨⟨l, ss⟩, scopes⟩ := p
        rw [hline htokens, Block.mapLine, Stmt.mapLineAll_eq]
      · intro hnone
        have hold := ofSource_of_nil hnone
        have hnew := ofSource_of_nil (b := new) (by rw [hlines, hnone]; rfl)
        rw [hp] at hold
        rw [hread] at hnew
        exact ⟨congrArg Program.body (Except.ok.inj hold), congrArg Program.body (Except.ok.inj hnew)⟩
      · intro fuel m
        have hreset := Machine.reset_fixed (newLine ls) m p.scopes
        have hexec := @Machine.exec_mapLine _ p.body ⟨line, _⟩ (newLine_strictMono ls).injective rfl fuel
          (m.reset p.scopes)
        rw [hreset] at hexec
        exact hexec

/-- A comment and a blank line in the parentheses, and another comment in front of what comes next. -/
theorem idle_lines_pass_continued :
    let ls := [kept "x = (1 +\n".toList, added "  # one\n".toList, added "\t\n".toList, kept "2)\n".toList,
      added "#\n".toList, kept "puts x\n".toList]
    Inserts "x = (1 +\n2)\nputs x\n" "x = (1 +\n  # one\n\t\n2)\n#\nputs x\n" ls ∧
      ∃ p, ofSource "x = (1 +\n2)\nputs x\n" = .ok p ∧
        p.body.stmts.length = 2 ∧
        ofSource "x = (1 +\n  # one\n\t\n2)\n#\nputs x\n" = .ok ⟨p.body.mapLine (newLine ls), p.scopes⟩ := by
  intro ls
  have hinserts : Inserts "x = (1 +\n2)\nputs x\n" "x = (1 +\n  # one\n\t\n2)\n#\nputs x\n" ls := by
    refine ⟨by decide, by decide, ?_⟩
    intro text h
    simp only [ls, List.mem_cons, Placed.added.injEq, reduceCtorEq, List.not_mem_nil, or_false, false_or] at h
    rcases h with rfl | rfl | rfl <;> decide
  let p : Program := ⟨⟨1, [.assign ⟨1, "x", .binary 1 (.arithmetic .add) (.literal 1 (.integer 1))
    (.literal 2 (.integer 2))⟩, .puts 3 [.call 3 "x" []]]⟩,
    { ScopeTable.initial with program := ⟨"Program", some "Global", ["x"]⟩ }⟩
  have hp : ofSource "x = (1 +\n2)\nputs x\n" = .ok p := by
    have hl : LogicalLine.ofSource "x = (1 +\n2)\nputs x\n" =
        .ok [[⟨.identifier, "x", 1⟩, ⟨.equal, "=", 1⟩, ⟨.leftParen, "(", 1⟩, ⟨.integer, "1", 1⟩, ⟨.plus, "+", 1⟩,
            ⟨.integer, "2", 2⟩, ⟨.rightParen, ")", 2⟩], [⟨.kwPuts, "puts", 3⟩, ⟨.identifier, "x", 3⟩]] := by
      with_unfolding_all rfl
    exact (ofSource_eq_off hl).trans rfl
  have htokens : LogicalLine.ofSource "x = (1 +\n2)\nputs x\n" ≠ .ok [] := by
    intro hnone
    have hempty := ofSource_of_nil hnone
    rw [hp] at hempty
    have hstmts : p.body.stmts = [] := congrArg (fun p : Program => p.body.stmts) (Except.ok.inj hempty)
    exact List.cons_ne_nil _ _ hstmts
  obtain ⟨-, -, -, hread⟩ := idle_lines_pass _ _ ls hinserts
  rw [hp] at hread
  refine ⟨hinserts, p, hp, rfl, ?_⟩
  cases hnew : ofSource "x = (1 +\n  # one\n\t\n2)\n#\nputs x\n" with
  | error f =>
    rw [hnew] at hread
    exact hread.elim
  | ok q =>
    rw [hnew] at hread
    obtain ⟨hscopes, hbody, -⟩ := hread
    obtain ⟨body, scopes⟩ := q
    have hbody : body = p.body.mapLine (newLine ls) := hbody htokens
    have hscopes : scopes = p.scopes := hscopes
    rw [hbody, hscopes]

/-- A blank line in front of a comment, which is then on line 2; but the program is on line 1 before and after. -/
theorem idle_lines_pass_empty :
    let ls := [added "\n".toList, kept "# c\n".toList]
    Inserts "# c\n" "\n# c\n" ls ∧ newLine ls 1 = 2 ∧
      ∃ p p', ofSource "# c\n" = .ok p ∧ ofSource "\n# c\n" = .ok p' ∧
        p'.body ≠ p.body.mapLine (newLine ls) := by
  intro ls
  have hinserts : Inserts "# c\n" "\n# c\n" ls := by
    refine ⟨by decide, by decide, ?_⟩
    intro text h
    simp only [ls, List.mem_cons, Placed.added.injEq, reduceCtorEq, List.not_mem_nil, or_false] at h
    rw [h]
    decide
  have hold : LogicalLine.ofSource "# c\n" = .ok [] := by with_unfolding_all rfl
  have hnew : LogicalLine.ofSource "\n# c\n" = .ok [] := by with_unfolding_all rfl
  refine ⟨hinserts, rfl, _, _, ofSource_of_nil hold, ofSource_of_nil hnew, ?_⟩
  intro h
  cases congrArg Block.line h

end Program

end

end Sprig
