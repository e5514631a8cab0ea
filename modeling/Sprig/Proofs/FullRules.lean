import Sprig.Proofs.GrammarBridge

/-!
# The grammar without a bound

`Rules.upTo n` are the rules for short lines. `Rules.full` has no bound: it gives every line the rules that
are enough for it. Without memory it solves the equation of the grammar (`Rules.next_full`), and on a line of
fewer than `n` tokens it is `Rules.upTo n` (`Bridge.rulesSim_upTo_full`).
-/

namespace Sprig

open Production

@[simp] theorem Production.memoized_off (rule : Rule) (p : Production Unit Expr) :
    memoized .off rule p = p := by
  funext ts tr
  simp only [memoized, Memory.off]
  rcases p ts tr with ⟨_ | _ | _, _⟩ <;> rfl

/-- The rules for lines of any length. -/
def Rules.full : Rules Unit where
  value ts := (Rules.upTo .off (ts.length + 1)).value ts
  lowBoolean ts := (Rules.upTo .off (ts.length + 1)).lowBoolean ts
  number ts := (Rules.upTo .off (ts.length + 1)).number ts
  numberFactor ts := (Rules.upTo .off (ts.length + 1)).numberFactor ts

namespace Bridge

variable {σ τ : Type}

theorem memorySim_off (B : Bridge Unit Unit) (r' : Rules Unit) : B.MemorySim .off .off r' := by
  intro n rule p q _ h
  rw [memoized_off, memoized_off]
  exact h

theorem rulesSim_zero (B : Bridge σ τ) (r : Rules σ) (r' : Rules τ) : B.RulesSim 0 r r' :=
  ⟨fun _ _ _ _ h => absurd h (Nat.not_lt_zero _), fun _ _ _ _ h => absurd h (Nat.not_lt_zero _),
    fun _ _ _ _ h => absurd h (Nat.not_lt_zero _), fun _ _ _ _ h => absurd h (Nat.not_lt_zero _)⟩

/-! ## A reading beside itself -/

def same (line : List Token) : Bridge σ σ where
  line := line
  mapLine := id
  traces := Eq
  declare name h := by rw [h]

theorem Sim.eq_of_same {α : Type} {ts : List Token} {n : Nat} {u : α → α} {p q : Production σ α}
    (h : (same ts).Sim n u p q) (hu : ∀ a, u a = a) (hlen : ts.length < n) : p ts = q ts := by
  funext tr
  have hm := h (List.suffix_refl ts) hlen (rfl : tr = tr)
  rw [show (same ts : Bridge σ σ).mapLine = id from rfl, Token.map_mapLine_id] at hm
  generalize p ts tr = x at hm ⊢
  generalize q ts tr = y at hm ⊢
  cases hm with
  | found hrest htr =>
    rw [hu, show (same ts : Bridge σ σ).mapLine = id from rfl, Token.map_mapLine_id, show _ = _ from htr]
  | noMatch htr => rw [show _ = _ from htr]
  | fault htr => rw [show _ = _ from htr]; rfl

theorem rulesSim_upTo (B : Bridge Unit Unit) : ∀ a b n : Nat, n ≤ a → n ≤ b →
    B.RulesSim n (Rules.upTo .off a) (Rules.upTo .off b)
  | _, _, 0, _, _ => rulesSim_zero B _ _
  | 0, _, _ + 1, ha, _ => absurd ha (Nat.not_succ_le_zero _)
  | _, 0, _ + 1, _, hb => absurd hb (Nat.not_succ_le_zero _)
  | a + 1, b + 1, n + 1, ha, hb =>
    Sim.next (memorySim_off B _) (rulesSim_upTo B a b n (Nat.le_of_succ_le_succ ha) (Nat.le_of_succ_le_succ hb))

theorem rulesSim_upTo_full (line : List Token) (n : Nat) :
    (same line).RulesSim n (Rules.upTo .off n) Rules.full := by
  have h (ts : List Token) (hlen : ts.length < n) :
      (same line).RulesSim (ts.length + 1) (Rules.upTo .off n) (Rules.upTo .off (ts.length + 1)) :=
    rulesSim_upTo _ _ _ _ hlen (Nat.le_refl _)
  refine ⟨?_, ?_, ?_, ?_⟩ <;> intro ts tr tr' hts hlen htr <;>
    simp only [Rules.full, List.length_map]
  · exact (h ts hlen).value hts (Nat.lt_succ_self _) htr
  · exact (h ts hlen).lowBoolean hts (Nat.lt_succ_self _) htr
  · exact (h ts hlen).number hts (Nat.lt_succ_self _) htr
  · exact (h ts hlen).numberFactor hts (Nat.lt_succ_self _) htr

end Bridge

open Bridge in
theorem Rules.next_full : full.next .off = full := by
  have h (ts : List Token) :
      (same ts).RulesSim (ts.length + 1) (Rules.upTo .off (ts.length + 1)) (full.next .off) :=
    Sim.next (memorySim_off _ _) (rulesSim_upTo_full ts ts.length)
  have hext {r : Rules Unit} (hv : r.value = full.value) (hb : r.lowBoolean = full.lowBoolean)
      (hn : r.number = full.number) (hf : r.numberFactor = full.numberFactor) : r = full := by
    cases r
    cases hv; cases hb; cases hn; cases hf
    rfl
  apply hext
  · funext ts; exact ((h ts).value.eq_of_same Expr.mapLine_id (Nat.lt_succ_self _)).symm
  · funext ts; exact ((h ts).lowBoolean.eq_of_same Expr.mapLine_id (Nat.lt_succ_self _)).symm
  · funext ts; exact ((h ts).number.eq_of_same Expr.mapLine_id (Nat.lt_succ_self _)).symm
  · funext ts; exact ((h ts).numberFactor.eq_of_same Expr.mapLine_id (Nat.lt_succ_self _)).symm

namespace Bridge

/-- Rules with a memory agree with the grammar without a bound if what is remembered does. -/
theorem rulesSim_full {σ : Type} {B : Bridge σ Unit} {mem : Memory σ} (hm : B.MemorySim mem .off Rules.full) :
    ∀ n, B.RulesSim n (Rules.upTo mem n) Rules.full
  | 0 => rulesSim_zero B _ _
  | n + 1 => by
    rw [← Rules.next_full]
    exact Sim.next hm (rulesSim_full hm n)

theorem rulesSim_full_full (B : Bridge Unit Unit) : ∀ n, B.RulesSim n Rules.full Rules.full
  | 0 => rulesSim_zero B _ _
  | n + 1 => by
    rw [← Rules.next_full]
    exact Sim.next (memorySim_off B _) (rulesSim_full_full B n)

/-! ## The lines of statements -/

theorem simple_upTo (ts : List Token) :
    Grammar.simple .off (Rules.upTo .off ts.length) ts = Grammar.simple .off Rules.full ts :=
  (Sim.simple (memorySim_off _ _) (rulesSim_upTo_full ts ts.length)).eq_of_same Stmt.map_mapLine_id
    (Nat.lt_succ_self _)

theorem armHeader_upTo (ts : List Token) :
    Grammar.armHeader .off (Rules.upTo .off ts.length) ts = Grammar.armHeader .off Rules.full ts :=
  (Sim.armHeader (memorySim_off _ _) (rulesSim_upTo_full ts ts.length)).eq_of_same
    (fun h => Prod.ext rfl (Expr.mapLine_id h.2)) (Nat.lt_succ_self _)

theorem loopHeader_upTo (ts : List Token) :
    Grammar.loopHeader .off (Rules.upTo .off ts.length) ts = Grammar.loopHeader .off Rules.full ts :=
  (Sim.loopHeader (memorySim_off _ _) (rulesSim_upTo_full ts ts.length)).eq_of_same
    (fun h => Prod.ext rfl (Expr.mapLine_id h.2)) (Nat.lt_succ_self _)

end Bridge

end Sprig
