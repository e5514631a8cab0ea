import Mathlib.Algebra.Order.Floor.Ring
import Mathlib.Data.Int.DivMod
import Mathlib.Data.Rat.Floor
import Mathlib.Tactic.Linarith
import Mathlib.Tactic.NormNum
import Sprig.Arithmetic

/-!
# Integer arithmetic is exact or fails

Sums, differences and products are checked once. A quotient is first rounded toward zero and then corrected, a
remainder likewise, and a power is a chain of checked products. So three things are to be seen: that the corrections
round down and do not wrap around, that only one quotient is out of range, and that a product on the way to a power is
out of range only if the power is.

Main statement: `Value.integers_exact`.
-/

namespace Sprig

namespace Integer

/-- A 64-bit integer. -/
def Fits (z : Int) : Prop := -2 ^ 63 ≤ z ∧ z < 2 ^ 63

instance : DecidablePred Fits := fun z => inferInstanceAs (Decidable (-2 ^ 63 ≤ z ∧ z < 2 ^ 63))

theorem fits_toInt (n : Int64) : Fits n.toInt := ⟨n.le_toInt, n.toInt_lt⟩

theorem toInt_ofInt {z : Int} (h : Fits z) : (Int64.ofInt z).toInt = z := Int64.toInt_ofInt_of_le h.1 h.2

theorem ofInt?_of_fits {z : Int} (h : Fits z) : ofInt? z = some (Int64.ofInt z) := by
  unfold ofInt?
  simp only [Int64.toInt_minValue, Int64.toInt_maxValue]
  rw [if_pos ⟨h.1, Int.le_sub_one_of_lt h.2⟩]

theorem ofInt?_of_not_fits {z : Int} (h : ¬ Fits z) : ofInt? z = none := by
  unfold ofInt?
  simp only [Int64.toInt_minValue, Int64.toInt_maxValue]
  rw [if_neg fun hz => h ⟨hz.1, Int.lt_of_le_sub_one hz.2⟩]

theorem ofInt?_eq_some {z : Int} {n : Int64} : ofInt? z = some n ↔ n.toInt = z := by
  by_cases h : Fits z
  · rw [ofInt?_of_fits h, Option.some.injEq, ← Int64.toInt_inj, toInt_ofInt h, eq_comm]
  · rw [ofInt?_of_not_fits h]
    exact iff_of_false (by simp) fun hn => h (hn ▸ fits_toInt n)

theorem ofInt?_eq_none {z : Int} : ofInt? z = none ↔ ¬ Fits z := by
  by_cases h : Fits z
  · simp [ofInt?_of_fits h, h]
  · simp [ofInt?_of_not_fits h, h]

@[simp] theorem ofInt?_toInt (n : Int64) : ofInt? n.toInt = some n := ofInt?_eq_some.mpr rfl

theorem toInt_ne_zero {n : Int64} (h : n ≠ 0) : n.toInt ≠ 0 := fun hn => h (Int64.toInt_inj.mp hn)

/-! ## Rounding down -/

theorem fdiv_of_tdiv {a b : Int} (hb : b ≠ 0) :
    a.fdiv b = if a.tmod b ≠ 0 ∧ decide (a < 0) ≠ decide (b < 0) then a.tdiv b - 1 else a.tdiv b := by
  rw [Int.fdiv_eq_tdiv]
  simp only [Int.dvd_iff_tmod_eq_zero]
  by_cases hm : a.tmod b = 0
  · simp [hm]
  by_cases ha : a < 0 <;> by_cases hneg : b < 0
  · simp [hm, ha, hneg, Int.sign_eq_neg_one_of_neg hneg, not_le.mpr ha, not_le.mpr hneg]
  · simp [hm, ha, hneg, Int.sign_eq_one_of_pos (show 0 < b by omega), not_le.mpr ha, not_lt.mp hneg]
  · simp [hm, ha, hneg, not_lt.mp ha, not_le.mpr hneg]
  · simp [hm, ha, hneg, not_lt.mp ha, not_lt.mp hneg]

theorem fmod_of_tmod {a b : Int} :
    a.fmod b = if a.tmod b ≠ 0 ∧ decide (a.tmod b < 0) ≠ decide (b < 0) then a.tmod b + b else a.tmod b := by
  -- the remainder of a truncated division has the sign of the dividend
  have hpos : 0 ≤ a → 0 ≤ a.tmod b := Int.tmod_nonneg b
  have hneg : a < 0 → a.tmod b ≤ 0 := by
    intro ha
    have h := Int.tmod_nonneg b (show 0 ≤ -a by omega)
    rw [Int.neg_tmod] at h
    omega
  rw [Int.fmod_eq_tmod]
  simp only [Int.dvd_iff_tmod_eq_zero]
  generalize a.tmod b = m at *
  by_cases hm : m = 0
  · simp [hm]
  by_cases ha : a < 0 <;> by_cases hb : b < 0
  · have hlt : m < 0 := by have := hneg ha; omega
    simp [hm, hlt, hb, not_le.mpr ha, not_le.mpr hb]
    omega
  · have hlt : m < 0 := by have := hneg ha; omega
    simp [hm, hlt, hb, not_le.mpr ha, not_lt.mp hb]
  · have hlt : ¬ m < 0 := by have := hpos (not_lt.mp ha); omega
    simp [hm, hlt, hb, not_lt.mp ha, not_le.mpr hb]
  · have hlt : ¬ m < 0 := by have := hpos (not_lt.mp ha); omega
    simp [hm, hlt, hb, not_lt.mp ha, not_lt.mp hb]

theorem lt_zero_iff (n : Int64) : n < 0 ↔ n.toInt < 0 := by
  rw [Int64.lt_iff_toInt_lt, Int64.toInt_zero]

theorem eq_zero_iff (n : Int64) : n = 0 ↔ n.toInt = 0 := by
  rw [← Int64.toInt_inj, Int64.toInt_zero]

theorem toInt_eq_of_bmod {n : Int64} {z : Int} (h : n.toInt = z.bmod (2 ^ 64)) (hz : Fits z) : n.toInt = z := by
  unfold Fits at hz
  rw [h]
  apply Int.bmod_eq_of_le <;> omega

/-- The remainder is zero or has the sign of the divisor, and is less than it. -/
theorem fmod_bounds (a : Int) {b : Int} (hb : b ≠ 0) :
    (0 < b ∧ 0 ≤ a.fmod b ∧ a.fmod b < b) ∨ (b < 0 ∧ b < a.fmod b ∧ a.fmod b ≤ 0) := by
  have hnonneg := Int.emod_nonneg a hb
  have hlt := Int.emod_lt_abs a hb
  rw [Int.fmod_eq_emod]
  by_cases hpos : 0 < b
  · rw [if_pos (.inl (le_of_lt hpos))]
    rw [abs_of_pos hpos] at hlt
    omega
  have hneg : b < 0 := by omega
  rw [abs_of_neg hneg] at hlt
  by_cases hdvd : b ∣ a
  · rw [if_pos (.inr hdvd), Int.emod_eq_zero_of_dvd hdvd]
    omega
  · have hne : a % b ≠ 0 := fun h => hdvd (Int.dvd_of_emod_eq_zero h)
    rw [if_neg (by omega)]
    omega

theorem toInt_floorRemainder (l : Int64) {r : Int64} (hr : r ≠ 0) :
    (floorRemainder l r).toInt = l.toInt.fmod r.toInt := by
  have hfits : Fits (l.toInt.fmod r.toInt) := by
    have hbound := fmod_bounds l.toInt (toInt_ne_zero hr)
    have hr := fits_toInt r
    unfold Fits at *
    omega
  unfold floorRemainder
  rw [fmod_of_tmod] at hfits ⊢
  simp only [ne_eq, eq_zero_iff, lt_zero_iff, Int64.toInt_mod] at hfits ⊢
  split
  · rename_i h
    rw [if_pos h] at hfits
    apply toInt_eq_of_bmod _ hfits
    rw [Int64.toInt_add, Int64.toInt_mod]
  · rw [Int64.toInt_mod]

/-- One quotient alone is out of range. -/
theorem fits_fdiv (l : Int64) {r : Int64} (hr : r ≠ 0) :
    Fits (l.toInt.fdiv r.toInt) ↔ ¬ (l = Int64.minValue ∧ r = -1) := by
  have hl := fits_toInt l
  have hdiv := Int.mul_fdiv_add_fmod l.toInt r.toInt
  have hbound := fmod_bounds l.toInt (toInt_ne_zero hr)
  rw [← Int64.toInt_inj, ← Int64.toInt_inj, Int64.toInt_minValue, show (-1 : Int64).toInt = -1 from rfl]
  unfold Fits at *
  generalize l.toInt = a at *
  generalize r.toInt = b at *
  constructor
  · rintro hq ⟨rfl, rfl⟩
    revert hq
    decide
  · intro hne
    generalize a.fdiv b = q at *
    generalize a.fmod b = m at *
    constructor
    · by_contra hq
      rcases hbound with ⟨hb, -, hm⟩ | ⟨hb, hm, -⟩ <;> nlinarith
    · by_contra hq
      rcases hbound with ⟨hb, hm, -⟩ | ⟨hb, -, hm⟩
      · nlinarith
      · apply hne
        have hb : b = -1 := by nlinarith
        subst hb
        omega

theorem floorQuotient?_eq (l : Int64) {r : Int64} (hr : r ≠ 0) :
    floorQuotient? l r = ofInt? (l.toInt.fdiv r.toInt) := by
  have hfits := fits_fdiv l hr
  unfold floorQuotient? truncatedQuotient?
  by_cases h : l = Int64.minValue ∧ r = -1
  · rw [if_pos h, ofInt?_of_not_fits (by rwa [hfits, not_not])]
    rfl
  have hquotient : (l / r).toInt = l.toInt.tdiv r.toInt := by
    by_cases hl : l = Int64.minValue
    · exact Int64.toInt_div_of_ne_right l r fun hr => h ⟨hl, hr⟩
    · exact Int64.toInt_div_of_ne_left l r hl
  rw [if_neg h, Option.map_some, eq_comm, ofInt?_eq_some]
  have hfits := hfits.mpr h
  rw [fdiv_of_tdiv (toInt_ne_zero hr)] at hfits ⊢
  simp only [ne_eq, eq_zero_iff, lt_zero_iff, Int64.toInt_mod] at hfits ⊢
  split
  · rename_i hc
    rw [if_pos hc] at hfits
    apply toInt_eq_of_bmod _ hfits
    rw [Int64.toInt_sub, hquotient]
    rfl
  · exact hquotient

/-! ## Powers -/

/-- A product is out of range if a part of it is and the rest is positive. -/
theorem not_fits_mul {z k : Int} (hz : ¬ Fits z) (hk : 1 ≤ k) : ¬ Fits (z * k) := by
  unfold Fits at *
  intro h
  apply hz
  constructor
  · by_contra hlt
    nlinarith
  · by_contra hlt
    nlinarith

/-- The bound is no square, so a square that is out of range stays so under a change of sign. -/
theorem not_fits_square_mul {b z : Int} (hb : ¬ Fits (b * b)) (hz : z ≠ 0) : ¬ Fits (b * b * z) := by
  unfold Fits at *
  have hsquare : 2 ^ 63 < b * b := by
    have hle : 2 ^ 63 ≤ b * b := by
      have := mul_self_nonneg b
      omega
    have habs : 3037000500 ≤ |b| := by
      by_contra h
      have := abs_mul_abs_self b
      nlinarith [abs_nonneg b]
    nlinarith [abs_mul_abs_self b]
  intro h
  rcases lt_or_gt_of_ne hz with hneg | hpos
  · nlinarith
  · nlinarith

theorem pow_halves (b : Int) (e : Nat) : b ^ e = b ^ (e % 2) * (b * b) ^ (e / 2) := by
  rw [← pow_two, ← pow_mul, ← pow_add]
  congr 1
  omega

theorem timesPower?_eq (acc base : Int64) (exponent : Nat) (h : acc.toInt = 0 → base.toInt = 0) :
    timesPower? acc base exponent = ofInt? (acc.toInt * base.toInt ^ exponent) := by
  induction exponent using Nat.strongRecOn generalizing acc base with
  | _ e ih =>
    rw [timesPower?]
    by_cases hzero : e = 0
    · simp [hzero]
    have hodd : (if e % 2 = 1 then multiply? acc base else some acc) =
        ofInt? (acc.toInt * base.toInt ^ (e % 2)) := by
      rcases Nat.mod_two_eq_zero_or_one e with he | he <;> simp [he, multiply?]
    have hbase : acc.toInt * base.toInt ^ (e % 2) = 0 → base.toInt = 0 := by
      intro hprod
      rcases mul_eq_zero.mp hprod with hacc | hpow
      · exact h hacc
      · exact eq_zero_of_pow_eq_zero hpow
    have hbase' : base.toInt = 0 → Fits (acc.toInt * base.toInt ^ (e % 2)) := by
      intro hb
      rcases Nat.mod_two_eq_zero_or_one e with he | he
      · simpa [he] using fits_toInt acc
      · simp only [he, hb, pow_one, mul_zero]
        decide
    rw [if_neg hzero, hodd, pow_halves base.toInt e, ← mul_assoc]
    generalize acc.toInt * base.toInt ^ (e % 2) = a at *
    by_cases ha : Fits a
    · obtain ⟨n, rfl⟩ : ∃ n : Int64, n.toInt = a := ⟨_, toInt_ofInt ha⟩
      rw [ofInt?_toInt, Option.bind_some]
      by_cases hone : e = 1
      · simp [hone]
      rw [if_neg hone, multiply?]
      by_cases hsquare : Fits (base.toInt * base.toInt)
      · obtain ⟨square, hs⟩ : ∃ n : Int64, n.toInt = base.toInt * base.toInt := ⟨_, toInt_ofInt hsquare⟩
        rw [← hs, ofInt?_toInt, Option.bind_some]
        apply ih (e / 2) (by omega)
        intro hn
        rw [hs, hbase hn, mul_zero]
      · -- the power has this square for a factor, and nothing in it is 0
        have hne : base.toInt ≠ 0 := by
          rintro hb
          rw [hb] at hsquare
          exact hsquare (by decide)
        have hpow : n.toInt * (base.toInt * base.toInt) ^ (e / 2) =
            base.toInt * base.toInt * (n.toInt * (base.toInt * base.toInt) ^ (e / 2 - 1)) := by
          rw [mul_left_comm, ← pow_succ', show e / 2 - 1 + 1 = e / 2 by omega]
        rw [ofInt?_of_not_fits hsquare, hpow, ofInt?_of_not_fits]
        · rfl
        · apply not_fits_square_mul hsquare
          exact mul_ne_zero (fun hn => hne (hbase hn)) (pow_ne_zero _ (mul_ne_zero hne hne))
    · have hne : base.toInt ≠ 0 := fun hb => ha (hbase' hb)
      have hpow : 0 < (base.toInt * base.toInt) ^ (e / 2) := pow_pos (mul_self_pos.mpr hne) _
      rw [ofInt?_of_not_fits ha, ofInt?_of_not_fits (not_fits_mul ha hpow)]
      rfl

/-- From an exponent of 64 on only -1, 0 and 1 have a power that is in range. -/
theorem not_fits_pow {b : Int} (hb : 2 ≤ b.natAbs) {e : Nat} (he : 64 ≤ e) : ¬ Fits (b ^ e) := by
  have hpow : 2 ^ 64 ≤ (b ^ e).natAbs := by
    rw [Int.natAbs_pow]
    calc 2 ^ 64 ≤ 2 ^ e := Nat.pow_le_pow_right (by decide) he
      _ ≤ b.natAbs ^ e := Nat.pow_le_pow_left hb e
  unfold Fits
  omega

theorem power?_eq (base : Int64) {exponent : Int64} (h : 0 ≤ exponent.toInt) :
    power? base exponent = ofInt? (base.toInt ^ exponent.toInt.toNat) := by
  have heven : exponent % 2 = 0 ↔ Even exponent.toInt.toNat := by
    rw [eq_zero_iff, Int64.toInt_mod, show (2 : Int64).toInt = 2 from rfl, Int.tmod_eq_emod_of_nonneg h,
      Nat.even_iff]
    omega
  unfold power?
  rw [show Int.pow 2 32 = 2 ^ 32 from rfl]
  by_cases hsmall : exponent.toInt < 2 ^ 32
  · rw [if_pos hsmall, timesPower?_eq 1 base _ (fun h => absurd h one_ne_zero), Int64.toInt_one, one_mul]
  rw [if_neg hsmall, eq_comm]
  have hlarge : exponent.toInt.toNat ≠ 0 := by omega
  by_cases hzero : base = 0
  · subst hzero
    rw [if_pos (.inl rfl), ofInt?_eq_some, Int64.toInt_zero, zero_pow hlarge]
  by_cases hone : base = 1
  · subst hone
    rw [if_pos (.inr rfl), ofInt?_eq_some, Int64.toInt_one, one_pow]
  rw [if_neg (by simp [hzero, hone])]
  by_cases hneg : base = -1
  · subst hneg
    rw [if_pos rfl, ofInt?_eq_some, show (-1 : Int64).toInt = -1 from rfl]
    by_cases he : exponent % 2 = 0
    · rw [if_pos he, (heven.mp he).neg_one_pow, Int64.toInt_one]
    · rw [if_neg he, (Nat.not_even_iff_odd.mp (mt heven.mpr he)).neg_one_pow]
      rfl
  · rw [if_neg hneg, ofInt?_of_not_fits]
    apply not_fits_pow _ (by omega)
    simp only [← Int64.toInt_inj, Int64.toInt_zero, Int64.toInt_one, show (-1 : Int64).toInt = -1 from rfl]
      at hzero hone hneg
    omega

theorem floor_div (a : Int) {b : Int} (hb : b ≠ 0) : ⌊(a : ℚ) / b⌋ = a.fdiv b := by
  have hdiv : (a : ℚ) = b * a.fdiv b + a.fmod b := by exact_mod_cast (Int.mul_fdiv_add_fmod a b).symm
  have hb' : (b : ℚ) ≠ 0 := by exact_mod_cast hb
  have hsplit : (a : ℚ) / b = a.fdiv b + a.fmod b / b := by
    nth_rewrite 1 [hdiv]
    rw [add_div, mul_div_cancel_left₀ _ hb']
  rw [Int.floor_eq_iff, hsplit]
  rcases fmod_bounds a hb with ⟨hpos, hm, hlt⟩ | ⟨hneg, hlt, hm⟩
  · have hpos : (0 : ℚ) < b := by exact_mod_cast hpos
    have hm : (0 : ℚ) ≤ a.fmod b := by exact_mod_cast hm
    have hlt : (a.fmod b : ℚ) < b := by exact_mod_cast hlt
    have hquot := div_nonneg hm hpos.le
    have hquot' := (div_lt_one hpos).mpr hlt
    constructor <;> linarith
  · have hneg : (b : ℚ) < 0 := by exact_mod_cast hneg
    have hm : (a.fmod b : ℚ) ≤ 0 := by exact_mod_cast hm
    have hlt : (b : ℚ) < a.fmod b := by exact_mod_cast hlt
    have hquot := div_nonneg_of_nonpos hm hneg.le
    have hquot' := (div_lt_one_of_neg hneg).mpr hlt
    constructor <;> linarith

end Integer

namespace Value

open Integer

/-- The answer is that integer if it is a 64-bit one, and otherwise an overflow. -/
structure Exact (op : ArithmeticOp) (z : Int) (answer : Except RuntimeProblem Value) : Prop where
  fits : ∀ n : Int64, answer = .ok (.integer n) ↔ n.toInt = z
  overflows : answer = .error (.overflow op) ↔ ¬ (-2 ^ 63 ≤ z ∧ z < 2 ^ 63)

theorem exact_ofInt? (op : ArithmeticOp) (z : Int) : Exact op z (checked op (ofInt? z)) where
  fits n := by
    rw [← ofInt?_eq_some]
    cases ofInt? z <;> simp [checked]
  overflows := by
    rw [← Fits, ← ofInt?_eq_none]
    cases ofInt? z <;> simp [checked]

section
variable (l : Int64) {r : Int64}

theorem exact_power (h : 0 ≤ r.toInt) :
    Exact .power (l.toInt ^ r.toInt.toNat) (integerArithmetic .power l r) := by
  unfold integerArithmetic
  rw [if_neg (by rw [lt_zero_iff]; omega), power?_eq l h]
  exact exact_ofInt? _ _

theorem exact_divide (hr : r ≠ 0) :
    Exact .divide ⌊(l.toInt : ℚ) / r.toInt⌋ (integerArithmetic .divide l r) := by
  unfold integerArithmetic
  rw [if_neg hr, floorQuotient?_eq l hr, floor_div _ (toInt_ne_zero hr)]
  exact exact_ofInt? _ _

theorem modulo_eq (hr : r ≠ 0) : integerArithmetic .modulo l r = .ok (.integer (floorRemainder l r)) := by
  unfold integerArithmetic
  exact if_neg hr

theorem divide_eq_divisionByZero : integerArithmetic .divide l r = .error .divisionByZero ↔ r = 0 := by
  unfold integerArithmetic
  by_cases hr : r = 0
  · simp [hr]
  · cases floorQuotient? l r <;> simp [hr, checked]

theorem modulo_eq_divisionByZero : integerArithmetic .modulo l r = .error .divisionByZero ↔ r = 0 := by
  unfold integerArithmetic
  by_cases hr : r = 0 <;> simp [hr]

end

/-- **Integer arithmetic is exact or fails.** Sums, differences, products and powers with an exponent that is not
negative are those of the integers where they are in range, and otherwise an overflow. A division by zero is refused,
and nothing else is; any other quotient is rounded down, and in range or an overflow, and the remainder is what is
left, which is zero or has the sign of the divisor and is less than it. -/
theorem integers_exact (l r : Int64) :
    let answer (op : ArithmeticOp) := binary (.arithmetic op) (.integer l) (.integer r)
    Exact .add (l.toInt + r.toInt) (answer .add) ∧
    Exact .subtract (l.toInt - r.toInt) (answer .subtract) ∧
    Exact .multiply (l.toInt * r.toInt) (answer .multiply) ∧
    (0 ≤ r.toInt → Exact .power (l.toInt ^ r.toInt.toNat) (answer .power)) ∧
    (answer .divide = .error .divisionByZero ↔ r.toInt = 0) ∧
    (answer .modulo = .error .divisionByZero ↔ r.toInt = 0) ∧
    (r.toInt ≠ 0 → Exact .divide ⌊(l.toInt : ℚ) / r.toInt⌋ (answer .divide) ∧
      ∃ m : Int64, answer .modulo = .ok (.integer m) ∧
        m.toInt = l.toInt - ⌊(l.toInt : ℚ) / r.toInt⌋ * r.toInt ∧
        (m.toInt = 0 ∨ m.toInt.sign = r.toInt.sign) ∧ |m.toInt| < |r.toInt|) ∧
    ∀ q m : Int64, answer .divide = .ok (.integer q) → answer .modulo = .ok (.integer m) →
      q.toInt * r.toInt + m.toInt = l.toInt := by
  intro answer
  have hrest (hr : r ≠ 0) :
      (floorRemainder l r).toInt = l.toInt - ⌊(l.toInt : ℚ) / r.toInt⌋ * r.toInt := by
    rw [toInt_floorRemainder l hr, floor_div _ (toInt_ne_zero hr)]
    linarith [Int.mul_fdiv_add_fmod l.toInt r.toInt]
  refine ⟨exact_ofInt? _ _, exact_ofInt? _ _, exact_ofInt? _ _, exact_power l, ?_, ?_, ?_, ?_⟩
  · rw [← eq_zero_iff]
    exact divide_eq_divisionByZero l
  · rw [← eq_zero_iff]
    exact modulo_eq_divisionByZero l
  · intro hr
    have hr : r ≠ 0 := mt (eq_zero_iff r).mp hr
    refine ⟨exact_divide l hr, _, modulo_eq l hr, hrest hr, ?_⟩
    rw [toInt_floorRemainder l hr]
    rcases fmod_bounds l.toInt (toInt_ne_zero hr) with ⟨hpos, hm, hlt⟩ | ⟨hneg, hlt, hm⟩
    · rw [abs_of_nonneg hm, abs_of_pos hpos, Int.sign_eq_one_of_pos hpos, Int.sign_eq_one_iff_pos]
      omega
    · rw [abs_of_nonpos hm, abs_of_neg hneg, Int.sign_eq_neg_one_of_neg hneg, Int.sign_eq_neg_one_iff_neg]
      omega
  · intro q m hq hm
    by_cases hr : r = 0
    · have hfail := ((divide_eq_divisionByZero l).mpr hr).symm.trans hq
      cases hfail
    have hm := (modulo_eq l hr).symm.trans hm
    cases hm
    rw [((exact_divide l hr).fits q).mp hq, hrest hr]
    ring

/-- The least integer is a power of -2. Divided by -1 it is out of range, and yet there is a remainder. -/
theorem integers_exact_least :
    0 ≤ (63 : Int64).toInt ∧
    binary (.arithmetic .power) (.integer (-2)) (.integer 63) = .ok (.integer Int64.minValue) ∧
    (-1 : Int64).toInt ≠ 0 ∧
    binary (.arithmetic .divide) (.integer Int64.minValue) (.integer (-1)) = .error (.overflow .divide) ∧
    ∃ m : Int64, binary (.arithmetic .modulo) (.integer Int64.minValue) (.integer (-1)) = .ok (.integer m) ∧
      m.toInt = 0 := by
  have hexponent : 0 ≤ (63 : Int64).toInt := by decide
  have hdivisor : (-1 : Int64).toInt ≠ 0 := by decide
  have hfloor : ⌊(Int64.minValue.toInt : ℚ) / (-1 : Int64).toInt⌋ = 2 ^ 63 := by
    rw [floor_div _ hdivisor]
    decide
  obtain ⟨-, -, -, hpower, -⟩ := integers_exact (-2) 63
  obtain ⟨-, -, -, -, -, -, hdivide, -⟩ := integers_exact Int64.minValue (-1)
  obtain ⟨hquotient, m, hm, hrest, -⟩ := hdivide hdivisor
  rw [hfloor] at hquotient hrest
  refine ⟨hexponent, ((hpower hexponent).fits _).mpr (by decide), hdivisor, ?_, m, hm, ?_⟩
  · exact hquotient.overflows.mpr (by decide)
  rw [hrest]
  decide

end Value

end Sprig
