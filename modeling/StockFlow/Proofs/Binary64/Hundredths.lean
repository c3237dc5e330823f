import Mathlib
import StockFlow.Proofs.Binary64.Arithmetic
import StockFlow.Value.Reading
/-!
# Rounded hundredths

A percentage of a whole number is a hundredth of a product, rounded to a whole number. It is computed in
binary64 with two roundings before the floor: the hundredth is rounded, one half is added, and the sum is
rounded (`Binary64.IsRoundedHundredth`, which holds of one whole number at most).

The exact answer is the floor of `n / 100 + 1 / 2`. Both roundings preserve on which side of a number of
the format a number is. So the computed floor is not below the exact one, since it and its predecessor's
upper half are numbers of the format; and it is not above the exact one if the format has a number with
few bits between the hundredth and the next half, such that the sum of it and one half has few bits too.
There is one for all numbers up to `100 * 2 ^ 47` (`IsRoundedHundredth.eq_of_abs_le`). Whole numbers and
halves have few bits for longer, up to `100 * 2 ^ 52` (`IsRoundedHundredth.eq_of_dvd`).
-/

namespace StockFlow

namespace Binary64

variable {x y : Binary64} {n whole : ℤ}

/-! ## Adding one half -/

lemma toRat_half : half.toRat = 1 / 2 := by
  rw [half, toRat_finite, if_neg Bool.false_ne_true, zpow_neg]
  norm_num

/-- One half can be added to every finite number. -/
lemma isNearest_add_half (hx : x.isFinite) : (x.add half).IsNearest (x.toRat + 1 / 2) := by
  have hroom : (1 : ℚ) < 2 ^ (971 : ℤ) := one_lt_zpow₀ one_lt_two (by norm_num)
  have hbound := abs_toRat_le hx
  have hsum : |x.toRat + 1 / 2| < rangeEnd := by
    rw [rangeEnd_eq]
    have htriangle := abs_add_le x.toRat (1 / 2)
    rw [abs_of_pos (by norm_num : (0 : ℚ) < 1 / 2)] at htriangle
    generalize (2 : ℚ) ^ (971 : ℤ) = power at hroom hbound ⊢
    linarith
  rw [← toRat_half] at hsum ⊢
  exact isNearest_add hx rfl hsum

/-- A finite number is rounded to the floor of its sum with one half. -/
lemma roundHalfUp_float (hx : x.isFinite) :
    (Number.float x).roundHalfUp = .ok ⌊(x.add half).toRat⌋ := by
  dsimp only [Number.roundHalfUp, Number.toBinary64, bind, Except.bind]
  rw [floor?_eq (isNearest_add_half hx).isFinite]
  rfl

/-! ## Two roundings and a floor -/

/-- Whether a whole number is what a hundredth is rounded to: the floor of the number nearest to the sum
of one half and the number nearest to the hundredth. -/
def IsRoundedHundredth (n whole : ℤ) : Prop :=
  ∃ x y : Binary64, x.IsNearest (n / 100) ∧ y.IsNearest (x.toRat + 1 / 2) ∧ whole = ⌊y.toRat⌋

/-- A hundredth is rounded to one whole number. -/
lemma IsRoundedHundredth.unique {whole' : ℤ} (h : IsRoundedHundredth n whole)
    (h' : IsRoundedHundredth n whole') : whole = whole' := by
  obtain ⟨x, y, hx, hy, rfl⟩ := h
  obtain ⟨x', y', hx', hy', rfl⟩ := h'
  rw [hx.toRat_unique hx'] at hy
  rw [hy.toRat_unique hy']

/-- Numbers with few bits are in the range. -/
lemma abs_hundredth_lt_rangeEnd (h : |n| < 2 ^ 59) : |(n : ℚ) / 100| < rangeEnd := by
  have hpower : (1 : ℚ) ≤ 2 ^ (971 : ℤ) := one_le_zpow₀ one_le_two (by norm_num)
  have hsmall : |(n : ℚ)| < 2 ^ 59 := by exact_mod_cast h
  rw [abs_div, abs_of_pos (by norm_num : (0 : ℚ) < 100), div_lt_iff₀ (by norm_num), rangeEnd_eq]
  generalize (2 : ℚ) ^ (971 : ℤ) = power at hpower ⊢
  linarith

lemma abs_hundredth (n : ℤ) : |(n : ℚ) / 100| = n.natAbs / (100 : ℕ) := by
  rw [abs_div, Nat.cast_natAbs, Int.cast_abs]
  norm_num

/-- The hundredth of a whole number is the nearest number, if it is in the range. -/
lemma exists_hundredth (h : |(n : ℚ) / 100| < rangeEnd) :
    ∃ x : Binary64, (Number.int n).hundredth = .ok x ∧ x.IsNearest (n / 100) := by
  rw [abs_hundredth] at h
  have hnearest := isNearest_ofRatio (decide (n < 0)) (by norm_num) h
  rw [← mul_div_assoc, sign_mul_natAbs] at hnearest
  exact ⟨_, if_pos hnearest.isFinite, by exact_mod_cast hnearest⟩

/-- A hundredth beyond the range is refused. -/
lemma hundredth_eq_overflow (h : rangeEnd ≤ |(n : ℚ) / 100|) :
    (Number.int n).hundredth = .error .overflow := by
  rw [abs_hundredth] at h
  have hinfinite := ofRatio_eq_infinity (decide (n < 0)) (by norm_num) h
  unfold Number.hundredth
  dsimp only
  rw [hinfinite]
  rfl

/-! ## Where the roundings do no harm -/

section Bounds

variable {q : ℚ} {k : ℤ} (hx : x.IsNearest q)

include hx

/-- The computed floor, if the exact one is a number of the format whose predecessor's upper half is one
too, and some number of the format separates the sum from the next whole number. -/
lemma floor_eq_of_bounds (hy : y.IsNearest (x.toRat + 1 / 2)) (hk : |2 * k - 1| ≤ 2 ^ 53)
    (hlow : k - 1 / 2 ≤ q) {m : ℤ} {e : ℕ} (hm : |m| ≤ 2 ^ 53) (he : e ≤ 1074)
    (hhigh : x.toRat + 1 / 2 ≤ m / 2 ^ e) (hnext : m < (k + 1) * 2 ^ e) : ⌊y.toRat⌋ = k := by
  have hbelow := hx.div_le_toRat hk (by norm_num : 1 ≤ 1074) (by push_cast; linarith)
  push_cast at hbelow
  have hkBits : |k| ≤ 2 ^ 53 := by
    rw [abs_le] at hk ⊢
    omega
  have hleast := hy.div_le_toRat hkBits (Nat.zero_le 1074) (by rw [pow_zero, div_one]; linarith)
  rw [pow_zero, div_one] at hleast
  have hmost : y.toRat < k + 1 := by
    refine (hy.toRat_le_div hm he hhigh).trans_lt ?_
    rw [div_lt_iff₀ (by positivity)]
    exact_mod_cast hnext
  exact Int.floor_eq_iff.mpr ⟨hleast, hmost⟩

/-- What is nearest to a number of at least 46 bits has at least 46 bits. -/
lemma two_pow_le_abs_toRat (hlow : k < q) (hq : q ≤ k + 49 / 100)
    (hk : k + 1 ≤ -2 ^ 46 ∨ 2 ^ 46 ≤ k) : 2 ^ 46 ≤ |x.toRat| := by
  rw [le_abs]
  rcases hk with hneg | hpos
  · have hneg' : (k : ℚ) + 1 ≤ -2 ^ 46 := by exact_mod_cast hneg
    have hbound := hx.toRat_le_div (m := -2 ^ 46) (by norm_num) (Nat.zero_le 1074)
      (by push_cast; linarith)
    push_cast at hbound
    right
    linarith
  · have hpos' : (2 : ℚ) ^ 46 ≤ k := by exact_mod_cast hpos
    have hbound := hx.div_le_toRat (m := 2 ^ 46) (by norm_num) (Nat.zero_le 1074)
      (by push_cast; linarith)
    push_cast at hbound
    left
    linarith

/-- A number of at least 46 bits is a multiple of `1 / 64`, so it stays at least that far below a half
that it is not too near to. -/
lemma toRat_le_of_large (hq : q ≤ k + 49 / 100) (hbits : |64 * k + 31| ≤ 2 ^ 53)
    (hlarge : 2 ^ 46 ≤ |x.toRat|) : x.toRat ≤ (64 * k + 31 : ℤ) / 2 ^ 6 := by
  obtain ⟨j, hj⟩ := exists_eq_div_two_pow hx.isFinite (k := 6) (by norm_num1; exact hlarge)
  rcases le_or_gt q ((64 * k + 31 : ℤ) / 2 ^ 6) with hle | hgt
  · exact hx.toRat_le_div hbits (by norm_num) hle
  · -- the distance is at most that of the multiple below, which rules out the half itself
    obtain ⟨z, hz, hvalue⟩ := exists_toRat_eq hbits (by norm_num : 6 ≤ 1074)
    have hnearer := (le_abs_self _).trans (hx.abs_sub_le z hz)
    rw [hvalue, abs_of_neg (by linarith), hj] at hnearer
    push_cast at hnearer hgt
    have hless : (j : ℚ) < 64 * k + 32 := by linarith
    have hless' : j < 64 * k + 32 := by exact_mod_cast hless
    have hle : (j : ℚ) ≤ (64 * k + 31 : ℤ) := by exact_mod_cast (by omega : j ≤ 64 * k + 31)
    rw [hj]
    exact div_le_div_of_nonneg_right hle (by positivity)

/-- Near a hundredth of at most 47 bits the format is so fine that it separates the sum with one half
from the next whole number. -/
lemma exists_separating (hq : q ≤ k + 49 / 100) (hk : -2 ^ 47 ≤ k)
    (hmost : q ≤ k ∧ k ≤ 2 ^ 47 ∨ k < q ∧ k < 2 ^ 47) :
    ∃ (m : ℤ) (e : ℕ), |m| ≤ 2 ^ 53 ∧ e ≤ 1074 ∧ x.toRat + 1 / 2 ≤ m / 2 ^ e ∧
      m < (k + 1) * 2 ^ e := by
  rcases hmost with ⟨hlow, hmost⟩ | ⟨hlow, hmost⟩
  · -- not above the whole number
    have habove := hx.toRat_le_div (m := k) (abs_le.mpr (by omega)) (Nat.zero_le 1074)
      (by rw [pow_zero, div_one]; exact hlow)
    refine ⟨2 * k + 1, 1, abs_le.mpr (by omega), by norm_num, ?_, by omega⟩
    push_cast at habove ⊢
    linarith
  by_cases hsmall : -2 ^ 46 ≤ k ∧ k < 2 ^ 46
  · -- seven places are left for the fraction
    have habove := hx.toRat_le_div (m := 128 * k + 63) (abs_le.mpr (by omega))
      (by norm_num : 7 ≤ 1074) (by push_cast; linarith)
    refine ⟨128 * k + 127, 7, abs_le.mpr (by omega), by norm_num, ?_, by omega⟩
    push_cast at habove ⊢
    linarith
  · -- six places are left
    have habove := toRat_le_of_large hx hq (abs_le.mpr (by omega))
      (two_pow_le_abs_toRat hx hlow hq (by omega))
    refine ⟨64 * k + 63, 6, abs_le.mpr (by omega), by norm_num, ?_, by omega⟩
    push_cast at habove ⊢
    linarith

end Bounds

/-- The exact answer is within its bounds. -/
lemma hundredth_bounds (n : ℤ) : ((n + 50) / 100 : ℤ) - 1 / 2 ≤ (n : ℚ) / 100 ∧
    (n : ℚ) / 100 ≤ ((n + 50) / 100 : ℤ) + 49 / 100 := by
  have hlow : ((100 * ((n + 50) / 100) - 50 : ℤ) : ℚ) ≤ n := by
    exact_mod_cast (by omega : 100 * ((n + 50) / 100) - 50 ≤ n)
  have hhigh : (n : ℚ) ≤ (100 * ((n + 50) / 100) + 49 : ℤ) := by
    exact_mod_cast (by omega : n ≤ 100 * ((n + 50) / 100) + 49)
  push_cast at hlow hhigh
  constructor <;> linarith

/-- Hundredths of numbers up to `100 * 2 ^ 47` are rounded to the nearest whole number, halves up. -/
theorem IsRoundedHundredth.eq_of_abs_le (h : IsRoundedHundredth n whole) (hn : |n| ≤ 100 * 2 ^ 47) :
    whole = (n + 50) / 100 := by
  obtain ⟨x, y, hx, hy, rfl⟩ := h
  obtain ⟨hlow, hhigh⟩ := hundredth_bounds n
  rw [abs_le] at hn
  have hside : (n : ℚ) / 100 ≤ ((n + 50) / 100 : ℤ) ∧ (n + 50) / 100 ≤ 2 ^ 47 ∨
      ((n + 50) / 100 : ℤ) < (n : ℚ) / 100 ∧ (n + 50) / 100 < 2 ^ 47 := by
    rw [div_le_iff₀ (by norm_num), lt_div_iff₀ (by norm_num)]
    norm_cast
    omega
  obtain ⟨m, e, hm, he, hsum, hnext⟩ := exists_separating hx hhigh (by omega) hside
  exact floor_eq_of_bounds hx hy (abs_le.mpr (by omega)) hlow hm he hsum hnext

/-- Hundredths that are halves of whole numbers are rounded up to whole numbers below `2 ^ 52`. -/
theorem IsRoundedHundredth.eq_of_dvd (h : IsRoundedHundredth n whole) (hdvd : 50 ∣ n)
    (hn : |n| < 100 * 2 ^ 52) : whole = (n + 50) / 100 := by
  obtain ⟨x, y, hx, hy, rfl⟩ := h
  obtain ⟨half, rfl⟩ := hdvd
  rw [abs_lt] at hn
  have hle := hx.toRat_le_div (m := half) (k := 1) (abs_le.mpr (by omega)) (by norm_num)
    (by push_cast; linarith)
  refine floor_eq_of_bounds hx hy (abs_le.mpr (by omega)) (hundredth_bounds _).1 (m := half + 1)
    (e := 1) (abs_le.mpr (by omega)) (by norm_num) ?_ (by omega)
  push_cast
  linarith

end Binary64

/-! ## Percentages -/

open Binary64

variable {V N : ℤ}

lemma percentOf_int (V N : ℤ) : percentOf (.int V) (.int N) = do
    let share ← (Number.int (V * N)).hundredth
    return .int (← (Number.float share).roundHalfUp) := rfl

/-- A percentage of a whole number is the rounded hundredth of the product, if that is in the range. -/
lemma exists_percentOf_int (h : |((V * N : ℤ) : ℚ) / 100| < rangeEnd) :
    ∃ whole, percentOf (.int V) (.int N) = .ok (.int whole) ∧ IsRoundedHundredth (V * N) whole := by
  obtain ⟨x, hx, hnearest⟩ := exists_hundredth h
  refine ⟨⌊(x.add half).toRat⌋, ?_, x, x.add half, hnearest,
    isNearest_add_half hnearest.isFinite, rfl⟩
  rw [percentOf_int, hx]
  change (do return Datum.int (← (Number.float x).roundHalfUp)) = _
  rw [roundHalfUp_float hnearest.isFinite]
  rfl

/-- A percentage of a whole number is refused beyond the range. -/
lemma percentOf_int_eq_overflow (h : rangeEnd ≤ |((V * N : ℤ) : ℚ) / 100|) :
    percentOf (.int V) (.int N) = .error .overflow := by
  rw [percentOf_int, hundredth_eq_overflow h]
  rfl

end StockFlow
