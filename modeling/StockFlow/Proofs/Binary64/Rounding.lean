import Mathlib
import StockFlow.Binary64.Basic
/-!
# Rounding to binary64

A quotient is rounded to the number of the format that is nearest to it, and of two that are as near to
the one with an even mantissa (`Binary64.IsNearest`). Both halves of the range are settled: below its end
the rounded quotient is nearest to the exact one (`Binary64.isNearest_ofRatio`), and from there on it is
infinite (`Binary64.ofRatio_eq_infinity`).

On the grid that a quotient is rounded on, rounding is that of whole numbers, where nothing is nearer
than the rounded mantissa. Numbers of the format with a smaller exponent are not on the grid, but they
are further away than the least number of 53 bits that is (`Binary64.exists_multiple_le`). The mantissa
may be carried into the next bit, which moves the point (`Binary64.ofRounded_spec`).
-/

namespace StockFlow

/-! ## Quotients -/

section Quotients

variable {num den : ℕ}

/-- A quotient is its whole part and the remainder over the divisor. -/
lemma div_eq_div_add_mod_div (hden : 0 < den) :
    (num : ℚ) / den = (num / den : ℕ) + (num % den : ℕ) / den := by
  have hne : (den : ℚ) ≠ 0 := Nat.cast_ne_zero.mpr hden.ne'
  rw [div_eq_iff hne, add_mul, div_mul_cancel₀ _ hne]
  exact_mod_cast (Nat.div_add_mod' num den).symm

/-- A whole number is at most a half away from what rounds to it, and it is even if it is a half
away. -/
lemma abs_roundHalfEven_sub_le (hden : 0 < den) :
    |(roundHalfEven num den : ℚ) - num / den| ≤ 1 / 2 ∧
      (|(roundHalfEven num den : ℚ) - num / den| = 1 / 2 → roundHalfEven num den % 2 = 0) := by
  have hpos : (0 : ℚ) < den := Nat.cast_pos.mpr hden
  have hrest : (0 : ℚ) ≤ (num % den : ℕ) / den := by positivity
  have hsmall : ((num % den : ℕ) / den : ℚ) < 1 := by
    rw [div_lt_one hpos]
    exact_mod_cast Nat.mod_lt num hden
  rw [div_eq_div_add_mod_div hden]
  unfold roundHalfEven
  dsimp only
  split
  · next hlow =>
    have hhalf : ((num % den : ℕ) / den : ℚ) < 1 / 2 := by
      rw [div_lt_div_iff₀ hpos two_pos, one_mul, mul_comm]
      exact_mod_cast hlow
    rw [sub_add_cancel_left, abs_neg, abs_of_nonneg hrest]
    exact ⟨hhalf.le, fun h => absurd h hhalf.ne⟩
  split
  · next hhigh =>
    have hhalf : (1 / 2 : ℚ) < (num % den : ℕ) / den := by
      rw [div_lt_div_iff₀ two_pos hpos, one_mul, mul_comm]
      exact_mod_cast hhigh
    rw [Nat.cast_add, Nat.cast_one, add_sub_add_left_eq_sub, abs_of_pos (by linarith)]
    exact ⟨by linarith, fun h => absurd h (by linarith)⟩
  · next hlow hhigh =>
    have hhalf : ((num % den : ℕ) / den : ℚ) = 1 / 2 := by
      rw [div_eq_div_iff hpos.ne' two_ne_zero, one_mul, mul_comm]
      exact_mod_cast le_antisymm (not_lt.mp hhigh) (not_lt.mp hlow)
    split
    · next heven =>
      rw [hhalf, sub_add_cancel_left, abs_neg, abs_of_pos (by norm_num)]
      exact ⟨le_refl _, fun _ => heven⟩
    · next hodd =>
      rw [hhalf, Nat.cast_add, Nat.cast_one, add_sub_add_left_eq_sub]
      norm_num
      omega

/-- The numerator and the denominator of a scaled quotient. -/
lemma scaleRatio_div (num den : ℕ) (shift : ℤ) :
    ((scaleRatio num den shift).1 : ℚ) / (scaleRatio num den shift).2 = num / den * 2 ^ shift := by
  unfold scaleRatio
  obtain ⟨k, rfl | rfl⟩ := shift.eq_nat_or_neg
  · simp [mul_div_right_comm]
  · simp only [Int.toNat_neg_natCast, neg_neg, Int.toNat_natCast, Nat.pow_eq, pow_zero, mul_one,
      Nat.cast_mul, Nat.cast_pow, Nat.cast_ofNat, zpow_neg, zpow_natCast, div_mul_eq_div_div]
    rfl

/-- The denominator of a scaled quotient is positive. -/
lemma scaleRatio_snd_pos (num : ℕ) (hden : 0 < den) (shift : ℤ) :
    0 < (scaleRatio num den shift).2 :=
  Nat.mul_pos hden (Nat.pow_pos two_pos)

/-- A positive quotient lies between two neighbouring powers of two. -/
lemma floorLog2_spec (hnum : 0 < num) (hden : 0 < den) :
    (2 : ℚ) ^ floorLog2 num den ≤ num / den ∧ (num : ℚ) / den < 2 ^ (floorLog2 num den + 1) := by
  have hdenPos : (0 : ℚ) < den := Nat.cast_pos.mpr hden
  have hbounds : ∀ {n : ℕ}, 0 < n → (2 : ℚ) ^ (Nat.log2 n : ℤ) ≤ n ∧
      (n : ℚ) < 2 ^ ((Nat.log2 n : ℤ) + 1) := by
    intro n hn
    refine ⟨?_, ?_⟩
    · rw [zpow_natCast]
      exact_mod_cast Nat.log2_self_le hn.ne'
    · have hlt : n < 2 ^ (Nat.log2 n + 1) := Nat.lt_log2_self
      exact_mod_cast hlt
  obtain ⟨hnumLow, hnumHigh⟩ := hbounds hnum
  obtain ⟨hdenLow, hdenHigh⟩ := hbounds hden
  set k : ℤ := (Nat.log2 num : ℤ) - Nat.log2 den with hk
  have hlow : (2 : ℚ) ^ (k - 1) ≤ num / den := by
    have hsplit : k - 1 = (Nat.log2 num : ℤ) - ((Nat.log2 den : ℤ) + 1) := by omega
    rw [hsplit, zpow_sub₀ two_ne_zero, div_le_div_iff₀ (by positivity) hdenPos]
    exact mul_le_mul hnumLow hdenHigh.le hdenPos.le (Nat.cast_nonneg num)
  have hhigh : (num : ℚ) / den < 2 ^ (k + 1) := by
    have hsplit : k + 1 = ((Nat.log2 num : ℤ) + 1) - Nat.log2 den := by omega
    rw [hsplit, zpow_sub₀ two_ne_zero, div_lt_div_iff₀ hdenPos (by positivity)]
    exact mul_lt_mul hnumHigh hdenLow (by positivity) (by positivity)
  have htest : (scaleRatio num den (-k)).2 ≤ (scaleRatio num den (-k)).1 ↔
      (2 : ℚ) ^ k ≤ num / den := by
    have hpos : (0 : ℚ) < (scaleRatio num den (-k)).2 :=
      Nat.cast_pos.mpr (scaleRatio_snd_pos num hden (-k))
    rw [← Nat.cast_le (α := ℚ), ← one_le_div hpos, scaleRatio_div, zpow_neg,
      ← div_eq_mul_inv, one_le_div (by positivity)]
  have hlog : floorLog2 num den =
      if (scaleRatio num den (-k)).2 ≤ (scaleRatio num den (-k)).1 then k else k - 1 := rfl
  rw [hlog]
  split
  · next h => exact ⟨htest.mp h, hhigh⟩
  · next h =>
    rw [sub_add_cancel]
    exact ⟨hlow, not_le.mp (mt htest.mpr h)⟩

/-- No whole number is nearer than the one that a quotient rounds to, and if another one is as near,
this one is even. -/
lemma abs_roundHalfEven_sub_le_abs (hden : 0 < den) (j : ℤ) :
    |(roundHalfEven num den : ℚ) - num / den| ≤ |(j : ℚ) - num / den| ∧
      (|(j : ℚ) - num / den| = |(roundHalfEven num den : ℚ) - num / den| →
        j = roundHalfEven num den ∨ roundHalfEven num den % 2 = 0) := by
  obtain ⟨hhalf, heven⟩ := @abs_roundHalfEven_sub_le num den hden
  by_cases hj : j = roundHalfEven num den
  · rw [hj, Int.cast_natCast]
    exact ⟨le_refl _, fun _ => Or.inl rfl⟩
  have hone : (1 : ℚ) ≤ |(j : ℚ) - roundHalfEven num den| := by
    have habs : (1 : ℤ) ≤ |j - roundHalfEven num den| := Int.one_le_abs (sub_ne_zero.mpr hj)
    exact_mod_cast habs
  have htriangle := abs_sub_le (j : ℚ) (num / den) (roundHalfEven num den)
  rw [abs_sub_comm (num / den : ℚ)] at htriangle
  exact ⟨by linarith, fun htie => Or.inr (heven (by linarith))⟩

end Quotients

namespace Binary64

/-! ## Finite numbers as rational numbers -/

/-- The rational number that a finite number is. The other numbers count as zero. -/
def toRat : Binary64 → ℚ
  | .finite negative mantissa exponent _ =>
    (if negative then -1 else 1) * (mantissa * 2 ^ exponent)
  | _ => 0

/-- The mantissa of a finite number. -/
def mantissa : Binary64 → ℕ
  | .finite _ mantissa _ _ => mantissa
  | _ => 0

/-- A finite number that is nearest to a rational one, and if another one is as near, the one with an
even mantissa. -/
structure IsNearest (x : Binary64) (q : ℚ) : Prop where
  isFinite : x.isFinite
  abs_sub_le : ∀ y : Binary64, y.isFinite → |x.toRat - q| ≤ |y.toRat - q|
  even : ∀ y : Binary64, y.isFinite → |y.toRat - q| = |x.toRat - q| →
    y.toRat = x.toRat ∨ x.mantissa % 2 = 0

variable {x y : Binary64} {q : ℚ}

lemma toRat_finite (negative : Bool) (m : ℕ) (e : ℤ) (h : Canonical m e) :
    (Binary64.finite negative m e h).toRat = (if negative then -1 else 1) * (m * 2 ^ e) := rfl

/-- The other sign is the negative number. -/
@[simp]
lemma toRat_neg (x : Binary64) : x.neg.toRat = -x.toRat := by
  cases x with
  | nan => exact neg_zero.symm
  | infinity negative => exact neg_zero.symm
  | finite negative m e h => cases negative <;> simp [neg, toRat]

@[simp]
lemma mantissa_neg (x : Binary64) : x.neg.mantissa = x.mantissa := by
  cases x <;> rfl

@[simp]
lemma isFinite_neg (x : Binary64) : x.neg.isFinite = x.isFinite := by
  cases x <;> rfl

@[simp]
lemma neg_neg_self (x : Binary64) : x.neg.neg = x := by
  cases x <;> simp [neg]

/-- The negative of a nearest number is nearest to the negative. -/
lemma IsNearest.neg (h : x.IsNearest q) : x.neg.IsNearest (-q) := by
  have habs : ∀ y : Binary64, |y.toRat - -q| = |y.neg.toRat - q| := by
    intro y
    rw [toRat_neg, ← abs_neg]
    congr 1
    ring
  refine ⟨by rw [isFinite_neg]; exact h.isFinite, fun y hy => ?_, fun y hy htie => ?_⟩
  · rw [habs, habs, neg_neg_self]
    exact h.abs_sub_le y.neg (by rw [isFinite_neg]; exact hy)
  · rw [habs, habs, neg_neg_self] at htie
    rw [mantissa_neg, toRat_neg]
    refine (h.even y.neg (by rw [isFinite_neg]; exact hy) htie).imp_left fun heq => ?_
    rw [← heq, toRat_neg, neg_neg]

/-- A finite number is no nearer to a positive rational one than some multiple of a power of two, if
the power is the least one that the format has or is small against the rational number. If it is as
near, it is that multiple. -/
lemma exists_multiple_le (hy : y.isFinite) {e : ℤ}
    (hsmall : e = -1074 ∨ 2 ^ 52 * (2 : ℚ) ^ e ≤ q) :
    ∃ j : ℤ, |j * (2 : ℚ) ^ e - q| ≤ |y.toRat - q| ∧
      (|j * (2 : ℚ) ^ e - q| = |y.toRat - q| → y.toRat = j * 2 ^ e) := by
  cases y with
  | nan => cases hy
  | infinity negative => cases hy
  | finite negative m f h =>
    rcases le_or_gt e f with hle | hlt
    · -- the number is itself a multiple
      obtain ⟨k, rfl⟩ := Int.le.dest hle
      have hmultiple : (Binary64.finite negative m (e + k) h).toRat =
          (((if negative then -1 else 1) * (m * 2 ^ k) : ℤ) : ℚ) * 2 ^ e := by
        rw [toRat_finite, zpow_add₀ two_ne_zero, zpow_natCast]
        push_cast
        ring
      rw [hmultiple]
      exact ⟨_, le_refl _, fun _ => rfl⟩
    · -- a number with a smaller exponent is below the least one with this exponent
      have hm : (m : ℚ) * 2 ^ f < 2 ^ 52 * (2 : ℚ) ^ e := by
        have hmantissa : (m : ℚ) < 2 ^ 53 := by exact_mod_cast h.1
        have hpower : (2 : ℚ) ^ (f + 1) ≤ 2 ^ e := zpow_le_zpow_right₀ one_le_two (by omega)
        rw [zpow_add_one₀ two_ne_zero] at hpower
        have hpos : (0 : ℚ) < 2 ^ f := zpow_pos two_pos f
        nlinarith
      have hbelow : (Binary64.finite negative m f h).toRat < 2 ^ 52 * (2 : ℚ) ^ e := by
        have hpos : (0 : ℚ) ≤ m * 2 ^ f := by positivity
        rw [toRat_finite]
        split <;> linarith
      have hq : 2 ^ 52 * (2 : ℚ) ^ e ≤ q := hsmall.resolve_left (by have := h.2.1; omega)
      have hnearer : |((2 ^ 52 : ℤ) : ℚ) * 2 ^ e - q| <
          |(Binary64.finite negative m f h).toRat - q| := by
        push_cast
        rw [abs_sub_comm, abs_of_nonneg (by linarith), abs_sub_comm, abs_of_nonneg (by linarith)]
        linarith
      exact ⟨2 ^ 52, hnearer.le, fun htie => absurd htie hnearer.ne⟩

/-- The end of the range, as a number of 53 or of 54 bits. -/
lemma two_pow_1024_eq :
    (2 : ℚ) ^ 1024 = 2 ^ 53 * 2 ^ (971 : ℤ) ∧ (2 : ℚ) ^ 1024 = 2 ^ 52 * 2 ^ (972 : ℤ) := by
  constructor
  · exact pow_add 2 53 971
  · exact pow_add 2 52 972

/-- All numbers of 53 bits with an exponent above those of the format are beyond the range. -/
lemma two_pow_1024_le_mul {a : ℚ} {e : ℤ} (ha : 2 ^ 52 ≤ a) (he : 971 < e) : 2 ^ 1024 ≤ a * 2 ^ e := by
  rw [two_pow_1024_eq.2]
  exact mul_le_mul ha (zpow_le_zpow_right₀ one_le_two (by omega)) (by positivity)
    ((by positivity : (0 : ℚ) ≤ 2 ^ 52).trans ha)

/-- A mantissa of at most 53 bits is one of the format if its number is in the range. -/
lemma canonical_iff_lt {m : ℕ} {e : ℤ} (hm : m < 2 ^ 53) (he : -1074 ≤ e)
    (hnormal : 2 ^ 52 ≤ m ∨ e = -1074) : Canonical m e ↔ (m : ℚ) * 2 ^ e < 2 ^ 1024 := by
  constructor
  · rintro ⟨-, -, hle, -⟩
    rw [two_pow_1024_eq.1]
    exact mul_lt_mul (by exact_mod_cast hm) (zpow_le_zpow_right₀ one_le_two hle)
      (by positivity) (by positivity)
  · refine fun h => ⟨hm, he, ?_, hnormal⟩
    by_contra hgt
    have hbits : (2 : ℚ) ^ 52 ≤ m := by exact_mod_cast hnormal.resolve_right (by omega)
    exact absurd h (not_lt.mpr (two_pow_1024_le_mul hbits (not_le.mp hgt)))

/-- The number after those of 53 bits is the same number with the point moved. -/
lemma two_pow_52_mul_eq (e : ℤ) : ((2 ^ 52 : ℕ) : ℚ) * 2 ^ (e + 1) = ((2 ^ 53 : ℕ) : ℚ) * 2 ^ e := by
  rw [zpow_add_one₀ two_ne_zero]
  push_cast
  ring

/-- A mantissa of at most 53 bits, or the next number after these, with an exponent of the format. -/
lemma ofRounded_spec (negative : Bool) {m : ℕ} {e : ℤ} (hm : m ≤ 2 ^ 53) (he : -1074 ≤ e)
    (hnormal : 2 ^ 52 ≤ m ∨ e = -1074) :
    ((m : ℚ) * 2 ^ e < 2 ^ 1024 → (ofRounded negative m e).isFinite ∧
      (ofRounded negative m e).toRat = (if negative then -1 else 1) * (m * 2 ^ e) ∧
      (m % 2 = 0 → (ofRounded negative m e).mantissa % 2 = 0)) ∧
    (2 ^ 1024 ≤ (m : ℚ) * 2 ^ e → ofRounded negative m e = .infinity negative) := by
  rcases hm.lt_or_eq with hlt | rfl
  · have hofRounded : ofRounded negative m e =
        if h : Canonical m e then .finite negative m e h else .infinity negative := by
      unfold ofRounded
      simp only [Nat.pow_eq, hlt.ne, if_false]
    have hcanonical := canonical_iff_lt hlt he hnormal
    rw [hofRounded]
    constructor
    · intro h
      rw [dif_pos (hcanonical.mpr h)]
      exact ⟨rfl, rfl, id⟩
    · intro h
      rw [dif_neg (mt hcanonical.mp (not_lt.mpr h))]
  · -- a carry into the next bit moves the point
    have hofRounded : ofRounded negative (2 ^ 53) e =
        if h : Canonical (2 ^ 52) (e + 1) then .finite negative (2 ^ 52) (e + 1) h
        else .infinity negative := rfl
    have hcanonical : Canonical (2 ^ 52) (e + 1) ↔ ((2 ^ 53 : ℕ) : ℚ) * 2 ^ e < 2 ^ 1024 := by
      rw [← two_pow_52_mul_eq]
      exact canonical_iff_lt (by decide) (by omega) (.inl (le_refl _))
    rw [hofRounded]
    constructor
    · intro h
      rw [dif_pos (hcanonical.mpr h), toRat_finite, two_pow_52_mul_eq]
      refine ⟨rfl, rfl, fun _ => ?_⟩
      change 2 ^ 52 % 2 = 0
      norm_num
    · intro h
      rw [dif_neg (mt hcanonical.mp (not_lt.mpr h))]

/-! ## Quotients rounded to numbers of the format -/

/-- The end of what rounds to a finite number: half way between the greatest finite number and the next
one that a wider format would have. -/
def rangeEnd : ℚ := 2 ^ 1024 - 2 ^ 970

/-- The end of the range on the grid of the greatest exponent. -/
lemma rangeEnd_eq : rangeEnd = (2 ^ 53 - 1 / 2) * 2 ^ (971 : ℤ) := by
  have hhalf : (2 : ℚ) ^ (971 : ℤ) = 2 ^ (970 : ℤ) * 2 := zpow_add_one₀ two_ne_zero 970
  have hnat : (2 : ℚ) ^ 970 = 2 ^ (970 : ℤ) := (zpow_natCast 2 970).symm
  unfold rangeEnd
  rw [two_pow_1024_eq.1, sub_mul, hnat, hhalf]
  ring

lemma rangeEnd_pos : 0 < rangeEnd := by
  rw [rangeEnd_eq]
  exact mul_pos (by norm_num) (zpow_pos two_pos 971)

section Ratio

variable {num den : ℕ}

/-- The exponent that a quotient is rounded at. -/
def ratioExponent (num den : ℕ) : ℤ := max (floorLog2 num den - 52) (-1074)

/-- The mantissa that a quotient is rounded to, which may be the number after those of 53 bits. -/
def ratioMantissa (num den : ℕ) : ℕ :=
  roundHalfEven (scaleRatio num den (-ratioExponent num den)).1
    (scaleRatio num den (-ratioExponent num den)).2

/-- A quotient that is not zero is rounded to a mantissa. -/
lemma ofRatio_of_ne_zero (negative : Bool) (hnum : num ≠ 0) :
    ofRatio negative num den = ofRounded negative (ratioMantissa num den) (ratioExponent num den) :=
  if_neg hnum

/-- A positive quotient on the grid that it is rounded on has at most 53 bits, and exactly 53 unless the
grid is the finest one. -/
lemma ratioExponent_spec (hnum : 0 < num) (hden : 0 < den) :
    -1074 ≤ ratioExponent num den ∧ (num : ℚ) / den < 2 ^ 53 * 2 ^ ratioExponent num den ∧
      (ratioExponent num den = -1074 ∨ 2 ^ 52 * 2 ^ ratioExponent num den ≤ (num : ℚ) / den) := by
  obtain ⟨hlow, hhigh⟩ := floorLog2_spec hnum hden
  have hshift : ∀ (bits : ℕ) (e : ℤ), (2 : ℚ) ^ bits * 2 ^ e = 2 ^ (bits + e) := by
    intro bits e
    rw [zpow_add₀ two_ne_zero, zpow_natCast]
  rw [hshift, hshift]
  unfold ratioExponent
  refine ⟨le_max_right _ _, hhigh.trans_le (zpow_le_zpow_right₀ one_le_two ?_), ?_⟩
  · push_cast
    omega
  · rcases le_total (floorLog2 num den - 52) (-1074) with h | h
    · exact Or.inl (max_eq_right h)
    · right
      rw [max_eq_left h]
      push_cast
      rw [add_sub_cancel]
      exact hlow

/-- The mantissa that a quotient is rounded to is at most a half away from the scaled quotient, and even
if it is a half away. -/
lemma abs_ratioMantissa_sub_le (hden : 0 < den) :
    |(ratioMantissa num den : ℚ) - num / den * 2 ^ (-ratioExponent num den)| ≤ 1 / 2 ∧
      (|(ratioMantissa num den : ℚ) - num / den * 2 ^ (-ratioExponent num den)| = 1 / 2 →
        ratioMantissa num den % 2 = 0) := by
  rw [← scaleRatio_div]
  exact abs_roundHalfEven_sub_le (scaleRatio_snd_pos num hden _)

/-- No multiple is nearer to a quotient than the rounded mantissa, and if another one is as near, the
mantissa is even. -/
lemma abs_ratioMantissa_mul_sub_le (hden : 0 < den) (j : ℤ) :
    |ratioMantissa num den * (2 : ℚ) ^ ratioExponent num den - num / den| ≤
        |j * (2 : ℚ) ^ ratioExponent num den - num / den| ∧
      (|j * (2 : ℚ) ^ ratioExponent num den - num / den| =
        |ratioMantissa num den * (2 : ℚ) ^ ratioExponent num den - num / den| →
          j = ratioMantissa num den ∨ ratioMantissa num den % 2 = 0) := by
  have hscale : ∀ a : ℚ, |a * 2 ^ ratioExponent num den - num / den| =
      |a - (scaleRatio num den (-ratioExponent num den)).1 /
        (scaleRatio num den (-ratioExponent num den)).2| * 2 ^ ratioExponent num den := by
    intro a
    have hpos : (0 : ℚ) < 2 ^ ratioExponent num den := zpow_pos two_pos _
    rw [scaleRatio_div, ← abs_of_pos hpos, ← abs_mul, abs_of_pos hpos, sub_mul, mul_assoc,
      ← zpow_add₀ two_ne_zero, neg_add_cancel, zpow_zero, mul_one]
  have hpos : (0 : ℚ) < 2 ^ ratioExponent num den := zpow_pos two_pos _
  obtain ⟨hle, htie⟩ := @abs_roundHalfEven_sub_le_abs
    (scaleRatio num den (-ratioExponent num den)).1 _ (scaleRatio_snd_pos num hden _) j
  rw [hscale, hscale]
  exact ⟨mul_le_mul_of_nonneg_right hle hpos.le, fun h => htie (mul_right_cancel₀ hpos.ne' h)⟩

/-- A positive quotient on its grid, where it is at most a half away from the mantissa. -/
lemma exists_scaled (hnum : 0 < num) (hden : 0 < den) :
    ∃ u : ℚ, (num : ℚ) / den = u * 2 ^ ratioExponent num den ∧ u < 2 ^ 53 ∧
      (ratioExponent num den = -1074 ∨ 2 ^ 52 ≤ u) ∧ |(ratioMantissa num den : ℚ) - u| ≤ 1 / 2 ∧
      (|(ratioMantissa num den : ℚ) - u| = 1 / 2 → ratioMantissa num den % 2 = 0) := by
  have hpos : (0 : ℚ) < 2 ^ ratioExponent num den := zpow_pos two_pos _
  obtain ⟨-, hhigh, hlow⟩ := ratioExponent_spec hnum hden
  have hscaled : (num : ℚ) / den =
      num / den * 2 ^ (-ratioExponent num den) * 2 ^ ratioExponent num den := by
    rw [mul_assoc, ← zpow_add₀ two_ne_zero, neg_add_cancel, zpow_zero, mul_one]
  refine ⟨_, hscaled, ?_, hlow.imp_right fun h => ?_, abs_ratioMantissa_sub_le hden⟩
  · rw [hscaled] at hhigh
    exact lt_of_mul_lt_mul_right hhigh hpos.le
  · rw [hscaled] at h
    exact le_of_mul_le_mul_right h hpos

/-- The mantissa that a positive quotient is rounded to has at most 53 bits or is the next number, and
it has 53 bits unless the grid is the finest one. -/
lemma ratioMantissa_le (hnum : 0 < num) (hden : 0 < den) :
    ratioMantissa num den ≤ 2 ^ 53 ∧
      (2 ^ 52 ≤ ratioMantissa num den ∨ ratioExponent num den = -1074) := by
  obtain ⟨u, -, hhigh, hlow, hhalf, -⟩ := exists_scaled hnum hden
  obtain ⟨hbelow, habove⟩ := abs_le.mp hhalf
  constructor
  · have hlt : (ratioMantissa num den : ℚ) < (2 ^ 53 : ℕ) + 1 := by
      push_cast
      linarith
    exact Nat.lt_succ_iff.mp (by exact_mod_cast hlt)
  · refine hlow.symm.imp_left fun hlow => ?_
    have hlt : ((2 ^ 52 : ℕ) : ℚ) < ratioMantissa num den + 1 := by
      push_cast
      linarith
    exact Nat.lt_succ_iff.mp (by exact_mod_cast hlt)

/-- Every number of at most 53 bits with an exponent below the greatest one is in the range. -/
lemma mul_zpow_lt_of_lt {a r : ℚ} {e : ℤ} (ha : a ≤ 2 ^ 53) (he : e < 971) (hr : 2 ^ 52 < r) :
    a * 2 ^ e < r * 2 ^ (971 : ℤ) := by
  have hpower : (2 : ℚ) ^ e * 2 ≤ 2 ^ (971 : ℤ) := by
    rw [← zpow_add_one₀ two_ne_zero]
    exact zpow_le_zpow_right₀ one_le_two (by omega)
  calc a * 2 ^ e
      ≤ 2 ^ 53 * 2 ^ e := mul_le_mul_of_nonneg_right ha (by positivity)
    _ = 2 ^ 52 * (2 ^ e * 2) := by ring
    _ ≤ 2 ^ 52 * 2 ^ (971 : ℤ) := mul_le_mul_of_nonneg_left hpower (by positivity)
    _ < r * 2 ^ (971 : ℤ) := mul_lt_mul_of_pos_right hr (zpow_pos two_pos 971)

/-- A number that is rounded to an even one half way gets at most 53 bits if it is less than half way to
the next number after these. -/
lemma lt_two_pow_53_iff {m : ℕ} {u : ℚ} (hhalf : |(m : ℚ) - u| ≤ 1 / 2)
    (heven : |(m : ℚ) - u| = 1 / 2 → m % 2 = 0) : (m : ℚ) < 2 ^ 53 ↔ u < 2 ^ 53 - 1 / 2 := by
  obtain ⟨hbelow, habove⟩ := abs_le.mp hhalf
  constructor
  · intro hm
    have hless : m + 1 ≤ 2 ^ 53 := by exact_mod_cast hm
    have hless' : (m : ℚ) + 1 ≤ 2 ^ 53 := by exact_mod_cast hless
    refine lt_of_le_of_ne (by linarith) fun htie => ?_
    -- half way the mantissa would be the odd number before the last one
    have hlast : (m : ℚ) + 1 = 2 ^ 53 := by linarith
    have hlast' : m + 1 = 2 ^ 53 := by exact_mod_cast hlast
    have hodd := heven (by rw [abs_of_neg (by linarith)]; linarith)
    omega
  · intro hu
    have hm : (m : ℚ) < (2 ^ 53 : ℕ) := by
      push_cast
      linarith
    exact_mod_cast hm

/-- A positive quotient is rounded to a number in the range if it is below the end of what is. -/
lemma ratioMantissa_mul_lt_iff (hnum : 0 < num) (hden : 0 < den) :
    (ratioMantissa num den : ℚ) * 2 ^ ratioExponent num den < 2 ^ 1024 ↔
      (num : ℚ) / den < rangeEnd := by
  obtain ⟨hmost, hleast⟩ := ratioMantissa_le hnum hden
  obtain ⟨u, hu, hhigh, hlow, hhalf, heven⟩ := exists_scaled hnum hden
  rw [hu]
  rcases lt_trichotomy (ratioExponent num den) 971 with he | he | he
  · have hbits : (ratioMantissa num den : ℚ) ≤ 2 ^ 53 := by exact_mod_cast hmost
    rw [two_pow_1024_eq.1, rangeEnd_eq]
    exact iff_of_true (mul_zpow_lt_of_lt hbits he (by norm_num))
      (mul_zpow_lt_of_lt hhigh.le he (by norm_num))
  · -- at the greatest exponent the mantissa must not be the number after those of 53 bits
    have hpos : (0 : ℚ) < 2 ^ (971 : ℤ) := zpow_pos two_pos _
    rw [two_pow_1024_eq.1, rangeEnd_eq, he, mul_lt_mul_iff_left₀ hpos, mul_lt_mul_iff_left₀ hpos]
    exact lt_two_pow_53_iff hhalf heven
  · have hmantissa : (2 : ℚ) ^ 52 ≤ ratioMantissa num den := by
      exact_mod_cast hleast.resolve_right (by omega)
    have hscaled : (2 : ℚ) ^ 52 ≤ u := hlow.resolve_left (by omega)
    have hend : rangeEnd ≤ 2 ^ 1024 := sub_le_self _ (by positivity)
    exact iff_of_false (not_lt.mpr (two_pow_1024_le_mul hmantissa he))
      (not_lt.mpr (hend.trans (two_pow_1024_le_mul hscaled he)))

/-- A finite number with the rounded mantissa is nearest to a positive quotient. -/
lemma isNearest_of_toRat_eq (hnum : 0 < num) (hden : 0 < den) (hx : x.isFinite)
    (hvalue : x.toRat = ratioMantissa num den * 2 ^ ratioExponent num den)
    (heven : ratioMantissa num den % 2 = 0 → x.mantissa % 2 = 0) : x.IsNearest (num / den) where
  isFinite := hx
  abs_sub_le y hy := by
    obtain ⟨j, hj, -⟩ := exists_multiple_le hy (ratioExponent_spec hnum hden).2.2
    rw [hvalue]
    exact (abs_ratioMantissa_mul_sub_le hden j).1.trans hj
  even y hy htie := by
    obtain ⟨j, hj, heq⟩ := exists_multiple_le hy (ratioExponent_spec hnum hden).2.2
    obtain ⟨hle, htie'⟩ := @abs_ratioMantissa_mul_sub_le num den hden j
    rw [hvalue] at htie ⊢
    have hsame := le_antisymm hj (htie.trans_le hle)
    rcases htie' (hsame.trans htie) with rfl | hm
    · exact Or.inl (heq hsame)
    · exact Or.inr (heven hm)

/-- Zero is nearest to zero. -/
lemma isNearest_zero (negative : Bool) : (zero negative).IsNearest 0 := by
  have hzero : (zero negative).toRat = 0 := by simp [zero, toRat_finite]
  refine ⟨rfl, fun y _ => ?_, fun y _ htie => Or.inl ?_⟩
  · rw [hzero, sub_zero, abs_zero]
    exact abs_nonneg _
  · rw [hzero, sub_zero, sub_zero, abs_zero, abs_eq_zero] at htie
    rw [htie, hzero]

/-- A quotient below the end of what is finite is rounded to the nearest number. -/
theorem isNearest_ofRatio (negative : Bool) (hden : 0 < den) (h : (num : ℚ) / den < rangeEnd) :
    (ofRatio negative num den).IsNearest ((if negative then -1 else 1) * (num / den)) := by
  rcases Nat.eq_zero_or_pos num with rfl | hnum
  · have hzero : ofRatio negative 0 den = zero negative := rfl
    rw [hzero, Nat.cast_zero, zero_div, mul_zero]
    exact isNearest_zero negative
  have hinRange := (ratioMantissa_mul_lt_iff hnum hden).mpr h
  obtain ⟨hmost, hleast⟩ := ratioMantissa_le hnum hden
  obtain ⟨hfinite, hvalue, heven⟩ := (ofRounded_spec negative hmost
    (ratioExponent_spec hnum hden).1 hleast).1 hinRange
  rw [ofRatio_of_ne_zero negative hnum.ne']
  cases negative with
  | false =>
    rw [if_neg Bool.false_ne_true, one_mul] at hvalue ⊢
    exact isNearest_of_toRat_eq hnum hden hfinite hvalue heven
  | true =>
    have hnearest := (isNearest_of_toRat_eq (x := neg (ofRounded true _ _)) hnum hden
      (by rw [isFinite_neg]; exact hfinite) (by rw [toRat_neg, hvalue]; simp)
      (by rw [mantissa_neg]; exact heven)).neg
    rw [neg_neg_self] at hnearest
    simpa using hnearest

/-- A quotient from the end of what is finite on is infinite. -/
theorem ofRatio_eq_infinity (negative : Bool) (hden : 0 < den) (h : rangeEnd ≤ (num : ℚ) / den) :
    ofRatio negative num den = .infinity negative := by
  have hnum : 0 < num := by
    refine Nat.pos_of_ne_zero fun hzero => ?_
    rw [hzero, Nat.cast_zero, zero_div] at h
    exact absurd rangeEnd_pos (not_lt.mpr h)
  obtain ⟨hmost, hleast⟩ := ratioMantissa_le hnum hden
  rw [ofRatio_of_ne_zero negative hnum.ne']
  refine (ofRounded_spec negative hmost (ratioExponent_spec hnum hden).1 hleast).2 ?_
  exact not_lt.mp (mt (ratioMantissa_mul_lt_iff hnum hden).mp (not_lt.mpr h))

end Ratio

end Binary64

end StockFlow
