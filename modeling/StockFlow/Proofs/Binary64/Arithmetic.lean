import Mathlib
import StockFlow.Proofs.Binary64.Rounding
/-!
# Sums and floors of binary64 numbers

A sum of finite numbers is rounded once: it is the number nearest to the exact sum
(`Binary64.isNearest_add`), and a floor is exact (`Binary64.floor?_eq`). A rational number has one
nearest number (`Binary64.IsNearest.toRat_unique`), and rounding keeps it on the same side of every
number of the format (`Binary64.IsNearest.toRat_le_div`). Numbers of at most 53 bits over a power of two
are numbers of the format (`Binary64.exists_toRat_eq`), and a large number of the format is a multiple of
a power of two (`Binary64.exists_eq_div_two_pow`).
-/

namespace StockFlow

namespace Binary64

variable {x y : Binary64} {q : ℚ}

/-! ## Nearest numbers in order -/

/-- What is nearest to a rational number is not above a number of the format that is not below it. -/
lemma IsNearest.toRat_le (h : x.IsNearest q) (hy : y.isFinite) (hq : q ≤ y.toRat) :
    x.toRat ≤ y.toRat := by
  by_contra hlt
  have hnearer := h.abs_sub_le y hy
  rw [abs_of_nonneg (by linarith), abs_of_nonneg (by linarith)] at hnearer
  linarith

/-- What is nearest to a rational number is not below a number of the format that is not above it. -/
lemma IsNearest.le_toRat (h : x.IsNearest q) (hy : y.isFinite) (hq : y.toRat ≤ q) :
    y.toRat ≤ x.toRat := by
  by_contra hlt
  have hnearer := h.abs_sub_le y hy
  rw [abs_of_nonpos (by linarith), abs_of_nonpos (by linarith)] at hnearer
  linarith

/-- Of two numbers that are nearest to a rational number, no number of the format is strictly between
them. -/
lemma IsNearest.not_lt_toRat (hx : x.IsNearest q) (hy : y.IsNearest q) {z : Binary64}
    (hz : z.isFinite) (h : x.toRat < z.toRat) : ¬z.toRat < y.toRat := by
  intro hlt
  have hleft := hx.abs_sub_le z hz
  have hright := hy.abs_sub_le z hz
  rcases le_total z.toRat q with hq | hq
  · rw [abs_of_nonpos (by linarith), abs_of_nonpos (by linarith)] at hleft
    linarith
  · rw [abs_of_nonneg (by linarith), abs_of_nonneg (by linarith)] at hright
    linarith

/-! ## Numbers of the format -/

/-- A sign and a magnitude make a whole number. -/
lemma sign_mul_natAbs (m : ℤ) :
    (if decide (m < 0) then -1 else 1 : ℚ) * m.natAbs = m := by
  rw [Nat.cast_natAbs]
  rcases lt_or_ge m 0 with h | h
  · rw [abs_of_neg h]
    simp [h]
  · rw [abs_of_nonneg h]
    simp [not_lt.mpr h]

/-- A finite number is as far from zero as its mantissa says. -/
lemma abs_toRat_finite (negative : Bool) (m : ℕ) (e : ℤ) (h : Canonical m e) :
    |(Binary64.finite negative m e h).toRat| = m * 2 ^ e := by
  rw [toRat_finite, abs_mul, abs_of_nonneg (by positivity : (0 : ℚ) ≤ m * 2 ^ e)]
  cases negative <;> simp

/-- A number of at most 53 bits over a power of two has a canonical form. -/
lemma exists_canonical {n k : ℕ} (hn : n ≤ 2 ^ 53) (hk : k ≤ 1074) :
    ∃ (m : ℕ) (e : ℤ), Canonical m e ∧ (m : ℚ) * 2 ^ e = n / 2 ^ k := by
  rcases hn.lt_or_eq with hlt | rfl
  · rcases Nat.eq_zero_or_pos n with rfl | hpos
    · exact ⟨0, -1074, by decide, by simp⟩
    -- the mantissa is shifted up until it has 53 bits or the exponent is the least one
    have hlog : Nat.log2 n ≤ 52 := Nat.lt_succ_iff.mp ((Nat.log2_lt hpos.ne').mpr hlt)
    obtain ⟨t, ht⟩ : ∃ t, t = min (52 - Nat.log2 n) (1074 - k) := ⟨_, rfl⟩
    refine ⟨n * 2 ^ t, -k - t, ⟨?_, by omega, by omega, ?_⟩, ?_⟩
    · calc n * 2 ^ t < 2 ^ (Nat.log2 n + 1) * 2 ^ t :=
            Nat.mul_lt_mul_of_pos_right Nat.lt_log2_self (by positivity)
        _ = 2 ^ (Nat.log2 n + 1 + t) := (pow_add 2 _ _).symm
        _ ≤ 2 ^ 53 := Nat.pow_le_pow_right two_pos (by omega)
    · rcases le_total (52 - Nat.log2 n) (1074 - k) with h | h
      · left
        calc Nat.pow 2 52 = 2 ^ (Nat.log2 n + t) := by
              rw [ht, min_eq_left h, Nat.add_sub_cancel' hlog, Nat.pow_eq]
          _ = 2 ^ Nat.log2 n * 2 ^ t := pow_add 2 _ _
          _ ≤ n * 2 ^ t := Nat.mul_le_mul_right _ (Nat.log2_self_le hpos.ne')
      · right
        omega
    · rw [zpow_sub₀ two_ne_zero, zpow_neg, zpow_natCast, zpow_natCast]
      push_cast
      field_simp
  · refine ⟨2 ^ 52, 1 - k, ⟨by decide, by omega, by omega, Or.inl (le_refl _)⟩, ?_⟩
    rw [zpow_sub₀ two_ne_zero, zpow_one, zpow_natCast]
    push_cast
    ring

/-- A multiple of a negative power of two with at most 53 bits is a number of the format. -/
lemma exists_toRat_eq {m : ℤ} {k : ℕ} (hm : |m| ≤ 2 ^ 53) (hk : k ≤ 1074) :
    ∃ y : Binary64, y.isFinite ∧ y.toRat = m / 2 ^ k := by
  have hn : m.natAbs ≤ 2 ^ 53 := by
    rw [Int.abs_eq_natAbs] at hm
    exact_mod_cast hm
  obtain ⟨mantissa, e, h, hvalue⟩ := exists_canonical hn hk
  refine ⟨.finite (decide (m < 0)) mantissa e h, rfl, ?_⟩
  rw [toRat_finite, hvalue, ← mul_div_assoc, sign_mul_natAbs]

/-- What is nearest to a rational number is on the same side of a number with few bits. -/
lemma IsNearest.toRat_le_div (h : x.IsNearest q) {m : ℤ} {k : ℕ} (hm : |m| ≤ 2 ^ 53)
    (hk : k ≤ 1074) (hq : q ≤ m / 2 ^ k) : x.toRat ≤ m / 2 ^ k := by
  obtain ⟨y, hy, hvalue⟩ := exists_toRat_eq hm hk
  rw [← hvalue] at hq ⊢
  exact h.toRat_le hy hq

lemma IsNearest.div_le_toRat (h : x.IsNearest q) {m : ℤ} {k : ℕ} (hm : |m| ≤ 2 ^ 53)
    (hk : k ≤ 1074) (hq : m / 2 ^ k ≤ q) : m / 2 ^ k ≤ x.toRat := by
  obtain ⟨y, hy, hvalue⟩ := exists_toRat_eq hm hk
  rw [← hvalue] at hq ⊢
  exact h.le_toRat hy hq

/-- A finite number that is large enough is a multiple of a given power of two. -/
lemma exists_eq_div_two_pow (hx : x.isFinite) {k : ℕ} (h : (2 : ℚ) ^ (52 - k : ℤ) ≤ |x.toRat|) :
    ∃ j : ℤ, x.toRat = j / 2 ^ k := by
  cases x with
  | nan => cases hx
  | infinity negative => cases hx
  | finite negative m e hcanonical =>
    have hbits : (m : ℚ) < 2 ^ 53 := by exact_mod_cast hcanonical.1
    have hpos : (0 : ℚ) < 2 ^ e := zpow_pos two_pos e
    have hexponent : -(k : ℤ) ≤ e := by
      have hlt : (2 : ℚ) ^ (52 - k : ℤ) < 2 ^ (53 + e) := by
        rw [abs_toRat_finite] at h
        refine h.trans_lt ?_
        rw [zpow_add₀ two_ne_zero]
        exact mul_lt_mul_of_pos_right hbits hpos
      have := (zpow_lt_zpow_iff_right₀ one_lt_two).mp hlt
      omega
    obtain ⟨n, hn⟩ := Int.le.dest hexponent
    refine ⟨(if negative then -1 else 1) * (m * 2 ^ n), ?_⟩
    rw [toRat_finite, ← hn, zpow_add₀ two_ne_zero, zpow_neg, zpow_natCast, zpow_natCast]
    push_cast
    ring

/-- A finite number is within the range. -/
lemma abs_toRat_le (hx : x.isFinite) : |x.toRat| ≤ (2 ^ 53 - 1) * 2 ^ (971 : ℤ) := by
  cases x with
  | nan => cases hx
  | infinity negative => cases hx
  | finite negative m e hcanonical =>
    have hbits : (m : ℚ) ≤ 2 ^ 53 - 1 := by
      have hsucc : m + 1 ≤ 2 ^ 53 := hcanonical.1
      rw [le_sub_iff_add_le]
      exact_mod_cast hsucc
    rw [abs_toRat_finite]
    exact mul_le_mul hbits (zpow_le_zpow_right₀ one_le_two hcanonical.2.2.1) (by positivity)
      (by norm_num)

/-! ## One nearest number -/

/-- Between a number that is not negative and a greater one, both with even mantissas, there is a
number of the format. -/
lemma exists_toRat_between (hx : x.isFinite) (hy : y.isFinite) (hxeven : x.mantissa % 2 = 0)
    (hyeven : y.mantissa % 2 = 0) (hpos : 0 ≤ x.toRat) (h : x.toRat < y.toRat) :
    ∃ z : Binary64, z.isFinite ∧ x.toRat < z.toRat ∧ z.toRat < y.toRat := by
  have hx' : |x.toRat| = x.toRat := abs_of_nonneg hpos
  have hy' : |y.toRat| = y.toRat := abs_of_pos (hpos.trans_lt h)
  rw [← hx', ← hy'] at h ⊢
  cases x with
  | nan => cases hx
  | infinity negative => cases hx
  | finite s m e hm =>
    cases y with
    | nan => cases hy
    | infinity negative => cases hy
    | finite t n f hn =>
      change m % 2 = 0 at hxeven
      change n % 2 = 0 at hyeven
      rw [abs_toRat_finite, abs_toRat_finite] at h ⊢
      have hpower : ∀ k : ℤ, (0 : ℚ) < 2 ^ k := zpow_pos two_pos
      have hnext : Canonical (m + 1) e :=
        ⟨by have : m < 2 ^ 53 := hm.1; change m + 1 < 2 ^ 53; omega, hm.2.1, hm.2.2.1,
          hm.2.2.2.imp_left fun h => h.trans (Nat.le_succ m)⟩
      refine ⟨.finite false (m + 1) e hnext, rfl, ?_⟩
      rw [toRat_finite, if_neg Bool.false_ne_true, one_mul, Nat.cast_add_one]
      refine ⟨mul_lt_mul_of_pos_right (lt_add_one _) (hpower e), ?_⟩
      rcases le_or_gt e f with hle | hlt
      · -- on the grid of the lower number the greater one is even, so it is not the next number
        obtain ⟨k, rfl⟩ := Int.le.dest hle
        rw [zpow_add₀ two_ne_zero, zpow_natCast, mul_left_comm, mul_comm (2 ^ e : ℚ)] at h ⊢
        have hless : m < n * 2 ^ k := by exact_mod_cast lt_of_mul_lt_mul_right h (hpower e).le
        have heven : n * 2 ^ k % 2 = 0 := by rw [Nat.mul_mod, hyeven, zero_mul, Nat.zero_mod]
        refine mul_lt_mul_of_pos_right ?_ (hpower e)
        exact_mod_cast (by omega : m + 1 < n * 2 ^ k)
      · -- a number with a smaller exponent is smaller
        have hbits : (2 : ℚ) ^ 52 ≤ m := by
          exact_mod_cast hm.2.2.2.resolve_right (by have := hn.2.1; omega)
        have hfewer : (n : ℚ) < 2 ^ 53 := by exact_mod_cast hn.1
        have hdouble : (2 : ℚ) ^ f * 2 ≤ 2 ^ e := by
          rw [← zpow_add_one₀ two_ne_zero]
          exact zpow_le_zpow_right₀ one_le_two (by omega)
        have hbelow : (n : ℚ) * 2 ^ f < m * 2 ^ e := by
          calc (n : ℚ) * 2 ^ f < 2 ^ 53 * 2 ^ f := mul_lt_mul_of_pos_right hfewer (hpower f)
            _ = 2 ^ 52 * (2 ^ f * 2) := by ring
            _ ≤ m * 2 ^ e := mul_le_mul hbits hdouble (by positivity) (by positivity)
        exact absurd h hbelow.asymm

/-- A rational number has one nearest number. -/
theorem IsNearest.toRat_unique (hx : x.IsNearest q) (hy : y.IsNearest q) : x.toRat = y.toRat := by
  by_contra hne
  wlog hlt : x.toRat < y.toRat generalizing x y
  · exact this hy hx (Ne.symm hne) (lt_of_le_of_ne (not_lt.mp hlt) (Ne.symm hne))
  have htie : |y.toRat - q| = |x.toRat - q| :=
    le_antisymm (hy.abs_sub_le x hx.isFinite) (hx.abs_sub_le y hy.isFinite)
  have hxeven := (hx.even y hy.isFinite htie).resolve_left (Ne.symm hne)
  have hyeven := (hy.even x hx.isFinite htie.symm).resolve_left hne
  rcases le_or_gt 0 x.toRat with hpos | hneg
  · obtain ⟨z, hz, hlow, hhigh⟩ :=
      exists_toRat_between hx.isFinite hy.isFinite hxeven hyeven hpos hlt
    exact hx.not_lt_toRat hy hz hlow hhigh
  rcases le_or_gt y.toRat 0 with hneg' | hpos'
  · -- the negatives of both
    obtain ⟨z, hz, hlow, hhigh⟩ := exists_toRat_between hy.neg.isFinite hx.neg.isFinite
      (by rw [mantissa_neg]; exact hyeven) (by rw [mantissa_neg]; exact hxeven)
      (by rw [toRat_neg]; linarith) (by rw [toRat_neg, toRat_neg]; linarith)
    exact hy.neg.not_lt_toRat hx.neg hz hlow hhigh
  · have hzero := isNearest_zero false
    have hvalue : (zero false).toRat = 0 := by simp [zero, toRat_finite]
    exact hx.not_lt_toRat hy hzero.isFinite (by rw [hvalue]; exact hneg) (by rw [hvalue]; exact hpos')

/-! ## Sums -/

/-- A mantissa with its sign, on the grid of a power of two. -/
lemma signedAt_mul (negative : Bool) (m : ℕ) {e base : ℤ} (h : base ≤ e) :
    (signedAt negative m e base : ℚ) * 2 ^ base = (if negative then -1 else 1) * (m * 2 ^ e) := by
  obtain ⟨k, rfl⟩ := Int.le.dest h
  unfold signedAt
  rw [add_sub_cancel_left, Int.toNat_natCast, zpow_add₀ two_ne_zero, zpow_natCast, Nat.pow_eq]
  cases negative <;> · push_cast; simp; ring

/-- The sum of finite numbers is the number that is nearest to the sum, if this is in the range. -/
theorem isNearest_add (hx : x.isFinite) (hy : y.isFinite) (h : |x.toRat + y.toRat| < rangeEnd) :
    (x.add y).IsNearest (x.toRat + y.toRat) := by
  cases x with
  | nan => cases hx
  | infinity negative => cases hx
  | finite s m e hm =>
    cases y with
    | nan => cases hy
    | infinity negative => cases hy
    | finite t n f hn =>
      obtain ⟨base, hbase⟩ : ∃ base, base = min e f := ⟨_, rfl⟩
      obtain ⟨sum, hsum⟩ : ∃ sum, sum = signedAt s m e base + signedAt t n f base := ⟨_, rfl⟩
      have hadd : (Binary64.finite s m e hm).add (.finite t n f hn) =
          if sum = 0 then zero (s && t) else ofDyadic (sum < 0) sum.natAbs base := by
        rw [hsum, hbase]
        rfl
      have hvalue : (Binary64.finite s m e hm).toRat + (Binary64.finite t n f hn).toRat =
          sum * 2 ^ base := by
        rw [toRat_finite, toRat_finite, ← signedAt_mul s m (hbase.trans_le (min_le_left e f)),
          ← signedAt_mul t n (hbase.trans_le (min_le_right e f)), hsum, Int.cast_add, add_mul]
      rw [hvalue] at h ⊢
      rw [hadd]
      split
      · next hzero =>
        rw [hzero, Int.cast_zero, zero_mul]
        exact isNearest_zero _
      · have hratio : ((scaleRatio sum.natAbs 1 base).1 : ℚ) / (scaleRatio sum.natAbs 1 base).2 =
            sum.natAbs * 2 ^ base := by
          rw [scaleRatio_div, Nat.cast_one, div_one]
        have hnearest := isNearest_ofRatio (decide (sum < 0))
          (scaleRatio_snd_pos sum.natAbs one_pos base) (by
            rw [hratio, Nat.cast_natAbs, Int.cast_abs]
            rwa [abs_mul, abs_of_pos (zpow_pos (two_pos (α := ℚ)) base)] at h)
        rw [hratio, ← mul_assoc, sign_mul_natAbs] at hnearest
        exact hnearest

/-- The floor of a finite number. -/
lemma floor?_eq (hx : x.isFinite) : x.floor? = some ⌊x.toRat⌋ := by
  cases x with
  | nan => cases hx
  | infinity negative => cases hx
  | finite negative m e h =>
    have hratio : ((scaleRatio m 1 e).1 : ℚ) / (scaleRatio m 1 e).2 = m * 2 ^ e := by
      rw [scaleRatio_div, Nat.cast_one, div_one]
    have hvalue : (Binary64.finite negative m e h).toRat =
        ((if negative then -((scaleRatio m 1 e).1 : ℤ) else (scaleRatio m 1 e).1 : ℤ) : ℚ) /
          (scaleRatio m 1 e).2 := by
      rw [toRat_finite, ← hratio]
      cases negative <;> simp [neg_div]
    rw [hvalue, Rat.floor_intCast_div_natCast]
    exact congrArg some (Int.fdiv_eq_ediv_of_nonneg _ (Int.natCast_nonneg _))

end Binary64

end StockFlow
