import DocWire.Number.Binary
import Mathlib.Algebra.Order.Field.Power
import Mathlib.Tactic.FieldSimp
import Mathlib.Tactic.Linarith
import Mathlib.Tactic.NormNum
import Mathlib.Tactic.Ring

/-!
# The range of a binary format

Which quotients and which decimals are rounded to finite patterns: those below the middle of the
greatest finite value and the power of two behind it.  The middle itself is rounded up, since the
significand of the greatest finite value is odd.

* `Format.overflow`           the least value that is rounded to infinity;
* `roundQuotient_lt_iff`      rounding to less than an even number;
* `Format.scaled`             a quotient divided by a power of two, as a quotient;
* `Format.exists_scale`       the scale at which a quotient is rounded gives a full significand,
                              unless it is the least one;
* `Format.isFinite_nearest`, `isFinite_ofDecimal`   what is rounded to finite patterns.
-/

namespace DocWire.Number

namespace Format

/-! ## Rounding to naturals -/

section
variable {num den k : Nat} (hden : 0 < den)
include hden

theorem roundQuotient_lt_iff (hk : 0 < k) (heven : k % 2 = 0) :
    roundQuotient num den < k ↔ 2 * num + den < 2 * (den * k) := by
  have hnum : den * (num / den) + num % den = num := Nat.div_add_mod num den
  have hrest : num % den < den := Nat.mod_lt num hden
  unfold roundQuotient
  dsimp only
  generalize num / den = q at hnum ⊢
  generalize num % den = r at hnum hrest ⊢
  rcases Nat.lt_trichotomy (q + 1) k with hq | rfl | hq
  · have hmul : den * (q + 2) ≤ den * k := Nat.mul_le_mul_left den (by omega)
    rw [Nat.mul_add] at hmul
    split <;> omega
  · -- `q` is odd, so that a tie goes up to `k`
    rw [Nat.mul_add]
    split <;> omega
  · have hmul : den * k ≤ den * q := Nat.mul_le_mul_left den (by omega)
    split <;> omega

theorem le_roundQuotient (h : den * k ≤ num) : k ≤ roundQuotient num den := by
  have hk : k ≤ num / den := (Nat.le_div_iff_mul_le hden).mpr (by rwa [Nat.mul_comm])
  unfold roundQuotient
  dsimp only
  split <;> omega

theorem roundQuotient_le (h : num < den * k) : roundQuotient num den ≤ k := by
  have hk : num / den < k := (Nat.div_lt_iff_lt_mul hden).mpr (by rwa [Nat.mul_comm])
  unfold roundQuotient
  dsimp only
  split <;> omega

end

/-! ## Finite patterns -/

section
variable (f : Format)

theorem top_lt : f.top < 2 ^ f.exponent := Nat.sub_lt (Nat.two_pow_pos _) Nat.one_pos

theorem isFinite_of_le {bits : Nat} (h : bits ≤ f.infinity) :
    f.isFinite bits = true ↔ bits < f.infinity := by
  have hpow : 0 < 2 ^ f.fraction := Nat.two_pow_pos _
  have hle : bits / 2 ^ f.fraction ≤ f.top := Nat.div_le_of_le_mul (by rwa [Nat.mul_comm])
  have hlt := f.top_lt
  unfold isFinite infinity
  rw [Nat.mod_eq_of_lt (by omega), bne_iff_ne, ← Nat.div_lt_iff_lt_mul hpow]
  omega

theorem isFinite_pack (significand : Nat) (scale : Int) :
    f.isFinite (f.pack significand scale) = true ↔
      (scale - f.minScale).toNat * 2 ^ f.fraction + significand < f.infinity := by
  unfold pack
  dsimp only
  split
  · rw [isFinite_of_le f (Nat.le_refl _)]
    omega
  · rw [isFinite_of_le f (by omega)]

end

/-! ## Scales -/

/-- a quotient divided by a power of two -/
def scaled (num den : Nat) (scale : Int) : Nat × Nat :=
  if 0 ≤ scale then (num, den * 2 ^ scale.toNat) else (num * 2 ^ (-scale).toNat, den)

section
variable (num : Nat) {den : Nat} (hden : 0 < den) (scale : Int)
include hden

theorem scaled_pos : 0 < (scaled num den scale).2 := by
  unfold scaled
  split
  · exact Nat.mul_pos hden (Nat.two_pow_pos _)
  · exact hden

theorem scaled_eq :
    ((scaled num den scale).1 : ℚ) * 2 ^ scale = num / den * (scaled num den scale).2 := by
  have hne : (den : ℚ) ≠ 0 := Nat.cast_ne_zero.mpr hden.ne'
  unfold scaled
  split
  · rename_i h
    have hscale : (2 : ℚ) ^ scale = 2 ^ scale.toNat := by
      rw [← zpow_natCast, Int.toNat_of_nonneg h]
    rw [hscale]
    push_cast
    field_simp
  · rename_i h
    have hscale : (2 : ℚ) ^ scale * 2 ^ (-scale).toNat = 1 := by
      rw [← zpow_natCast, Int.toNat_of_nonneg (by omega), ← zpow_add₀ two_ne_zero, add_neg_cancel,
        zpow_zero]
    push_cast
    rw [mul_assoc, mul_comm _ ((2 : ℚ) ^ scale), hscale]
    field_simp

theorem scaled_lt_iff (k : Nat) :
    (scaled num den scale).1 < (scaled num den scale).2 * 2 ^ k ↔
      (num / den : ℚ) < 2 ^ (scale + k) := by
  have hpos : (0 : ℚ) < (scaled num den scale).2 := Nat.cast_pos.mpr (scaled_pos num hden scale)
  have hpow : (0 : ℚ) < 2 ^ scale := zpow_pos two_pos scale
  have hright : (((scaled num den scale).2 * 2 ^ k : Nat) : ℚ) * 2 ^ scale
      = 2 ^ (scale + k) * (scaled num den scale).2 := by
    rw [zpow_add₀ two_ne_zero, zpow_natCast]
    push_cast
    ring
  rw [← Nat.cast_lt (α := ℚ), ← mul_lt_mul_iff_left₀ hpow, scaled_eq num hden, hright,
    mul_lt_mul_iff_left₀ hpos]

theorem roundQuotient_scaled_lt_iff {k : Nat} (hk : 0 < k) (heven : k % 2 = 0) :
    roundQuotient (scaled num den scale).1 (scaled num den scale).2 < k ↔
      (num / den : ℚ) < (2 * k - 1) * 2 ^ (scale - 1) := by
  have hhalf : (2 : ℚ) * 2 ^ (scale - 1) = 2 ^ scale := by
    rw [← zpow_one_add₀ two_ne_zero, add_sub_cancel]
  have hpos : (0 : ℚ) < (scaled num den scale).2 := Nat.cast_pos.mpr (scaled_pos num hden scale)
  have hpow : (0 : ℚ) < 2 ^ (scale - 1) := zpow_pos two_pos (scale - 1)
  have heq := scaled_eq num hden scale
  rw [roundQuotient_lt_iff (scaled_pos num hden scale) hk heven, ← Nat.cast_lt (α := ℚ)]
  generalize (scaled num den scale).1 = n at *
  generalize (scaled num den scale).2 = d at *
  rw [← hhalf] at heq
  have hleft : ((2 * n + d : Nat) : ℚ) * 2 ^ (scale - 1) = num / den * d + d * 2 ^ (scale - 1) := by
    rw [← heq]
    push_cast
    ring
  have hright : ((2 * (d * k) : Nat) : ℚ) * 2 ^ (scale - 1)
      = (2 * k - 1) * 2 ^ (scale - 1) * d + d * 2 ^ (scale - 1) := by
    push_cast
    ring
  rw [← mul_lt_mul_iff_left₀ hpow, hleft, hright, add_lt_add_iff_right, mul_lt_mul_iff_left₀ hpos]

end

/-- The difference of the logarithms is the logarithm of the quotient, up to one. -/
theorem log2_bounds {num den : Nat} (hnum : 0 < num) (hden : 0 < den) :
    (2 : ℚ) ^ ((Nat.log2 num : Int) - Nat.log2 den - 1) ≤ num / den ∧
      (num / den : ℚ) < 2 ^ ((Nat.log2 num : Int) - Nat.log2 den + 1) := by
  have bounds {n : Nat} (hn : 0 < n) :
      (2 : ℚ) ^ (Nat.log2 n : Int) ≤ n ∧ (n : ℚ) < 2 ^ ((Nat.log2 n : Int) + 1) := by
    constructor
    · rw [zpow_natCast]
      exact_mod_cast Nat.log2_self_le hn.ne'
    · exact_mod_cast Nat.lt_log2_self
  obtain ⟨hnum₁, hnum₂⟩ := bounds hnum
  obtain ⟨hden₁, hden₂⟩ := bounds hden
  have hpos : (0 : ℚ) < den := Nat.cast_pos.mpr hden
  rw [le_div_iff₀ hpos, div_lt_iff₀ hpos]
  constructor
  · calc (2 : ℚ) ^ ((Nat.log2 num : Int) - Nat.log2 den - 1) * den
        ≤ 2 ^ ((Nat.log2 num : Int) - Nat.log2 den - 1) * 2 ^ ((Nat.log2 den : Int) + 1) :=
          mul_le_mul_of_nonneg_left hden₂.le (zpow_pos two_pos _).le
      _ = 2 ^ (Nat.log2 num : Int) := by
          rw [← zpow_add₀ two_ne_zero]
          congr 1
          omega
      _ ≤ num := hnum₁
  · calc (num : ℚ) < 2 ^ ((Nat.log2 num : Int) + 1) := hnum₂
      _ = 2 ^ ((Nat.log2 num : Int) - Nat.log2 den + 1) * 2 ^ (Nat.log2 den : Int) := by
          rw [← zpow_add₀ two_ne_zero]
          congr 1
          omega
      _ ≤ 2 ^ ((Nat.log2 num : Int) - Nat.log2 den + 1) * den :=
          mul_le_mul_of_nonneg_left hden₁ (zpow_pos two_pos _).le

/-! ## Quotients -/

section
variable (f : Format)

/-- the scale of the greatest finite values -/
def maxScale : Int := f.minScale + f.top - 2

/-- The least value that is rounded to infinity, half a unit above the greatest finite one. -/
def overflow : ℚ := (2 ^ (f.fraction + 2) - 1) * 2 ^ (f.maxScale - 1)

theorem overflow_bounds : (2 : ℚ) ^ (f.maxScale + f.fraction) ≤ f.overflow ∧
    f.overflow ≤ 2 ^ (f.maxScale + f.fraction + 1) := by
  have hoverflow : f.overflow = 2 * 2 ^ (f.maxScale + f.fraction) - 2 ^ (f.maxScale - 1) := by
    have hsplit : (2 : ℚ) ^ (f.fraction + 2) * 2 ^ (f.maxScale - 1)
        = 2 * 2 ^ (f.maxScale + f.fraction) := by
      rw [← zpow_natCast, ← zpow_add₀ two_ne_zero, ← zpow_one_add₀ two_ne_zero]
      congr 1
      omega
    rw [overflow, sub_mul, one_mul, hsplit]
  have hunit : (2 : ℚ) ^ (f.maxScale - 1) ≤ 2 ^ (f.maxScale + f.fraction) :=
    zpow_le_zpow_right₀ one_le_two (by omega)
  have hpos : (0 : ℚ) < 2 ^ (f.maxScale - 1) := zpow_pos two_pos _
  rw [hoverflow, zpow_add_one₀ two_ne_zero]
  constructor <;> linarith

variable {num den : Nat} (hnum : 0 < num) (hden : 0 < den)
include hnum hden

theorem exists_scale : ∃ scale,
    f.nearest num den
      = f.pack (roundQuotient (scaled num den scale).1 (scaled num den scale).2) scale ∧
    f.minScale ≤ scale ∧ (num / den : ℚ) < 2 ^ (scale + (f.fraction + 1 : Nat)) ∧
    (scale = f.minScale ∨ 2 ^ (scale + f.fraction) ≤ (num / den : ℚ)) := by
  obtain ⟨hlow, hhigh⟩ := log2_bounds hnum hden
  have hnearest : f.nearest num den =
      let high := max f.minScale ((Nat.log2 num : Int) - Nat.log2 den - f.fraction)
      let scale := if (scaled num den high).1 < (scaled num den high).2 * 2 ^ f.fraction then
        max f.minScale (high - 1) else high
      f.pack (roundQuotient (scaled num den scale).1 (scaled num den scale).2) scale :=
    if_neg (by omega)
  have hup {a b : Int} (h : a ≤ b) : (2 : ℚ) ^ a ≤ 2 ^ b := zpow_le_zpow_right₀ one_le_two h
  rw [hnearest]
  dsimp only
  generalize (Nat.log2 num : Int) - Nat.log2 den = e at hlow hhigh ⊢
  refine ⟨_, rfl, ?_⟩
  split
  · rename_i h
    rw [scaled_lt_iff num hden] at h
    refine ⟨by omega, h.trans_le (hup (by omega)), ?_⟩
    rcases le_or_gt (e - f.fraction) f.minScale with hmin | hmin
    · exact .inl (by omega)
    · exact .inr ((hup (by omega)).trans hlow)
  · rename_i h
    rw [scaled_lt_iff num hden, not_lt] at h
    exact ⟨by omega, hhigh.trans_le (hup (by omega)), .inr h⟩

/-- The nearest pattern is finite below the middle of the greatest value and the next power of
two. -/
theorem isFinite_nearest (hexponent : 2 ≤ f.exponent) :
    f.isFinite (f.nearest num den) = true ↔ (num / den : ℚ) < f.overflow := by
  obtain ⟨scale, hnearest, hscale, hhigh, hlow⟩ := f.exists_scale hnum hden
  have hpos := scaled_pos num hden scale
  have hpow : 0 < 2 ^ f.fraction := Nat.two_pow_pos _
  have htop : 3 ≤ f.top := Nat.le_sub_of_add_le (Nat.pow_le_pow_right two_pos hexponent)
  have hup {a b : Int} (h : a ≤ b) : (2 : ℚ) ^ a ≤ 2 ^ b := zpow_le_zpow_right₀ one_le_two h
  rw [hnearest, isFinite_pack, infinity]
  obtain ⟨k, rfl⟩ : ∃ k : Nat, scale = f.minScale + k := ⟨(scale - f.minScale).toNat, by omega⟩
  rw [show (f.minScale + k - f.minScale).toNat = k by omega]
  rcases Nat.lt_trichotomy (k + 2) f.top with hk | hk | hk
  · have hround := roundQuotient_le hpos ((scaled_lt_iff num hden _ _).mpr hhigh)
    have hfield : (k + 3) * 2 ^ f.fraction ≤ f.top * 2 ^ f.fraction := Nat.mul_le_mul_right _ hk
    rw [Nat.add_mul] at hfield
    refine iff_of_true (by omega) (hhigh.trans_le ((hup ?_).trans f.overflow_bounds.1))
    unfold maxScale
    omega
  · -- the scale of the greatest values, where only rounding can carry into infinity
    have hlast : f.minScale + k = f.maxScale := by
      unfold maxScale
      omega
    have hround := roundQuotient_scaled_lt_iff num hden f.maxScale
      (Nat.two_pow_pos (f.fraction + 1)) (by omega)
    rw [← hk, Nat.add_mul, Nat.add_lt_add_iff_left, hlast,
      show 2 * 2 ^ f.fraction = 2 ^ (f.fraction + 1) by omega, hround, overflow]
    push_cast
    rw [← pow_succ']
  · have hfull := hlow.resolve_left (by omega)
    have hround := le_roundQuotient hpos (Nat.not_lt.mp
      ((scaled_lt_iff num hden (f.minScale + k) f.fraction).not.mpr (not_lt.mpr hfull)))
    have hfield : f.top * 2 ^ f.fraction ≤ (k + 1) * 2 ^ f.fraction :=
      Nat.mul_le_mul_right _ (by omega)
    rw [Nat.add_mul] at hfield
    refine iff_of_false (by omega) (not_lt.mpr ((f.overflow_bounds.2.trans (hup ?_)).trans hfull))
    unfold maxScale
    omega

end

end Format

/-! ## Decimals -/

theorem toDigits_bounds {n : Nat} (hn : 0 < n) :
    10 ^ ((Nat.toDigits 10 n).length - 1) ≤ n ∧ n < 10 ^ (Nat.toDigits 10 n).length := by
  have hpos : 0 < (Nat.toDigits 10 n).length := Nat.length_toDigits_pos
  refine ⟨?_, (Nat.length_toDigits_le_iff (by decide) hpos).mp (Nat.le_refl _)⟩
  by_cases hone : (Nat.toDigits 10 n).length = 1
  · rw [hone]
    exact hn
  · refine Nat.not_lt.mp fun h => ?_
    have := (Nat.length_toDigits_le_iff (by decide) (by omega)).mpr h
    omega

theorem overflow_binary64 : binary64.overflow = 2 ^ 1024 - 2 ^ 970 := by
  have hscale : binary64.maxScale - 1 = (970 : Nat) := by decide
  have hpow : (2 : ℚ) ^ 1024 = 2 ^ 54 * 2 ^ 970 := by rw [← pow_add]
  unfold Format.overflow
  rw [hscale, zpow_natCast, hpow, sub_mul, one_mul]
  rfl

/-- **The range of doubles.**  A decimal is rounded to a finite double exactly below the middle of
the greatest one and `2 ^ 1024`. -/
theorem isFinite_ofDecimal (digits : Nat) (power : Int) :
    binary64.isFinite (binary64.ofDecimal digits power) = true ↔
      (digits * 10 ^ power : ℚ) < 2 ^ 1024 - 2 ^ 970 := by
  have hten {a b : Int} (h : a ≤ b) : (10 : ℚ) ^ a ≤ 10 ^ b := zpow_le_zpow_right₀ (by norm_num) h
  have hpower : (0 : ℚ) < 10 ^ power := zpow_pos (by norm_num) power
  have hlarge : binary64.overflow ≤ (10 : ℚ) ^ (400 : Int) := calc
    binary64.overflow ≤ 2 ^ (binary64.maxScale + binary64.fraction + 1) :=
      binary64.overflow_bounds.2
    _ ≤ 2 ^ (3 * 400 : Int) := zpow_le_zpow_right₀ one_le_two (by decide)
    _ = ((2 : ℚ) ^ (3 : Int)) ^ (400 : Int) := zpow_mul _ _ _
    _ ≤ 10 ^ (400 : Int) := zpow_le_zpow_left₀ (by decide) (by norm_num) (by norm_num)
  have hone : (1 : ℚ) < binary64.overflow :=
    (one_lt_zpow₀ one_lt_two (by decide)).trans_le binary64.overflow_bounds.1
  rw [← overflow_binary64]
  unfold Format.ofDecimal
  dsimp only
  split
  · rename_i hzero
    rw [hzero, Nat.cast_zero, zero_mul]
    exact iff_of_true rfl (zero_lt_one.trans hone)
  · rename_i hdigits
    obtain ⟨hlow, hhigh⟩ := toDigits_bounds (Nat.pos_of_ne_zero hdigits)
    have hlength : 0 < (Nat.toDigits 10 digits).length := Nat.length_toDigits_pos
    generalize (Nat.toDigits 10 digits).length = length at hlow hhigh hlength ⊢
    have hleast : (10 : ℚ) ^ (power + length - 1) ≤ digits * 10 ^ power := by
      rw [show power + length - 1 = (length - 1 : Nat) + power by omega, zpow_add₀ (by norm_num),
        zpow_natCast]
      exact mul_le_mul_of_nonneg_right (by exact_mod_cast hlow) hpower.le
    have hbelow : (digits * 10 ^ power : ℚ) < 10 ^ (power + length) := by
      rw [add_comm, zpow_add₀ (by norm_num), zpow_natCast]
      exact mul_lt_mul_of_pos_right (by exact_mod_cast hhigh) hpower
    split
    · exact iff_of_false (by decide) (not_lt.mpr (hlarge.trans ((hten (by omega)).trans hleast)))
    · split
      · exact iff_of_true rfl (hbelow.trans ((hten (by omega : power + length ≤ 0)).trans_lt hone))
      · split
        · rename_i hsign
          rw [Format.isFinite_nearest _ (Nat.mul_pos (by omega) (Nat.pow_pos (by decide)))
            Nat.one_pos (by decide), Nat.cast_one, div_one, Nat.cast_mul, Nat.cast_pow,
            ← zpow_natCast, Int.toNat_of_nonneg hsign]
          rfl
        · rename_i hsign
          rw [Format.isFinite_nearest _ (by omega) (Nat.pow_pos (by decide)) (by decide),
            Nat.cast_pow, ← zpow_natCast, Int.toNat_of_nonneg (by omega), zpow_neg, div_inv_eq_mul]
          rfl

end DocWire.Number
