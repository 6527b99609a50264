import Mathlib
import SlotCalc.Proofs.Decimal.Rounding

namespace SlotCalc.Decimal

open Float.Model UnpackedFloat

section
variable {m : ℕ} {e : ℤ} {q : ℚ}

theorem standsFor_exact (c : ℕ) : StandsFor (.ofMantissaAndAccuracy c .exact) c := by
  simp [StandsFor, halves, ExtendedMantissa.ofMantissaAndAccuracy]

theorem standsFor_div (n : ℕ) {d : ℕ} (hd : 0 < d) :
    StandsFor (.ofMantissaAndAccuracy (n / d) (accuracyOfFraction (n % d) d)) (n / d) := by
  have hd' : (0 : ℚ) < d := by exact_mod_cast hd
  have hsplit : (n : ℚ) / d = (n / d : ℕ) + (n % d : ℕ) / d := by
    have hn : (n : ℚ) = d * (n / d : ℕ) + (n % d : ℕ) := by
      exact_mod_cast (Nat.div_add_mod n d).symm
    rw [div_eq_iff hd'.ne', add_mul, div_mul_cancel₀ _ hd'.ne', mul_comm]
    exact hn
  have hlt : ((n % d : ℕ) : ℚ) / d < 1 := by
    rw [div_lt_one hd']
    exact_mod_cast Nat.mod_lt n hd
  rw [hsplit, accuracyOfFraction]
  split_ifs with hzero
  · rw [hzero]
    simpa using standsFor_exact (n / d)
  · have hpos : (0 : ℚ) < (n % d : ℕ) / d := by
      have hr : 0 < n % d := Nat.pos_of_ne_zero hzero
      positivity
    -- The round bit says whether at least half of the divisor remains, the sticky bit what is left
    -- then.
    cases hcmp : compare (2 * (n % d)) d with
    | lt =>
      have hlow : n % d * 2 < 1 * d := by
        have h := Nat.compare_eq_lt.1 hcmp
        omega
      have hhalf : ((n % d : ℕ) : ℚ) / d < 1 / 2 := by
        rw [div_lt_div_iff₀ hd' two_pos]
        exact_mod_cast hlow
      simp only [StandsFor, halves, ExtendedMantissa.ofMantissaAndAccuracy, Bool.toNat_false]
      constructor <;> push_cast <;> linarith
    | eq =>
      have htie : n % d * 2 = 1 * d := by
        have h := Nat.compare_eq_eq.1 hcmp
        omega
      have hhalf : ((n % d : ℕ) : ℚ) / d = 1 / 2 := by
        rw [div_eq_div_iff hd'.ne' two_ne_zero]
        exact_mod_cast htie
      simp [StandsFor, halves, ExtendedMantissa.ofMantissaAndAccuracy, hhalf]
      ring
    | gt =>
      have hhigh : 1 * d < n % d * 2 := by
        have h := Nat.compare_eq_gt.1 hcmp
        omega
      have hhalf : 1 / 2 < ((n % d : ℕ) : ℚ) / d := by
        rw [div_lt_div_iff₀ two_pos hd']
        exact_mod_cast hhigh
      simp only [StandsFor, halves, ExtendedMantissa.ofMantissaAndAccuracy, Bool.toNat_true]
      constructor <;> push_cast <;> linarith

theorem le_log2_shiftLeft_div {c d s n : ℕ} (hc : 0 < c) (hd : 0 < d)
    (h : d.log2 + 1 + n = c.log2 + s) : n ≤ (c <<< s / d).log2 := by
  have hle : 2 ^ n ≤ c <<< s / d := by
    rw [Nat.le_div_iff_mul_le hd, Nat.shiftLeft_eq]
    have hc' : 2 ^ c.log2 ≤ c := Nat.log2_self_le hc.ne'
    have hd' : d < 2 ^ (d.log2 + 1) := Nat.lt_log2_self
    calc 2 ^ n * d ≤ 2 ^ n * 2 ^ (d.log2 + 1) := Nat.mul_le_mul_left _ hd'.le
      _ = 2 ^ c.log2 * 2 ^ s := by rw [← pow_add, ← pow_add, ← h, add_comm]
      _ ≤ c * 2 ^ s := Nat.mul_le_mul_right _ hc'
  have hne : c <<< s / d ≠ 0 := ((Nat.two_pow_pos n).trans_le hle).ne'
  exact (Nat.le_log2 hne).2 hle

section
variable (e₁ e₂ : ℤ)

/-- A quotient has bits enough to round, so that its exponent is none too great. -/
theorem divCore_exponent_le {c d : ℕ} (hc : 0 < c) (hd : 0 < d) :
    (divCore .binary64 c e₁ d e₂).2.1 ≤ Format.binary64.targetExponent
      (totalExponent (divCore .binary64 c e₁ d e₂).1 (divCore .binary64 c e₁ d e₂).2.1) := by
  rw [targetExponent_eq]
  have htarget : Format.binary64.targetExponent (totalExponent c e₁ - totalExponent d e₂) =
      max ((c.log2 : ℤ) + e₁ - (d.log2 + e₂) - 53) (-1074) := by
    rw [targetExponent_binary64, totalExponent, totalExponent]
    omega
  simp only [divCore, htarget]
  set t := min (e₁ - e₂) (max ((c.log2 : ℤ) + e₁ - (d.log2 + e₂) - 53) (-1074)) with ht
  by_cases hsub : t ≤ -1074
  · omega
  -- The quotient is of a normal size, for which it has at least 53 bits.
  · obtain ⟨n, hn⟩ : ∃ n : ℕ, d.log2 + 1 + n = c.log2 + (e₁ - e₂ - t).toNat :=
      ⟨c.log2 + (e₁ - e₂ - t).toNat - (d.log2 + 1), by omega⟩
    have hlog := le_log2_shiftLeft_div hc hd hn
    omega

/-- What is divided is shifted until the integral part of the quotient is precise enough. -/
theorem divCore_standsFor (c : ℕ) {d : ℕ} (hd : 0 < d) :
    StandsFor
      (.ofMantissaAndAccuracy (divCore .binary64 c e₁ d e₂).1 (divCore .binary64 c e₁ d e₂).2.2)
      (c / d * 2 ^ (e₁ - e₂) / 2 ^ (divCore .binary64 c e₁ d e₂).2.1) := by
  simp only [divCore]
  set t := min (e₁ - e₂) (Format.binary64.targetExponent (totalExponent c e₁ - totalExponent d e₂))
  have hshift : (c : ℚ) / d * 2 ^ (e₁ - e₂) / 2 ^ t = (c <<< (e₁ - e₂ - t).toNat : ℕ) / d := by
    have hpow : (2 : ℚ) ^ (e₁ - e₂) / 2 ^ t = 2 ^ (e₁ - e₂ - t).toNat := by
      rw [← zpow_natCast, ← zpow_sub₀ two_ne_zero]
      congr 1
      omega
    rw [Nat.shiftLeft_eq, mul_div_assoc, hpow]
    push_cast
    ring
  rw [hshift]
  exact standsFor_div _ hd

end

theorem Interval.Mem.lt_two_pow (h : (interval m e).Mem q) (hm : Canonical m e) : q < 2 ^ 1024 := by
  have hle := (h.near hm.pos).2.1
  have hm' : (m : ℚ) + 1 ≤ 2 ^ 53 := by exact_mod_cast hm.lt
  have hlt : q / 2 ^ e < 2 ^ 53 := by linarith
  rw [div_lt_iff₀ (by positivity), ← zpow_add_natCast] at hlt
  apply hlt.trans_le
  rw [← zpow_natCast]
  apply zpow_le_zpow_right₀ one_le_two
  have hmax := hm.le_max
  omega

theorem Interval.Mem.two_pow_le (h : (interval m e).Mem q) (hm : Canonical m e) :
    2 ^ (-1075 : ℤ) ≤ q := by
  have hge := (h.near hm.pos).1
  have hm' : (1 : ℚ) ≤ m := by exact_mod_cast hm.pos
  have hle : (1 : ℚ) / 2 ≤ q / 2 ^ e := by linarith
  rw [le_div_iff₀ (by positivity)] at hle
  have hmono : (2 : ℚ) ^ (-1074 : ℤ) ≤ 2 ^ e := zpow_le_zpow_right₀ one_le_two hm.min_le
  have hhalf : (2 : ℚ) ^ (-1075 : ℤ) = 1 / 2 * 2 ^ (-1074 : ℤ) := by
    rw [show (-1075 : ℤ) = -1074 - 1 by rfl, zpow_sub_one₀ two_ne_zero]
    ring
  rw [hhalf]
  linarith

theorem Interval.Mem.coefficient_pos {c : ℕ} {k : ℤ} (h : (interval m e).Mem (c * 10 ^ k))
    (hm : Canonical m e) : 0 < c := by
  have hpos : (0 : ℚ) < c * 10 ^ k := lt_of_lt_of_le (by positivity) (h.two_pow_le hm)
  rcases Nat.eq_zero_or_pos c with rfl | hc
  · simp at hpos
  · exact hc

theorem mul_eq_finite (hm : Canonical m e) {c p : ℕ} {hc : 0 < c <<< 53} {hp : 0 < p}
    (hq : (interval m e).Mem (c * p)) :
    UnpackedFloat.mul .binary64 (.finite .positive (c <<< 53) (-53) hc) (.finite .positive p 0 hp) =
      .finite .positive m e hm.pos := by
  have hproduct : (c <<< 53 * p : ℕ) = (c : ℚ) * p / 2 ^ (-53 + 0 : ℤ) := by
    rw [Nat.shiftLeft_eq, add_zero, zpow_neg, div_inv_eq_mul, zpow_ofNat]
    push_cast
    ring
  have hle : 2 ^ 53 ≤ c <<< 53 * p := by
    rw [Nat.shiftLeft_eq] at hc ⊢
    have hc' : 0 < c := Nat.pos_of_mul_pos_right hc
    exact (Nat.le_mul_of_pos_left _ hc').trans (Nat.le_mul_of_pos_right _ hp)
  have hlog := (Nat.le_log2 (Nat.mul_pos hc hp).ne').2 hle
  simp only [UnpackedFloat.mul]
  refine roundWithAccuracy_eq_finite _ hm hq ?_ ?_
  · rw [← hproduct]
    exact standsFor_exact _
  · rw [targetExponent_eq]
    omega

theorem div_eq_finite (hm : Canonical m e) {c d : ℕ} {hc : 0 < c} {hd : 0 < d}
    (hq : (interval m e).Mem (c / d)) :
    UnpackedFloat.div .binary64 (.finite .positive c 0 hc) (.finite .positive d 0 hd) =
      .finite .positive m e hm.pos := by
  have hstands := divCore_standsFor 0 0 c hd
  rw [sub_self, zpow_zero, mul_one] at hstands
  simp only [UnpackedFloat.div]
  exact roundWithAccuracy_eq_finite _ hm hq hstands (divCore_exponent_le 0 0 hc hd)

/-- The exponent of such a decimal is within what the reader of decimals takes into account. -/
theorem Interval.Mem.exponent_bounds {c : ℕ} {k : ℤ} (h : (interval m e).Mem (c * 10 ^ k))
    (hm : Canonical m e) : -(2048 + (c.log2 : ℤ)) ≤ k ∧ k ≤ 2048 := by
  have hpow (n : ℕ) : (2 : ℚ) ^ n ≤ 10 ^ n := pow_le_pow_left₀ two_pos.le (by norm_num) n
  constructor
  · by_contra! hk
    obtain ⟨n, rfl⟩ : ∃ n : ℕ, k = -n := ⟨(-k).toNat, by omega⟩
    have hge := h.two_pow_le hm
    have hlt : (c : ℚ) < 2 ^ (c.log2 + 1) := by exact_mod_cast Nat.lt_log2_self
    rw [zpow_neg, zpow_neg, zpow_natCast, zpow_ofNat, ← div_eq_mul_inv, ← one_div,
      div_le_div_iff₀ (by positivity) (by positivity), one_mul] at hge
    have hmono : (2 : ℚ) ^ (c.log2 + 1 + 1075) ≤ 2 ^ n := by
      apply pow_le_pow_right₀ one_le_two
      omega
    rw [pow_add] at hmono
    have hbound := mul_lt_mul_of_pos_right hlt (show (0 : ℚ) < 2 ^ 1075 by positivity)
    exact absurd (hmono.trans ((hpow n).trans hge)) (not_le.2 hbound)
  · by_contra! hk
    obtain ⟨n, rfl⟩ := Int.eq_ofNat_of_zero_le (show 0 ≤ k by omega)
    have hc : (1 : ℚ) ≤ c := by exact_mod_cast h.coefficient_pos hm
    have hlt := h.lt_two_pow hm
    rw [zpow_natCast] at hlt
    have hle : (10 : ℚ) ^ n ≤ c * 10 ^ n := le_mul_of_one_le_left (by positivity) hc
    have hmono : (2 : ℚ) ^ 1024 ≤ 2 ^ n := by
      apply pow_le_pow_right₀ one_le_two
      omega
    exact absurd (hmono.trans ((hpow n).trans hle)) (not_le.2 hlt)

/-- Reading a decimal that lies in the interval around a double gives that double. -/
theorem ofScientific_eq_finite (hm : Canonical m e) {c : ℕ} {k : ℤ}
    (hq : (interval m e).Mem (c * 10 ^ k)) :
    UnpackedFloat.ofScientific .binary64 c k = .finite .positive m e hm.pos := by
  have hc := hq.coefficient_pos hm
  have hbits : (2 : ℤ) ^ Format.binary64.exponentBits = 2048 := rfl
  obtain ⟨hlower, hupper⟩ := hq.exponent_bounds hm
  rw [UnpackedFloat.ofScientific, dif_neg hc.ne', if_neg (by rw [hbits]; omega),
    if_neg (by rw [hbits]; omega)]
  split_ifs with hk
  · have hp : ((10 ^ k.toNat : ℕ) : ℚ) = 10 ^ k := by
      rw [Nat.cast_pow, ← zpow_natCast, Int.toNat_of_nonneg hk, Nat.cast_ofNat]
    apply mul_eq_finite hm
    rwa [hp]
  · have hd : ((10 ^ (-k).toNat : ℕ) : ℚ) = (10 ^ k)⁻¹ := by
      rw [Nat.cast_pow, ← zpow_natCast, Int.toNat_of_nonneg (by omega), zpow_neg, Nat.cast_ofNat]
    apply div_eq_finite hm
    rwa [hd, div_inv_eq_mul]

end

end SlotCalc.Decimal
