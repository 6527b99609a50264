import Mathlib
import SlotCalc.Proofs.Decimal.Rounding

namespace SlotCalc.Decimal

/-- A power with an integer exponent as a quotient of powers with natural ones. -/
theorem pow_toNat {b : ℚ} (hb : b ≠ 0) (z : ℤ) : b ^ z.toNat = b ^ (-z).toNat * b ^ z := by
  rw [← zpow_natCast, ← zpow_natCast, ← zpow_add₀ hb]
  congr 1
  omega

section
variable (i : Interval) (k : ℤ)

/-- The fraction of an interval is that of its unit and a power of ten. -/
theorem Interval.exists_unit_eq : ∃ s : ℚ, 0 < s ∧
    ((i.unit k).1 : ℚ) = s * 2 ^ i.exponent ∧ ((i.unit k).2 : ℚ) = s * 10 ^ k := by
  refine ⟨10 ^ (-k).toNat * 2 ^ (-i.exponent).toNat, by positivity, ?_, ?_⟩
  · simp only [Interval.unit, Nat.pow_eq]
    push_cast
    rw [pow_toNat two_ne_zero i.exponent]
    ring
  · simp only [Interval.unit, Nat.pow_eq]
    push_cast
    rw [pow_toNat (by norm_num : (10 : ℚ) ≠ 0) k]
    ring

variable {i k} {c : ℕ}

theorem Interval.holds_iff : i.holds k c = true ↔ i.Mem (c * 10 ^ k) := by
  obtain ⟨s, hs, hn, hd⟩ := i.exists_unit_eq k
  have le_iff (a b : ℕ) : a * (i.unit k).1 ≤ b * (i.unit k).2 ↔
      (a : ℚ) * 2 ^ i.exponent ≤ b * 10 ^ k := by
    rw [← Nat.cast_le (α := ℚ), Nat.cast_mul, Nat.cast_mul, hn, hd, mul_left_comm,
      mul_left_comm _ s, mul_le_mul_iff_right₀ hs]
  have ge_iff (a b : ℕ) : b * (i.unit k).2 ≤ a * (i.unit k).1 ↔
      (b : ℚ) * 10 ^ k ≤ a * 2 ^ i.exponent := by
    rw [← Nat.cast_le (α := ℚ), Nat.cast_mul, Nat.cast_mul, hn, hd, mul_left_comm,
      mul_left_comm _ s, mul_le_mul_iff_right₀ hs]
  by_cases hclosed : i.closed
  · simp [Interval.holds, Interval.Mem, hclosed, le_iff, ge_iff]
  · simp [Interval.holds, Interval.Mem, hclosed, ← not_le, le_iff, ge_iff]

theorem Interval.nearest_eq_or :
    i.nearest k = i.floor k ∨ i.nearest k = i.floor k + 1 := by
  simp only [Interval.nearest]
  split <;> omega

theorem Interval.mem_of_hit (h : i.hit? k = some c) : i.Mem (c * 10 ^ k) := by
  rw [← Interval.holds_iff]
  simp only [Interval.hit?] at h
  split at h
  · rename_i hfloor hsucc
    cases h
    rcases i.nearest_eq_or (k := k) with heq | heq <;> rwa [heq]
  · cases h
    assumption
  · cases h
    assumption
  · cases h

/-- The nearest multiple of a power of ten is at most half of it away. -/
theorem Interval.nearest_near :
    i.nearest k * (10 : ℚ) ^ k ≤ i.middle * 2 ^ i.exponent + 10 ^ k / 2 ∧
      i.middle * (2 : ℚ) ^ i.exponent ≤ i.nearest k * 10 ^ k + 10 ^ k / 2 := by
  obtain ⟨s, hs, hn, hd⟩ := i.exists_unit_eq k
  have hpos : 0 < (i.unit k).2 := by
    rw [← Nat.cast_pos (α := ℚ), hd]
    positivity
  have hnat : 2 * (i.nearest k * (i.unit k).2) ≤ 2 * (i.middle * (i.unit k).1) + (i.unit k).2 ∧
      2 * (i.middle * (i.unit k).1) ≤ 2 * (i.nearest k * (i.unit k).2) + (i.unit k).2 := by
    -- Both the product of the floor and that of its successor are within one unit of `a`.
    simp only [Interval.nearest, Interval.floor]
    generalize i.middle * (i.unit k).1 = a, (i.unit k).2 = d at hpos ⊢
    have hdiv : a / d * d + a % d = a := by
      rw [mul_comm]
      exact Nat.div_add_mod a d
    have hmod := Nat.mod_lt a hpos
    have hmiddle : (2 * (a / d) + 1) * d = 2 * (a / d * d) + d := by ring
    rw [hmiddle]
    split
    · rename_i hcmp
      have hlt := Nat.compare_eq_lt.1 hcmp
      omega
    · rename_i hcmp
      have hlt := Nat.compare_eq_gt.1 hcmp
      rw [add_mul]
      omega
    · rename_i hcmp
      have heq := Nat.compare_eq_eq.1 hcmp
      rcases Nat.mod_two_eq_zero_or_one (a / d) with hparity | hparity
      · rw [hparity, add_zero]
        omega
      · rw [hparity, add_mul]
        omega
  have hle : (2 : ℚ) * (i.nearest k * (s * 10 ^ k)) ≤
      2 * (i.middle * (s * 2 ^ i.exponent)) + s * 10 ^ k := by
    rw [← hn, ← hd]
    exact_mod_cast hnat.1
  have hge : (2 : ℚ) * (i.middle * (s * 2 ^ i.exponent)) ≤
      2 * (i.nearest k * (s * 10 ^ k)) + s * 10 ^ k := by
    rw [← hn, ← hd]
    exact_mod_cast hnat.2
  constructor <;> refine le_of_mul_le_mul_left ?_ hs <;> linarith

end

section
variable {m : ℕ} {e : ℤ}

theorem pow_digitCount_le {n : ℕ} (hn : 0 < n) : 10 ^ (digitCount n - 1) ≤ n := by
  rcases Nat.eq_zero_or_pos (digitCount n - 1) with hzero | hpos
  · rw [hzero]
    exact hn
  · by_contra! hlt
    have hle := (Nat.length_toDigits_le_iff (by decide) hpos).2 hlt
    simp only [digitCount] at hle hpos
    omega

theorem lt_pow_digitCount (n : ℕ) : n < 10 ^ digitCount n :=
  (Nat.length_toDigits_le_iff (by decide) Nat.length_toDigits_pos).1 le_rfl

/-- The power of ten at the magnitude of a double is no more than the double. -/
theorem pow_magnitude_le (hm : 0 < m) : (10 : ℚ) ^ magnitude m e ≤ m * 2 ^ e := by
  simp only [magnitude, Nat.pow_eq]
  set n := m * 2 ^ e.toNat with hn
  set d := 2 ^ (-e).toNat with hd
  have hvalue : (m : ℚ) * 2 ^ e = n / d := by
    rw [hn, hd]
    push_cast
    rw [pow_toNat two_ne_zero e]
    field_simp
  have hd' : 0 < d := by positivity
  have hn' : 0 < n := by positivity
  have hdq : (0 : ℚ) < d := by exact_mod_cast hd'
  have hnq : (0 : ℚ) < n := by exact_mod_cast hn'
  rw [hvalue]
  -- From one on the digits of the integral part tell the magnitude, below one those of the inverse.
  split_ifs with hle
  · have hpow : (10 : ℚ) ^ (digitCount (n / d) - 1) ≤ n / d := by
      have h := pow_digitCount_le (Nat.div_pos hle hd')
      calc (10 : ℚ) ^ (digitCount (n / d) - 1) ≤ (n / d : ℕ) := by exact_mod_cast h
        _ ≤ n / d := Nat.cast_div_le
    have hcount : 0 < digitCount (n / d) := Nat.length_toDigits_pos
    rw [show (digitCount (n / d) : ℤ) - 1 = (digitCount (n / d) - 1 : ℕ) by omega, zpow_natCast]
    exact hpow
  · have hlt := lt_pow_digitCount ((d - 1) / n)
    rw [Nat.div_lt_iff_lt_mul hn'] at hlt
    have hle' : (d : ℚ) ≤ 10 ^ digitCount ((d - 1) / n) * n := by
      exact_mod_cast (show d ≤ 10 ^ digitCount ((d - 1) / n) * n by omega)
    rw [zpow_neg, zpow_natCast, ← one_div, div_le_div_iff₀ (by positivity) hdq]
    linarith

/-- Seventeen digits always suffice. -/
theorem mem_of_seventeen_digits (hm : Canonical m e) :
    (interval m e).Mem ((interval m e).nearest (magnitude m e - 16) *
      10 ^ (magnitude m e - 16)) := by
  obtain ⟨hle, hge⟩ := (interval m e).nearest_near (k := magnitude m e - 16)
  have hstep : (10 : ℚ) ^ (magnitude m e - 16) * 10 ^ 16 ≤ m * 2 ^ e := by
    have h := pow_magnitude_le (e := e) hm.pos
    rw [zpow_sub₀ (by norm_num)]
    simpa using h
  generalize (10 : ℚ) ^ (magnitude m e - 16) = p at hle hge hstep ⊢
  generalize (interval m e).nearest (magnitude m e - 16) = c at hle hge ⊢
  have hu : (0 : ℚ) < 2 ^ e := by positivity
  have hmiddle : ((interval m e).middle : ℚ) = 4 * m := by simp [interval]
  have hm' : (m : ℚ) < 2 ^ 53 := by exact_mod_cast hm.lt
  have hlt : (m : ℚ) * 2 ^ e < 2 ^ 53 * 2 ^ e := mul_lt_mul_of_pos_right hm' hu
  rw [two_zpow_interval_exponent, hmiddle] at hle hge
  apply Interval.mem_of_lt
  · rw [two_zpow_interval_exponent, lower_interval hm.pos]
    split_ifs with hpower
    -- The lower end is the nearest here, but so is the bound on the error.
    · have hm52 : (m : ℚ) = 2 ^ 52 := by exact_mod_cast hpower.1
      rw [hm52] at hge hstep ⊢
      linarith
    · linarith
  · rw [two_zpow_interval_exponent, upper_interval]
    linarith

theorem shortest_mem (hm : Canonical m e) :
    (interval m e).Mem ((shortest m e).1 * 10 ^ (shortest m e).2) := by
  simp only [shortest]
  generalize hgrids : List.findSome? _ _ = found
  cases found with
  | none => exact mem_of_seventeen_digits hm
  | some found =>
    obtain ⟨k, -, hk⟩ := List.exists_of_findSome?_eq_some hgrids
    obtain ⟨c, hc, rfl⟩ := Option.map_eq_some_iff.1 hk
    exact Interval.mem_of_hit hc

end

end SlotCalc.Decimal
