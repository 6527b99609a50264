import Mathlib
import SlotCalc.Decimal.Shortest
import SlotCalc.Proofs.Decimal.Packing

namespace SlotCalc.Decimal

open Float.Model UnpackedFloat

/-- The number that is rounded lies in the interval. -/
def Interval.Mem (i : Interval) (q : ℚ) : Prop :=
  if i.closed then i.lower * 2 ^ i.exponent ≤ q ∧ q ≤ i.upper * 2 ^ i.exponent
  else i.lower * 2 ^ i.exponent < q ∧ q < i.upper * 2 ^ i.exponent

/-- The number of halves below a number, as far as a mantissa and its round bit tell. -/
def halves (em : ExtendedMantissa) : ℕ := 2 * em.mantissa + em.roundBit.toNat

/-- An extended mantissa stands for `q`: `q` has so many whole halves, and the sticky bit says
whether more is left. -/
def StandsFor (em : ExtendedMantissa) (q : ℚ) : Prop :=
  if em.stickyBit then (halves em : ℚ) < 2 * q ∧ 2 * q < halves em + 1 else 2 * q = halves em

section
variable {em : ExtendedMantissa} {q : ℚ}

theorem halves_shiftRightOne (em : ExtendedMantissa) :
    halves em.shiftRightOne = em.mantissa := by
  have hbit : (em.mantissa % 2 != 0).toNat = em.mantissa % 2 := by
    rcases Nat.mod_two_eq_zero_or_one em.mantissa with h | h <;> simp [h]
  simp only [halves, ExtendedMantissa.shiftRightOne, hbit]
  omega

theorem StandsFor.shiftRightOne (h : StandsFor em q) : StandsFor em.shiftRightOne (q / 2) := by
  obtain ⟨m, round, sticky⟩ := em
  -- The number of halves of a half is the mantissa, so both bits together become sticky.
  simp only [StandsFor, halves_shiftRightOne] at h ⊢
  cases round <;> cases sticky <;> simp [halves, ExtendedMantissa.shiftRightOne] at h ⊢ <;> grind

theorem StandsFor.shiftRight (h : StandsFor em q) (n : ℕ) : StandsFor (em >>> n) (q / 2 ^ n) := by
  induction n with
  | zero =>
    rw [pow_zero, div_one]
    exact h
  | succ n ih =>
    have hstep := ih.shiftRightOne
    rwa [div_div, ← pow_succ] at hstep

theorem StandsFor.floor (h : StandsFor em q) : (em.mantissa : ℚ) ≤ q ∧ q < em.mantissa + 1 := by
  obtain ⟨m, round, sticky⟩ := em
  cases round <;> cases sticky <;> simp [StandsFor, halves] at h ⊢ <;> grind

/-- A number within half a unit of `m` has the rounded mantissa `m`, a tie only if `m` is even. -/
theorem StandsFor.roundedMantissa_eq {m : ℕ} (h : StandsFor em q) (hlower : (m : ℚ) - 1 / 2 ≤ q)
    (hupper : q ≤ m + 1 / 2) (htie : q = m - 1 / 2 ∨ q = m + 1 / 2 → m % 2 = 0) :
    em.roundedMantissa = m := by
  obtain ⟨n, round, sticky⟩ := em
  simp only [StandsFor, halves] at h
  simp only [ExtendedMantissa.roundedMantissa, ExtendedMantissa.accuracy]
  cases round <;> cases sticky <;> simp [Accuracy.roundToNearestEven] at h ⊢
  · have hlt : (n : ℚ) < m + 1 := by linarith
    have hgt : (m : ℚ) < n + 1 := by linarith
    norm_cast at hlt hgt
    omega
  · have hlt : (n : ℚ) < m + 1 := by linarith
    have hgt : (m : ℚ) < n + 1 := by linarith
    norm_cast at hlt hgt
    omega
  -- A tie: `m` is the even one of `n` and `n + 1`.
  · have hle : (n : ℚ) ≤ m := by linarith
    have hge : (m : ℚ) ≤ n + 1 := by linarith
    norm_cast at hle hge
    rcases hle.eq_or_lt with rfl | hlt
    · have heven := htie (.inr (by linarith))
      omega
    · obtain rfl : m = n + 1 := by omega
      have heven := htie (.inl (by push_cast; linarith))
      omega
  · have hlt : (n : ℚ) < m := by linarith
    have hgt : (m : ℚ) < n + 2 := by linarith
    norm_cast at hlt hgt
    omega

end

theorem targetExponent_binary64 (place : ℤ) :
    Format.binary64.targetExponent place = max (place - 53) (-1074) := by
  have hbits : (Format.binary64.mantissaBits : ℤ) = 53 := rfl
  have hmin : Format.binary64.minExponent = -1074 := by decide
  rw [Format.targetExponent, hbits, hmin]

theorem targetExponent_eq (m : ℕ) (e : ℤ) :
    Format.binary64.targetExponent (totalExponent m e) = max (m.log2 + e - 52) (-1074) := by
  rw [targetExponent_binary64, totalExponent]
  omega

section
variable {m : ℕ} {e t : ℤ} {q : ℚ}

theorem zpow_add_natCast (e : ℤ) (n : ℕ) : (2 : ℚ) ^ (e + n) = 2 ^ n * 2 ^ e := by
  rw [zpow_add₀ two_ne_zero, zpow_natCast, mul_comm]

theorem div_zpow_div_pow (q : ℚ) (h : e ≤ t) : q / 2 ^ e / 2 ^ (t - e).toNat = q / 2 ^ t := by
  have hsplit := zpow_add_natCast e (t - e).toNat
  rw [show e + ((t - e).toNat : ℤ) = t by omega] at hsplit
  rw [hsplit, div_div, mul_comm]

theorem targetExponent_of_floor (hfloor : (m : ℚ) ≤ q / 2 ^ e ∧ q / 2 ^ e < m + 1) (he : e ≤ t)
    (ht : -1074 ≤ t) (hlower : t = -1074 ∨ (2 : ℚ) ^ (t + 52) ≤ q) (hupper : q < 2 ^ (t + 53)) :
    Format.binary64.targetExponent (totalExponent m e) = t := by
  have hpos : (0 : ℚ) < 2 ^ e := by positivity
  obtain ⟨n, hn⟩ : ∃ n : ℕ, t + 52 = e + n := ⟨(t + 52 - e).toNat, by omega⟩
  rw [targetExponent_eq]
  -- The integral part has at most `n + 1` bits, and just so many unless the exponent is the least
  -- one.
  have hlog : m.log2 ≤ n := by
    rcases Nat.eq_zero_or_pos m with rfl | hm
    · simp
    · have hlt : q / 2 ^ e < 2 ^ (n + 1) := by
        rw [div_lt_iff₀ hpos, ← zpow_add_natCast]
        rwa [show t + 53 = e + (n + 1 : ℕ) by omega] at hupper
      have hlt' : (m : ℚ) < (2 ^ (n + 1) : ℕ) := by
        push_cast
        exact hfloor.1.trans_lt hlt
      exact Nat.lt_succ_iff.1 ((Nat.log2_lt hm.ne').2 (by exact_mod_cast hlt'))
  rcases hlower with rfl | hlower
  · omega
  · have hle : (2 : ℚ) ^ n ≤ q / 2 ^ e := by
      rw [le_div_iff₀ hpos, ← zpow_add_natCast, ← hn]
      exact hlower
    have hlt : ((2 ^ n : ℕ) : ℚ) < (m + 1 : ℕ) := by
      push_cast
      exact hle.trans_lt hfloor.2
    have hle' : 2 ^ n ≤ m := Nat.lt_succ_iff.1 (by exact_mod_cast hlt)
    have hm : m ≠ 0 := (Nat.two_pow_pos n).trans_le hle' |>.ne'
    have hge : n ≤ m.log2 := (Nat.le_log2 hm).2 hle'
    omega

/-- With bits enough to round, no shift to the left is due. -/
theorem le_of_le_targetExponent (hfloor : (m : ℚ) ≤ q / 2 ^ e) (ht : -1074 ≤ t)
    (hupper : q < 2 ^ (t + 53))
    (he : e ≤ Format.binary64.targetExponent (totalExponent m e)) : e ≤ t := by
  by_contra! hlt
  rw [targetExponent_eq] at he
  have hlog : 52 ≤ m.log2 := by omega
  have hm : m ≠ 0 := by
    rintro rfl
    simp at hlog
  have hbits : ((2 ^ 52 : ℕ) : ℚ) ≤ m := by exact_mod_cast (Nat.le_log2 hm).1 hlog
  have hle : (2 : ℚ) ^ (e + (52 : ℕ)) ≤ q := by
    rw [zpow_add_natCast, ← le_div_iff₀ (by positivity)]
    exact_mod_cast hbits.trans hfloor
  have hmono : (2 : ℚ) ^ (t + 53) ≤ 2 ^ (e + (52 : ℕ)) := by
    apply zpow_le_zpow_right₀ one_le_two
    omega
  exact absurd (hmono.trans hle) (not_le.2 hupper)

end

section
variable {m : ℕ} {e : ℤ} {q : ℚ}

theorem Interval.mem_iff (i : Interval) : i.Mem q ↔
    if i.closed then i.lower ≤ q / 2 ^ i.exponent ∧ q / 2 ^ i.exponent ≤ i.upper
    else i.lower < q / 2 ^ i.exponent ∧ q / 2 ^ i.exponent < i.upper := by
  have hpos : (0 : ℚ) < 2 ^ i.exponent := by positivity
  simp only [Interval.Mem, le_div_iff₀ hpos, div_le_iff₀ hpos, lt_div_iff₀ hpos,
    div_lt_iff₀ hpos]

theorem two_zpow_interval_exponent (m : ℕ) (e : ℤ) :
    (2 : ℚ) ^ (interval m e).exponent = 2 ^ e / 4 := by
  simp only [interval]
  rw [zpow_sub₀ two_ne_zero]
  norm_num

theorem div_two_zpow_interval_exponent (q : ℚ) (m : ℕ) (e : ℤ) :
    q / 2 ^ (interval m e).exponent = 4 * (q / 2 ^ e) := by
  rw [two_zpow_interval_exponent]
  field_simp

theorem lower_interval (hm : 0 < m) (e : ℤ) : ((interval m e).lower : ℚ) =
    4 * m - if m = 2 ^ 52 ∧ -1074 < e then 1 else 2 := by
  simp only [interval, Nat.pow_eq]
  split_ifs
  · rw [Nat.cast_sub (by omega)]
    norm_num
  · rw [Nat.cast_sub (by omega)]
    norm_num

theorem upper_interval (m : ℕ) (e : ℤ) : ((interval m e).upper : ℚ) = 4 * m + 2 := by
  simp [interval]

theorem Interval.Mem.ends (h : (interval m e).Mem q) :
    (interval m e).lower ≤ 4 * (q / 2 ^ e) ∧ 4 * (q / 2 ^ e) ≤ (interval m e).upper ∧
      (m % 2 ≠ 0 → (interval m e).lower < 4 * (q / 2 ^ e) ∧
        4 * (q / 2 ^ e) < (interval m e).upper) := by
  rw [Interval.mem_iff, div_two_zpow_interval_exponent] at h
  split_ifs at h with hclosed
  · refine ⟨h.1, h.2, fun hodd => absurd ?_ hodd⟩
    simpa [interval] using hclosed
  · exact ⟨h.1.le, h.2.le, fun _ => h⟩

/-- The numbers of the interval are within half a unit of the last place. -/
theorem Interval.Mem.near (h : (interval m e).Mem q) (hm : 0 < m) :
    (m : ℚ) - 1 / 2 ≤ q / 2 ^ e ∧ q / 2 ^ e ≤ m + 1 / 2 ∧
      (q / 2 ^ e = m - 1 / 2 ∨ q / 2 ^ e = m + 1 / 2 → m % 2 = 0) := by
  have hlower : 4 * (m : ℚ) - 2 ≤ (interval m e).lower := by
    rw [lower_interval hm]
    split_ifs <;> linarith
  have hupper := upper_interval m e
  obtain ⟨hge, hle, hodd⟩ := h.ends
  refine ⟨by linarith, by linarith, fun htie => ?_⟩
  by_contra hne
  obtain ⟨hgt, hlt⟩ := hodd hne
  rcases htie with heq | heq <;> linarith

/-- Below a power of two they are within a quarter. -/
theorem Interval.Mem.near_of_power (h : (interval (2 ^ 52) e).Mem q) (he : -1074 < e) :
    (2 : ℚ) ^ 52 - 1 / 4 ≤ q / 2 ^ e := by
  have hge := h.ends.1
  rw [lower_interval (by decide), if_pos ⟨rfl, he⟩] at hge
  push_cast at hge
  linarith

theorem Interval.mem_of_lt {i : Interval} (hlower : i.lower * 2 ^ i.exponent < q)
    (hupper : q < i.upper * 2 ^ i.exponent) : i.Mem q := by
  rw [Interval.Mem]
  split_ifs
  · exact ⟨hlower.le, hupper.le⟩
  · exact ⟨hlower, hupper⟩

theorem mem_interval (hm : Canonical m e) : (interval m e).Mem (m * 2 ^ e) := by
  have hpos : (0 : ℚ) < 2 ^ e := by positivity
  apply Interval.mem_of_lt
  · rw [two_zpow_interval_exponent, lower_interval hm.pos]
    split_ifs <;> linarith
  · rw [two_zpow_interval_exponent, upper_interval]
    linarith

/-- A mantissa that fits has the exponent that is due, however large that is. -/
theorem targetExponent_of_fits (hpos : 0 < m) (hlt : m < 2 ^ 53) (hmin : -1074 ≤ e)
    (hnormal : 2 ^ 52 ≤ m ∨ e = -1074) :
    Format.binary64.targetExponent (totalExponent m e) = e := by
  rw [targetExponent_eq]
  have hlog : m.log2 < 53 := (Nat.log2_lt hpos.ne').2 hlt
  rcases hnormal with hnormal | rfl
  · have hlog' : 52 ≤ m.log2 := (Nat.le_log2 hpos.ne').2 hnormal
    omega
  · omega

theorem shiftToTargetExponent_standsFor {t : ℤ} {acc : Accuracy}
    (hstands : StandsFor (.ofMantissaAndAccuracy m acc) (q / 2 ^ e)) (he : e ≤ t)
    (htarget : Format.binary64.targetExponent (totalExponent m e) = t) :
    ∃ em, shiftToTargetExponent .binary64 m e acc = (em, t) ∧ StandsFor em (q / 2 ^ t) := by
  refine ⟨ExtendedMantissa.ofMantissaAndAccuracy m acc >>> (t - e).toNat, ?_, ?_⟩
  · simp only [shiftToTargetExponent, shiftToExponent, htarget]
    congr 1
    omega
  · rw [← div_zpow_div_pow q he]
    exact hstands.shiftRight _

theorem shiftToTargetExponent_of_fits (hpos : 0 < m) (hlt : m < 2 ^ 53) (hmin : -1074 ≤ e)
    (hnormal : 2 ^ 52 ≤ m ∨ e = -1074) :
    shiftToTargetExponent .binary64 m e .exact = (⟨m, false, false⟩, e) := by
  simp only [shiftToTargetExponent, shiftToExponent,
    targetExponent_of_fits hpos hlt hmin hnormal, sub_self]
  exact Prod.ext rfl (add_zero e)

/-- Rounding up to the next power of two leaves a bit too many, which is shifted out. -/
theorem shiftToTargetExponent_two_pow {t : ℤ} (ht : -1074 ≤ t) :
    shiftToTargetExponent .binary64 (2 ^ 53) t .exact = (⟨2 ^ 52, false, false⟩, t + 1) := by
  have htarget : Format.binary64.targetExponent (totalExponent (2 ^ 53) t) = t + 1 := by
    rw [targetExponent_eq, Nat.log2_two_pow]
    omega
  simp only [shiftToTargetExponent, shiftToExponent, htarget, add_sub_cancel_left]
  rfl

theorem roundWithAccuracy_of_shifts {sign : Sign} {acc : Accuracy} {em : ExtendedMantissa}
    {t e' : ℤ} {m' : ℕ} (hfirst : shiftToTargetExponent .binary64 m e acc = (em, t))
    (hsecond : shiftToTargetExponent .binary64 em.roundedMantissa t .exact =
      (⟨m', false, false⟩, e')) (hpos : 0 < m') :
    roundWithAccuracy .binary64 sign m e acc = .finite sign m' e' hpos := by
  simp only [roundWithAccuracy, hfirst, hsecond, dif_neg hpos.ne']

/-- The first shift of a rounding leads to the exponent `t` that the doubles next to the number
have, and keeps what the mantissa stands for. -/
theorem exists_first_shift {c : ℕ} {k t : ℤ} {acc : Accuracy}
    (hstands : StandsFor (.ofMantissaAndAccuracy c acc) (q / 2 ^ k))
    (hk : k ≤ Format.binary64.targetExponent (totalExponent c k)) (ht : -1074 ≤ t)
    (hlower : t = -1074 ∨ (2 : ℚ) ^ (t + 52) ≤ q) (hupper : q < 2 ^ (t + 53)) :
    ∃ em, shiftToTargetExponent .binary64 c k acc = (em, t) ∧ StandsFor em (q / 2 ^ t) := by
  have hfloor : (c : ℚ) ≤ q / 2 ^ k ∧ q / 2 ^ k < c + 1 := by
    cases acc with
    | exact => exact hstands.floor
    | inexact half => cases half <;> exact hstands.floor
  have hkt := le_of_le_targetExponent hfloor.1 ht hupper hk
  apply shiftToTargetExponent_standsFor hstands hkt
  exact targetExponent_of_floor hfloor hkt ht hlower hupper

/-- Just below a power of two, the unit of the last place is half that of the power. -/
theorem roundedMantissa_below_power {em : ExtendedMantissa} (he : -1074 < e)
    (hq : (interval (2 ^ 52) e).Mem q) (hlt : q / 2 ^ e < 2 ^ 52)
    (hem : StandsFor em (q / 2 ^ (e - 1))) : em.roundedMantissa = 2 ^ 53 := by
  have hquarter := hq.near_of_power he
  have hdouble : q / 2 ^ (e - 1) = 2 * (q / 2 ^ e) := by
    rw [zpow_sub_one₀ two_ne_zero]
    field_simp
  rw [hdouble] at hem
  apply hem.roundedMantissa_eq
  · push_cast
    linarith
  · push_cast
    linarith
  · intro _
    decide

/-- Every number of the interval around a double rounds to it. -/
theorem roundWithAccuracy_eq_finite (sign : Sign) {c : ℕ} {k : ℤ} {acc : Accuracy}
    (hm : Canonical m e) (hq : (interval m e).Mem q)
    (hstands : StandsFor (.ofMantissaAndAccuracy c acc) (q / 2 ^ k))
    (hk : k ≤ Format.binary64.targetExponent (totalExponent c k)) :
    roundWithAccuracy .binary64 sign c k acc = .finite sign m e hm.pos := by
  obtain ⟨hlower, hupper, htie⟩ := hq.near hm.pos
  have hpos : (0 : ℚ) < 2 ^ e := by positivity
  have hmin := hm.min_le
  have scale (n : ℕ) : (2 : ℚ) ^ (e + n) = 2 ^ n * 2 ^ e := zpow_add_natCast e n
  by_cases hbinade : e = -1074 ∨ (2 : ℚ) ^ (e + 52) ≤ q
  · have hlt : q < 2 ^ (e + 53) := by
      have hm' : (m : ℚ) + 1 ≤ 2 ^ 53 := by exact_mod_cast hm.lt
      rw [show e + 53 = e + (53 : ℕ) by rfl, scale, ← div_lt_iff₀ hpos]
      linarith
    obtain ⟨em, hfirst, hem⟩ := exists_first_shift hstands hk hmin hbinade hlt
    apply roundWithAccuracy_of_shifts hfirst
    rw [hem.roundedMantissa_eq hlower hupper htie]
    exact shiftToTargetExponent_of_fits hm.pos hm.lt hm.min_le hm.normal
  -- The number is below the double, which is a power of two, and rounds up to it.
  · obtain ⟨hsub, hlt⟩ := not_or.1 hbinade
    rw [not_le, show e + 52 = e + (52 : ℕ) by rfl, scale, ← div_lt_iff₀ hpos] at hlt
    have hnormal := hm.normal.resolve_right hsub
    obtain rfl : m = 2 ^ 52 := by
      have hle : (m : ℚ) < (2 ^ 52 + 1 : ℕ) := by
        push_cast
        linarith
      have hle' : m < 2 ^ 52 + 1 := by exact_mod_cast hle
      omega
    have hlower' : (2 : ℚ) ^ (e - 1 + 52) ≤ q := by
      rw [show e - 1 + 52 = e + (51 : ℕ) by omega, scale, ← le_div_iff₀ hpos]
      push_cast at hlower
      linarith
    have hupper' : q < 2 ^ (e - 1 + 53) := by
      rw [show e - 1 + 53 = e + (52 : ℕ) by omega, scale, ← div_lt_iff₀ hpos]
      exact hlt
    have hmin' : -1074 ≤ e - 1 := by omega
    obtain ⟨em, hfirst, hem⟩ := exists_first_shift hstands hk hmin' (.inr hlower') hupper'
    apply roundWithAccuracy_of_shifts hfirst
    rw [roundedMantissa_below_power (by omega) hq hlt hem]
    simpa using shiftToTargetExponent_two_pow hmin'

end

end SlotCalc.Decimal
