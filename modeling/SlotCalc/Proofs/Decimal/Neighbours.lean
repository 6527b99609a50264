import Mathlib
import SlotCalc.Proofs.Decimal.Rounding
import SlotCalc.Proofs.Decimal.Value

namespace SlotCalc.Decimal

open Float.Model UnpackedFloat

/-- Half a unit of the last place above the greatest double. -/
def overflowBound : ℚ := (2 ^ 53 - 1 / 2) * 2 ^ (971 : ℤ)

/-- `x` is the double to which `q` is rounded: the nearest one, and of two that are equally near the
one whose last bit is zero. From the bound on, it is an infinite one. -/
inductive RoundsTo (q : ℚ) (x : Float) : Prop
  | nearest (v : ℚ) (hbound : |q| < overflowBound) (hvalue : value? x = some v)
    (hnear : ∀ y w, value? y = some w → |q - v| ≤ |q - w|)
    (htie : ∀ y w, value? y = some w → w ≠ v → |q - w| = |q - v| → Even x.toBits.toNat)
  | overflow (hbound : overflowBound ≤ |q|) (hx : x.isInf = true)

/-- `m` is the integer nearest to `r`, and of two that are equally near the even one. -/
structure IsRounded (r : ℚ) (m : ℕ) : Prop where
  lower : (m : ℚ) - 1 / 2 ≤ r
  upper : r ≤ m + 1 / 2
  tie : r = m - 1 / 2 ∨ r = m + 1 / 2 → m % 2 = 0

section
variable {m : ℕ} {e t : ℤ} {q r w : ℚ} {y : Float}

theorem exists_isRounded (hr : 0 ≤ r) : ∃ m, IsRounded r m := by
  have hfloor := Nat.floor_le hr
  have hlt := Nat.lt_floor_add_one r
  rcases lt_trichotomy (r - ⌊r⌋₊) (1 / 2) with hlow | htie | hhigh
  · refine ⟨⌊r⌋₊, by linarith, by linarith, ?_⟩
    rintro (heq | heq) <;> linarith
  · rcases Nat.mod_two_eq_zero_or_one ⌊r⌋₊ with heven | hodd
    · exact ⟨⌊r⌋₊, by linarith, by linarith, fun _ => heven⟩
    · refine ⟨⌊r⌋₊ + 1, ?_, ?_, fun _ => by omega⟩ <;> push_cast <;> linarith
  · refine ⟨⌊r⌋₊ + 1, ?_, ?_, ?_⟩ <;> push_cast
    · linarith
    · linarith
    · rintro (heq | heq) <;> linarith

theorem exists_place (hq : 0 < q) :
    ∃ t : ℤ, -1074 ≤ t ∧ (t = -1074 ∨ (2 : ℚ) ^ (t + 52) ≤ q) ∧ q < 2 ^ (t + 53) := by
  have hlower := Int.zpow_log_le_self one_lt_two hq
  have hupper := Int.lt_zpow_succ_log_self one_lt_two q
  refine ⟨max (Int.log 2 q - 52) (-1074), le_max_right _ _, ?_, ?_⟩
  · rcases le_total (Int.log 2 q - 52) (-1074) with hle | hle
    · exact .inl (max_eq_right hle)
    · right
      rwa [max_eq_left hle, sub_add_cancel]
  · apply hupper.trans_le
    apply zpow_le_zpow_right₀ one_le_two
    omega

/-- `w` is `m * 2 ^ e` or at least one unit of the last place away, or half a unit below a power of
two. -/
def Apart (m : ℕ) (e : ℤ) (w : ℚ) : Prop :=
  w = m * 2 ^ e ∨ (m + 1) * 2 ^ e ≤ w ∨ w ≤ (m - 1) * 2 ^ e ∨
    m = 2 ^ 52 ∧ -1074 < e ∧ w ≤ (2 ^ 52 - 1 / 2) * 2 ^ e

theorem Canonical.add_one_le (hm : Canonical m e) : (m : ℚ) + 1 ≤ 2 ^ 53 := by
  exact_mod_cast hm.lt

theorem Canonical.apart {m' : ℕ} {e' : ℤ} (hm : Canonical m e) (hm' : Canonical m' e') :
    Apart m e (m' * 2 ^ e') := by
  have hu : (0 : ℚ) < 2 ^ e := by positivity
  have hle := hm.add_one_le
  have hle' := hm'.add_one_le
  have hmin := hm.min_le
  have hmin' := hm'.min_le
  -- A double of a lower exponent is below this one, and only next to a power of two is it nearer
  -- than one unit of the last place.
  rcases lt_trichotomy e' e with hlt | rfl | hgt
  · have hnormal : 2 ^ 52 ≤ m := hm.normal.resolve_right (by omega)
    have hhalf : 2 * (2 : ℚ) ^ e' ≤ 2 ^ e := by
      rw [mul_comm, ← zpow_add_one₀ two_ne_zero]
      exact zpow_le_zpow_right₀ one_le_two (by omega)
    have hw : (m' : ℚ) * 2 ^ e' ≤ (2 ^ 52 - 1 / 2) * 2 ^ e := by nlinarith
    rcases hnormal.eq_or_lt with heq | hmore
    · exact .inr (.inr (.inr ⟨heq.symm, by omega, hw⟩))
    · have hmore' : (2 ^ 52 : ℚ) + 1 ≤ m := by exact_mod_cast hmore
      exact .inr (.inr (.inl (by nlinarith)))
  · rcases lt_trichotomy m' m with hlt | rfl | hgt
    · have hlt' : (m' : ℚ) + 1 ≤ m := by exact_mod_cast hlt
      exact .inr (.inr (.inl (by nlinarith)))
    · exact .inl rfl
    · have hgt' : (m : ℚ) + 1 ≤ m' := by exact_mod_cast hgt
      exact .inr (.inl (by nlinarith))
  · have hnormal : (2 ^ 52 : ℚ) ≤ m' := by
      exact_mod_cast hm'.normal.resolve_right (by omega)
    have hdouble : 2 * (2 : ℚ) ^ e ≤ 2 ^ e' := by
      rw [mul_comm, ← zpow_add_one₀ two_ne_zero]
      exact zpow_le_zpow_right₀ one_le_two (by omega)
    exact .inr (.inl (by nlinarith))

theorem value?_cases (hy : value? y = some w) :
    w = 0 ∨ ∃ m e, Canonical m e ∧ (w = m * 2 ^ e ∨ w = -(m * 2 ^ e)) := by
  have hparts := isParts_unpack y
  unfold value? at hy
  split at hy
  · exact .inl (Option.some.inj hy).symm
  · rename_i s m e hpos hunpack
    rw [hunpack] at hparts
    refine .inr ⟨m, e, hparts, ?_⟩
    rw [← Option.some.inj hy]
    cases s with
    | negative => exact .inr (by rw [Sign.apply, Int.cast_neg, Int.cast_natCast, neg_mul])
    | positive => exact .inl (by rw [Sign.apply, Int.cast_natCast])
  · cases hy
  · cases hy

theorem Canonical.apart_value (hm : Canonical m e) (hy : value? y = some w) : Apart m e w := by
  have hone : (1 : ℚ) ≤ m := by exact_mod_cast hm.pos
  -- What is not positive is below all positive doubles.
  have hlow (h : w ≤ 0) : Apart m e w :=
    .inr (.inr (.inl (h.trans (mul_nonneg (by linarith) (by positivity)))))
  rcases value?_cases hy with hzero | ⟨m', e', hm', rfl | hneg⟩
  · exact hlow hzero.le
  · exact hm.apart hm'
  · exact hlow (hneg.trans_le (neg_nonpos.2 (by positivity)))

theorem eq_zero_or_le_abs (hy : value? y = some w) : w = 0 ∨ 2 ^ (-1074 : ℤ) ≤ |w| := by
  have hle {m : ℕ} {e : ℤ} (hm : Canonical m e) : (2 : ℚ) ^ (-1074 : ℤ) ≤ m * 2 ^ e := by
    have hone : (1 : ℚ) ≤ m := by exact_mod_cast hm.pos
    have hmono : (2 : ℚ) ^ (-1074 : ℤ) ≤ 2 ^ e := zpow_le_zpow_right₀ one_le_two hm.min_le
    exact hmono.trans (le_mul_of_one_le_left (by positivity) hone)
  rcases value?_cases hy with hzero | ⟨m, e, hm, rfl | rfl⟩
  · exact .inl hzero
  · exact .inr ((hle hm).trans (le_abs_self _))
  · exact .inr ((hle hm).trans (neg_le_abs _ |>.trans' (neg_neg _).ge))

/-- No double is nearer to a number of the interval around a double, and one that is equally near
has an odd mantissa. -/
theorem Apart.nearest (h : Apart m e w) (hm : Canonical m e) (hq : (interval m e).Mem q) :
    |q - m * 2 ^ e| ≤ |q - w| ∧ (w ≠ m * 2 ^ e → |q - w| = |q - m * 2 ^ e| → Even m) := by
  have hu : (0 : ℚ) < 2 ^ e := by positivity
  obtain ⟨hlower, hupper, htie⟩ := hq.near hm.pos
  rw [le_div_iff₀ hu] at hlower
  rw [div_le_iff₀ hu] at hupper
  rw [div_eq_iff hu.ne', div_eq_iff hu.ne', ← Nat.even_iff] at htie
  have hnear : |q - m * 2 ^ e| ≤ 2 ^ e / 2 := abs_le.2 ⟨by linarith, by linarith⟩
  rcases h with rfl | habove | hbelow | ⟨rfl, he, hbelow⟩
  · exact ⟨le_rfl, fun hne => absurd rfl hne⟩
  · have habs : |q - w| = w - q := by
      rw [abs_sub_comm, abs_of_nonneg (by linarith)]
    rw [habs]
    refine ⟨by linarith, fun _ heq => htie (.inr (by linarith))⟩
  · have habs : |q - w| = q - w := abs_of_nonneg (by linarith)
    rw [habs]
    refine ⟨by linarith, fun _ heq => htie (.inl (by linarith))⟩
  -- Just below a power of two, whose mantissa is even.
  · have hquarter := hq.near_of_power he
    rw [le_div_iff₀ hu] at hquarter
    have habs : |q - w| = q - w := abs_of_nonneg (by linarith)
    rw [habs]
    refine ⟨abs_le.2 ⟨?_, ?_⟩, fun _ _ => by decide⟩
    · push_cast
      linarith
    · push_cast
      linarith

theorem IsRounded.le {n : ℕ} (h : IsRounded r m) (hr : r ≤ n) : m ≤ n := by
  have hlt : (m : ℚ) < n + 1 := by linarith [h.lower]
  exact Nat.lt_succ_iff.1 (by exact_mod_cast hlt)

theorem IsRounded.ge {n : ℕ} (h : IsRounded r m) (hr : (n : ℚ) ≤ r) : n ≤ m := by
  have hlt : (n : ℚ) < m + 1 := by linarith [h.upper]
  exact Nat.lt_succ_iff.1 (by exact_mod_cast hlt)

theorem IsRounded.two_pow_le (h : IsRounded r m) (hr : (2 : ℚ) ^ 53 - 1 / 2 ≤ r) : 2 ^ 53 ≤ m := by
  by_contra! hlt
  have hlt' : (m : ℚ) + 1 ≤ 2 ^ 53 := by exact_mod_cast hlt
  have hupp := h.upper
  have heven := h.tie (.inr (by linarith))
  have hodd : (m : ℚ) + 1 = 2 ^ 53 := by linarith
  have hodd' : m + 1 = 2 ^ 53 := by exact_mod_cast hodd
  omega

theorem two_pow_le_div (h : (2 : ℚ) ^ (t + 52) ≤ q) : ((2 ^ 52 : ℕ) : ℚ) ≤ q / 2 ^ t := by
  rw [le_div_iff₀ (by positivity)]
  have hsplit := zpow_add_natCast t 52
  push_cast at hsplit ⊢
  linarith

theorem div_le_two_pow (h : q < 2 ^ (t + 53)) : q / 2 ^ t ≤ ((2 ^ 53 : ℕ) : ℚ) := by
  rw [div_le_iff₀ (by positivity)]
  have hsplit := zpow_add_natCast t 53
  push_cast at hsplit ⊢
  linarith

theorem IsRounded.mem_interval (h : IsRounded (q / 2 ^ t) m) (hm : 0 < m)
    (hlower : t = -1074 ∨ (2 : ℚ) ^ (t + 52) ≤ q) : (interval m t).Mem q := by
  obtain ⟨hlow, hupp, htie⟩ := h
  rw [Interval.mem_iff, div_two_zpow_interval_exponent, lower_interval hm, upper_interval]
  by_cases hpower : m = 2 ^ 52 ∧ -1074 < t
  · obtain ⟨rfl, ht⟩ := hpower
    have hge := two_pow_le_div (hlower.resolve_left ht.ne')
    have hclosed : (interval (2 ^ 52) t).closed = true := by
      rfl
    rw [if_pos hclosed, if_pos ⟨rfl, ht⟩]
    constructor <;> linarith
  · rw [if_neg hpower]
    split_ifs with hclosed
    · constructor <;> linarith
    · have hodd : m % 2 ≠ 0 := by simpa [interval] using hclosed
      have hne := not_or.1 (mt htie hodd)
      constructor
      · linarith [lt_of_le_of_ne hlow (Ne.symm hne.1)]
      · linarith [lt_of_le_of_ne hupp hne.2]

/-- A number whose mantissa is rounded up to `2 ^ 53` lies in the interval around the next power. -/
theorem mem_interval_of_carry (h : IsRounded (q / 2 ^ t) (2 ^ 53)) (ht : -1074 ≤ t)
    (hupper : q < 2 ^ (t + 53)) : (interval (2 ^ 52) (t + 1)).Mem q := by
  have hlow := h.lower
  have hupp := div_le_two_pow hupper
  have hclosed : (interval (2 ^ 52) (t + 1)).closed = true := by
    rfl
  have hhalf : q / 2 ^ (t + 1) = q / 2 ^ t / 2 := by
    rw [zpow_add_one₀ two_ne_zero, div_div]
  rw [Interval.mem_iff, div_two_zpow_interval_exponent, lower_interval (by decide), upper_interval,
    if_pos hclosed, if_pos ⟨rfl, by omega⟩, hhalf]
  push_cast at hlow hupp ⊢
  constructor <;> linarith

theorem div_le_half_iff : q / 2 ^ (-1074 : ℤ) ≤ 1 / 2 ↔ q ≤ 2 ^ (-1075 : ℤ) := by
  have hhalf : (2 : ℚ) ^ (-1075 : ℤ) = 1 / 2 * 2 ^ (-1074 : ℤ) := by
    rw [show (-1075 : ℤ) = -1074 - 1 by rfl, zpow_sub_one₀ two_ne_zero, mul_comm, one_div]
  rw [hhalf, div_le_iff₀ (by positivity)]

theorem one_lt_overflowBound : 1 < overflowBound := by
  have hone : (1 : ℚ) ≤ 2 ^ (971 : ℤ) := one_le_zpow₀ one_le_two (by decide)
  exact one_lt_mul_of_lt_of_le (by norm_num) hone

theorem overflowBound_le (hr : (2 : ℚ) ^ 53 - 1 / 2 ≤ q / 2 ^ t) (ht : 971 ≤ t) :
    overflowBound ≤ q := by
  have hu : (2 : ℚ) ^ (971 : ℤ) ≤ 2 ^ t := zpow_le_zpow_right₀ one_le_two ht
  rw [le_div_iff₀ (by positivity)] at hr
  exact (mul_le_mul_of_nonneg_left hu (by norm_num)).trans hr

theorem le_of_overflowBound_le (hq : overflowBound ≤ q) (hupper : q < 2 ^ (t + 53)) : 971 ≤ t := by
  by_contra! hlt
  have hmono : 2 * (2 : ℚ) ^ t ≤ 2 ^ (971 : ℤ) := by
    rw [mul_comm, ← zpow_add_one₀ two_ne_zero]
    exact zpow_le_zpow_right₀ one_le_two hlt
  have hu : (0 : ℚ) < 2 ^ (971 : ℤ) := by positivity
  have hsplit := zpow_add_natCast t 53
  push_cast at hsplit
  rw [hsplit] at hupper
  rw [overflowBound] at hq
  generalize (2 : ℚ) ^ (971 : ℤ) = greatest at hq hmono hu
  linarith

theorem Interval.Mem.lt_overflowBound (h : (interval m e).Mem q) (hm : Canonical m e) :
    q < overflowBound := by
  obtain ⟨-, hupper, htie⟩ := h.near hm.pos
  by_contra! hq
  have hu : (2 : ℚ) ^ e ≤ 2 ^ (971 : ℤ) := zpow_le_zpow_right₀ one_le_two hm.le_max
  have hge : (2 : ℚ) ^ 53 - 1 / 2 ≤ q / 2 ^ e := by
    rw [le_div_iff₀ (by positivity)]
    exact (mul_le_mul_of_nonneg_left hu (by norm_num)).trans hq
  have hrounded : IsRounded (q / 2 ^ e) m := ⟨(h.near hm.pos).1, hupper, htie⟩
  exact hm.lt.not_ge (hrounded.two_pow_le hge)

/-- A number is too small for a double, or it lies in the interval around one, or it is too large.
-/
theorem mem_interval_or (hq : 0 < q) : q ≤ 2 ^ (-1075 : ℤ) ∨
    (∃ m e, Canonical m e ∧ (interval m e).Mem q) ∨ overflowBound ≤ q := by
  obtain ⟨t, ht, hlower, hupper⟩ := exists_place hq
  obtain ⟨m, hm⟩ := exists_isRounded (div_nonneg hq.le (by positivity : (0 : ℚ) ≤ 2 ^ t))
  have hle := hm.le (div_le_two_pow hupper)
  have hnormal : t = -1074 ∨ 2 ^ 52 ≤ m := hlower.imp_right fun h => hm.ge (two_pow_le_div h)
  -- The number is rounded to a mantissa: zero, `2 ^ 53` or one that fits.
  rcases Nat.eq_zero_or_pos m with rfl | hpos
  · left
    obtain rfl : t = -1074 := hnormal.resolve_right (by omega)
    have hhalf := hm.upper
    rwa [Nat.cast_zero, zero_add, div_le_half_iff] at hhalf
  rcases hle.eq_or_lt with rfl | hlt
  · right
    by_cases hmax : t + 1 ≤ 971
    · left
      exact ⟨2 ^ 52, t + 1, ⟨by decide, by decide, by omega, hmax, .inl le_rfl⟩,
        mem_interval_of_carry hm ht hupper⟩
    · right
      exact overflowBound_le (by exact_mod_cast hm.lower) (by omega)
  · right
    by_cases hmax : t ≤ 971
    · left
      exact ⟨m, t, ⟨hpos, hlt, ht, hmax, hnormal.symm⟩, hm.mem_interval hpos hlower⟩
    · right
      have hge := two_pow_le_div (hlower.resolve_left (by omega))
      have hdouble : q / 2 ^ (t - 1) = 2 * (q / 2 ^ t) := by
        rw [zpow_sub_one₀ two_ne_zero]
        field_simp
      refine overflowBound_le (t := t - 1) ?_ (by omega)
      rw [hdouble]
      push_cast at hge
      linarith

section
variable {c : ℕ} {k : ℤ} {acc : Accuracy}
  (hstands : StandsFor (.ofMantissaAndAccuracy c acc) (q / 2 ^ k))
  (hk : k ≤ Format.binary64.targetExponent (totalExponent c k))
include hstands hk

theorem roundWithAccuracy_eq_zero (sign : Sign) (hpos : 0 < q) (hq : q ≤ 2 ^ (-1075 : ℤ)) :
    roundWithAccuracy .binary64 sign c k acc = .zero sign := by
  have hupper : q < 2 ^ (-1074 + 53 : ℤ) :=
    hq.trans_lt (zpow_lt_zpow_right₀ one_lt_two (by norm_num))
  obtain ⟨em, hfirst, hem⟩ := exists_first_shift hstands hk le_rfl (.inl rfl) hupper
  have hrounded : em.roundedMantissa = 0 := by
    apply hem.roundedMantissa_eq
    · have hnonneg : 0 ≤ q / 2 ^ (-1074 : ℤ) := div_nonneg hpos.le (by positivity)
      exact le_trans (by norm_num) hnonneg
    · rwa [Nat.cast_zero, zero_add, div_le_half_iff]
    · exact fun _ => rfl
  have hsecond : shiftToTargetExponent .binary64 0 (-1074) .exact = (⟨0, false, false⟩, -1074) := by
    rfl
  simp only [roundWithAccuracy, hfirst, hrounded, hsecond, dif_pos]

theorem ofUnpacked_roundWithAccuracy_of_large (sign : Sign) (hq : overflowBound ≤ q) :
    ofUnpacked (roundWithAccuracy .binary64 sign c k acc) = ofUnpacked (.infinity sign) := by
  have hpos : 0 < q := one_pos.trans (one_lt_overflowBound.trans_le hq)
  obtain ⟨t, ht, hlower, hupper⟩ := exists_place hpos
  have hlarge : 971 ≤ t := le_of_overflowBound_le hq hupper
  obtain ⟨em, hfirst, hem⟩ := exists_first_shift hstands hk ht hlower hupper
  obtain ⟨m, hm⟩ := exists_isRounded (div_nonneg hpos.le (by positivity : (0 : ℚ) ≤ 2 ^ t))
  have hle := hm.le (div_le_two_pow hupper)
  have hge := hm.ge (two_pow_le_div (hlower.resolve_left (by omega)))
  have hrounded := hem.roundedMantissa_eq hm.lower hm.upper hm.tie
  rcases hle.eq_or_lt with rfl | hlt
  · have hsecond := shiftToTargetExponent_two_pow ht
    rw [← hrounded] at hsecond
    rw [roundWithAccuracy_of_shifts hfirst hsecond (by decide)]
    exact ofUnpacked_of_large sign (by decide) (by omega)
  -- With the exponent of the greatest double the mantissa would be rounded up.
  · have hbeyond : t ≠ 971 := by
      rintro rfl
      rw [overflowBound, ← le_div_iff₀ (by positivity)] at hq
      exact hlt.not_ge (hm.two_pow_le hq)
    have hsecond := shiftToTargetExponent_of_fits (by omega) hlt ht (.inl hge)
    rw [← hrounded] at hsecond
    rw [roundWithAccuracy_of_shifts hfirst hsecond (by omega)]
    exact ofUnpacked_of_large sign (by omega) (by omega)

/-- The rounding of the model is rounding to the nearest double. -/
theorem roundsTo_of_pos (hpos : 0 < q) :
    RoundsTo q (ofUnpacked (roundWithAccuracy .binary64 .positive c k acc)) := by
  rcases mem_interval_or hpos with hlow | ⟨m, e, hm, hq⟩ | hbound
  · rw [roundWithAccuracy_eq_zero hstands hk .positive hpos hlow]
    have hparts : IsParts (.zero .positive) := trivial
    have hunpack := unpack_ofUnpacked hparts
    -- Zero is the nearest, since all other doubles are at least twice as large as the number can
    -- be.
    have hhalf : (2 : ℚ) ^ (-1075 : ℤ) + 2 ^ (-1075 : ℤ) = 2 ^ (-1074 : ℤ) := by
      rw [← two_mul, mul_comm, ← zpow_add_one₀ two_ne_zero]
      rfl
    refine .nearest 0 ?_ (by rw [value?, hunpack]) (fun y w hy => ?_)
      fun _ _ _ _ _ => even_toBits_zero hunpack
    · rw [abs_of_pos hpos]
      have hle : (2 : ℚ) ^ (-1075 : ℤ) ≤ 1 := zpow_le_one_of_nonpos₀ one_le_two (by decide)
      exact (hlow.trans hle).trans_lt one_lt_overflowBound
    · rw [sub_zero, abs_of_pos hpos]
      rcases eq_zero_or_le_abs hy with rfl | hle
      · rw [sub_zero]
        exact le_abs_self q
      · have htriangle := abs_sub_abs_le_abs_sub w q
        rw [abs_of_pos hpos, abs_sub_comm] at htriangle
        linarith
  · rw [roundWithAccuracy_eq_finite .positive hm hq hstands hk]
    have hparts : IsParts (.finite .positive m e hm.pos) := hm
    have hunpack := unpack_ofUnpacked hparts
    refine .nearest (m * 2 ^ e) ?_ (by rw [value?, hunpack]; rfl) (fun y w hy => ?_)
      fun y w hy hne htie => ?_
    · rw [abs_of_pos hpos]
      exact hq.lt_overflowBound hm
    · exact ((hm.apart_value hy).nearest hm hq).1
    · exact (even_toBits_iff hunpack).2 (((hm.apart_value hy).nearest hm hq).2 hne htie)
  · rw [ofUnpacked_roundWithAccuracy_of_large hstands hk .positive hbound]
    exact .overflow (hbound.trans (le_abs_self q)) (by decide)

end

theorem RoundsTo.neg {x : Float} (h : RoundsTo q x) : RoundsTo (-q) (-x) := by
  have hdist (v : ℚ) : |-q - v| = |q - -v| := by
    rw [← abs_neg, neg_sub', neg_neg]
  cases h with
  | nearest v hbound hvalue hnear htie =>
    have hback (y : Float) (w : ℚ) (hy : value? y = some w) : value? (-y) = some (-w) := by
      rw [value?_neg, hy]
      rfl
    refine .nearest (-v) (by rwa [abs_neg]) (hback x v hvalue) (fun y w hy => ?_)
      fun y w hy hne heq => ?_
    · rw [hdist, hdist, neg_neg]
      exact hnear _ _ (hback y w hy)
    · rw [hdist, hdist, neg_neg] at heq
      rw [even_toBits_neg hvalue]
      exact htie _ _ (hback y w hy) (fun h => hne (neg_eq_iff_eq_neg.1 h)) heq
  | overflow hbound hx =>
    refine .overflow (by rwa [abs_neg]) ?_
    rw [isInf_eq, unpack_neg]
    rw [isInf_eq] at hx
    cases hparts : x.toModel.unpack with
    | infinity => rfl
    | notANumber | zero | finite => simp [hparts] at hx

theorem RoundsTo.isNaN_eq_false {x : Float} (h : RoundsTo q x) : x.isNaN = false := by
  rw [isNaN_eq]
  cases h with
  | nearest v _ hvalue =>
    cases hparts : x.toModel.unpack with
    | notANumber => simp [value?, hparts] at hvalue
    | infinity | zero | finite => rfl
  | overflow _ hx =>
    rw [isInf_eq] at hx
    cases hparts : x.toModel.unpack with
    | notANumber => simp [hparts] at hx
    | infinity | zero | finite => rfl

theorem roundWithAccuracy_cases (s : Sign) (c : ℕ) (k : ℤ) (acc : Accuracy) :
    roundWithAccuracy .binary64 s c k acc = .zero s ∨
      ∃ m e hm, roundWithAccuracy .binary64 s c k acc = .finite s m e hm := by
  simp only [roundWithAccuracy]
  split_ifs with hzero
  · exact .inl rfl
  · exact .inr ⟨_, _, Nat.pos_of_ne_zero hzero, rfl⟩

theorem neg_roundWithAccuracy (s : Sign) (c : ℕ) (k : ℤ) (acc : Accuracy) :
    (roundWithAccuracy .binary64 s c k acc).neg = roundWithAccuracy .binary64 (-s) c k acc := by
  simp only [roundWithAccuracy]
  split_ifs <;> rfl

/-- The sign of what is rounded stays, also when it becomes infinite or a zero. -/
theorem signBit_roundWithAccuracy (s : Sign) (c : ℕ) (k : ℤ) (acc : Accuracy) :
    signBit (ofUnpacked (roundWithAccuracy .binary64 s c k acc)) = bitOf s := by
  rcases roundWithAccuracy_cases s c k acc with hround | ⟨m, e, hm, hround⟩
  · rw [hround]
    cases s <;> rfl
  · rw [hround]
    exact msb_pack_finite s hm e

theorem roundsTo_roundWithAccuracy (s : Sign) {c : ℕ} {k : ℤ} {acc : Accuracy} (hpos : 0 < q)
    (hstands : StandsFor (.ofMantissaAndAccuracy c acc) (q / 2 ^ k))
    (hk : k ≤ Format.binary64.targetExponent (totalExponent c k)) :
    RoundsTo (s.apply 1 * q) (ofUnpacked (roundWithAccuracy .binary64 s c k acc)) := by
  have hpositive := roundsTo_of_pos hstands hk hpos
  cases s with
  | positive => simpa [Sign.apply] using hpositive
  | negative =>
    have hnegative := hpositive.neg
    rw [neg_ofUnpacked, neg_roundWithAccuracy, show -Sign.positive = .negative by rfl]
      at hnegative
    simpa [Sign.apply] using hnegative

end

end SlotCalc.Decimal
