import Mathlib
import SlotCalc.Proofs.Decimal.Nearest
import SlotCalc.Proofs.Decimal.Neighbours

namespace SlotCalc.Operator

open Float.Model UnpackedFloat
open SlotCalc.Decimal

/-- `x` is the quotient of `a` and `b` by IEEE 754. -/
structure IsQuotient (a b x : Float) : Prop where
  isNaN_iff : x.isNaN = true ↔ a.isNaN = true ∨ b.isNaN = true ∨
    (a == 0) = true ∧ (b == 0) = true ∨ a.isInf = true ∧ b.isInf = true
  sign : x.isNaN = false → signBit x = (signBit a ^^ signBit b)
  isInf : x.isNaN = false → (b == 0) = true ∨ a.isInf = true → x.isInf = true
  isZero : x.isNaN = false → (a == 0) = true ∨ b.isInf = true → (x == 0) = true
  rounded : ∀ p r, value? a = some p → value? b = some r → p ≠ 0 → r ≠ 0 → RoundsTo (p / r) x

section
variable (s s' : Sign)

theorem bitOf_div : bitOf (s / s') = (bitOf s ^^ bitOf s') := by
  cases s <;> cases s' <;> rfl

theorem neg_div_sign : -s / s' = -(s / s') := by
  cases s <;> cases s' <;> rfl

theorem div_neg_sign : s / -s' = -(s / s') := by
  cases s <;> cases s' <;> rfl

theorem apply_div_apply (m m' : ℕ) (e e' : ℤ) :
    (s.apply (m : ℤ) : ℚ) * 2 ^ e / ((s'.apply (m' : ℤ) : ℚ) * 2 ^ e') =
      (s / s').apply 1 * (m / m' * 2 ^ (e - e')) := by
  have hsize : (m : ℚ) * 2 ^ e / (m' * 2 ^ e') = m / m' * 2 ^ (e - e') := by
    rw [zpow_sub₀ two_ne_zero, mul_div_mul_comm]
  rw [← hsize]
  cases s <;> cases s' <;>
    simp only [Sign.apply, Int.cast_neg, Int.cast_natCast, neg_mul, neg_div, div_neg, neg_neg]
  case negative.negative => exact (one_mul _).symm
  case positive.positive => exact (one_mul _).symm
  all_goals exact (neg_one_mul _).symm

end

section
variable {a b : Float}

theorem div_eq (a b : Float) : a / b =
    ofUnpacked (UnpackedFloat.div .binary64 a.toModel.unpack b.toModel.unpack) :=
  rfl

theorem isQuotient_of_finite {s s' : Sign} {m m' : ℕ} {e e' : ℤ} {hm : 0 < m} {hm' : 0 < m'}
    (ha : a.toModel.unpack = .finite s m e hm) (hb : b.toModel.unpack = .finite s' m' e' hm') :
    IsQuotient a b (a / b) := by
  have hdiv := div_eq a b
  rw [ha, hb] at hdiv
  simp only [UnpackedFloat.div] at hdiv
  have hpos : (0 : ℚ) < m / m' * 2 ^ (e - e') := by
    positivity
  have hrounds := roundsTo_roundWithAccuracy (s / s') hpos (divCore_standsFor e e' m hm')
    (divCore_exponent_le e e' hm hm')
  rw [← hdiv] at hrounds
  have hnumber := hrounds.isNaN_eq_false
  constructor
  · simp only [hnumber, isNaN_eq, isInf_eq, beq_zero_eq, ha, hb]
    decide
  · intro _
    rw [hdiv, signBit_roundWithAccuracy, signBit_eq a, signBit_eq b, ha, hb, bitOf_div]
  · simp [isInf_eq a, beq_zero_eq b, ha, hb]
  · simp [isInf_eq b, beq_zero_eq a, ha, hb]
  · intro p r hp hr _ _
    rw [value?, ha, Option.some.injEq] at hp
    rw [value?, hb, Option.some.injEq] at hr
    rwa [← hp, ← hr, apply_div_apply]

theorem isQuotient_div (a b : Float) : IsQuotient a b (a / b) := by
  cases ha : a.toModel.unpack <;> cases hb : b.toModel.unpack
  case finite.finite => exact isQuotient_of_finite ha hb
  all_goals
    have hparts : IsParts (UnpackedFloat.div .binary64 a.toModel.unpack b.toModel.unpack) := by
      rw [ha, hb]
      trivial
    have hunpack := unpack_ofUnpacked hparts
    rw [← div_eq, ha, hb] at hunpack
    simp only [UnpackedFloat.div] at hunpack
    constructor <;>
      simp only [isNaN_eq, isInf_eq, beq_zero_eq, signBit_eq, bitOf_div, value?, ha, hb,
        hunpack] <;>
      simp

theorem withSignOf_mul (a b : Float) : withSignOf infinity a * withSignOf 1 b =
    ofUnpacked (.infinity (if signBit a = signBit b then .positive else .negative)) := by
  rw [withSignOf, withSignOf, isNegative_eq_signBit, isNegative_eq_signBit]
  cases signBit a <;> cases signBit b <;> decide +kernel

/-- No divisor is special to the division of the model. -/
theorem quotient_eq_div (a b : Float) : quotient a b = a / b := by
  rw [quotient]
  split_ifs with hzero hnumber
  · obtain ⟨s', hb⟩ := beq_zero_iff.1 hzero
    rw [beq_zero_eq, isNaN_eq] at hnumber
    rw [div_eq, hb]
    cases ha : a.toModel.unpack with
    | zero | notANumber => rfl
    | infinity | finite => simp [ha] at hnumber
  · obtain ⟨s', hb⟩ := beq_zero_iff.1 hzero
    rw [beq_zero_eq, isNaN_eq] at hnumber
    rw [withSignOf_mul, signBit_eq, signBit_eq, div_eq, hb]
    cases ha : a.toModel.unpack with
    | zero | notANumber => simp [ha] at hnumber
    | infinity s => cases s <;> cases s' <;> rfl
    | finite s m e hm => cases s <;> cases s' <;> rfl
  · rfl

theorem neg_div_parts (u v : UnpackedFloat) :
    UnpackedFloat.div .binary64 u.neg v = (UnpackedFloat.div .binary64 u v).neg := by
  cases u <;> cases v <;> simp only [UnpackedFloat.div, UnpackedFloat.neg, neg_div_sign]
  case finite.finite => exact (neg_roundWithAccuracy _ _ _ _).symm

theorem div_neg_parts (u v : UnpackedFloat) :
    UnpackedFloat.div .binary64 u v.neg = (UnpackedFloat.div .binary64 u v).neg := by
  cases u <;> cases v <;> simp only [UnpackedFloat.div, UnpackedFloat.neg, div_neg_sign]
  case finite.finite => exact (neg_roundWithAccuracy _ _ _ _).symm

/-- The quotient of a formula is the one of IEEE 754, and negating what is divided or what divides
negates it. -/
theorem isQuotient_quotient (a b : Float) : IsQuotient a b (quotient a b) ∧
    quotient (-a) b = -quotient a b ∧ quotient a (-b) = -quotient a b := by
  simp only [quotient_eq_div]
  refine ⟨isQuotient_div a b, ?_, ?_⟩
  · rw [div_eq, div_eq, unpack_neg, neg_div_parts, neg_ofUnpacked]
  · rw [div_eq, div_eq, unpack_neg, div_neg_parts, neg_ofUnpacked]

-- Half of the least positive double is as near to a zero, and twice the greatest one is too large.
example : quotient (.ofBits 1) (-2) = -0 ∧ quotient (.ofBits 0x7fefffffffffffff) 0.5 = infinity := by
  constructor <;> rfl

end

end SlotCalc.Operator
