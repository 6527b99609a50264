import Mathlib
import SlotCalc.Operator
import SlotCalc.Proofs.Decimal.Packing

namespace SlotCalc.Decimal

open Float.Model UnpackedFloat

/-- The number that a double is. What is infinite or no number has none. -/
def value? (x : Float) : Option ℚ :=
  match x.toModel.unpack with
  | .zero _ => some 0
  | .finite sign mantissa exponent _ => some (sign.apply mantissa * 2 ^ exponent)
  | .infinity _ | .notANumber => none

def signBit (x : Float) : Bool := x.toBits.toBitVec.msb

/-- The parts of doubles. Only those of finite ones have a form to keep to. -/
def IsParts : UnpackedFloat → Prop
  | .finite _ mantissa exponent _ => Canonical mantissa exponent
  | .infinity _ | .zero _ | .notANumber => True

section
variable {s : Sign} {m : ℕ} {e : ℤ}

theorem unpack_normal (hm : 0 < m) (h : Canonical m e) (hnormal : 2 ^ 52 ≤ m) :
    UnpackedFloat.unpack Format.binary64 (packComponents Format.binary64 s
      (BitVec.ofNat 11 (e + 1075).toNat) (BitVec.ofNat 52 m)) = .finite s m e hm := by
  have hmin := h.min_le
  have hmax := h.le_max
  have hlt := h.lt
  have hexponent : (BitVec.ofNat 11 (e + 1075).toNat).toNat = (e + 1075).toNat := by
    rw [BitVec.toNat_ofNat]
    omega
  have hmantissa : (1#1 ++ BitVec.ofNat 52 m).toNat = m := by
    rw [toNat_implicit, BitVec.toNat_ofNat]
    omega
  have hlast : BitVec.ofNat 11 (e + 1075).toNat ≠ -1#11 := by
    intro heq
    have := congrArg BitVec.toNat heq
    rw [hexponent] at this
    simp at this
    omega
  have hfirst : BitVec.ofNat 11 (e + 1075).toNat ≠ 0#11 := by
    intro heq
    have := congrArg BitVec.toNat heq
    rw [hexponent] at this
    simp at this
    omega
  simp only [UnpackedFloat.unpack, unpackExponent_packComponents, unpackMantissa_packComponents,
    unpackSign_packComponents, Sign.ofBitVec_toBitVec, if_neg hlast, if_neg hfirst, hexponent,
    hmantissa]
  congr 1
  simp [Format.exponentBias]
  omega

theorem unpack_subnormal (hm : 0 < m) (h : m < 2 ^ 52) :
    UnpackedFloat.unpack Format.binary64 (packComponents Format.binary64 s 0
      (BitVec.ofNat 52 m)) = .finite s m (-1074) hm := by
  have hmantissa : (BitVec.ofNat 52 m).toNat = m := by
    rw [BitVec.toNat_ofNat]
    omega
  have hnonzero : BitVec.ofNat 52 m ≠ 0#52 := by
    intro heq
    have := congrArg BitVec.toNat heq
    rw [hmantissa] at this
    simp at this
    omega
  simp only [UnpackedFloat.unpack, unpackExponent_packComponents, unpackMantissa_packComponents,
    unpackSign_packComponents, Sign.ofBitVec_toBitVec, dif_neg hnonzero, hmantissa]
  rfl

theorem unpack_packedInfinity (s : Sign) :
    UnpackedFloat.unpack Format.binary64 (packedInfinity Format.binary64 s) = .infinity s := by
  simp [UnpackedFloat.unpack, packedInfinity]

theorem unpack_ofUnpacked {parts : UnpackedFloat} (h : IsParts parts) :
    (ofUnpacked parts).toModel.unpack = parts := by
  show UnpackedFloat.unpack Format.binary64 (UnpackedFloat.pack Format.binary64 parts) = parts
  match parts with
  | .notANumber => exact unpack_packedNaN
  | .infinity s => exact unpack_packedInfinity s
  | .zero s => exact unpack_packedZero
  | .finite s m e hm =>
    have h : Canonical m e := h
    by_cases hnormal : 2 ^ 52 ≤ m
    · rw [pack_normal s hm h hnormal, unpack_normal hm h hnormal]
    · obtain rfl := h.normal.resolve_left hnormal
      rw [pack_subnormal s hm (not_le.1 hnormal), unpack_subnormal hm (not_le.1 hnormal)]

theorem ofUnpacked_of_large (s : Sign) (hm : 0 < m) (he : 972 ≤ e) :
    ofUnpacked (.finite s m e hm) = ofUnpacked (.infinity s) := by
  have hlarge : 2 ^ 11 ≤ (e + 1023 + 52 : ℤ).toNat + 1 := by omega
  have hpack : UnpackedFloat.pack Format.binary64 (.finite s m e hm) =
      packedInfinity Format.binary64 s := if_pos hlarge
  simp only [ofUnpacked, Float.Model.pack, hpack]
  rfl

theorem neg_unpack_packComponents (s : Sign) (exponent : BitVec 11) (mantissa : BitVec 52) :
    (UnpackedFloat.unpack Format.binary64
      (packComponents Format.binary64 s exponent mantissa)).neg =
      UnpackedFloat.unpack Format.binary64
        (packComponents Format.binary64 (-s) exponent mantissa) := by
  simp only [UnpackedFloat.unpack, unpackExponent_packComponents, unpackMantissa_packComponents,
    unpackSign_packComponents, Sign.ofBitVec_toBitVec]
  split_ifs <;> rfl

/-- Only the sign of what is packed depends on the sign. -/
theorem exists_pack_finite (hm : 0 < m) : ∃ exponent mantissa, ∀ s,
    UnpackedFloat.pack Format.binary64 (.finite s m e hm) =
      packComponents Format.binary64 s exponent mantissa := by
  simp only [UnpackedFloat.pack]
  split_ifs
  · exact ⟨-1, 0, fun _ => rfl⟩
  · exact ⟨_, _, fun _ => rfl⟩
  · exact ⟨_, _, fun _ => rfl⟩

theorem neg_ofUnpacked (parts : UnpackedFloat) : -ofUnpacked parts = ofUnpacked parts.neg := by
  show ofUnpacked (UnpackedFloat.unpack Format.binary64 (UnpackedFloat.pack Format.binary64
    parts)).neg = ofUnpacked parts.neg
  cases parts with
  | notANumber => rw [show UnpackedFloat.pack Format.binary64 .notANumber = packedNaN _ by rfl,
      unpack_packedNaN]
  | infinity s => rw [show UnpackedFloat.pack Format.binary64 (.infinity s) = packedInfinity _ s
      by rfl, unpack_packedInfinity]
  | zero s => rw [show UnpackedFloat.pack Format.binary64 (.zero s) = packedZero _ s by rfl,
      unpack_packedZero]
  | finite s m e hm =>
    obtain ⟨exponent, mantissa, hpack⟩ := exists_pack_finite (e := e) hm
    have hvalid :
        Format.binary64.Valid (packComponents Format.binary64 (-s) exponent mantissa) := by
      rw [← hpack]
      exact valid_pack
    rw [hpack, neg_unpack_packComponents]
    simp only [ofUnpacked, Float.Model.pack, UnpackedFloat.neg, hpack, pack_unpack _ hvalid]

theorem isParts_unpack (x : Float) : IsParts x.toModel.unpack := by
  cases h : x.toModel.unpack with
  | infinity | notANumber | zero => trivial
  | finite s m e hm => exact canonical_of_unpack _ h

theorem IsParts.neg {parts : UnpackedFloat} (h : IsParts parts) : IsParts parts.neg := by
  cases parts with
  | infinity | notANumber | zero => trivial
  | finite => exact h

theorem unpack_neg (x : Float) : (-x).toModel.unpack = x.toModel.unpack.neg :=
  unpack_ofUnpacked (isParts_unpack x).neg

theorem value?_neg (x : Float) : value? (-x) = (value? x).map (-·) := by
  rw [value?, value?, unpack_neg]
  cases x.toModel.unpack with
  | infinity | notANumber => rfl
  | zero => exact congrArg some neg_zero.symm
  | finite s m e hm =>
    have hsign : ((-s).apply (m : ℤ) : ℚ) = -(s.apply (m : ℤ) : ℤ) := by
      cases s
      · exact_mod_cast (neg_neg (m : ℤ)).symm
      · exact Int.cast_neg _
    simp only [UnpackedFloat.neg, Option.map_some, hsign, neg_mul]

theorem isNaN_eq (x : Float) : x.isNaN = match x.toModel.unpack with
    | .notANumber => true
    | .zero _ | .finite .. | .infinity _ => false := by
  show x.toModel.unpack.isNaN = _
  cases x.toModel.unpack <;> rfl

theorem isInf_eq (x : Float) : x.isInf = match x.toModel.unpack with
    | .infinity _ => true
    | .zero _ | .finite .. | .notANumber => false := by
  show x.toModel.unpack.isInf = _
  cases x.toModel.unpack <;> rfl

theorem beq_zero_eq (x : Float) : (x == 0) = match x.toModel.unpack with
    | .zero _ => true
    | .infinity _ | .finite .. | .notANumber => false := by
  have hbeq : (x == 0) = x.toModel.unpack.beq (.zero .positive) :=
    congrArg x.toModel.unpack.beq unpack_packedZero
  rw [hbeq, Bool.eq_iff_iff, beq_iff_ne_notANumber_and_eq]
  cases x.toModel.unpack with
  | zero s => cases s <;> simp
  | infinity | notANumber | finite => simp

theorem beq_zero_iff {x : Float} : (x == 0) = true ↔ ∃ s, x.toModel.unpack = .zero s := by
  rw [beq_zero_eq]
  cases x.toModel.unpack <;> simp

def bitOf : Sign → Bool
  | .negative => true
  | .positive => false

theorem msb_packComponents (s : Sign) (exponent : BitVec 11) (mantissa : BitVec 52) :
    (packComponents Format.binary64 s exponent mantissa).msb = bitOf s := by
  rw [packComponents, BitVec.msb_append, BitVec.msb_append]
  cases s <;> rfl

theorem msb_pack_finite (s : Sign) (hm : 0 < m) (e : ℤ) :
    (UnpackedFloat.pack Format.binary64 (.finite s m e hm)).msb = bitOf s := by
  obtain ⟨exponent, mantissa, hpack⟩ := exists_pack_finite (e := e) hm
  rw [hpack, msb_packComponents]

theorem signBit_eq (x : Float) : signBit x = match x.toModel.unpack with
    | .infinity s | .zero s | .finite s .. => bitOf s
    | .notANumber => false := by
  have hbits : x.toBits.toBitVec = UnpackedFloat.pack Format.binary64 x.toModel.unpack :=
    (pack_unpack_of_valid x.toModel.valid).symm
  rw [signBit, hbits]
  cases x.toModel.unpack with
  | notANumber => rfl
  | infinity s | zero s => cases s <;> rfl
  | finite s m e hm => exact msb_pack_finite s hm e

theorem isNegative_eq_signBit (x : Float) : Operator.isNegative x = signBit x := by
  rw [signBit_eq, Operator.isNegative]
  cases x.toModel.unpack with
  | notANumber => rfl
  | infinity s | zero s => cases s <;> rfl
  | finite s m e hm => cases s <;> rfl

theorem even_unpackMantissa_iff (b : BitVec Format.binary64.numBits) :
    Even (unpackMantissa b).toNat ↔ Even b.toNat := by
  rw [unpackMantissa_def]
  simp [BitVec.extractLsb'_toNat, Nat.even_iff]

/-- The last bit of a double is the last one of its mantissa. -/
theorem even_toBits_iff {x : Float} {s : Sign} {m : ℕ} {e : ℤ} {hm : 0 < m}
    (h : x.toModel.unpack = .finite s m e hm) : Even x.toBits.toNat ↔ Even m := by
  have heven : Even x.toBits.toNat ↔ _ := (even_unpackMantissa_iff x.toBits.toBitVec).symm
  rw [heven]
  simp only [Float.Model.unpack, UnpackedFloat.unpack] at h
  split_ifs at h
  · cases h
    rfl
  · cases h
    have hpow : Even (2 ^ 52) := by decide
    rw [toNat_implicit, Nat.even_add, iff_true_left hpow]
    rfl

theorem even_toBits_zero {x : Float} {s : Sign} (h : x.toModel.unpack = .zero s) :
    Even x.toBits.toNat := by
  have hx := ofUnpacked_unpack x
  rw [h] at hx
  rw [← hx]
  cases s <;> decide

theorem even_toBits_neg {x : Float} {v : ℚ} (h : value? x = some v) :
    Even (-x).toBits.toNat ↔ Even x.toBits.toNat := by
  have hneg := unpack_neg x
  rw [value?] at h
  split at h
  · rename_i hx
    rw [hx] at hneg
    exact iff_of_true (even_toBits_zero hneg) (even_toBits_zero hx)
  · rename_i hx
    rw [hx] at hneg
    rw [even_toBits_iff hneg, even_toBits_iff hx]
  · cases h
  · cases h

end

end SlotCalc.Decimal
