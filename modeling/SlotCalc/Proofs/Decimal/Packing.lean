import Mathlib
import SlotCalc.Decimal.Numeral

namespace SlotCalc.Decimal

open Float.Model UnpackedFloat

/-- The mantissas and exponents of the finite doubles other than the zeros. -/
structure Canonical (mantissa : ℕ) (exponent : ℤ) : Prop where
  pos : 0 < mantissa
  lt : mantissa < 2 ^ 53
  min_le : -1074 ≤ exponent
  le_max : exponent ≤ 971
  normal : 2 ^ 52 ≤ mantissa ∨ exponent = -1074

section
variable (b : BitVec Format.binary64.numBits)

theorem packComponents_fields :
    packComponents Format.binary64 (Sign.ofBitVec (unpackSign b)) (unpackExponent b)
      (unpackMantissa b) = b := by
  have hsign : (Sign.ofBitVec (unpackSign b)).toBitVec = unpackSign b := by
    generalize unpackSign b = s
    revert s
    decide
  rw [packComponents, hsign]
  ext i hi
  have hi' : i < 64 := hi
  simp only [BitVec.getElem_append, unpackSign, unpackExponent, unpackMantissa]
  simp only [← BitVec.getLsbD_eq_getElem, BitVec.getLsbD_cast, BitVec.getLsbD_extractLsb]
  split_ifs with hmantissa hexponent <;> grind

theorem toNat_implicit (mantissa : BitVec 52) :
    (1#1 ++ mantissa).toNat = 2 ^ 52 + mantissa.toNat := by
  have hdisjoint := Nat.two_pow_add_eq_or_of_lt mantissa.isLt 1
  rw [BitVec.toNat_append, Nat.shiftLeft_eq]
  simpa using hdisjoint.symm

/-- The fields of a double that is neither infinite nor no number are parts in canonical form. -/
theorem canonical_of_unpack {sign : Sign} {mantissa : ℕ} {exponent : ℤ} {hpos : 0 < mantissa}
    (h : unpack Format.binary64 b = .finite sign mantissa exponent hpos) :
    Canonical mantissa exponent := by
  have hm : (unpackMantissa b).toNat < 2 ^ 52 := (unpackMantissa b).isLt
  have he : (unpackExponent b).toNat < 2 ^ 11 := (unpackExponent b).isLt
  simp only [UnpackedFloat.unpack] at h
  split at h
  · split at h <;> cases h
  · rename_i hmax
    have hmax' : (unpackExponent b).toNat ≠ 2047 := fun e => hmax (BitVec.eq_of_toNat_eq e)
    split at h
    · rename_i hzero
      split at h
      · cases h
      · cases h
        refine ⟨hpos, by omega, ?_, ?_, .inr ?_⟩ <;> simp [hzero, Format.exponentBias]
    · rename_i hzero
      have hzero' : (unpackExponent b).toNat ≠ 0 := fun e => hzero (BitVec.eq_of_toNat_eq e)
      cases h
      rw [toNat_implicit] at hpos ⊢
      refine ⟨hpos, by omega, ?_, ?_, .inl (by omega)⟩ <;> simp [Format.exponentBias] <;> omega

theorem pack_normal (sign : Sign) {mantissa : ℕ} {exponent : ℤ} (hpos : 0 < mantissa)
    (h : Canonical mantissa exponent) (hnormal : 2 ^ 52 ≤ mantissa) :
    UnpackedFloat.pack Format.binary64 (.finite sign mantissa exponent hpos) =
      packComponents Format.binary64 sign (BitVec.ofNat 11 (exponent + 1075).toNat)
        (BitVec.ofNat 52 mantissa) := by
  have hmin := h.min_le
  have hmax := h.le_max
  have hlog : mantissa.log2 = 52 := (Nat.log2_eq_iff h.pos.ne').2 ⟨hnormal, h.lt⟩
  have hbias :
      exponent + (Format.exponentBias Format.binary64 : ℕ) + (52 : ℕ) = exponent + 1075 := by
    simp [Format.exponentBias]
    omega
  have hfits : ¬ 2 ^ 11 ≤ (exponent + 1075).toNat + 1 := by omega
  simp only [UnpackedFloat.pack, hbias, if_neg hfits, hlog]
  rfl

theorem pack_subnormal (sign : Sign) {mantissa : ℕ} (hpos : 0 < mantissa)
    (hsub : mantissa < 2 ^ 52) :
    UnpackedFloat.pack Format.binary64 (.finite sign mantissa (-1074) hpos) =
      packComponents Format.binary64 sign 0 (BitVec.ofNat 52 mantissa) := by
  have hlog : mantissa.log2 < 52 := (Nat.log2_lt hpos.ne').2 hsub
  have hbits : ¬ mantissa.log2 + 1 = Format.mantissaBits Format.binary64 := by
    simp only [Format.mantissaBits]
    omega
  simp only [UnpackedFloat.pack, if_neg hbits]
  rfl

/-- Packing undoes unpacking, since there is but one double that is not a number. -/
theorem pack_unpack (h : Format.binary64.Valid b) :
    UnpackedFloat.pack Format.binary64 (UnpackedFloat.unpack Format.binary64 b) = b := by
  have hfields := packComponents_fields b
  have hm : (unpackMantissa b).toNat < 2 ^ 52 := (unpackMantissa b).isLt
  have he : (unpackExponent b).toNat < 2 ^ 11 := (unpackExponent b).isLt
  simp only [UnpackedFloat.unpack]
  split
  · rename_i hmax
    -- An infinity or, in the one way in which a valid double can be it, no number.
    split
    · rename_i hzero
      rw [hmax, hzero] at hfields
      exact hfields
    · rename_i hnan
      exact (h.eq_packedNaN hmax hnan).symm
  · rename_i hmax
    have hmax' : (unpackExponent b).toNat ≠ 2047 := fun e => hmax (BitVec.eq_of_toNat_eq e)
    split
    · rename_i hzero
      rw [hzero] at hfields
      split
      · rename_i hmantissa
        rw [hmantissa] at hfields
        exact hfields
      · rename_i hmantissa
        have hexponent : ((unpackExponent b).toNat : ℤ) -
            (Format.exponentBias Format.binary64 + (52 : ℕ)) + 1 = -1074 := by
          simp [hzero, Format.exponentBias]
        simp only [hexponent]
        rw [pack_subnormal _ _ hm, BitVec.ofNat_toNat]
        simpa using hfields
    · rename_i hzero
      have hzero' : (unpackExponent b).toNat ≠ 0 := fun e => hzero (BitVec.eq_of_toNat_eq e)
      have hexponent : ((unpackExponent b).toNat : ℤ) -
          (Format.exponentBias Format.binary64 + (52 : ℕ)) = (unpackExponent b).toNat - 1075 := by
        simp [Format.exponentBias]
      have hcanonical : Canonical (1#1 ++ unpackMantissa b).toNat
          ((unpackExponent b).toNat - 1075) := by
        rw [toNat_implicit]
        exact ⟨by omega, by omega, by omega, by omega, .inl (by omega)⟩
      have hmantissa : BitVec.ofNat 52 (1#1 ++ unpackMantissa b).toNat = unpackMantissa b := by
        apply BitVec.eq_of_toNat_eq
        rw [toNat_implicit, BitVec.toNat_ofNat]
        omega
      simp only [hexponent]
      rw [pack_normal _ _ hcanonical (by rw [toNat_implicit]; omega), hmantissa,
        show ((unpackExponent b).toNat - 1075 + 1075 : ℤ).toNat = (unpackExponent b).toNat by omega]
      simpa using hfields

end

theorem ofUnpacked_unpack (x : Float) : ofUnpacked x.toModel.unpack = x := by
  obtain ⟨⟨bits, hvalid⟩⟩ := x
  have hbits := pack_unpack bits.toBitVec hvalid
  simp only [ofUnpacked, Float.Model.pack, Float.Model.unpack, hbits]

end SlotCalc.Decimal
