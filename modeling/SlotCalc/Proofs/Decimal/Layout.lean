import Mathlib
import SlotCalc.Decimal.Layout
import SlotCalc.Proofs.Decimal.Digits

namespace SlotCalc.Decimal

open Numeral

/-- A text without blanks that begins with a digit and that is read as `q`, whatever sign stands
before it. -/
structure Denotes (text : List Char) (q : ℚ) : Prop where
  head : ∃ c rest, text = c :: rest ∧ c.isDigit = true
  unbroken : ∀ c ∈ text, Text.isBlank c = false
  reads : ∃ (c : ℕ) (k : ℤ), (∀ negative, decimal? negative text = some (.finite negative c k)) ∧
    c * 10 ^ k = q

section
variable {text rest : List Char}

theorem areDigits_zeros (n : ℕ) : AreDigits (zeros n) := by
  intro c hc
  obtain rfl := List.eq_of_mem_replicate hc
  decide

theorem valueOf_zeros_append (n : ℕ) (text : List Char) :
    valueOf (zeros n ++ text) = valueOf text := by
  simp [valueOf, zeros, Nat.ofDigitChars_append]

theorem valueOf_append_zeros (text : List Char) (n : ℕ) :
    valueOf (text ++ zeros n) = 10 ^ n * valueOf text := by
  simp [valueOf, zeros, Nat.ofDigitChars_append]

theorem areDigits_toDigits (n : ℕ) : AreDigits (Nat.toDigits 10 n) :=
  fun _ hc => Nat.isDigit_of_mem_toDigits (by decide) le_rfl hc

theorem valueOf_toDigits (n : ℕ) : valueOf (Nat.toDigits 10 n) = n :=
  Nat.ofDigitChars_ten_toDigits

theorem exponent?_exponentText (e : ℤ) : exponent? ('e' :: exponentText e) = some e := by
  have hdigits : AreDigits (zeros (2 - (Nat.toDigits 10 e.natAbs).length) ++
      Nat.toDigits 10 e.natAbs) := (areDigits_zeros _).append (areDigits_toDigits _)
  have hne : zeros (2 - (Nat.toDigits 10 e.natAbs).length) ++ Nat.toDigits 10 e.natAbs ≠ [] := by
    simp
  simp only [exponentText]
  split_ifs with hneg
  · rw [exponent?_minus hdigits hne, valueOf_zeros_append, valueOf_toDigits]
    congr 1
    omega
  · rw [exponent?_plus hdigits hne, valueOf_zeros_append, valueOf_toDigits]
    congr 1
    omega

theorem unbroken_exponentText (e : ℤ) : ∀ c ∈ 'e' :: exponentText e, Text.isBlank c = false := by
  have hdigits := ((areDigits_zeros (2 - (Nat.toDigits 10 e.natAbs).length)).append
    (areDigits_toDigits e.natAbs)).unbroken
  have hsign : Text.isBlank (if e < 0 then '-' else '+') = false := by
    split_ifs <;> decide
  exact List.forall_mem_cons.2 ⟨by decide, List.forall_mem_cons.2 ⟨hsign, hdigits⟩⟩

end

section
variable {whole part tail : List Char} {e : ℤ}

theorem denotes_whole (hwhole : AreDigits whole) (hne : whole ≠ [])
    (htail : exponent? tail = some e) (hunbroken : ∀ c ∈ tail, Text.isBlank c = false) :
    Denotes (whole ++ tail) (valueOf whole * 10 ^ e) where
  head := hwhole.exists_head hne tail
  unbroken := List.forall_mem_append.2 ⟨hwhole.unbroken, hunbroken⟩
  reads := ⟨valueOf whole, e, fun negative => decimal?_whole negative hwhole hne htail, rfl⟩

theorem denotes_point (hwhole : AreDigits whole) (hne : whole ≠ []) (hpart : AreDigits part)
    (htail : exponent? tail = some e) (hunbroken : ∀ c ∈ tail, Text.isBlank c = false) :
    Denotes (whole ++ '.' :: (part ++ tail))
      (valueOf (whole ++ part) * 10 ^ (e - part.length)) where
  head := hwhole.exists_head hne _
  unbroken := List.forall_mem_append.2 ⟨hwhole.unbroken, List.forall_mem_cons.2
    ⟨by decide, List.forall_mem_append.2 ⟨hpart.unbroken, hunbroken⟩⟩⟩
  reads := ⟨valueOf (whole ++ part), e - part.length,
    fun negative => decimal?_point negative hwhole hne hpart htail, rfl⟩

theorem denotes_fraction (hwhole : AreDigits whole) (hne : whole ≠ []) (hpart : AreDigits part) :
    Denotes (whole ++ '.' :: part) (valueOf (whole ++ part) * 10 ^ (-part.length : ℤ)) := by
  have h := denotes_point hwhole hne hpart (show exponent? [] = some 0 from rfl) (by simp)
  rwa [List.append_nil, zero_sub] at h

theorem denotes_toDigits (n : ℕ) : Denotes (Nat.toDigits 10 n) n := by
  have h := denotes_whole (areDigits_toDigits n) Nat.toDigits_ne_nil
    (show exponent? [] = some 0 from rfl) (by simp)
  rwa [List.append_nil, valueOf_toDigits, zpow_zero, mul_one] at h

end

/-- The number that the digits are laid out for. -/
def Digits.value (d : Digits) : ℚ := valueOf d.digits * 10 ^ (d.point - d.digits.length)

section
variable {d : Digits}

theorem Digits.positional_denotes (hd : AreDigits d.digits) (hne : d.digits ≠ []) :
    Denotes d.positional d.value := by
  have hzero : AreDigits ['0'] := areDigits_zeros 1
  simp only [Digits.positional, Digits.value]
  split_ifs with hsmall hbetween
  -- All digits are after the point, perhaps with zeros before them.
  · have h := denotes_fraction hzero (by simp) ((areDigits_zeros (-d.point).toNat).append hd)
    have hexponent : d.point - (d.digits.length : ℤ) =
        -((zeros (-d.point).toNat ++ d.digits).length : ℤ) := by
      simp only [List.length_append, zeros, List.length_replicate]
      omega
    rw [show ['0'] = zeros 1 by rfl, valueOf_zeros_append, valueOf_zeros_append] at h
    rw [hexponent]
    exact h
  -- The point is between two digits.
  · have hwhole : AreDigits (d.digits.take d.point.toNat) := by
      intro c hc
      exact hd c (List.mem_of_mem_take hc)
    have hpart : AreDigits (d.digits.drop d.point.toNat) := by
      intro c hc
      exact hd c (List.mem_of_mem_drop hc)
    have h := denotes_fraction hwhole (by simp [hne]; omega) hpart
    have hexponent : d.point - (d.digits.length : ℤ) =
        -((d.digits.drop d.point.toNat).length : ℤ) := by
      rw [List.length_drop]
      omega
    rw [List.take_append_drop] at h
    rw [hexponent]
    exact h
  -- All digits are before the point, perhaps with zeros after them.
  · have h := denotes_fraction (hd.append (areDigits_zeros (d.point - d.digits.length).toNat))
      (by simp [hne]) hzero
    obtain ⟨n, hn⟩ := Int.eq_ofNat_of_zero_le (show 0 ≤ d.point - d.digits.length by omega)
    have hvalue : (valueOf d.digits : ℚ) * 10 ^ (n : ℤ) =
        (10 ^ 1 * (10 ^ n * valueOf d.digits) : ℕ) * 10 ^ (-(1 : ℕ) : ℤ) := by
      rw [zpow_natCast, zpow_neg, zpow_natCast]
      push_cast
      field_simp
    rw [show ['0'] = zeros 1 by rfl, valueOf_append_zeros, valueOf_append_zeros, hn] at h
    rw [hn, hvalue]
    exact h

theorem Digits.scientific_denotes (hd : AreDigits d.digits) (hne : d.digits ≠ []) :
    Denotes d.scientific d.value := by
  have htail := exponent?_exponentText (d.point - 1)
  have hunbroken := unbroken_exponentText (d.point - 1)
  simp only [Digits.scientific, Digits.value]
  match hdigits : d.digits with
  | [] => exact absurd hdigits hne
  | [first] =>
    rw [hdigits] at hd
    exact denotes_whole hd (by simp) htail hunbroken
  | first :: second :: rest =>
    rw [hdigits] at hd
    obtain ⟨hfirst, hrest⟩ := List.forall_mem_cons.1 hd
    have hwhole : AreDigits [first] := List.forall_mem_singleton.2 hfirst
    have hexponent : d.point - ((first :: second :: rest).length : ℤ) =
        d.point - 1 - (second :: rest).length := by
      simp only [List.length_cons]
      omega
    rw [hexponent]
    exact denotes_point hwhole (by simp) hrest htail hunbroken

theorem Digits.text_denotes (hd : AreDigits d.digits) (hne : d.digits ≠ []) :
    Denotes d.text d.value := by
  rw [Digits.text]
  split_ifs
  · exact positional_denotes hd hne
  · exact scientific_denotes hd hne

end

section
variable {c : ℕ} {k : ℤ}

theorem exists_zeros_of_strip (text : List Char) :
    ∃ n, text = (text.reverse.dropWhile (· = '0')).reverse ++ zeros n := by
  have hzeros : text.reverse.takeWhile (· = '0') =
      zeros (text.reverse.takeWhile (· = '0')).length := by
    apply List.eq_replicate_of_mem
    intro c hc
    simpa using List.mem_takeWhile_imp hc
  refine ⟨(text.reverse.takeWhile (· = '0')).length, ?_⟩
  have h := congrArg List.reverse (List.takeWhile_append_dropWhile (p := (· = '0'))
    (l := text.reverse))
  rw [List.reverse_append, List.reverse_reverse, hzeros, zeros, List.reverse_replicate] at h
  exact h.symm

/-- Zeros at the end are no part of the digits, but count for the place of the point. -/
theorem Digits.ofDecimal_spec (hc : 0 < c) :
    AreDigits (ofDecimal c k).digits ∧ (ofDecimal c k).digits ≠ [] ∧
      (ofDecimal c k).value = c * 10 ^ k := by
  obtain ⟨n, hn⟩ := exists_zeros_of_strip (Nat.toDigits 10 c)
  have hpoint : (ofDecimal c k).point = (Nat.toDigits 10 c).length + k := rfl
  have hdigits : Nat.toDigits 10 c = (ofDecimal c k).digits ++ zeros n := hn
  have hareDigits := areDigits_toDigits c
  have hvalue := valueOf_toDigits c
  rw [hdigits] at hareDigits hpoint
  rw [hdigits, valueOf_append_zeros] at hvalue
  refine ⟨?_, ?_, ?_⟩
  · intro a ha
    exact hareDigits a (List.mem_append_left _ ha)
  · intro hnil
    rw [hnil] at hvalue
    simp [valueOf] at hvalue
    omega
  · rw [Digits.value, hpoint]
    generalize (ofDecimal c k).digits = digits at hvalue
    have hexponent : ((digits ++ zeros n).length : ℤ) + k - digits.length = n + k := by
      simp only [List.length_append, zeros, List.length_replicate]
      omega
    have hc' : (c : ℚ) = 10 ^ n * valueOf digits := by exact_mod_cast hvalue.symm
    rw [hexponent, zpow_add₀ (by norm_num), zpow_natCast, hc']
    ring

/-- The shortest text of a double, without its sign, is a numeral for the shortest decimal. -/
theorem shortestText_denotes (hc : 0 < c) : Denotes (Digits.ofDecimal c k).text (c * 10 ^ k) := by
  obtain ⟨hdigits, hne, hvalue⟩ := Digits.ofDecimal_spec (k := k) hc
  rw [← hvalue]
  exact Digits.text_denotes hdigits hne

theorem integer?_eq_some_iff {m n : ℕ} {e : ℤ} :
    integer? m e = some n ↔ (n : ℚ) = m * 2 ^ e := by
  rcases le_total 0 e with he | he
  · obtain ⟨k, rfl⟩ := Int.eq_ofNat_of_zero_le he
    rw [zpow_natCast, eq_comm]
    have hinteger : integer? m k = some (m * 2 ^ k) := by
      simp [integer?, Nat.mod_one]
    rw [hinteger, Option.some_inj]
    norm_cast
  · obtain ⟨k, rfl⟩ := Int.exists_eq_neg_ofNat he
    have hd : (0 : ℚ) < 2 ^ k := by positivity
    rw [zpow_neg, zpow_natCast, ← div_eq_mul_inv, eq_div_iff hd.ne']
    have hinteger : integer? m (-k) = if m % 2 ^ k = 0 then some (m / 2 ^ k) else none := by
      simp [integer?]
    rw [hinteger]
    constructor
    · intro h
      split_ifs at h with hdvd
      cases h
      exact_mod_cast Nat.div_mul_cancel (Nat.dvd_of_mod_eq_zero hdvd)
    · intro h
      obtain rfl : n * 2 ^ k = m := by exact_mod_cast h
      rw [if_pos (Nat.mul_mod_left ..), Nat.mul_div_cancel _ (by positivity)]

end

end SlotCalc.Decimal
