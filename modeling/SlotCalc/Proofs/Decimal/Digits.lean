import Mathlib
import SlotCalc.Decimal.Numeral
import SlotCalc.Text

namespace SlotCalc.Numeral

open Text

/-- A text of the digits `0` to `9`. -/
def AreDigits (text : List Char) : Prop := ∀ c ∈ text, c.isDigit = true

/-- The number that such a text denotes. -/
def valueOf (text : List Char) : ℕ := Nat.ofDigitChars 10 text 0

def digitsOf (text : List Char) : List ℕ := text.map fun c => c.toNat - '0'.toNat

/-- Digits before the text end where it begins. -/
def EndsDigits (text : List Char) : Prop := ∀ c ∈ text.head?, digitValue? c = none ∧ c ≠ '_'

section
variable {c : Char} {text rest : List Char}

theorem exists_digitChar (h : c.isDigit = true) : ∃ d < 10, c = d.digitChar := by
  have hrange : 48 ≤ c.toNat ∧ c.toNat ≤ 57 := Char.isDigit_iff_toNat.1 h
  have hd : c.toNat - 48 < 10 := by omega
  refine ⟨c.toNat - 48, hd, ?_⟩
  apply Char.toNat_inj.1
  rw [Nat.toNat_digitChar_of_lt_ten hd]
  omega

theorem digitValue?_of_isDigit (h : c.isDigit = true) :
    digitValue? c = some (c.toNat - '0'.toNat) := by
  obtain ⟨d, hd, rfl⟩ := exists_digitChar h
  rw [digitValue?_digitChar hd, Nat.toNat_digitChar_of_lt_ten hd]
  simp

theorem not_isBlank_of_isDigit (h : c.isDigit = true) : isBlank c = false := by
  obtain ⟨d, hd, rfl⟩ := exists_digitChar h
  have all : ∀ d ∈ List.range 10, isBlank d.digitChar = false := by decide
  exact all d (List.mem_range.2 hd)

theorem AreDigits.append (h : AreDigits text) (h' : AreDigits rest) : AreDigits (text ++ rest) :=
  List.forall_mem_append.2 ⟨h, h'⟩

theorem AreDigits.unbroken (h : AreDigits text) : ∀ c ∈ text, isBlank c = false := by
  intro c hc
  exact not_isBlank_of_isDigit (h c hc)

theorem AreDigits.exists_head (h : AreDigits text) (hne : text ≠ []) (rest : List Char) :
    ∃ c more, text ++ rest = c :: more ∧ c.isDigit = true := by
  obtain ⟨c, more, rfl⟩ := List.exists_cons_of_ne_nil hne
  exact ⟨c, more ++ rest, rfl, h c (List.mem_cons_self ..)⟩

theorem digitsFrom_append (h : AreDigits text) (hrest : EndsDigits rest) (afterDigit : Bool) :
    digitsFrom afterDigit (text ++ rest) = (digitsOf text, rest) := by
  induction text generalizing afterDigit with
  | nil =>
    cases rest with
    | nil => rfl
    | cons c rest =>
      obtain ⟨hdigit, hunderscore⟩ := hrest c rfl
      simp [digitsFrom, digitsOf, hdigit, hunderscore]
  | cons c text ih =>
    obtain ⟨hc, htext⟩ := List.forall_mem_cons.1 h
    rw [List.cons_append, digitsFrom, digitValue?_of_isDigit hc]
    simp [ih htext, digitsOf]

theorem digitRun_append (h : AreDigits text) (hrest : EndsDigits rest) :
    digitRun (text ++ rest) = (digitsOf text, rest) :=
  digitsFrom_append h hrest false

theorem digitRun_eq (h : AreDigits text) : digitRun text = (digitsOf text, []) := by
  have hnil : EndsDigits [] := by simp [EndsDigits]
  simpa using digitRun_append h hnil

theorem digitsOf_append (text rest : List Char) :
    digitsOf (text ++ rest) = digitsOf text ++ digitsOf rest :=
  List.map_append

theorem ofDigits_digitsOf (text : List Char) : ofDigits (digitsOf text) = valueOf text := by
  rw [ofDigits, digitsOf, List.foldl_map, valueOf, Nat.ofDigitChars_eq_foldl]

theorem natural?_eq (h : AreDigits text) (hne : text ≠ []) :
    natural? text = some (valueOf text) := by
  obtain ⟨c, rest, rfl⟩ := List.exists_cons_of_ne_nil hne
  rw [natural?, digitRun_eq h, ← ofDigits_digitsOf]
  rfl

theorem exponent?_plus (h : AreDigits text) (hne : text ≠ []) :
    exponent? ('e' :: '+' :: text) = some (valueOf text : ℤ) := by
  simp [exponent?, natural?_eq h hne]

theorem exponent?_minus (h : AreDigits text) (hne : text ≠ []) :
    exponent? ('e' :: '-' :: text) = some (-valueOf text : ℤ) := by
  simp [exponent?, natural?_eq h hne]

end

section
variable {whole part tail : List Char} {e : ℤ}

theorem endsDigits_of_exponent? (h : exponent? tail = some e) : EndsDigits tail := by
  intro c hc
  obtain ⟨rest, rfl⟩ := List.head?_eq_some_iff.1 hc
  simp only [exponent?] at h
  split_ifs at h with hletter
  rcases hletter with rfl | rfl <;> decide

theorem fraction_of_exponent? (h : exponent? tail = some e) : fraction tail = ([], tail) := by
  rw [fraction.eq_def]
  split
  · simp [exponent?] at h
  · rfl

theorem decimal?_whole (negative : Bool) (hwhole : AreDigits whole) (hne : whole ≠ [])
    (htail : exponent? tail = some e) :
    decimal? negative (whole ++ tail) = some (.finite negative (valueOf whole) e) := by
  have hdigits : digitsOf whole ≠ [] := by simpa [digitsOf] using hne
  simp only [decimal?, digitRun_append hwhole (endsDigits_of_exponent? htail),
    fraction_of_exponent? htail, htail]
  simp [hdigits, ofDigits_digitsOf]

theorem decimal?_point (negative : Bool) (hwhole : AreDigits whole) (hne : whole ≠ [])
    (hpart : AreDigits part) (htail : exponent? tail = some e) :
    decimal? negative (whole ++ '.' :: (part ++ tail)) =
      some (.finite negative (valueOf (whole ++ part)) (e - part.length)) := by
  have hdigits : digitsOf whole ≠ [] := by simpa [digitsOf] using hne
  have hpoint : EndsDigits ('.' :: (part ++ tail)) := by
    intro c hc
    cases hc
    decide
  simp only [decimal?, digitRun_append hwhole hpoint, fraction,
    digitRun_append hpart (endsDigits_of_exponent? htail), htail, ← digitsOf_append,
    ofDigits_digitsOf]
  simp [digitsOf, hne]

end

end SlotCalc.Numeral
