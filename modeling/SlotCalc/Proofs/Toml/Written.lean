import Mathlib.Data.Nat.Digits.Defs
import Mathlib.Tactic.SplitIfs
import SlotCalc.Proofs.Decimal.Layout
import SlotCalc.Toml.Nested

namespace SlotCalc.Toml

def IsHexDigit (value : Nat) (c : Char) : Prop :=
  value < 16 ∧ (c = value.digitChar ∨ c = value.digitChar.toUpper)

/-- How a character is written in double quotes. -/
inductive Quotes (c : Char) : List Char → Prop
  | escaped (h : c = '"' ∨ c = '\\') : Quotes c ['\\', c]
  | control (high low : Nat) (x y : Char) (h : c.toNat ≤ 0x1f ∨ c.toNat = 0x7f)
    (hvalue : c.toNat = 16 * high + low) (hx : IsHexDigit high x) (hy : IsHexDigit low y) :
    Quotes c ['\\', 'u', '0', '0', x, y]
  | itself (hescaped : ¬ (c = '"' ∨ c = '\\')) (hcontrol : ¬ (c.toNat ≤ 0x1f ∨ c.toNat = 0x7f)) :
    Quotes c [c]

inductive QuotesAll : List Char → List Char → Prop
  | nil : QuotesAll [] []
  | cons {c : Char} {part chars text : List Char} (h : Quotes c part)
    (hmore : QuotesAll chars text) :
    QuotesAll (c :: chars) (part ++ text)

/-- How a plain value is written. -/
inductive Writes : Value → List Char → Prop
  | integer (n : Nat) : Writes (.integer n) (Nat.toDigits 10 n)
  | boolean (b : Bool) : Writes (.boolean b) (toString b).toList
  | text (s : String) (body : List Char) (h : QuotesAll s.toList body) :
    Writes (.text s) ('"' :: (body ++ ['"']))

/-- The text has come to the end of its line. -/
def AtEnd (rest : List Char) : Prop := ∀ c ∈ rest.head?, c = '\n'

section
variable {c : Char} {part chars text rest : List Char}

theorem isHexDigit_digitChar {value : Nat} (h : value < 16) : IsHexDigit value value.digitChar :=
  ⟨h, .inl rfl⟩

theorem exists_quotes (c : Char) : ∃ part, Quotes c part := by
  by_cases hescaped : c = '"' ∨ c = '\\'
  · exact ⟨_, .escaped hescaped⟩
  · by_cases hcontrol : c.toNat ≤ 0x1f ∨ c.toNat = 0x7f
    · exact ⟨_, .control (c.toNat / 16) (c.toNat % 16) _ _ hcontrol (by omega)
        (isHexDigit_digitChar (by omega)) (isHexDigit_digitChar (by omega))⟩
    · exact ⟨_, .itself hescaped hcontrol⟩

theorem exists_quotesAll (chars : List Char) : ∃ text, QuotesAll chars text := by
  induction chars with
  | nil => exact ⟨[], .nil⟩
  | cons c chars ih =>
    obtain ⟨part, hpart⟩ := exists_quotes c
    obtain ⟨text, htext⟩ := ih
    exact ⟨part ++ text, .cons hpart htext⟩

theorem hexValue?_of_isHexDigit {value : Nat} (h : IsHexDigit value c) :
    hexValue? c = some value := by
  have all : ∀ v ∈ List.range 16, hexValue? v.digitChar = some v ∧
      hexValue? v.digitChar.toUpper = some v := by decide
  obtain ⟨hlower, hupper⟩ := all value (List.mem_range.2 h.1)
  rcases h.2 with rfl | rfl
  · exact hlower
  · exact hupper

theorem basicString_escape {more : List Char} (h : escaped? rest = some (c, more)) :
    basicString ('\\' :: rest) = pushed c (basicString more) := by
  rw [basicString, if_neg (by decide), if_pos rfl]
  split
  · rename_i heq
    rw [h] at heq
    cases heq
    rfl
  · rename_i heq
    rw [h] at heq
    cases heq

theorem scalar?_of_isHexDigit {high low : Nat} {x y : Char} (hvalue : c.toNat = 16 * high + low)
    (hx : IsHexDigit high x) (hy : IsHexDigit low y) : scalar? ['0', '0', x, y] = some c := by
  have hzero : hexValue? '0' = some 0 := by decide
  have hvalid : c.toNat.isValidChar := c.valid
  simp [scalar?, hzero, hexValue?_of_isHexDigit hx, hexValue?_of_isHexDigit hy, ← hvalue, hvalid]

theorem isControl_eq_false (h : ¬ (c.toNat ≤ 0x1f ∨ c.toNat = 0x7f)) : isControl c = false := by
  obtain ⟨hlow, hdelete⟩ := not_or.1 h
  have hsmall : ¬ c.toNat < 0x20 := by omega
  have hne : c ≠ '\x7f' := by
    rintro rfl
    exact hdelete rfl
  simp [isControl, hsmall, hne]

theorem basicString_quotes (h : Quotes c part) (more : List Char) :
    basicString (part ++ more) = pushed c (basicString more) := by
  cases h with
  | escaped h =>
    apply basicString_escape
    rcases h with rfl | rfl <;> rfl
  | control high low x y h hvalue hx hy =>
    apply basicString_escape
    show (scalar? ['0', '0', x, y]).map (·, more) = _
    rw [scalar?_of_isHexDigit hvalue hx hy]
    rfl
  | itself hescaped hcontrol =>
    obtain ⟨hquote, hbackslash⟩ := not_or.1 hescaped
    rw [List.singleton_append, basicString, if_neg hquote, if_neg hbackslash,
      isControl_eq_false hcontrol]
    rfl

theorem basicString_quotesAll (h : QuotesAll chars text) (rest : List Char) :
    basicString (text ++ '"' :: rest) = some (chars, rest) := by
  induction h with
  | nil => rw [List.nil_append, basicString, if_pos rfl]
  | cons h _ ih => rw [List.append_assoc, basicString_quotes h, ih]; rfl

theorem QuotesAll.head_ne (h : QuotesAll chars text) (hne : text ≠ []) : text.head? ≠ some '"' := by
  cases h with
  | nil => exact absurd rfl hne
  | cons h _ =>
    cases h with
    | escaped h => simp
    | control => simp
    | itself hescaped hcontrol => simpa using (not_or.1 hescaped).1

/-- An empty string is not the beginning of one over several lines. -/
theorem isTripled_quotesAll (h : QuotesAll chars text) (hrest : AtEnd rest) :
    isTripled '"' ('"' :: (text ++ '"' :: rest)) = false := by
  rw [isTripled, decide_eq_false_iff_not]
  intro htripled
  cases htext : text with
  | nil =>
    rw [htext] at htripled
    cases rest with
    | nil => cases htripled
    | cons c more =>
      obtain rfl : c = '\n' := hrest c rfl
      simp at htripled
  | cons c more =>
    have hhead := h.head_ne (by simp [htext])
    rw [htext] at htripled hhead
    simp at htripled hhead
    exact hhead htripled.1

theorem string?_quotesAll (h : QuotesAll chars text) (hrest : AtEnd rest) :
    string? ('"' :: (text ++ '"' :: rest)) = some (chars, rest) := by
  rw [string?, isTripled_quotesAll h hrest]
  exact basicString_quotesAll h rest

end

section
open Numeral (AreDigits)

variable {c : Char} {digits rest more : List Char} {k n : Nat}

theorem atEnd_nil : AtEnd [] := by
  rintro c ⟨⟩

theorem atEnd_break (more : List Char) : AtEnd ('\n' :: more) := by
  rintro c ⟨⟩
  rfl

theorem AtEnd.not_isDigit (h : AtEnd rest) (hc : c ∈ rest.head?) : c.isDigit = false := by
  rw [h c hc]
  rfl

theorem after?_digits (hdigits : AreDigits digits) (hrest : AtEnd rest) {word : String} {w : Char}
    {ws : List Char} (hword : word.toList = w :: ws) (hw : w.isDigit = false) (hbreak : w ≠ '\n') :
    after? word (digits ++ rest) = none := by
  have hprefix : (w :: ws).isPrefixOf (digits ++ rest) = false := by
    rw [← Bool.not_eq_true, List.isPrefixOf_iff_prefix]
    intro hprefix
    cases digits with
    | nil =>
      obtain ⟨later, rfl⟩ := hprefix
      exact hbreak (hrest w rfl)
    | cons d digits =>
      obtain ⟨rfl, -⟩ := List.cons_prefix_cons.1 hprefix
      rw [hdigits w (List.mem_cons_self ..)] at hw
      cases hw
  rw [after?, hword, hprefix]
  rfl

theorem fixed?_digits (hdigits : AreDigits digits) (hrest : AtEnd rest)
    (h : fixed? k (digits ++ rest) = some (n, more)) :
    ∃ later, AreDigits later ∧ more = later ++ rest := by
  simp only [fixed?] at h
  split_ifs at h with hfixed
  obtain ⟨hlength, hall⟩ := hfixed
  have hle : k ≤ digits.length := by
    by_contra! hlt
    obtain ⟨j, rfl⟩ := Nat.exists_eq_add_of_lt hlt
    rw [Nat.add_assoc, List.take_length_add_append] at hlength hall
    cases rest with
    | nil => simp at hlength
    | cons c later =>
      have hc := List.all_eq_true.1 hall c (by simp)
      rw [hrest.not_isDigit rfl] at hc
      cases hc
  cases h
  refine ⟨digits.drop k, fun c hc => hdigits c (List.mem_of_mem_drop hc), ?_⟩
  rw [List.drop_append_of_le_length hle]

theorem moment?_digits (hdigits : AreDigits digits) (hrest : AtEnd rest) :
    moment? (digits ++ rest) = none := by
  have hdate : date? (digits ++ rest) = none := by
    cases hyear : fixed? 4 (digits ++ rest) with
    | none => simp [date?, hyear]
    | some r =>
      obtain ⟨later, hlater, hmore⟩ := fixed?_digits hdigits hrest hyear
      have hafter : after? "-" r.2 = none := by
        rw [hmore]
        exact after?_digits hlater hrest rfl rfl (by decide)
      simp [date?, hyear, hafter]
  have htime : time? (digits ++ rest) = none := by
    cases hhour : fixed? 2 (digits ++ rest) with
    | none => simp [time?, hourAndMinute?, below?, hhour]
    | some r =>
      obtain ⟨later, hlater, hmore⟩ := fixed?_digits hdigits hrest hhour
      have hafter : after? ":" r.2 = none := by
        rw [hmore]
        exact after?_digits hlater hrest rfl rfl (by decide)
      by_cases hlimit : r.1 < 24 <;> simp [time?, hourAndMinute?, below?, hhour, hlimit, hafter]
  rw [moment?, hdate, htime]
  rfl

theorem classFrom_digits (hdigits : AreDigits digits) (hrest : AtEnd rest)
    (inside : Bool) : classFrom Char.isDigit inside (digits ++ rest) = (digits, rest) := by
  induction digits generalizing inside with
  | nil =>
    cases rest with
    | nil => rfl
    | cons c more =>
      obtain rfl : c = '\n' := hrest c rfl
      simp [classFrom]
  | cons d digits ih =>
    obtain ⟨hd, hdigits⟩ := List.forall_mem_cons.1 hdigits
    rw [List.cons_append, classFrom, if_pos hd, ih hdigits]

theorem unsigned?_digits (hdigits : AreDigits digits) (hne : digits ≠ [])
    (hzero : digits.head? ≠ some '0') (hrest : AtEnd rest) :
    unsigned? false (digits ++ rest) = some (.integer (Nat.ofDigitChars 10 digits 0), rest) := by
  have hwhole : wholePart (digits ++ rest) = (digits, rest) := by
    obtain ⟨d, later, rfl⟩ := List.exists_cons_of_ne_nil hne
    unfold wholePart
    split
    · rename_i heq
      cases heq
      exact absurd rfl hzero
    · exact classFrom_digits hdigits hrest false
  have hdecimals : decimals rest = ([], rest) := by
    unfold decimals
    split
    · rename_i later
      cases hrest '.' rfl
    · rfl
  have hexponent : exponent? rest = none := by
    cases rest with
    | nil => rfl
    | cons c later =>
      obtain rfl : c = '\n' := hrest c rfl
      rfl
  obtain ⟨d, later, rfl⟩ := List.exists_cons_of_ne_nil hne
  simp only [unsigned?, hwhole, hdecimals, hexponent]
  rfl

theorem marked?_digits (hne : digits ≠ []) (hzero : digits.head? ≠ some '0') :
    marked? (digits ++ rest) = none := by
  obtain ⟨d, later, rfl⟩ := List.exists_cons_of_ne_nil hne
  unfold marked?
  split
  · rename_i heq
    obtain ⟨rfl, -⟩ := List.cons.inj heq
    exact absurd rfl hzero
  · rfl

theorem number?_digits (hdigits : AreDigits digits) (hne : digits ≠ [])
    (hzero : digits.head? ≠ some '0') (hrest : AtEnd rest) :
    number? (digits ++ rest) = some (.integer (Nat.ofDigitChars 10 digits 0), rest) := by
  have hunsigned := unsigned?_digits hdigits hne hzero hrest
  obtain ⟨d, later, rfl⟩ := List.exists_cons_of_ne_nil hne
  have hd : d.isDigit = true := hdigits d (List.mem_cons_self ..)
  unfold number?
  split
  · rename_i heq
    cases heq
    cases hd
  · rename_i heq
    cases heq
    cases hd
  · rw [marked?_digits (List.cons_ne_nil d later) hzero, signed?, hunsigned]
    rfl

/-- Where a number begins, no other value does. -/
theorem scalarValue?_digits (hdigits : AreDigits digits) (hne : digits ≠ [])
    (hzero : digits.head? ≠ some '0') (hrest : AtEnd rest) :
    scalarValue? (digits ++ rest) = some (.integer (Nat.ofDigitChars 10 digits 0), rest) := by
  have hmoment := moment?_digits hdigits hrest
  have hnumber := number?_digits hdigits hne hzero hrest
  have htrue : after? "true" (digits ++ rest) = none :=
    after?_digits hdigits hrest rfl rfl (by decide)
  have hfalse : after? "false" (digits ++ rest) = none :=
    after?_digits hdigits hrest rfl rfl (by decide)
  have hstring : string? (digits ++ rest) = none := by
    obtain ⟨d, later, rfl⟩ := List.exists_cons_of_ne_nil hne
    have hd : d.isDigit = true := hdigits d (List.mem_cons_self ..)
    unfold string?
    split
    · rename_i heq
      cases heq
      cases hd
    · rename_i heq
      cases heq
      cases hd
    · rfl
  simp only [scalarValue?, boolean?, hstring, htrue, hfalse, hmoment, hnumber]
  rfl

theorem head?_toDigits (h : n ≠ 0) : (Nat.toDigits 10 n).head? ≠ some '0' := by
  induction n using Nat.strongRecOn with
  | ind n ih =>
    rw [Nat.toDigits_eq_if (by decide)]
    split_ifs with hlt
    · intro heq
      have hzero : n.digitChar = '0' := Option.some.inj heq
      have hvalue := congrArg Char.toNat hzero
      rw [Nat.toNat_digitChar_of_lt_ten hlt] at hvalue
      exact h (Nat.add_left_cancel hvalue)
    · have hne : n / 10 ≠ 0 := by omega
      rw [List.head?_append_of_ne_nil _ Nat.toDigits_ne_nil]
      exact ih (n / 10) (by omega) hne

end

section
open Decimal (areDigits_toDigits)

variable {v : Value} {text rest : List Char} {n : Nat}

theorem integerLimit_eq : integerLimit = 10 ^ 4300 := by decide +kernel

/-- An integer is read if it does not have too many digits. -/
theorem scalarValue_toDigits (hpos : n ≠ 0) (hrest : AtEnd rest) :
    scalarValue (Nat.toDigits 10 n ++ rest) =
      if n < integerLimit then .ok (.integer n, rest) else .error (.broken .integerTooLong) := by
  have hvalue := scalarValue?_digits (areDigits_toDigits n) Nat.toDigits_ne_nil
    (head?_toDigits hpos) hrest
  rw [Nat.ofDigitChars_ten_toDigits] at hvalue
  have hmarked : marked? (Nat.toDigits 10 n ++ rest) = none :=
    marked?_digits Nat.toDigits_ne_nil (head?_toDigits hpos)
  simp only [scalarValue, hvalue, hmarked, Int.natAbs_natCast, Option.isSome_none,
    Bool.or_false, decide_eq_true_eq]

theorem scalarValue_writes (h : Writes v text) (hrest : AtEnd rest)
    (hinteger : ∀ n : Int, v = .integer n → 1 ≤ n ∧ n < 10 ^ 4300) :
    scalarValue (text ++ rest) = .ok (v, rest) := by
  cases h with
  | integer n =>
    obtain ⟨hpos, hlt⟩ := hinteger n rfl
    have hlt' : n < integerLimit := by
      rw [integerLimit_eq]
      exact_mod_cast hlt
    rw [scalarValue_toDigits (by omega) hrest, if_pos hlt']
  | boolean b =>
    cases b with
    | false => rfl
    | true => rfl
  | text s body h =>
    have hwritten : '"' :: (body ++ ['"']) ++ rest = '"' :: (body ++ '"' :: rest) := by simp
    rw [hwritten, scalarValue, scalarValue?, string?_quotesAll h hrest, Option.map_some,
      Option.some_or, String.ofList_toList]
    rfl

end

end SlotCalc.Toml
