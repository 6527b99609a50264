import SlotCalc.Decimal.Numeral
import SlotCalc.Document
import SlotCalc.Files
import SlotCalc.Toml.Text

namespace SlotCalc.Toml

def fixed? (count : Nat) (text : List Char) : Read Nat :=
  let digits := text.take count
  if digits.length = count ∧ digits.all Char.isDigit then
    some (Nat.ofDigitChars 10 digits 0, text.drop count)
  else none

def below? (limit : Nat) (text : List Char) : Option (List Char) :=
  (fixed? 2 text).bind fun r => if r.1 < limit then some r.2 else none

def skipDecimals : List Char → List Char
  | '.' :: c :: rest => if c.isDigit then rest.dropWhile Char.isDigit else '.' :: c :: rest
  | text => text

def hourAndMinute? (text : List Char) : Option (List Char) :=
  (below? 24 text).bind (after? ":") |>.bind (below? 60)

def time? (text : List Char) : Option (List Char) :=
  ((hourAndMinute? text).bind (after? ":") |>.bind (below? 60)).map skipDecimals

def offset (text : List Char) : List Char :=
  match text with
  | 'Z' :: rest | 'z' :: rest => rest
  | '+' :: rest | '-' :: rest => (hourAndMinute? rest).getD text
  | _ => text

def isLeap (year : Nat) : Bool := year % 4 = 0 && (year % 100 ≠ 0 || year % 400 = 0)

def daysIn (year month : Nat) : Nat :=
  if month = 2 then if isLeap year then 29 else 28
  else if month ∈ [4, 6, 9, 11] then 30 else 31

def date? (text : List Char) : Option (List Char) := do
  let (year, text) ← fixed? 4 text
  let (month, text) ← (after? "-" text).bind (fixed? 2)
  let (day, text) ← (after? "-" text).bind (fixed? 2)
  if 1 ≤ year ∧ 1 ≤ month ∧ month ≤ 12 ∧ 1 ≤ day ∧ day ≤ daysIn year month then some text
  else none

def timeOfDay (text : List Char) : List Char :=
  match text with
  | 'T' :: rest | 't' :: rest | ' ' :: rest => ((time? rest).map offset).getD text
  | _ => text

/-- Dates and times are recognised and kept as they are written. -/
def moment? (text : List Char) : Read Value :=
  ((date? text).map timeOfDay).or (time? text) |>.map fun rest =>
    (.moment (String.ofList (text.take (text.length - rest.length))), rest)

def startsWith (p : Char → Bool) : List Char → Bool
  | [] => false
  | c :: _ => p c

/-- The leading characters of a class and what follows them. One underscore may stand between two
of them; `inside` says whether one stands before the text. -/
def classFrom (p : Char → Bool) (inside : Bool) : List Char → List Char × List Char
  | [] => ([], [])
  | c :: rest =>
    if p c then
      let more := classFrom p true rest
      (c :: more.1, more.2)
    else if inside && c = '_' && startsWith p rest then classFrom p false rest
    else ([], c :: rest)

def classRun (p : Char → Bool) (text : List Char) : List Char × List Char := classFrom p false text

def digitBelow (base : Nat) (c : Char) : Bool := (hexValue? c).any (· < base)

def base? : Char → Option Nat
  | 'x' => some 16
  | 'o' => some 8
  | 'b' => some 2
  | _ => none

def marked? : List Char → Read Value
  | '0' :: c :: rest =>
    (base? c).bind fun base =>
      match classRun (digitBelow base) rest with
      | ([], _) => none
      | (digits, more) =>
        let n := (digits.filterMap hexValue?).foldl (fun n d => base * n + d) 0
        some (.integer n, more)
  | _ => none

def wholePart : List Char → List Char × List Char
  -- A number other than zero has no leading zero.
  | '0' :: rest => (['0'], rest)
  | text => classRun Char.isDigit text

def decimals (text : List Char) : List Char × List Char :=
  match text with
  | '.' :: rest =>
    match classRun Char.isDigit rest with
    | ([], _) => ([], text)
    | part => part
  | _ => ([], text)

def exponentDigits? (negative : Bool) (text : List Char) : Read Int :=
  match classRun Char.isDigit text with
  | ([], _) => none
  | (digits, rest) =>
    let n := Nat.ofDigitChars 10 digits 0
    some (if negative then -n else n, rest)

def exponent? : List Char → Read Int
  | c :: rest =>
    if c = 'e' ∨ c = 'E' then
      match rest with
      | '+' :: digits => exponentDigits? false digits
      | '-' :: digits => exponentDigits? true digits
      | digits => exponentDigits? false digits
    else none
  | [] => none

def unsigned? (negative : Bool) (text : List Char) : Read Value :=
  match wholePart text with
  | ([], _) => none
  | (whole, rest) =>
    let part := decimals rest
    let real (e : Int) : Value :=
      let digits := Nat.ofDigitChars 10 (whole ++ part.1) 0
      .real (Numeral.finite negative digits (e - part.1.length)).toFloat
    match exponent? part.2 with
    | some (e, rest) => some (real e, rest)
    | none =>
      if part.1.isEmpty then
        let n := Nat.ofDigitChars 10 whole 0
        some (.integer (if negative then -n else n), rest)
      else some (real 0, part.2)

def special? (negative : Bool) (text : List Char) : Read Value :=
  ((after? "inf" text).map fun rest => (.real (Numeral.infinite negative).toFloat, rest)).or
    ((after? "nan" text).map fun rest => (.real Numeral.notANumber.toFloat, rest))

def signed? (negative : Bool) (text : List Char) : Read Value :=
  (unsigned? negative text).or (special? negative text)

def number? : List Char → Read Value
  | '+' :: rest => signed? false rest
  | '-' :: rest => signed? true rest
  | text => (marked? text).or (signed? false text)

structure Invalid where
  deriving DecidableEq, Repr

/-- What is read, if the text is valid and reading does not break down. -/
abbrev Reading (α : Type) := Except (Failure Invalid) α

def orInvalid : Option α → Reading α
  | some a => .ok a
  | none => .error (.reported {})

def boolean? (text : List Char) : Read Value :=
  ((after? "true" text).map (.boolean true, ·)).or ((after? "false" text).map (.boolean false, ·))

def scalarValue? (text : List Char) : Read Value :=
  ((string? text).map fun r => (.text (String.ofList r.1), r.2)).or <|
    (boolean? text).or <| (moment? text).or (number? text)

def integerLimit : Nat := Nat.pow 10 4300

/-- A value that holds no others. An integer of a marked base may have any number of digits. -/
def scalarValue (text : List Char) : Reading (Value × List Char) :=
  match scalarValue? text with
  | some (.integer n, rest) =>
    if n.natAbs < integerLimit || (marked? text).isSome then .ok (.integer n, rest)
    else .error (.broken .integerTooLong)
  | r => orInvalid r

end SlotCalc.Toml
