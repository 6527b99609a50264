import SlotCalc.Text

namespace SlotCalc

open Float.Model (UnpackedFloat)

/-- The double with the given parts, which have to be in canonical form. -/
def ofUnpacked (parts : UnpackedFloat) : Float := .ofModel (.pack parts)

inductive Numeral
  | finite (negative : Bool) (coefficient : Nat) (exponent : Int)
  | infinite (negative : Bool)
  | notANumber
  deriving DecidableEq, Repr

namespace Numeral

open Text

def startsWithDigit : List Char → Bool
  | [] => false
  | c :: _ => isDigit c

/-- The leading digits of a text and what follows them. One underscore may stand between two
digits; `afterDigit` says whether a digit stands before the text. -/
def digitsFrom (afterDigit : Bool) : List Char → List Nat × List Char
  | [] => ([], [])
  | c :: rest =>
    match digitValue? c with
    | some d =>
      let more := digitsFrom true rest
      (d :: more.1, more.2)
    | none =>
      if afterDigit && c = '_' && startsWithDigit rest then digitsFrom false rest
      else ([], c :: rest)

def digitRun (text : List Char) : List Nat × List Char := digitsFrom false text

def ofDigits (digits : List Nat) : Nat := digits.foldl (fun n d => 10 * n + d) 0

def natural? (text : List Char) : Option Nat :=
  match digitRun text with
  | ([], _) => none
  | (digits, []) => some (ofDigits digits)
  | _ => none

def exponent? : List Char → Option Int
  | [] => some 0
  | c :: rest =>
    if c = 'e' ∨ c = 'E' then
      match rest with
      | '+' :: digits => (natural? digits).map (↑·)
      | '-' :: digits => (natural? digits).map (-↑·)
      | digits => (natural? digits).map (↑·)
    else none

def fraction : List Char → List Nat × List Char
  | '.' :: rest => digitRun rest
  | text => ([], text)

def decimal? (negative : Bool) (text : List Char) : Option Numeral :=
  let whole := digitRun text
  let part := fraction whole.2
  let digits := whole.1 ++ part.1
  if digits.isEmpty then none
  else (exponent? part.2).map fun e => finite negative (ofDigits digits) (e - part.1.length)

def word? (negative : Bool) (text : List Char) : Option Numeral :=
  let word := text.map Char.toLower
  if word = "inf".toList ∨ word = "infinity".toList then some (infinite negative)
  else if word = "nan".toList then some notANumber
  else none

def unsigned? (negative : Bool) (text : List Char) : Option Numeral :=
  (decimal? negative text).or (word? negative text)

def read? : List Char → Option Numeral
  | '+' :: rest => unsigned? false rest
  | '-' :: rest => unsigned? true rest
  | text => unsigned? false text

/-- The nearest double, a tie going to the even one; a number beyond all doubles becomes
infinite, and the sign of a zero is kept. -/
def toFloat : Numeral → Float
  | finite negative coefficient exponent =>
    let size := UnpackedFloat.ofScientific .binary64 coefficient exponent
    ofUnpacked (if negative then size.neg else size)
  | infinite negative => ofUnpacked (.infinity (if negative then .negative else .positive))
  | notANumber => ofUnpacked .notANumber

end Numeral

end SlotCalc
