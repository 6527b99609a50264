import SlotCalc.Decimal.Numeral
import SlotCalc.Decimal.Shortest

namespace SlotCalc.Decimal

open Float.Model (UnpackedFloat)

/-- The digits of a decimal without zeros at their end, and the place of the point: the number
is `0.` and the digits, times `10 ^ point`. -/
structure Digits where
  digits : List Char
  point : Int
  deriving DecidableEq, Repr

def Digits.ofDecimal (coefficient : Nat) (exponent : Int) : Digits :=
  let digits := Nat.toDigits 10 coefficient
  { digits := (digits.reverse.dropWhile (· = '0')).reverse
    point := digits.length + exponent }

def zeros (n : Nat) : List Char := List.replicate n '0'

def Digits.positional (d : Digits) : List Char :=
  let count := d.digits.length
  if d.point ≤ 0 then '0' :: '.' :: zeros (-d.point).toNat ++ d.digits
  else if d.point < count then
    d.digits.take d.point.toNat ++ '.' :: d.digits.drop d.point.toNat
  else d.digits ++ zeros (d.point - count).toNat ++ ['.', '0']

def exponentText (e : Int) : List Char :=
  let digits := Nat.toDigits 10 e.natAbs
  (if e < 0 then '-' else '+') :: (zeros (2 - digits.length) ++ digits)

def Digits.scientific (d : Digits) : List Char :=
  let significand :=
    match d.digits with
    | first :: second :: rest => first :: '.' :: second :: rest
    | digits => digits
  significand ++ 'e' :: exponentText (d.point - 1)

/-- Positional from `10 ^ -4` to below `10 ^ 16`. -/
def Digits.text (d : Digits) : List Char :=
  if -4 < d.point ∧ d.point ≤ 16 then d.positional else d.scientific

def signText (sign : UnpackedFloat.Sign) : List Char :=
  match sign with
  | .positive => []
  | .negative => ['-']

def infinityText (sign : UnpackedFloat.Sign) : List Char := signText sign ++ ['i', 'n', 'f']

def shortestText (sign : UnpackedFloat.Sign) (mantissa : Nat) (exponent : Int) : List Char :=
  let (coefficient, place) := shortest mantissa exponent
  signText sign ++ (Digits.ofDecimal coefficient place).text

def plainChars (parts : UnpackedFloat) : List Char :=
  match parts with
  | .notANumber => ['n', 'a', 'n']
  | .infinity sign => infinityText sign
  | .zero sign => signText sign ++ ['0', '.', '0']
  | .finite sign mantissa exponent _ => shortestText sign mantissa exponent

def integer? (mantissa : Nat) (exponent : Int) : Option Nat :=
  let d := Nat.pow 2 (-exponent).toNat
  if mantissa % d = 0 then some (mantissa * Nat.pow 2 exponent.toNat / d) else none

def shownChars (parts : UnpackedFloat) : List Char :=
  match parts with
  | .notANumber => ['N', 'a', 'N']
  | .infinity sign => infinityText sign
  | .zero sign => signText sign ++ ['0']
  | .finite sign mantissa exponent _ =>
    match integer? mantissa exponent with
    | some n => signText sign ++ Nat.toDigits 10 n
    | none => shortestText sign mantissa exponent

/-- The shortest decimal that reads back: `3.0`, `1e-05`, `1e+16`, `nan`, `-inf`. -/
def plain (x : Float) : String := String.ofList (plainChars x.toModel.unpack)

/-- As `plain`, but an integer has all its digits and no point: `3`, `-0`, `10000000000000000`. -/
def shown (x : Float) : String := String.ofList (shownChars x.toModel.unpack)

end SlotCalc.Decimal
