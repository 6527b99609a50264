namespace SlotCalc

inductive Operator
  | plus
  | minus
  | times
  | dividedBy
  deriving DecidableEq, Repr

namespace Operator

def symbol : Operator → Char
  | plus => '+'
  | minus => '-'
  | times => '*'
  | dividedBy => '/'

def isAdditive : Operator → Bool
  | plus | minus => true
  | times | dividedBy => false

/-- Whether a double has a minus sign, also a zero; what is not a number has none. -/
def isNegative (x : Float) : Bool :=
  match x.toModel.unpack with
  | .infinity .negative | .zero .negative | .finite .negative .. => true
  | _ => false

def withSignOf (x y : Float) : Float := if isNegative y then -x.abs else x.abs

def infinity : Float := .ofBits 0x7ff0000000000000

def notANumber : Float := .ofBits 0x7ff8000000000000

/-- The rounded quotient. A quotient by zero is no error: it is infinite with the sign of the
quotient, or not a number when the dividend is a zero or no number itself. -/
def quotient (a b : Float) : Float :=
  if b == 0 then
    if a == 0 || a.isNaN then notANumber else withSignOf infinity a * withSignOf 1 b
  else a / b

def apply : Operator → Float → Float → Float
  | plus, a, b => a + b
  | minus, a, b => a - b
  | times, a, b => a * b
  | dividedBy, a, b => quotient a b

end Operator

end SlotCalc
