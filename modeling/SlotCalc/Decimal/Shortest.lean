namespace SlotCalc.Decimal

/-- The numbers that round to the double `middle * 2 ^ exponent`: those from `lower` to `upper`
in the same unit, the two ends included if `closed`. -/
structure Interval where
  lower : Nat
  middle : Nat
  upper : Nat
  exponent : Int
  closed : Bool
  deriving DecidableEq, Repr

/-- Half the way to each neighbour. The neighbour below a power of two is twice as near, unless
the power is the least normal double. -/
def interval (mantissa : Nat) (exponent : Int) : Interval :=
  let below := if mantissa = Nat.pow 2 52 ∧ -1074 < exponent then 1 else 2
  { lower := 4 * mantissa - below
    middle := 4 * mantissa
    upper := 4 * mantissa + 2
    exponent := exponent - 2
    closed := mantissa % 2 = 0 }

namespace Interval

def unit (i : Interval) (k : Int) : Nat × Nat :=
  (Nat.pow 2 i.exponent.toNat * Nat.pow 10 (-k).toNat,
    Nat.pow 10 k.toNat * Nat.pow 2 (-i.exponent).toNat)

def holds (i : Interval) (k : Int) (c : Nat) : Bool :=
  let (n, d) := i.unit k
  if i.closed then i.lower * n ≤ c * d && c * d ≤ i.upper * n
  else i.lower * n < c * d && c * d < i.upper * n

def floor (i : Interval) (k : Int) : Nat :=
  let (n, d) := i.unit k
  i.middle * n / d

def nearest (i : Interval) (k : Int) : Nat :=
  let (n, d) := i.unit k
  let c := i.floor k
  match compare (2 * (i.middle * n)) ((2 * c + 1) * d) with
  | .lt => c
  | .gt => c + 1
  | .eq => c + c % 2

def hit? (i : Interval) (k : Int) : Option Nat :=
  let c := i.floor k
  match i.holds k c, i.holds k (c + 1) with
  | true, true => some (i.nearest k)
  | true, false => some c
  | false, true => some (c + 1)
  | false, false => none

end Interval

def digitCount (n : Nat) : Nat := (Nat.toDigits 10 n).length

def magnitude (mantissa : Nat) (exponent : Int) : Int :=
  let n := mantissa * Nat.pow 2 exponent.toNat
  let d := Nat.pow 2 (-exponent).toNat
  if d ≤ n then digitCount (n / d) - 1 else -digitCount ((d - 1) / n)

/-- A coefficient `c` and an exponent `k` with `c * 10 ^ k` the shortest decimal of `mantissa * 2 ^
exponent`, up to zeros at the end of `c`: of the decimals with the fewest digits that round to the
double the nearest one, and of two that are equally near the even one. Seventeen digits always
suffice. -/
def shortest (mantissa : Nat) (exponent : Int) : Nat × Int :=
  let i := interval mantissa exponent
  let top := magnitude mantissa exponent
  let grids := (List.range 16).map fun more : Nat => top - more
  (grids.findSome? fun k => (i.hit? k).map (·, k)).getD (i.nearest (top - 16), top - 16)

end SlotCalc.Decimal
