import Breadboard.Decimal.Binary

set_option autoImplicit false

/-!
The shortest decimal that reads back as a given floating-point number.

Every number stands for the interval of reals that round to it. The shortest decimal is a point of
the coarsest decimal grid that has a point in that interval, and of the points of that grid in the
interval it is the one nearest to the number.
-/
namespace Breadboard.Decimal

/-- Which of two equally near decimals is taken. -/
inductive Tie where
  | up
  | even
  deriving DecidableEq, Repr

/-- The decimal `digits * 10 ^ exponent`. -/
structure Digits where
  digits : Nat
  exponent : Int
  deriving DecidableEq, Repr

/-- A number and the ends of its interval, in quarters of its last place: the number is
`4 * mantissa`, and its neighbours are 4 above and 4 (or, at a power of two, 2) below. -/
structure Interval where
  low : Nat
  middle : Nat
  high : Nat
  exponent : Int
  closed : Bool

def Interval.ofBinary (b : Binary) : Interval :=
  let narrow := b.mantissa == twoTo Binary.fractionBits && Binary.minExponent < b.exponent
  { low := 4 * b.mantissa - (if narrow then 1 else 2)
    middle := 4 * b.mantissa
    high := 4 * b.mantissa + 2
    exponent := b.exponent - 2
    closed := b.mantissa % 2 == 0 }

/-- The point of the grid of step `10 ^ place` that lies in the interval and is nearest to its
middle. -/
def Interval.gridPoint? (tie : Tie) (i : Interval) (place : Int) : Option Nat :=
  let unit := twoTo i.exponent.toNat * tenTo (-place).toNat
  let step := twoTo (-i.exponent).toNat * tenTo place.toNat
  let value := i.middle * unit
  let inside (d : Nat) : Bool :=
    if i.closed then i.low * unit ≤ d * step && d * step ≤ i.high * unit
    else i.low * unit < d * step && d * step < i.high * unit
  let d := value / step
  let r := value % step
  match inside d, inside (d + 1) with
  | true, true =>
    if 2 * r < step then some d
    else if step < 2 * r then some (d + 1)
    else match tie with
      | .up => some (d + 1)
      | .even => if d % 2 = 0 then some d else some (d + 1)
  | true, false => some d
  | false, true => some (d + 1)
  | false, false => none

/-- Tries grids from `10 ^ place` downwards, at most `tries` finer ones. -/
def Interval.coarsest (tie : Tie) (i : Interval) : Nat → Int → Digits
  | 0, place => ⟨(i.gridPoint? tie place).getD 0, place⟩
  | tries + 1, place =>
    match i.gridPoint? tie place with
    | some d => ⟨d, place⟩
    | none => i.coarsest tie tries (place - 1)

/-- A power of ten above every number of the interval. -/
def Interval.topPlace (i : Interval) : Int :=
  ((i.middle.log2 : Int) + 1 + i.exponent) * 30103 / 100000 + 2

/-- The fewest digits that read back as the size of a finite number other than zero. -/
def shortest (tie : Tie) (x : Float) : Digits :=
  let i := Interval.ofBinary (Binary.ofFloat x)
  i.coarsest tie 24 i.topPlace

end Breadboard.Decimal
