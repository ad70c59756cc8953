import Breadboard.Decimal.Shortest

set_option autoImplicit false

/-!
The text of a floating-point number: the shortest digits in one of several layouts, or a fixed
number of places.
-/
namespace Breadboard.Decimal

/-- How a number is laid out. `point` below is where the decimal point falls: the number is
`0.ddd * 10 ^ point`. -/
structure Layout where
  tie : Tie
  /-- Numbers are written without an exponent if their point lies above this. -/
  pointAbove : Option Int
  /-- Numbers are written without an exponent if their point lies at this or below. -/
  pointUpTo : Option Int
  /-- Whole numbers end in `.0`. -/
  wholePoint : Bool
  /-- A positive exponent has a plus sign. -/
  exponentPlus : Bool

namespace Layout

/-- Digits without any exponent, however many zeros that takes; whole numbers have no point. -/
def plain : Layout :=
  { tie := .up, pointAbove := none, pointUpTo := none, wholePoint := false, exponentPlus := false }

def isPositional (l : Layout) (point : Int) : Bool :=
  l.pointAbove.all (· < point) && l.pointUpTo.all (point ≤ ·)

/-- The digits `ds` with the decimal point at `point`. -/
def positional (l : Layout) (ds : List Char) (point : Int) : List Char :=
  if point ≤ 0 then '0' :: '.' :: (List.replicate (-point).toNat '0' ++ ds)
  else if ds.length ≤ point.toNat then
    ds ++ List.replicate (point.toNat - ds.length) '0' ++ (if l.wholePoint then ['.', '0'] else [])
  else ds.take point.toNat ++ '.' :: ds.drop point.toNat

/-- The digits `ds` with one of them in front of the point, and the exponent that goes with that. -/
def scientific (l : Layout) (ds : List Char) (point : Int) : List Char :=
  let e := point - 1
  ds.take 1 ++ (if ds.length ≤ 1 then [] else '.' :: ds.drop 1) ++ 'e' ::
    (if e < 0 then ['-'] else if l.exponentPlus then ['+'] else []) ++ Nat.toDigits 10 e.natAbs

/-- The text of the size of a finite number. -/
def size (l : Layout) (x : Float) : List Char :=
  if x == 0.0 then if l.wholePoint then ['0', '.', '0'] else ['0']
  else
    let d := shortest l.tie x
    let ds := Nat.toDigits 10 d.digits
    let point := d.exponent + ds.length
    if l.isPositional point then l.positional ds point else l.scientific ds point

def render (l : Layout) (x : Float) : List Char :=
  if x.isNaN then "NaN".toList
  else
    let sign := if Binary.isNegative x then ['-'] else []
    sign ++ if x.isInf then "inf".toList else l.size x

end Layout

/-- A whole number in decimal. -/
def integer (n : Int) : List Char := (if n < 0 then ['-'] else []) ++ Nat.toDigits 10 n.natAbs

/-- The digits of `n`, at least one more than `places`. -/
def paddedDigits (places n : Nat) : List Char :=
  let ds := Nat.toDigits 10 n
  List.replicate (places + 1 - ds.length) '0' ++ ds

/-- A number with exactly `places` digits behind the point, a half going to the even neighbour. -/
def fixed (places : Nat) (x : Float) : List Char :=
  if x.isNaN then "NaN".toList
  else
    let sign := if Binary.isNegative x then ['-'] else []
    if x.isInf then sign ++ "inf".toList
    else
      let (num, den) := (Binary.ofFloat x).scaled places
      let ds := paddedDigits places (roundDiv num den)
      let whole := ds.length - places
      sign ++ ds.take whole ++ (if places = 0 then [] else '.' :: ds.drop whole)

end Breadboard.Decimal
