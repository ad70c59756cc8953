set_option autoImplicit false

/-!
Floating-point numbers as exact binary fractions, and the floating-point number nearest to an exact
fraction.
-/
namespace Breadboard.Decimal

def twoTo (n : Nat) : Nat := Nat.pow 2 n

def tenTo (n : Nat) : Nat := Nat.pow 10 n

/-- `num / den` rounded to a whole number, a half going to the even neighbour. -/
def roundDiv (num den : Nat) : Nat :=
  let q := num / den
  let r := num % den
  if 2 * r < den then q
  else if den < 2 * r then q + 1
  else if q % 2 = 0 then q else q + 1

theorem roundDiv_le_succ (num den : Nat) : roundDiv num den ≤ num / den + 1 := by
  simp only [roundDiv]; split <;> (try split) <;> (try split) <;> omega

theorem div_le_roundDiv (num den : Nat) : num / den ≤ roundDiv num den := by
  simp only [roundDiv]; split <;> (try split) <;> (try split) <;> omega

theorem roundDiv_eq_of_dvd {num den : Nat} (hd : 0 < den) (h : num % den = 0) :
    roundDiv num den = num / den := by
  simp [roundDiv, h, hd]

/-- The size of a finite number: `mantissa * 2 ^ exponent`. -/
structure Binary where
  mantissa : Nat
  exponent : Int
  deriving DecidableEq, Repr

namespace Binary

/-- The number of bits that follow the leading one of a normal number. -/
def fractionBits : Nat := 52

/-- The exponent of the smallest numbers. -/
def minExponent : Int := -1074

/-- Reads a floating-point number without its sign; it has to be finite. -/
def ofFloat (x : Float) : Binary :=
  let bits := x.toBits.toNat
  let fraction := bits % twoTo fractionBits
  let field := bits / twoTo fractionBits % 2048
  if field = 0 then ⟨fraction, minExponent⟩ else ⟨fraction + twoTo fractionBits, field + minExponent - 1⟩

/-- Whether the sign bit of a number is set, as it is for `-0.0`. -/
def isNegative (x : Float) : Bool := twoTo 63 ≤ x.toBits.toNat

/-- The fraction `mantissa * 2 ^ exponent * 10 ^ places` as a numerator and a denominator. -/
def scaled (b : Binary) (places : Int) : Nat × Nat :=
  (b.mantissa * twoTo b.exponent.toNat * tenTo places.toNat,
    twoTo (-b.exponent).toNat * tenTo (-places).toNat)

end Binary

/-- The floating-point number nearest to `num / den`, a half going to the even neighbour. Fractions
beyond the largest number become infinite. -/
def nearest (num den : Nat) : Float :=
  if num = 0 then 0.0
  else
    let l : Int := (num.log2 : Int) - den.log2
    let below : Bool := num * twoTo (-l).toNat < den * twoTo l.toNat
    let exponent : Int := max (if below then l - 53 else l - 52) Binary.minExponent
    let q := roundDiv (num * twoTo (-exponent).toNat) (den * twoTo exponent.toNat)
    let bits := (exponent - Binary.minExponent).toNat * twoTo Binary.fractionBits + q
    Float.ofBits (min bits 0x7ff0000000000000).toUInt64

/-- The remainder of a division toward zero, computed without rounding; it has the sign of `x`. -/
def remainder (x y : Float) : Float :=
  if x.isNaN || y.isNaN || x.isInf || y == 0.0 then 0.0 / 0.0
  else if y.isInf then x
  else
    let a := Binary.ofFloat x
    let b := Binary.ofFloat y
    let e := min a.exponent b.exponent
    let r := (a.mantissa * twoTo (a.exponent - e).toNat) % (b.mantissa * twoTo (b.exponent - e).toNat)
    let size := nearest (r * twoTo e.toNat) (twoTo (-e).toNat)
    if Binary.isNegative x then -size else size

/-- The smaller of two numbers; one that is not a number gives way to the other. -/
def lesser (x y : Float) : Float := if x.isNaN then y else if y.isNaN then x else if y < x then y else x

/-- The larger of two numbers; one that is not a number gives way to the other. -/
def greater (x y : Float) : Float := if x.isNaN then y else if y.isNaN then x else if x < y then y else x

/-- Whether a finite number has no fraction. -/
def isWhole (x : Float) : Bool := x.isFinite && x.floor == x

end Breadboard.Decimal
