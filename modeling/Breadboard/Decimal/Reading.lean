import Breadboard.Decimal.Binary

set_option autoImplicit false

/-!
Reading decimal text as a floating-point number.
-/
namespace Breadboard.Decimal

/-- The value of a run of decimal digits. -/
def ofDigits (cs : List Char) : Nat := cs.foldl (fun n c => 10 * n + (c.toNat - '0'.toNat)) 0

/-- The number nearest to `digits * 10 ^ exponent`. Far outside the range of numbers the power is not
computed. -/
def ofDecimal (digits : Nat) (exponent : Int) : Float :=
  if digits = 0 then 0.0
  else
    let point := (Nat.toDigits 10 digits).length + exponent
    if 310 < point then 1.0 / 0.0
    else if point < -330 then 0.0
    else nearest (digits * tenTo exponent.toNat) (tenTo (-exponent).toNat)

/-- The exponent part of a number, `e` with an optional sign and at least one digit, or nothing. -/
def exponent? : List Char → Option Int
  | [] => some 0
  | c :: cs =>
    if c = 'e' || c = 'E' then
      let (negative, ds) := match cs with
        | '-' :: ds => (true, ds)
        | '+' :: ds => (false, ds)
        | ds => (false, ds)
      if ds.isEmpty || !ds.all Char.isDigit then none
      else some (if negative then -(ofDigits ds : Int) else ofDigits ds)
    else none

/-- A number without a sign: digits with an optional point among them and an optional exponent. -/
def unsigned? (cs : List Char) : Option Float := do
  let whole := cs.takeWhile Char.isDigit
  let rest := cs.dropWhile Char.isDigit
  let (places, rest) := match rest with
    | '.' :: rest => (rest.takeWhile Char.isDigit, rest.dropWhile Char.isDigit)
    | rest => ([], rest)
  guard (!(whole.isEmpty && places.isEmpty))
  let e ← exponent? rest
  some (ofDecimal (ofDigits (whole ++ places)) (e - places.length))

/-- The named numbers, in any mix of cases. -/
def named? (cs : List Char) : Option Float :=
  let word := String.ofList (cs.map Char.toLower)
  if word = "inf" || word = "infinity" then some (1.0 / 0.0)
  else if word = "nan" then some (0.0 / 0.0)
  else none

/-- Reads a decimal number: a sign, then digits with a point and an exponent, or a named number. -/
def read? (cs : List Char) : Option Float :=
  let (negative, body) := match cs with
    | '-' :: body => (true, body)
    | '+' :: body => (false, body)
    | body => (false, body)
  ((unsigned? body).orElse fun _ => named? body).map fun x => if negative then -x else x

/-- The value of a hexadecimal digit. -/
def hexDigit? (c : Char) : Option Nat :=
  if c.isDigit then some (c.toNat - '0'.toNat)
  else if 'a' ≤ c && c ≤ 'f' then some (c.toNat - 'a'.toNat + 10)
  else if 'A' ≤ c && c ≤ 'F' then some (c.toNat - 'A'.toNat + 10)
  else none

/-- Reads hexadecimal digits with an optional sign as a signed number of 64 bits. -/
def readHex? (cs : List Char) : Option Int := do
  let (negative, ds) := match cs with
    | '-' :: ds => (true, ds)
    | '+' :: ds => (false, ds)
    | ds => (false, ds)
  guard (!ds.isEmpty)
  let digits ← ds.mapM hexDigit?
  let size : Nat := digits.foldl (fun (n d : Nat) => 16 * n + d) 0
  let n : Int := if negative then -size else size
  guard (-twoTo 63 ≤ n && n < twoTo 63)
  some n

/-- The floating-point number nearest to a whole number. -/
def ofInt (n : Int) : Float := if n < 0 then -nearest n.natAbs 1 else nearest n.natAbs 1

end Breadboard.Decimal
