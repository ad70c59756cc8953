import Breadboard.Text.Blank
import Breadboard.Decimal.Layout
import Breadboard.Decimal.Reading

set_option autoImplicit false

/-!
What a variable of a sketch holds: a number or a text. Either one can be taken for the other.
-/
namespace Breadboard

inductive Value where
  | number (n : Float)
  | text (s : String)
  deriving DecidableEq, Repr

namespace Value

/-- What an unknown variable reads as. -/
def zero : Value := .number 0.0

instance : Inhabited Value := ⟨zero⟩

/-- The characters of a text that may be a decimal number. -/
def isNumberChar (c : Char) : Bool := c.isDigit || "+-.eE".toList.contains c

/-- The number that a text stands for: blanks around it do not matter, an empty text is zero, `0x`
opens a hexadecimal number, and any other text is not a number. -/
def textToNumber (s : String) : Float :=
  let nan : Float := 0.0 / 0.0
  let body := Text.trim s.toList
  if body.isEmpty then 0.0
  else match Text.dropPrefix? "0x".toList body |>.or (Text.dropPrefix? "0X".toList body) with
    | some hex => ((Decimal.readHex? hex).map Decimal.ofInt).getD nan
    | none =>
      let word := String.ofList body
      if word = "Infinity" || word = "+Infinity" then 1.0 / 0.0
      else if word = "-Infinity" then -1.0 / 0.0
      else if body.all isNumberChar then (Decimal.read? body).getD nan
      else nan

/-- The text of a number: whole numbers below 10^21 have no point, and zero has no sign. -/
def formatNumber (n : Float) : String :=
  if n.isNaN then "NaN"
  else if n.isInf then if n > 0.0 then "Infinity" else "-Infinity"
  else if n == 0.0 then "0"
  else if Decimal.isWhole n && n.abs < 1e21 then String.ofList (Decimal.fixed 0 n)
  else String.ofList (Decimal.Layout.plain.render n)

def toNumber : Value → Float
  | number n => n
  | text s => textToNumber s

/-- The number of a value that is one. -/
def number? : Value → Option Float
  | number n => some n
  | text _ => none

def toText : Value → String
  | number n => formatNumber n
  | text s => s

def isTrue : Value → Bool
  | number n => !(n == 0.0) && !n.isNaN
  | text s => !s.isEmpty

/-- Two texts are compared as texts, all else as numbers. -/
def looseEq : Value → Value → Bool
  | text a, text b => a == b
  | a, b => a.toNumber == b.toNumber

/-- The order of two numbers; there is none if one of them is not a number. -/
def compareNumbers (a b : Float) : Option Ordering :=
  if a < b then some .lt else if a > b then some .gt else if a == b then some .eq else none

/-- Two texts are compared by their characters, all else as numbers. -/
def looseCompare : Value → Value → Option Ordering
  | text a, text b => some (if a < b then .lt else if a = b then .eq else .gt)
  | a, b => compareNumbers a.toNumber b.toNumber

end Value

end Breadboard
