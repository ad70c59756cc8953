import Breadboard.Calc.Random
import Breadboard.Decimal.Binary

set_option autoImplicit false

/-!
The functions that a sketch can call in an expression.
-/
namespace Breadboard

open Breadboard.Random (Generator)

inductive Builtin where
  | map
  | constrain
  | random
  | abs
  | sqrt
  | min
  | max
  | pow
  | isNan
  deriving DecidableEq, Repr

namespace Builtin

def all : List Builtin := [map, constrain, random, abs, sqrt, min, max, pow, isNan]

/-- The name under which a sketch calls a function. -/
def name : Builtin → String
  | map => "map"
  | constrain => "constrain"
  | random => "random"
  | abs => "abs"
  | sqrt => "sqrt"
  | min => "min"
  | max => "max"
  | pow => "pow"
  | isNan => "isnan"

def ofName? (s : String) : Option Builtin := all.find? (·.name == s)

theorem ofName?_name (f : Builtin) : ofName? f.name = some f := by cases f <;> decide

/-- A whole number from `low` up to but not including `high`; an empty range gives `low` and draws
nothing. -/
def between (low high : Float) (g : Generator) : Float × Generator :=
  if high > low then
    let (u, g) := g.unit
    ((u * (high - low)).floor + low, g)
  else (low, g)

/-- Carries a number from one range over to another; a half is rounded up. -/
def rescale (v inLow inHigh outLow outHigh : Float) : Float :=
  if inHigh == inLow then 0.0
  else ((v - inLow) * (outHigh - outLow) / (inHigh - inLow) + outLow + 0.5).floor

/-- Calls a function; a call with the wrong number of arguments gives zero. -/
def call (f : Builtin) (args : List Float) (g : Generator) : Float × Generator :=
  match f, args with
  | map, [v, inLow, inHigh, outLow, outHigh] => (rescale v inLow inHigh outLow outHigh, g)
  | constrain, [v, low, high] => (Decimal.lesser (Decimal.greater v low) high, g)
  | random, [high] => between 0.0 high g
  | random, [low, high] => between low high g
  | abs, [v] => (v.abs, g)
  | sqrt, [v] => (v.sqrt, g)
  | min, [a, b] => (Decimal.lesser a b, g)
  | max, [a, b] => (Decimal.greater a b, g)
  | pow, [base, exponent] => (base.pow exponent, g)
  | isNan, [v] => (if v.isNaN then 1.0 else 0.0, g)
  | _, _ => (0.0, g)

end Builtin

end Breadboard
