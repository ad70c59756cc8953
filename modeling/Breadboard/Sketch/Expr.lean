import Breadboard.Calc.Builtin

set_option autoImplicit false

/-!
Expressions and conditions of a sketch.
-/
namespace Breadboard

inductive Expr where
  | number (n : Float)
  | text (s : String)
  | millis
  | micros
  | digitalRead (pin : Expr)
  | analogRead (pin : Expr)
  | builtin (f : Builtin) (args : List Expr)
  | var (name : String)
  /-- Text that is left for arithmetic at run time. -/
  | arithmetic (code : String)
  deriving Repr

inductive Comparison where
  | ge
  | le
  | ne
  | eq
  | gt
  | lt
  deriving DecidableEq, Repr

namespace Comparison

def symbol : Comparison → String
  | ge => ">="
  | le => "<="
  | ne => "!="
  | eq => "=="
  | gt => ">"
  | lt => "<"

/-- The comparisons in the order in which a condition is searched for them. -/
def searchOrder : List Comparison := [ge, le, ne, eq, gt, lt]

end Comparison

inductive Cond where
  | all (parts : List Cond)
  | any (parts : List Cond)
  | not (inner : Cond)
  | compare (lhs : Expr) (op : Comparison) (rhs : Expr)
  | truth (e : Expr)
  deriving Repr

end Breadboard
