import Breadboard.Board.Basic
import Breadboard.Calc.Arithmetic
import Breadboard.Engine.Time
import Breadboard.Scope
import Breadboard.Sketch.Stmt

set_option autoImplicit false

/-!
The values of expressions and the truth of conditions. Evaluation never fails, and all that it
changes is the state of the random generator.
-/
namespace Breadboard

open Breadboard.Random (Generator)

/-- What expressions can see. -/
structure Env where
  scopes : Scopes
  board : Board
  time : Time.Reading

namespace Env

def valueOf (env : Env) (name : String) : Value := (env.scopes.lookup name).getD .zero

/-- The number that a name stands for in arithmetic. -/
def number? (env : Env) (name : String) : Option Float := (env.scopes.lookup name).bind Value.number?

def digitalLevel (env : Env) (pin : Value) : Value :=
  .number (Float.ofNat (((Pin.ofValue? pin).map env.board.readDigital).getD 0))

def analogLevel (env : Env) (pin : Value) : Value :=
  .number (Float.ofNat (((Pin.ofValue? pin).map env.board.readAnalog).getD 0))

end Env

mutual

def Expr.eval (env : Env) : Expr → Generator → Value × Generator
  | .number n, g => (.number n, g)
  | .text s, g => (.text s, g)
  | .millis, g => (.number env.time.millis, g)
  | .micros, g => (.number env.time.micros, g)
  | .digitalRead pin, g =>
    let (v, g) := pin.eval env g
    (env.digitalLevel v, g)
  | .analogRead pin, g =>
    let (v, g) := pin.eval env g
    (env.analogLevel v, g)
  | .builtin f args, g =>
    let (vs, g) := Expr.evalAll env args g
    let (x, g) := f.call (vs.map Value.toNumber) g
    (.number x, g)
  | .var name, g => (env.valueOf name, g)
  | .arithmetic code, g => (.number (Arithmetic.evaluate env.number? code.toList), g)

/-- Evaluates expressions from left to right. -/
def Expr.evalAll (env : Env) : List Expr → Generator → List Value × Generator
  | [], g => ([], g)
  | e :: es, g =>
    let (v, g) := e.eval env g
    let (vs, g) := Expr.evalAll env es g
    (v :: vs, g)

end

def Comparison.holds (op : Comparison) (a b : Value) : Bool :=
  match op with
  | .eq => a.looseEq b
  | .ne => !a.looseEq b
  | .gt => a.looseCompare b == some .gt
  | .lt => a.looseCompare b == some .lt
  | .ge => (a.looseCompare b).any (· != .lt)
  | .le => (a.looseCompare b).any (· != .gt)

mutual

def Cond.holds (env : Env) : Cond → Generator → Bool × Generator
  | .all parts, g => Cond.allHold env parts g
  | .any parts, g => Cond.anyHolds env parts g
  | .not inner, g =>
    let (b, g) := inner.holds env g
    (!b, g)
  | .compare lhs op rhs, g =>
    let (a, g) := lhs.eval env g
    let (b, g) := rhs.eval env g
    (op.holds a b, g)
  | .truth e, g =>
    let (v, g) := e.eval env g
    (v.isTrue, g)

/-- Whether all conditions hold; those behind the first that does not are left alone. -/
def Cond.allHold (env : Env) : List Cond → Generator → Bool × Generator
  | [], g => (true, g)
  | c :: cs, g =>
    match c.holds env g with
    | (true, g) => Cond.allHold env cs g
    | (false, g) => (false, g)

/-- Whether some condition holds; those behind the first that does are left alone. -/
def Cond.anyHolds (env : Env) : List Cond → Generator → Bool × Generator
  | [], g => (false, g)
  | c :: cs, g =>
    match c.holds env g with
    | (true, g) => (true, g)
    | (false, g) => Cond.anyHolds env cs g

end

end Breadboard
