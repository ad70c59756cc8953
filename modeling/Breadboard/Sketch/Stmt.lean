import Breadboard.Sketch.Expr

set_option autoImplicit false

/-!
Statements of a sketch.
-/
namespace Breadboard

/-- A place in the source, both counts from one; zero means that nothing has run. -/
structure Location where
  line : Nat
  column : Nat
  deriving DecidableEq, Repr

def Location.start : Location := ⟨0, 0⟩

inductive PrintArg where
  | literal (s : String)
  | value (e : Expr)
  | empty
  deriving Repr

inductive AssignOp where
  | set
  | add
  | sub
  | mul
  | div
  deriving DecidableEq, Repr

/-- What is done at one go. -/
inductive Action where
  | delay (ms : Expr)
  | delayMicros (us : Expr)
  | serialBegin
  | print (arg : PrintArg) (newline : Bool)
  | printf (template : String) (args : List Expr)
  | pinMode (pin mode : Expr)
  | digitalWrite (pin value : Expr)
  | analogWrite (pin duty : Expr)
  | assign (name : String) (op : AssignOp) (value : Expr)
  | step (name : String) (delta : Float)
  /-- Text of no known form; it does nothing. -/
  | ignored (text : String)
  deriving Repr

mutual

inductive Stmt where
  | act (loc : Location) (action : Action)
  | call (loc : Location) (name : String) (args : List Expr)
  | choose (loc : Location) (chain : Chain)
  | forLoop (loc : Location) (init : Option Stmt) (cond : Cond) (step : Option Stmt)
      (body : List Stmt)
  | whileLoop (loc : Location) (cond : Cond) (body : List Stmt)

/-- The branches of an `if`, and what is done if no condition holds. -/
inductive Chain where
  | done
  | otherwise (body : List Stmt)
  | branch (cond : Cond) (body : List Stmt) (rest : Chain)

end

def Stmt.location : Stmt → Location
  | act loc _ | call loc _ _ | choose loc _ | forLoop loc _ _ _ _ | whileLoop loc _ _ => loc

structure Function where
  name : String
  params : List String
  body : List Stmt
  location : Location

end Breadboard
