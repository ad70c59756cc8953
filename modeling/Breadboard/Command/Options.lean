import Breadboard.Decimal.Reading

set_option autoImplicit false

/-!
The arguments of the command line.
-/
namespace Breadboard.Command

structure Options where
  sketch : String
  speed : Float
  circuit : Option String
  deriving DecidableEq, Repr

/-- Arguments that the command line does not take. -/
inductive UsageError where
  | speedWithoutValue
  | invalidSpeed (value : String)
  | circuitWithoutFile
  | unknownOption (flag : String)
  | unexpectedArgument (arg : String)
  | noSketch
  deriving DecidableEq, Repr

def UsageError.message : UsageError → String
  | speedWithoutValue => "--speed needs a value"
  | invalidSpeed value => s!"Invalid speed '{value}'"
  | circuitWithoutFile => "--circuit needs a file"
  | unknownOption flag => s!"Unknown option '{flag}'"
  | unexpectedArgument arg => s!"Unexpected argument '{arg}'"
  | noSketch => "No sketch file provided"

/-- A number that is finite and positive. -/
def speed? (value : String) : Option Float :=
  (Decimal.read? value.toList).filter fun x => x.isFinite && x > 0.0

/-- Options that have been read so far. -/
structure Draft where
  sketch : Option String
  speed : Float
  circuit : Option String
  deriving DecidableEq, Repr

namespace Draft

def empty : Draft := ⟨none, 1.0, none⟩

def isFlag (arg : String) : Bool := "--".toList.isPrefixOf arg.toList

/-- A word that is no option is the sketch, and there can be only one. -/
def addWord (d : Draft) (arg : String) : Except UsageError Draft :=
  if isFlag arg then .error (.unknownOption arg)
  else match d.sketch with
    | none => .ok { d with sketch := some arg }
    | some _ => .error (.unexpectedArgument arg)

/-- Reads arguments from left to right; of several values of an option the last one counts. -/
def read (d : Draft) : List String → Except UsageError Draft
  | [] => .ok d
  | ["--speed"] => .error .speedWithoutValue
  | ["--circuit"] => .error .circuitWithoutFile
  | "--speed" :: value :: rest =>
    match speed? value with
    | some speed => { d with speed }.read rest
    | none => .error (.invalidSpeed value)
  | "--circuit" :: file :: rest => { d with circuit := some file }.read rest
  | arg :: rest =>
    match d.addWord arg with
    | .ok d => d.read rest
    | .error e => .error e

def finish (d : Draft) : Except UsageError Options :=
  match d.sketch with
  | some sketch => .ok ⟨sketch, d.speed, d.circuit⟩
  | none => .error .noSketch

end Draft

/-- Reads the arguments behind the program's name. -/
def Options.parse (args : List String) : Except UsageError Options := do
  (← Draft.empty.read args).finish

end Breadboard.Command
