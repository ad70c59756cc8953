import Breadboard.Sketch.Outline
import Breadboard.Sketch.ReadStmt

set_option autoImplicit false

/-!
Programs: what a sketch is once it has been read.
-/
namespace Breadboard

structure Program where
  globals : Table Value
  functions : Table Function
  setup : List Stmt
  loop : List Stmt

namespace Program

def empty : Program := ⟨.empty, .empty, [], []⟩

def readFunction (f : FunctionOutline) : Function := ⟨f.name, f.params, Stmt.readAll f.body, f.location⟩

/-- Reads an outline; of two functions of the same name the later one counts. -/
def ofOutline (o : Outline) : Program :=
  { globals := o.globals
    functions := .ofList (o.functions.map fun f => (f.name, readFunction f))
    setup := Stmt.readAll o.setup
    loop := Stmt.readAll o.loop }

/-- Reads a source text. -/
def ofSource (source : String) : Program := ofOutline (.ofSource source)

end Program

end Breadboard
