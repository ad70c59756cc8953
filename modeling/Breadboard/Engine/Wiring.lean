import Breadboard.Circuit.Reader
import Breadboard.Engine.Basic

set_option autoImplicit false

/-!
Circuits on the engine: reading one, and attaching its parts to the board.
-/
namespace Breadboard.Engine

/-- Reads a circuit file. A file that cannot be read is reported on the serial monitor. -/
def importCircuit (e : Engine) (json : String) : Option Circuit × Engine :=
  match Circuit.parse json with
  | .ok c => (some c, e)
  | .error err =>
    (none, e.setWorld (e.world.emit (errorMark ++ err.message) .error e.reading.stamp))

/-- Registers every part that is wired to the board, and tells how many there are. -/
def attachCircuit (e : Engine) (c : Circuit) : Nat × Engine :=
  let wired := c.wired
  (wired.length, wired.foldl (fun e (p, pins) => e.register ⟨p.id, p.kind, pins, false⟩) e)

end Breadboard.Engine
