import Breadboard.Board.Basic
import Breadboard.Text.Quoted

set_option autoImplicit false

/-!
The parts wired to the board from outside. Registering a part marks its pins as connected to it, and
removing it clears the marks that are still its own.
-/
namespace Breadboard

structure Peripheral where
  id : String
  kind : String
  pins : List Pin
  /-- Whether the part wants to be told of a reset. -/
  hook : Bool
  deriving DecidableEq, Repr

def Peripheral.connection (p : Peripheral) : Connection := ⟨p.id, p.kind⟩

/-- The parts in the order in which they were registered. -/
structure Registry where
  entries : List Peripheral
  deriving DecidableEq, Repr

namespace Registry

def empty : Registry := ⟨[]⟩

def size (r : Registry) : Nat := r.entries.length

def isEmpty (r : Registry) : Bool := r.entries.isEmpty

def find? (r : Registry) (id : String) : Option Peripheral := r.entries.find? (·.id == id)

/-- Clears the mark of a pin if it is that of the part `id`. -/
def release (id : String) (b : Board) (p : Pin) : Board :=
  if ((b.state? p).bind (·.connection)).any (·.component == id) then b.disconnect p else b

/-- Removes a part; `none` if there is none of that name. -/
def remove? (r : Registry) (b : Board) (id : String) : Option (Registry × Board) :=
  (r.find? id).map fun p =>
    (⟨r.entries.eraseP (·.id == id)⟩, p.pins.foldl (release id) b)

def remove (r : Registry) (b : Board) (id : String) : Registry × Board :=
  (r.remove? b id).getD (r, b)

/-- Adds a part behind the others, in place of one of the same name. -/
def register (r : Registry) (b : Board) (p : Peripheral) : Registry × Board :=
  let (r, b) := r.remove b p.id
  (⟨r.entries ++ [p]⟩, b.connectAll p.pins p.connection)

/-- Marks the pins of all parts again. -/
def reconnect (r : Registry) (b : Board) : Board :=
  r.entries.foldl (fun b p => b.connectAll p.pins p.connection) b

/-- The parts that are told of a reset, in order. -/
def hooks (r : Registry) : List String := (r.entries.filter (·.hook)).map (·.id)

def describePin : Pin → String
  | .rail .v3 => "Rail(V3V3)"
  | .rail .vin => "Rail(Vin)"
  | .rail .gnd => "Rail(Gnd)"
  | .gpio n => s!"Gpio({n})"

def describeEntry (p : Peripheral) : String :=
  let id := Text.quoted p.id
  let kind := Text.quoted p.kind
  let pins := ", ".intercalate (p.pins.map describePin)
  let hook := if p.hook then "true" else "false"
  "(" ++ id ++ ", PeripheralDescriptor \x7b connected_pins: [" ++ pins ++ "], kind: " ++ kind ++
    ", reset: " ++ hook ++ " \x7d)"

def describe (r : Registry) : String :=
  "PeripheralRegistry \x7b entries: [" ++ ", ".intercalate (r.entries.map describeEntry) ++ "] \x7d"

end Registry

end Breadboard
