import Breadboard.Board.Pin
import Breadboard.Json.Datum

set_option autoImplicit false

/-!
Circuits: the board and the parts around it, and the wires between their pins.

The wiring is all that matters here. Everything else that a circuit file holds is kept as it is.
-/
namespace Breadboard

open Json (Datum)

structure Part where
  kind : String
  id : String
  attrs : Datum
  position : Datum
  /-- Fields of no known name, in the order of their names. -/
  extra : List (String × Datum)

/-- A wire between two ends, each `part:pin`. -/
structure Wire where
  source : String
  target : String
  color : String
  deriving DecidableEq, Repr

structure Circuit where
  version : Datum
  editor : String
  parts : List Part
  wires : List Wire
  /-- Fields of no known name, in the order of their names. -/
  extra : List (String × Datum)

/-- One end of a wire. -/
structure WireEnd where
  part : String
  pin : String
  deriving DecidableEq, Repr

/-- Cuts the text of a wire's end at its first colon. -/
def WireEnd.parse? (s : String) : Option WireEnd :=
  let cs := s.toList
  if cs.contains ':' then
    some ⟨String.ofList (cs.takeWhile (· != ':')), String.ofList ((cs.dropWhile (· != ':')).tail)⟩
  else none

/-- The name of the pin of the part `board` that a wire joins to the part `part`. -/
def Wire.boardPin? (w : Wire) (part board : String) : Option String := do
  let a ← WireEnd.parse? w.source
  let b ← WireEnd.parse? w.target
  if a.part = board ∧ b.part = part then some a.pin
  else if b.part = board ∧ a.part = part then some b.pin
  else none

/-- Whether `word` stands somewhere in a text. -/
def containsWord (word : List Char) : List Char → Bool
  | [] => word.isEmpty
  | c :: cs => word.isPrefixOf (c :: cs) || containsWord word cs

namespace Part

def isBoard (p : Part) : Bool :=
  "board-".toList.isPrefixOf p.kind.toList || containsWord "esp32".toList p.kind.toList

def same (p q : Part) : Bool :=
  p.kind == q.kind && p.id == q.id && p.attrs.same q.attrs && p.position.same q.position &&
    Datum.sameFields p.extra q.extra

/-- The field of a value that is left out if it is null. -/
def optionalField (name : String) (d : Datum) : List (String × Datum) :=
  if d.isNull then [] else [(name, d)]

def toDatum (p : Part) : Datum :=
  .object <| [("type", .string p.kind), ("id", .string p.id)] ++ optionalField "attrs" p.attrs ++
    optionalField "position" p.position ++ p.extra

end Part

def Wire.toDatum (w : Wire) : Datum :=
  .object [("from", .string w.source), ("to", .string w.target), ("color", .string w.color)]

namespace Circuit

def part? (c : Circuit) (id : String) : Option Part := c.parts.find? (·.id == id)

/-- The name of the first part that is a board. -/
def boardId? (c : Circuit) : Option String := (c.parts.find? (·.isBoard)).map (·.id)

/-- Adds a pin behind the others unless it is there. -/
def addPin (pins : List Pin) (p : Pin) : List Pin := if pins.contains p then pins else pins ++ [p]

/-- The pins of the board that are wired to a part, each once, in the order of the wires. -/
def pinsFor (c : Circuit) (part board : String) : List Pin :=
  (c.wires.filterMap fun w => (w.boardPin? part board).bind fun name => (Pin.parse name).toOption).foldl
    addPin []

/-- The parts other than the board that are wired to it, and to which pins. -/
def wired (c : Circuit) : List (Part × List Pin) :=
  match c.boardId? with
  | none => []
  | some board =>
    (c.parts.filter (·.id != board)).filterMap fun p =>
      let pins := c.pinsFor p.id board
      if pins.isEmpty then none else some (p, pins)

def same (c d : Circuit) : Bool :=
  c.version.same d.version && c.editor == d.editor &&
    (c.parts.length == d.parts.length && (c.parts.zip d.parts).all fun (p, q) => p.same q) &&
    c.wires == d.wires && Datum.sameFields c.extra d.extra

def toDatum (c : Circuit) : Datum :=
  .object <| Part.optionalField "version" c.version ++
    [("editor", .string c.editor), ("parts", .array (c.parts.map Part.toDatum)),
      ("connections", .array (c.wires.map Wire.toDatum))] ++ c.extra

/-- The text of a circuit file. -/
def render (c : Circuit) : String := String.ofList (c.toDatum.render 0)

end Circuit

end Breadboard
