import Breadboard.Circuit.Basic
import Breadboard.Json.Reader

set_option autoImplicit false

/-!
Reading circuit files.

A known field must not be given twice, and parts and wires have fields that they need. Fields of
parts and circuits that have no known name are kept; those of wires are passed over.
-/
namespace Breadboard

open Json

/-- Goes on from behind the name of a field that must not be there yet. -/
def readOnce {α : Type} (present : Option α) (value : Reader α) : Reader (Option α) := fun cs =>
  if present.isSome then .error .wrongShape
  else do
    let cs ← readColon cs
    let (a, cs) ← value cs
    .ok (some a, cs)

/-- A value that an object needs. -/
def need {α : Type} : Option α → Except Defect α
  | some a => .ok a
  | none => .error .wrongShape

/-- Adds a field of no known name. -/
def readExtra (levels : Nat) (extra : List (String × Datum)) (name : String) :
    Reader (List (String × Datum)) := fun cs => do
  let cs ← readColon cs
  let (d, cs) ← readDatum levels cs
  .ok (Table.insertInto name d extra, cs)

/-- The fields of a part that have been read so far. -/
structure PartFields where
  kind : Option String := none
  id : Option String := none
  attrs : Option Datum := none
  position : Option Datum := none
  extra : List (String × Datum) := []

namespace PartFields

def readField (levels : Nat) (p : PartFields) (name : String) : Reader PartFields := fun cs => do
  match name with
  | "type" =>
    let (kind, cs) ← readOnce p.kind wantString cs
    .ok ({ p with kind }, cs)
  | "id" =>
    let (id, cs) ← readOnce p.id wantString cs
    .ok ({ p with id }, cs)
  | "attrs" =>
    let (attrs, cs) ← readOnce p.attrs (readDatum levels) cs
    .ok ({ p with attrs }, cs)
  | "position" =>
    let (position, cs) ← readOnce p.position (readDatum levels) cs
    .ok ({ p with position }, cs)
  | _ =>
    let (extra, cs) ← readExtra levels p.extra name cs
    .ok ({ p with extra }, cs)

def toPart (p : PartFields) : Except Defect Part := do
  let kind ← need p.kind
  let id ← need p.id
  .ok ⟨kind, id, p.attrs.getD .null, p.position.getD .null, p.extra⟩

end PartFields

/-- Reads an object where one is wanted, at a level. -/
def wantObject {σ : Type} (field : Nat → σ → String → Reader σ) (start : σ) : Nat → Reader σ :=
  fun levels cs =>
    match skipSpace cs with
    | '\x7b' :: rest =>
      match levels with
      | 0 => .error .notJson
      | levels + 1 => readObject (field levels) start rest
    | cs => .error (unwanted cs)

def readPart (levels : Nat) : Reader Part := fun cs => do
  let (fields, cs) ← wantObject PartFields.readField {} levels cs
  let part ← fields.toPart
  .ok (part, cs)

/-- The fields of a wire that have been read so far. -/
structure WireFields where
  source : Option String := none
  target : Option String := none
  color : Option String := none

namespace WireFields

def readField (w : WireFields) (name : String) : Reader WireFields := fun cs => do
  match name with
  | "from" =>
    let (source, cs) ← readOnce w.source wantString cs
    .ok ({ w with source }, cs)
  | "to" =>
    let (target, cs) ← readOnce w.target wantString cs
    .ok ({ w with target }, cs)
  | "color" =>
    let (color, cs) ← readOnce w.color wantString cs
    .ok ({ w with color }, cs)
  | _ =>
    let cs ← readColon cs
    let cs ← passValue cs
    .ok (w, cs)

def toWire (w : WireFields) : Except Defect Wire := do
  let source ← need w.source
  let target ← need w.target
  .ok ⟨source, target, w.color.getD ""⟩

end WireFields

/-- Reads the next string of a wire that is written as an array, if there is one. -/
def readEnd? (first : Bool) : Reader (Option String) := fun cs => do
  match ← nextItem first cs with
  | none => .ok (none, cs)
  | some cs =>
    let (s, cs) ← wantString cs
    .ok (some s, cs)

/-- Reads a wire that is written as an array, from behind its bracket: two ends and an optional
color. -/
def readWireArray : Reader Wire := fun cs => do
  let (source, cs) ← readEnd? true cs
  let source ← need source
  let (target, cs) ← readEnd? false cs
  let target ← need target
  let (color, cs) ← readEnd? false cs
  match skipSpace cs with
  | [] => .error .cutOff
  | c :: rest => if c = ']' then .ok (⟨source, target, color.getD ""⟩, rest) else .error .notJson

def readWire (levels : Nat) : Reader Wire := fun cs =>
  match skipSpace cs with
  | '[' :: rest => if levels = 0 then .error .notJson else readWireArray rest
  | cs => do
    let (fields, cs) ← wantObject (fun _ => WireFields.readField) {} levels cs
    let wire ← fields.toWire
    .ok (wire, cs)

/-- The fields of a circuit that have been read so far. -/
structure CircuitFields where
  version : Option Datum := none
  editor : Option String := none
  parts : Option (List Part) := none
  wires : Option (List Wire) := none
  extra : List (String × Datum) := []

namespace CircuitFields

def readField (levels : Nat) (c : CircuitFields) (name : String) : Reader CircuitFields := fun cs => do
  match name with
  | "version" =>
    let (version, cs) ← readOnce c.version (readDatum levels) cs
    .ok ({ c with version }, cs)
  | "editor" =>
    let (editor, cs) ← readOnce c.editor wantString cs
    .ok ({ c with editor }, cs)
  | "parts" =>
    let (parts, cs) ← readOnce c.parts (wantArray readPart levels) cs
    .ok ({ c with parts }, cs)
  | "connections" =>
    let (wires, cs) ← readOnce c.wires (wantArray readWire levels) cs
    .ok ({ c with wires }, cs)
  | _ =>
    let (extra, cs) ← readExtra levels c.extra name cs
    .ok ({ c with extra }, cs)

def toCircuit (c : CircuitFields) : Circuit :=
  ⟨c.version.getD .null, c.editor.getD "", c.parts.getD [], c.wires.getD [], c.extra⟩

end CircuitFields

/-- A circuit file that cannot be read. -/
structure CircuitError where
  defect : Defect
  deriving DecidableEq, Repr

def CircuitError.message (e : CircuitError) : String :=
  "Invalid circuit JSON: " ++ match e.defect with
    | .notJson => "the text is not JSON"
    | .cutOff => "the text ends too early"
    | .wrongShape => "the text does not describe a circuit"

/-- Reads a whole circuit file. -/
def Circuit.parse (json : String) : Except CircuitError Circuit :=
  let read : Except Defect Circuit := do
    let (fields, cs) ← wantObject CircuitFields.readField {} maxDepth json.toList
    if (skipSpace cs).isEmpty then .ok fields.toCircuit else .error .notJson
  read.mapError CircuitError.mk

end Breadboard
