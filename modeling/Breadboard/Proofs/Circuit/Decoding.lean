import Breadboard.Circuit.Reader
import Breadboard.Proofs.Json.Kept
import Breadboard.Proofs.Json.Passing

set_option autoImplicit false

/-!
The circuit that a document describes. Main statement: the circuit that is read from a text is the one
that the document in the text describes, and none is read if the document describes none.
-/
namespace Breadboard

open Json

-- Takes up a field that must not be there yet.
def takeOnce? {α : Type} (present : Option α) (decode : Datum → Option α) (d : Datum) : Option (Option α) :=
  if present.isSome then none else (decode d).map some

def PartFields.take? (levels : Nat) (p : PartFields) (e : String × Datum) : Option PartFields :=
  match e.1 with
  | "type" => (takeOnce? p.kind Datum.string? e.2).map fun kind => { p with kind }
  | "id" => (takeOnce? p.id Datum.string? e.2).map fun id => { p with id }
  | "attrs" => (takeOnce? p.attrs (Datum.within? levels) e.2).map fun attrs => { p with attrs }
  | "position" => (takeOnce? p.position (Datum.within? levels) e.2).map fun position => { p with position }
  | name => (e.2.within? levels).map fun d => { p with extra := Table.insertInto name d p.extra }

def WireFields.take? (w : WireFields) (e : String × Datum) : Option WireFields :=
  match e.1 with
  | "from" => (takeOnce? w.source Datum.string? e.2).map fun source => { w with source }
  | "to" => (takeOnce? w.target Datum.string? e.2).map fun target => { w with target }
  | "color" => (takeOnce? w.color Datum.string? e.2).map fun color => { w with color }
  | _ => some w

-- Takes up the fields of an object that is nested no deeper than the levels allow.
def Json.Datum.fields? {σ : Type} (take : Nat → σ → String × Datum → Option σ) (start : σ) : Nat → Datum → Option σ
  | levels + 1, .object fields => fields.foldlM (take levels) start
  | _, _ => none

def Part.ofDatum? (levels : Nat) (d : Datum) : Option Part :=
  (d.fields? PartFields.take? {} levels).bind fun p => p.toPart.toOption

-- The color behind the two ends of a wire, which may be left out.
def Wire.colorOf? : List Datum → Option String
  | [] => some ""
  | [color] => color.string?
  | _ => none

-- A wire that is written as an array.
def Wire.ofItems? : List Datum → Option Wire
  | source :: target :: others =>
    source.string?.bind fun source => target.string?.bind fun target =>
      (Wire.colorOf? others).map fun color => ⟨source, target, color⟩
  | _ => none

def Wire.ofDatum? (levels : Nat) : Datum → Option Wire
  | .array items => if levels = 0 then none else Wire.ofItems? items
  | d => (d.fields? (fun _ => WireFields.take?) {} levels).bind fun w => w.toWire.toOption

def CircuitFields.take? (levels : Nat) (c : CircuitFields) (e : String × Datum) : Option CircuitFields :=
  match e.1 with
  | "version" => (takeOnce? c.version (Datum.within? levels) e.2).map fun version => { c with version }
  | "editor" => (takeOnce? c.editor Datum.string? e.2).map fun editor => { c with editor }
  | "parts" => (takeOnce? c.parts (Datum.items? Part.ofDatum? levels) e.2).map fun parts => { c with parts }
  | "connections" => (takeOnce? c.wires (Datum.items? Wire.ofDatum? levels) e.2).map fun wires => { c with wires }
  | name => (e.2.within? levels).map fun d => { c with extra := Table.insertInto name d c.extra }

/-- The circuit that a document describes, if it describes one. -/
def Circuit.ofDatum? (d : Datum) : Option Circuit :=
  (d.fields? CircuitFields.take? {} maxDepth).map CircuitFields.toCircuit

/-! ## Readers follow their decoders -/

section

variable {α σ : Type} {levels : Nat} {cs behind rest : List Char} {d : Datum}

-- A known field is taken up into the fields in front.
theorem readOnce_decodes {value : Reader α} {decode : Datum → Option α} (decodes : Decodes value decode)
    (present : Option α) (put : Option α → σ) (colon : readColon cs = .ok behind)
    (read : readDocument levels behind = .ok (d, rest)) :
    (readOnce present value cs >>= fun read => .ok (put read.1, read.2)).toOption =
      ((takeOnce? present decode d).map put).map (·, rest) := by
  unfold readOnce takeOnce?
  split
  · rfl
  · simp only [colon, ok_bind, toOption_bind, decodes levels behind d rest read]
    cases decode d <;> rfl

-- So is a field of no known name.
theorem readExtra_decodes (inner : Nat) (extra : List (String × Datum)) (name : String)
    (put : List (String × Datum) → σ) (colon : readColon cs = .ok behind)
    (read : readDocument levels behind = .ok (d, rest)) :
    (readExtra inner extra name cs >>= fun read => .ok (put read.1, read.2)).toOption =
      ((d.within? inner).map fun d => put (Table.insertInto name d extra)).map (·, rest) := by
  simp only [readExtra, colon, ok_bind, toOption_bind, decodes_readDatum inner levels behind d rest read]
  cases d.within? inner <;> rfl

theorem decodes_wantObject {field : Nat → σ → String → Reader σ} {take : Nat → σ → String × Datum → Option σ}
    (decodes : ∀ levels, DecodesField (field levels) (take levels)) (start : σ) (levels : Nat) :
    Decodes (wantObject field start levels) (Datum.fields? take start levels) := by
  intro _ cs d rest read
  cases opening_of_read read with
  | string opens => simp [wantObject, opens, Datum.fields?, Except.toOption]
  | array opens => simp [wantObject, opens, Datum.fields?, Except.toOption]
  | object opens _ read =>
    cases levels with
    | zero => simp [wantObject, opens, Datum.fields?, Except.toOption]
    | succ levels =>
      simp only [wantObject, opens, Datum.fields?]
      exact readObject_decodes read (decodes levels) start
  | @plain c _ _ _ opens _ _ brace plain =>
    have none : d.fields? take start levels = none := by
      cases d with
      | null | bool | number | string | array => cases levels <;> rfl
      | object => cases plain
    simp [wantObject, opens, brace, none, Except.toOption]

end

theorem decodesField_part (levels : Nat) : DecodesField (PartFields.readField levels) (PartFields.take? levels) := by
  intro _ p name cs behind d rest colon read
  unfold PartFields.readField PartFields.take?
  split
  · exact readOnce_decodes decodes_wantString p.kind (fun kind => { p with kind }) colon read
  · exact readOnce_decodes decodes_wantString p.id (fun id => { p with id }) colon read
  · exact readOnce_decodes (decodes_readDatum levels) p.attrs (fun attrs => { p with attrs }) colon read
  · exact readOnce_decodes (decodes_readDatum levels) p.position (fun position => { p with position }) colon read
  · simp only
    exact readExtra_decodes levels p.extra name (fun extra => { p with extra }) colon read

theorem decodes_readPart (levels : Nat) : Decodes (readPart levels) (Part.ofDatum? levels) := by
  intro _ cs d rest read
  have fields := decodes_wantObject decodesField_part {} levels _ cs d rest read
  unfold readPart Part.ofDatum?
  rw [toOption_bind, fields]
  cases d.fields? PartFields.take? {} levels with
  | none => rfl
  | some p =>
    simp only [Option.map_some, Option.bind_some, toOption_bind]
    cases p.toPart.toOption <;> rfl

theorem decodesField_wire : DecodesField WireFields.readField WireFields.take? := by
  intro _ w name cs behind d rest colon read
  unfold WireFields.readField WireFields.take?
  split
  · exact readOnce_decodes decodes_wantString w.source (fun source => { w with source }) colon read
  · exact readOnce_decodes decodes_wantString w.target (fun target => { w with target }) colon read
  · exact readOnce_decodes decodes_wantString w.color (fun color => { w with color }) colon read
  · simp only [colon, passValue_of_read read, ok_bind]
    rfl

/-! ## Wires that are written as arrays -/

-- The items of an array from an item on.
inductive ItemsAt (levels : Nat) : Bool → List Char → List Datum → List Char → Prop
  | done {first : Bool} {cs : List Char} (next : nextItem first cs = .ok none) :
      ItemsAt levels first cs [] (skipSpace cs).tail
  | goOn {first : Bool} {cs more behind rest : List Char} {d : Datum} {ds : List Datum}
      (next : nextItem first cs = .ok (some more)) (value : readDocument levels more = .ok (d, behind))
      (others : ItemsAt levels false behind ds rest) : ItemsAt levels first cs (d :: ds) rest

theorem itemsAt_of_readItems {levels fuel : Nat} {first : Bool} {seen all : List Datum} {cs rest : List Char}
    (read : readItems (readDocument levels) fuel first seen cs = .ok (all, rest)) :
    ∃ ds, all = seen.reverse ++ ds ∧ ItemsAt levels first cs ds rest := by
  induction fuel generalizing first seen cs with
  | zero => cases read
  | succ fuel ih =>
    cases itemsStep_of_read read with
    | done next => exact ⟨[], (List.append_nil _).symm, .done next⟩
    | goOn next value others =>
      obtain ⟨ds, split, items⟩ := ih others
      exact ⟨_ :: ds, by simp [split], .goOn next value items⟩

theorem readEnd?_done {first : Bool} {cs : List Char} (next : nextItem first cs = .ok none) :
    (readEnd? first cs).toOption = some (none, cs) := by
  rw [readEnd?, next]
  rfl

theorem readEnd?_goOn {levels : Nat} {first : Bool} {cs more behind : List Char} {d : Datum}
    (next : nextItem first cs = .ok (some more)) (value : readDocument levels more = .ok (d, behind)) :
    (readEnd? first cs).toOption = d.string?.map fun s => (some s, behind) := by
  simp only [readEnd?, next, ok_bind, toOption_bind, decodes_wantString levels more d behind value]
  cases d.string? <;> rfl

-- Reads the color and the end of the array.
def readWireEnd (source target : String) : Reader Wire := fun cs => do
  let (color, cs) ← readEnd? false cs
  match skipSpace cs with
  | [] => .error .cutOff
  | c :: rest => if c = ']' then .ok (⟨source, target, color.getD ""⟩, rest) else .error .notJson

theorem readWireEnd_decodes (source target : String) {levels : Nat} {cs rest : List Char} {items : List Datum}
    (array : ItemsAt levels false cs items rest) :
    (readWireEnd source target cs).toOption =
      (Wire.colorOf? items).map fun color => (⟨source, target, color⟩, rest) := by
  unfold readWireEnd
  rw [toOption_bind]
  cases array with
  | done next =>
    obtain ⟨tail, closes⟩ := end_of_nextItem next
    simp [readEnd?_done next, closes, Wire.colorOf?]
  | @goOn _ _ _ _ _ color others next value array =>
    rw [readEnd?_goOn next value]
    cases array with
    | done next =>
      obtain ⟨tail, closes⟩ := end_of_nextItem next
      cases text : color.string? <;> simp [closes, Wire.colorOf?, text]
    | goOn next =>
      -- A fourth item stands behind a comma, where the array should end.
      cases itemAt_of_next next with
      | next opens => cases text : color.string? <;> simp [opens, Wire.colorOf?]

theorem toOption_need {α : Type} (present : Option α) : (need present).toOption = present := by
  cases present <;> rfl

theorem readWireArray_decodes {levels : Nat} {cs rest : List Char} {items : List Datum}
    (array : ItemsAt levels true cs items rest) :
    (readWireArray cs).toOption = (Wire.ofItems? items).map (·, rest) := by
  have opened : readWireArray cs = readEnd? true cs >>= fun source => need source.1 >>= fun first =>
      readEnd? false source.2 >>= fun target => need target.1 >>= fun second =>
        readWireEnd first second target.2 := rfl
  simp only [opened, toOption_bind, toOption_need]
  cases array with
  | done next => simp [readEnd?_done next, Wire.ofItems?]
  | @goOn _ _ _ _ _ source _ next value array =>
    rw [readEnd?_goOn next value]
    cases array with
    | done next => cases source.string? <;> simp [readEnd?_done next, Wire.ofItems?]
    | @goOn _ _ _ _ _ target others next value array =>
      rw [Wire.ofItems?]
      cases source.string? with
      | none => rfl
      | some first =>
        simp only [Option.map_some, Option.bind_some]
        rw [readEnd?_goOn next value]
        cases target.string? with
        | none => rfl
        | some second =>
          simp only [Option.map_some, Option.bind_some]
          rw [readWireEnd_decodes first second array, Option.map_map]
          rfl

theorem decodes_readWire (levels : Nat) : Decodes (readWire levels) (Wire.ofDatum? levels) := by
  intro _ cs d rest read
  have fields := decodes_wantObject (fun _ => decodesField_wire) {} levels _ cs d rest read
  -- What is not written as an array is read as an object.
  have object (other : ∀ tail, skipSpace cs ≠ '[' :: tail) : (readWire levels cs).toOption =
      ((d.fields? (fun _ => WireFields.take?) {} levels).bind fun w => w.toWire.toOption).map (·, rest) := by
    have opened : readWire levels cs = wantObject (fun _ => WireFields.readField) {} levels (skipSpace cs) >>=
        fun read => read.1.toWire >>= fun wire => .ok (wire, read.2) := by
      unfold readWire
      split
      · exact absurd ‹_› (other _)
      · rfl
    have skipped : wantObject (fun _ => WireFields.readField) {} levels (skipSpace cs) =
        wantObject (fun _ => WireFields.readField) {} levels cs := by
      unfold wantObject
      rw [skipSpace_skipSpace]
    rw [opened, skipped, toOption_bind, fields]
    cases d.fields? (fun _ => WireFields.take?) {} levels with
    | none => rfl
    | some w =>
      simp only [Option.map_some, Option.bind_some, toOption_bind]
      cases w.toWire.toOption <;> rfl
  cases opening_of_read read with
  | @array inner tail _ items opens _ array =>
    obtain ⟨ds, rfl, array⟩ := itemsAt_of_readItems array
    simp only [readWire, opens, Wire.ofDatum?]
    split
    · rfl
    · exact readWireArray_decodes array
  | string opens => exact object (by simp [opens])
  | object opens => exact object (by simp [opens])
  | plain opens _ bracket _ plain =>
    rw [object (by simp [opens, bracket])]
    cases d with
    | null | bool | number => rfl
    | string | array | object => cases plain

theorem decodesField_circuit (levels : Nat) :
    DecodesField (CircuitFields.readField levels) (CircuitFields.take? levels) := by
  intro _ c name cs behind d rest colon read
  unfold CircuitFields.readField CircuitFields.take?
  split
  · exact readOnce_decodes (decodes_readDatum levels) c.version (fun version => { c with version }) colon read
  · exact readOnce_decodes decodes_wantString c.editor (fun editor => { c with editor }) colon read
  · exact readOnce_decodes (decodes_wantArray decodes_readPart levels) c.parts (fun parts => { c with parts }) colon read
  · exact readOnce_decodes (decodes_wantArray decodes_readWire levels) c.wires (fun wires => { c with wires }) colon read
  · simp only
    exact readExtra_decodes levels c.extra name (fun extra => { c with extra }) colon read

/-- What is read from a text is what the document in it describes. -/
theorem toOption_parse {json : String} {d : Datum} (holds : Holds json d) :
    (Circuit.parse json).toOption = Circuit.ofDatum? d := by
  obtain ⟨levels, rest, read, blank⟩ := holds
  have fields := decodes_wantObject decodesField_circuit {} maxDepth _ _ d rest read
  have opened : (Circuit.parse json).toOption =
      (wantObject CircuitFields.readField {} maxDepth json.toList >>= fun read =>
        if (skipSpace read.2).isEmpty then Except.ok read.1.toCircuit else Except.error Defect.notJson).toOption := by
    unfold Circuit.parse
    cases wantObject CircuitFields.readField {} maxDepth json.toList with
    | error e => rfl
    | ok read =>
      simp only [ok_bind]
      split <;> rfl
  rw [opened, toOption_bind, fields, Circuit.ofDatum?]
  cases d.fields? CircuitFields.take? {} maxDepth with
  | none => rfl
  | some c =>
    simp only [Option.map_some, Option.bind_some, blank, if_true]
    rfl

end Breadboard
