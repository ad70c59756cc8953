import Breadboard.Proofs.Circuit.Decoding
import Breadboard.Proofs.Json.Rendering

set_option autoImplicit false

/-!
Circuits read back from their own files. Main statement: a circuit that was read from a text is read
again from the text that it is written to.
-/
namespace Breadboard

open Json

def Part.knownNames : List String := ["type", "id", "attrs", "position"]

def Circuit.knownNames : List String := ["version", "editor", "parts", "connections"]

/-- What a reader with so many levels behind the part's brace gives. -/
structure Part.Kept (levels : Nat) (p : Part) : Prop where
  attrs : p.attrs.Kept levels
  position : p.position.Kept levels
  extra : KeptFields levels p.extra
  unknown : ∀ e ∈ p.extra, e.1 ∉ Part.knownNames

structure Circuit.Kept (levels : Nat) (c : Circuit) : Prop where
  version : c.version.Kept (levels + 2)
  parts : ∀ p ∈ c.parts, p.Kept levels
  extra : KeptFields (levels + 2) c.extra
  unknown : ∀ e ∈ c.extra, e.1 ∉ Circuit.knownNames

/-! ## What is read -/

section

variable {α σ : Type} {levels : Nat} {cs rest : List Char}

theorem readOnce_eq_ok {present read : Option α} {value : Reader α}
    (once : readOnce present value cs = .ok (read, rest)) :
    ∃ a behind, read = some a ∧ value behind = .ok (a, rest) := by
  unfold readOnce at once
  split at once
  · cases once
  · obtain ⟨behind, -, once⟩ := bind_eq_ok_iff.1 once
    obtain ⟨⟨a, _⟩, value, same⟩ := bind_eq_ok_iff.1 once
    cases same
    exact ⟨a, behind, rfl, value⟩

theorem wantObject_eq_ok {field : Nat → σ → String → Reader σ} {start s : σ}
    (read : wantObject field start (levels + 1) cs = .ok (s, rest)) :
    ∃ tail, readObject (field levels) start tail = .ok (s, rest) := by
  unfold wantObject at read
  split at read
  · exact ⟨_, read⟩
  · cases read

theorem wantArray_eq_ok {item : Nat → Reader α} {all : List α}
    (read : wantArray item (levels + 1) cs = .ok (all, rest)) :
    ∃ tail, readArray (item levels) tail = .ok (all, rest) := by
  unfold wantArray at read
  split at read
  · exact ⟨_, read⟩
  · cases read

-- A field of no known name is put among the others.
theorem kept_readExtra {names : List String} {extra extra' : List (String × Datum)} {name : String}
    (kept : KeptFields levels extra) (unknown : ∀ e ∈ extra, e.1 ∉ names) (other : name ∉ names)
    (read : readExtra levels extra name cs = .ok (extra', rest)) :
    KeptFields levels extra' ∧ ∀ e ∈ extra', e.1 ∉ names := by
  obtain ⟨behind, -, read⟩ := bind_eq_ok_iff.1 read
  obtain ⟨⟨d, _⟩, value, same⟩ := bind_eq_ok_iff.1 read
  cases same
  refine ⟨kept.insertInto name (kept_readDatum value), fun e listed => ?_⟩
  obtain rfl | before := Table.mem_insertInto listed
  · exact other
  · exact unknown e before

end

structure PartFields.Kept (levels : Nat) (p : PartFields) : Prop where
  attrs : ∀ d ∈ p.attrs, d.Kept levels
  position : ∀ d ∈ p.position, d.Kept levels
  extra : KeptFields levels p.extra
  unknown : ∀ e ∈ p.extra, e.1 ∉ Part.knownNames

theorem PartFields.Kept.readField {levels : Nat} {p p' : PartFields} {name : String} {cs rest : List Char}
    (kept : p.Kept levels) (read : p.readField levels name cs = .ok (p', rest)) : p'.Kept levels := by
  unfold PartFields.readField at read
  split at read
  · obtain ⟨_, -, same⟩ := bind_eq_ok_iff.1 read
    cases same
    exact ⟨kept.attrs, kept.position, kept.extra, kept.unknown⟩
  · obtain ⟨_, -, same⟩ := bind_eq_ok_iff.1 read
    cases same
    exact ⟨kept.attrs, kept.position, kept.extra, kept.unknown⟩
  · obtain ⟨⟨attrs, _⟩, once, same⟩ := bind_eq_ok_iff.1 read
    cases same
    obtain ⟨d, _, rfl, value⟩ := readOnce_eq_ok once
    exact ⟨fun _ listed => Option.mem_some.1 listed ▸ kept_readDatum value, kept.position, kept.extra, kept.unknown⟩
  · obtain ⟨⟨position, _⟩, once, same⟩ := bind_eq_ok_iff.1 read
    cases same
    obtain ⟨d, _, rfl, value⟩ := readOnce_eq_ok once
    exact ⟨kept.attrs, fun _ listed => Option.mem_some.1 listed ▸ kept_readDatum value, kept.extra, kept.unknown⟩
  · rename_i type id attrs position
    obtain ⟨⟨extra, _⟩, put, same⟩ := bind_eq_ok_iff.1 read
    cases same
    have other : name ∉ Part.knownNames := by
      simp only [Part.knownNames, List.mem_cons, List.not_mem_nil, or_false, not_or]
      exact ⟨type, id, attrs, position⟩
    obtain ⟨fields, unknown⟩ := kept_readExtra kept.extra kept.unknown other put
    exact ⟨kept.attrs, kept.position, fields, unknown⟩

theorem kept_readPart {levels : Nat} {p : Part} {cs rest : List Char}
    (read : readPart (levels + 1) cs = .ok (p, rest)) : p.Kept levels := by
  obtain ⟨⟨fields, _⟩, object, read⟩ := bind_eq_ok_iff.1 read
  obtain ⟨part, whole, same⟩ := bind_eq_ok_iff.1 read
  cases same
  obtain ⟨tail, object⟩ := wantObject_eq_ok object
  have kept : fields.Kept levels :=
    readFields_invariant (P := PartFields.Kept levels) (fun _ _ _ _ _ kept read => kept.readField read) object
      ⟨nofun, nofun, .nil levels, nofun⟩
  obtain ⟨kind, -, whole⟩ := bind_eq_ok_iff.1 whole
  obtain ⟨id, -, same⟩ := bind_eq_ok_iff.1 whole
  cases same
  have getD {present : Option Datum} (each : ∀ d ∈ present, d.Kept levels) : (present.getD .null).Kept levels := by
    cases present with
    | none => exact .null levels
    | some d => exact each d rfl
  exact ⟨getD kept.attrs, getD kept.position, kept.extra, kept.unknown⟩

structure CircuitFields.Kept (levels : Nat) (c : CircuitFields) : Prop where
  version : ∀ d ∈ c.version, d.Kept (levels + 2)
  parts : ∀ ps ∈ c.parts, ∀ p ∈ ps, p.Kept levels
  extra : KeptFields (levels + 2) c.extra
  unknown : ∀ e ∈ c.extra, e.1 ∉ Circuit.knownNames

theorem CircuitFields.Kept.readField {levels : Nat} {c c' : CircuitFields} {name : String} {cs rest : List Char}
    (kept : c.Kept levels) (read : c.readField (levels + 2) name cs = .ok (c', rest)) : c'.Kept levels := by
  unfold CircuitFields.readField at read
  split at read
  · obtain ⟨⟨version, _⟩, once, same⟩ := bind_eq_ok_iff.1 read
    cases same
    obtain ⟨d, _, rfl, value⟩ := readOnce_eq_ok once
    exact ⟨fun _ listed => Option.mem_some.1 listed ▸ kept_readDatum value, kept.parts, kept.extra, kept.unknown⟩
  · obtain ⟨_, -, same⟩ := bind_eq_ok_iff.1 read
    cases same
    exact ⟨kept.version, kept.parts, kept.extra, kept.unknown⟩
  · obtain ⟨⟨parts, _⟩, once, same⟩ := bind_eq_ok_iff.1 read
    cases same
    obtain ⟨ps, _, rfl, array⟩ := readOnce_eq_ok once
    obtain ⟨tail, array⟩ := wantArray_eq_ok array
    have each := readItems_forall (fun _ _ _ => kept_readPart) array nofun
    exact ⟨kept.version, fun _ listed => Option.mem_some.1 listed ▸ each, kept.extra, kept.unknown⟩
  · obtain ⟨_, -, same⟩ := bind_eq_ok_iff.1 read
    cases same
    exact ⟨kept.version, kept.parts, kept.extra, kept.unknown⟩
  · rename_i version editor parts connections
    obtain ⟨⟨extra, _⟩, put, same⟩ := bind_eq_ok_iff.1 read
    cases same
    have other : name ∉ Circuit.knownNames := by
      simp only [Circuit.knownNames, List.mem_cons, List.not_mem_nil, or_false, not_or]
      exact ⟨version, editor, parts, connections⟩
    obtain ⟨fields, unknown⟩ := kept_readExtra kept.extra kept.unknown other put
    exact ⟨kept.version, kept.parts, fields, unknown⟩

theorem kept_parse {json : String} {c : Circuit} (accepted : Circuit.parse json = .ok c) : c.Kept 124 := by
  unfold Circuit.parse at accepted
  simp only at accepted
  generalize read : wantObject CircuitFields.readField {} maxDepth json.toList = object at accepted
  cases object with
  | error e => cases accepted
  | ok object =>
    obtain ⟨fields, rest⟩ := object
    rw [ok_bind] at accepted
    simp only at accepted
    split at accepted
    · cases accepted
      obtain ⟨tail, object⟩ := wantObject_eq_ok (show wantObject _ _ (126 + 1) _ = _ from read)
      have kept : fields.Kept 124 :=
        readFields_invariant (P := CircuitFields.Kept 124) (fun _ _ _ _ _ kept read => kept.readField read) object
          ⟨nofun, nofun, .nil 126, nofun⟩
      refine ⟨?_, ?_, kept.extra, kept.unknown⟩
      · cases present : fields.version with
        | none => simpa [CircuitFields.toCircuit, present] using Datum.Kept.null 126
        | some d => simpa [CircuitFields.toCircuit, present] using kept.version d present
      · cases present : fields.parts with
        | none => simp [CircuitFields.toCircuit, present]
        | some ps => simpa [CircuitFields.toCircuit, present] using kept.parts ps present
    · cases accepted

/-! ## What is written -/

section

variable {σ : Type} {levels : Nat} {names : List String}

-- Fields of no known name are taken up as they are.
theorem foldlM_unknown (take : σ → String × Datum → Option σ) (put : List (String × Datum) → σ)
    (step : ∀ before e, e.1 ∉ names →
      take (put before) e = (e.2.within? levels).map fun d => put (Table.insertInto e.1 d before))
    {fields : List (String × Datum)} (kept : KeptFields levels fields) (unknown : ∀ e ∈ fields, e.1 ∉ names) :
    fields.foldlM take (put []) = some (put fields) :=
  foldlM_ordered take put kept.1 fun before e listed => by
    rw [step before e (unknown e listed), (kept.2 e listed).within?, Option.map_some]

theorem take?_of_unknown_part (p : PartFields) {e : String × Datum} (unknown : e.1 ∉ Part.knownNames) :
    p.take? levels e = (e.2.within? levels).map fun d => { p with extra := Table.insertInto e.1 d p.extra } := by
  simp only [Part.knownNames, List.mem_cons, List.not_mem_nil, or_false, not_or] at unknown
  obtain ⟨type, id, attrs, position⟩ := unknown
  simp [PartFields.take?]

theorem take?_of_unknown_circuit (c : CircuitFields) {e : String × Datum} (unknown : e.1 ∉ Circuit.knownNames) :
    c.take? levels e = (e.2.within? levels).map fun d => { c with extra := Table.insertInto e.1 d c.extra } := by
  simp only [Circuit.knownNames, List.mem_cons, List.not_mem_nil, or_false, not_or] at unknown
  obtain ⟨version, editor, parts, connections⟩ := unknown
  simp [CircuitFields.take?]

end

-- A value that is left out if it is null.
def presentIf (d : Datum) : Option Datum := if d.isNull then none else some d

theorem getD_presentIf (d : Datum) : (presentIf d).getD .null = d := by
  cases d <;> rfl

theorem foldlM_optionalField {σ : Type} {levels : Nat} (take : σ → String × Datum → Option σ)
    (put : Option Datum → σ) (name : String) {d : Datum} (kept : d.Kept levels)
    (step : take (put none) (name, d) = ((d.within? levels).map some).map put) :
    (Part.optionalField name d).foldlM take (put none) = some (put (presentIf d)) := by
  unfold Part.optionalField presentIf
  split
  · rfl
  · rw [List.foldlM_cons, step, kept.within?]
    rfl

theorem ofDatum?_part {levels : Nat} {p : Part} (kept : p.Kept levels) :
    Part.ofDatum? (levels + 1) p.toDatum = some p := by
  have named : [("type", Datum.string p.kind), ("id", .string p.id)].foldlM (PartFields.take? levels) {} =
      some { kind := some p.kind, id := some p.id } := rfl
  have attrs := foldlM_optionalField (PartFields.take? levels)
    (fun attrs => { kind := some p.kind, id := some p.id, attrs }) "attrs" kept.attrs rfl
  have position := foldlM_optionalField (PartFields.take? levels)
    (fun position => { kind := some p.kind, id := some p.id, attrs := presentIf p.attrs, position })
    "position" kept.position rfl
  have extra := foldlM_unknown (PartFields.take? levels) (fun extra =>
      { kind := some p.kind, id := some p.id, attrs := presentIf p.attrs, position := presentIf p.position, extra })
    (fun _ _ unknown => take?_of_unknown_part _ unknown) kept.extra kept.unknown
  have fields : p.toDatum.fields? PartFields.take? {} (levels + 1) = some
      { kind := some p.kind, id := some p.id, attrs := presentIf p.attrs, position := presentIf p.position
        extra := p.extra } := by
    simp only [Part.toDatum, Datum.fields?, List.foldlM_append]
    rw [named]
    simp only [Option.bind_eq_bind, Option.bind_some]
    rw [attrs]
    simp only [Option.bind_some]
    rw [position]
    exact extra
  simp only [Part.ofDatum?, fields, Option.bind_some, PartFields.toPart, need, ok_bind, getD_presentIf]
  rfl

theorem ofDatum?_wire (levels : Nat) (w : Wire) : Wire.ofDatum? (levels + 1) w.toDatum = some w := rfl

theorem mapM_map_eq {α β : Type} {f : β → Option α} {g : α → β} {as : List α} (each : ∀ a ∈ as, f (g a) = some a) :
    (as.map g).mapM f = some as := by
  rw [List.mapM_map]
  exact mapM_eq_self each

theorem ofDatum?_circuit {c : Circuit} (kept : c.Kept 124) : Circuit.ofDatum? c.toDatum = some c := by
  have version := foldlM_optionalField (CircuitFields.take? 126) (fun version => { version }) "version"
    kept.version rfl
  have parts : Datum.items? Part.ofDatum? 126 (.array (c.parts.map Part.toDatum)) = some c.parts :=
    mapM_map_eq fun p listed => ofDatum?_part (kept.parts p listed)
  have wires : Datum.items? Wire.ofDatum? 126 (.array (c.wires.map Wire.toDatum)) = some c.wires :=
    mapM_map_eq fun w _ => ofDatum?_wire 124 w
  have known : [("editor", Datum.string c.editor), ("parts", .array (c.parts.map Part.toDatum)),
      ("connections", .array (c.wires.map Wire.toDatum))].foldlM (CircuitFields.take? 126)
        { version := presentIf c.version } = some
          { version := presentIf c.version, editor := some c.editor, parts := some c.parts
            wires := some c.wires } := by
    simp [CircuitFields.take?, takeOnce?, parts, wires, Datum.string?]
  have extra := foldlM_unknown (CircuitFields.take? 126) (fun extra =>
      { version := presentIf c.version, editor := some c.editor, parts := some c.parts, wires := some c.wires, extra })
    (fun _ _ unknown => take?_of_unknown_circuit _ unknown) kept.extra kept.unknown
  have fields : c.toDatum.fields? CircuitFields.take? {} maxDepth = some
      { version := presentIf c.version, editor := some c.editor, parts := some c.parts, wires := some c.wires
        extra := c.extra } := by
    simp only [Circuit.toDatum, Datum.fields?, maxDepth, List.foldlM_append]
    rw [version]
    simp only [Option.bind_eq_bind, Option.bind_some]
    rw [known]
    exact extra
  simp [Circuit.ofDatum?, fields, CircuitFields.toCircuit, getD_presentIf]

theorem eq_of_mem_optionalField {name : String} {d : Datum} {e : String × Datum}
    (listed : e ∈ Part.optionalField name d) : e = (name, d) := by
  unfold Part.optionalField at listed
  split at listed
  · cases listed
  · exact List.mem_singleton.1 listed

theorem Part.Kept.legible {levels : Nat} {p : Part} (kept : p.Kept levels)
    (exact : ∀ x ∈ p.toDatum.reals, (Numeral.real x).ReadsBack) : p.toDatum.Legible (levels + 1) := by
  refine .object fun e listed => ?_
  have exact : ∀ x ∈ e.2.reals, (Numeral.real x).ReadsBack := fun x real => exact x (mem_realsOfFields listed real)
  simp only [List.mem_append] at listed
  obtain ((named | attrs) | position) | extra := listed
  · simp only [List.mem_cons, List.not_mem_nil, or_false] at named
    obtain rfl | rfl := named <;> exact .string _
  · obtain rfl := eq_of_mem_optionalField attrs
    exact kept.attrs.legible exact
  · obtain rfl := eq_of_mem_optionalField position
    exact kept.position.legible exact
  · exact (kept.extra.2 e extra).legible exact

theorem Wire.legible (levels : Nat) (w : Wire) : w.toDatum.Legible (levels + 1) := by
  refine .object fun e listed => ?_
  simp only [List.mem_cons, List.not_mem_nil, or_false] at listed
  obtain rfl | rfl | rfl := listed <;> exact .string _

theorem Circuit.Kept.legible {c : Circuit} (kept : c.Kept 124)
    (exact : ∀ x ∈ c.toDatum.reals, (Numeral.real x).ReadsBack) : c.toDatum.Legible maxDepth := by
  refine .object fun e listed => ?_
  have exact : ∀ x ∈ e.2.reals, (Numeral.real x).ReadsBack := fun x real => exact x (mem_realsOfFields listed real)
  simp only [List.mem_append] at listed
  obtain (version | known) | extra := listed
  · obtain rfl := eq_of_mem_optionalField version
    exact kept.version.legible exact
  · simp only [List.mem_cons, List.not_mem_nil, or_false] at known
    obtain rfl | rfl | rfl := known
    · exact .string _
    · refine .array fun d listed => ?_
      obtain ⟨p, part, rfl⟩ := List.mem_map.1 listed
      exact (kept.parts p part).legible fun x real => exact x (mem_realsOfItems listed real)
    · refine .array fun d listed => ?_
      obtain ⟨w, -, rfl⟩ := List.mem_map.1 listed
      exact w.legible _
  · exact (kept.extra.2 e extra).legible exact

/-! ## Sameness -/

mutual

theorem Json.Datum.same_refl : ∀ d : Datum, d.same d = true
  | .null => rfl
  | .bool b => by simp [Datum.same]
  | .number n => by simp [Datum.same]
  | .string s => by simp [Datum.same]
  | .array items => Json.Datum.sameItems_refl items
  | .object fields => Json.Datum.sameFields_refl fields

theorem Json.Datum.sameItems_refl : ∀ items : List Datum, Datum.sameItems items items = true
  | [] => rfl
  | item :: items => by simp [Datum.sameItems, item.same_refl, Json.Datum.sameItems_refl items]

theorem Json.Datum.sameFields_refl : ∀ fields : List (String × Datum), Datum.sameFields fields fields = true
  | [] => rfl
  | (name, d) :: fields => by simp [Datum.sameFields, d.same_refl, Json.Datum.sameFields_refl fields]

end

theorem Part.same_refl (p : Part) : p.same p = true := by
  simp [Part.same, Datum.same_refl, Datum.sameFields_refl]

theorem Circuit.same_refl (c : Circuit) : c.same c = true := by
  have parts (ps : List Part) : ((ps.zip ps).all fun pair => pair.1.same pair.2) = true := by
    induction ps with
    | nil => rfl
    | cons p ps ih => simp [p.same_refl, ih]
  simp [Circuit.same, Datum.same_refl, Datum.sameFields_refl, parts]

/-- A circuit that was read is read again from the text that it is written to, if its numbers that are
not whole are read back from their texts. -/
theorem Circuit.parse_render {json : String} {c : Circuit} (accepted : Circuit.parse json = .ok c)
    (exact : ∀ x ∈ c.toDatum.reals, (Numeral.real x).ReadsBack) :
    ∃ again, Circuit.parse c.render = .ok again ∧ again = c ∧ again.same c = true ∧ again.render = c.render := by
  have kept := kept_parse accepted
  have described : (Circuit.parse c.render).toOption = some c :=
    (toOption_parse (kept.legible exact).holds).trans (ofDatum?_circuit kept)
  exact ⟨c, toOption_eq_some_iff.1 described, rfl, c.same_refl, rfl⟩

-- Known fields in any order, a wire as an array, a null, fields of no known name and an escape.
def mixedFile : String :=
  "\x7b\"who\": \"a\\tb\", \"connections\": [[\"esp:2\", \"led:A\"]], \"version\": 1.5, \"parts\": " ++
    "[\x7b\"y\": [true], \"id\": \"led\", \"attrs\": null, \"type\": \"LED\", \"top\": -7\x7d]\x7d"

theorem Circuit.parse_render_mixedFile : ∃ c, Circuit.parse mixedFile = .ok c ∧ c.toDatum.reals = [1.5] ∧
    (∀ x ∈ c.toDatum.reals, (Numeral.real x).ReadsBack) ∧
    ∃ again, Circuit.parse c.render = .ok again ∧ again = c ∧ again.same c = true ∧ again.render = c.render := by
  have evaluated : ((Circuit.parse mixedFile).toOption.map fun c => c.toDatum.reals) = some [1.5] := by
    decide +kernel
  obtain ⟨c, accepted, reals⟩ := Option.map_eq_some_iff.1 evaluated
  have accepted := toOption_eq_some_iff.1 accepted
  have exact : ∀ x ∈ c.toDatum.reals, (Numeral.real x).ReadsBack := by
    intro x listed
    obtain rfl := List.mem_singleton.1 (reals ▸ listed)
    rfl
  exact ⟨c, accepted, reals, exact, Circuit.parse_render accepted exact⟩

end Breadboard
