import Breadboard.Proofs.Circuit.RoundTrip
import Breadboard.Proofs.Json.Values

set_option autoImplicit false

/-!
What an export keeps of the file that was imported. Main statement: an exported circuit has the value of
the imported document with its wires as objects, its defaults filled in and its nulls left out, but for
the fields of no known name of its wires; these are lost.
-/
namespace Breadboard

open Json

def Wire.knownNames : List String := ["from", "to", "color"]

/-! ## Forms of documents -/

section

variable {name : String} {fields : List (String × Datum)}

-- Leaves a field out that is null.
def dropNull (name : String) (fields : List (String × Datum)) : List (String × Datum) :=
  if (fields.lookup name).any Datum.isNull then fields.filter (·.1 != name) else fields

-- Adds a field that is not there.
def addDefault (name : String) (d : Datum) (fields : List (String × Datum)) : List (String × Datum) :=
  if (fields.lookup name).isSome then fields else Table.insertInto name d fields

def onItems (form : Datum → Datum) : Datum → Datum
  | .array items => .array (items.map form)
  | d => d

theorem lookup_filter (keep : String → Bool) (name : String) (fields : List (String × Datum)) :
    (fields.filter fun e => keep e.1).lookup name = if keep name then fields.lookup name else none := by
  induction fields with
  | nil => simp
  | cons e fields ih =>
    obtain ⟨n, d⟩ := e
    by_cases kept : keep n = true
    · rw [List.filter_cons, if_pos kept]
      by_cases same : name = n
      · subst same
        rw [List.lookup_cons_self, List.lookup_cons_self, if_pos kept]
      · rw [Table.lookup_cons_of_ne d _ same, Table.lookup_cons_of_ne d _ same, ih]
    · rw [List.filter_cons, if_neg kept, ih]
      by_cases same : name = n
      · subst same
        rw [if_neg kept, if_neg kept]
      · rw [Table.lookup_cons_of_ne d _ same]

theorem lookup_dropNull (name other : String) (fields : List (String × Datum)) :
    (dropNull name fields).lookup other =
      if other = name then (fields.lookup name).bind presentIf else fields.lookup other := by
  unfold dropNull
  split
  · rename_i null
    rw [lookup_filter (· != name)]
    by_cases same : other = name
    · subst same
      cases found : fields.lookup other with
      | none => simp
      | some d => simp_all [presentIf]
    · simp [same]
  · rename_i present
    split
    · rename_i same
      subst same
      cases found : fields.lookup other with
      | none => rfl
      | some d => simp_all [presentIf]
    · rfl

theorem lookup_addDefault (name other : String) (d : Datum) (fields : List (String × Datum)) :
    (addDefault name d fields).lookup other =
      if other = name then some ((fields.lookup name).getD d) else fields.lookup other := by
  unfold addDefault
  split
  · rename_i present
    split
    · rename_i same
      subst same
      obtain ⟨e, found⟩ := Option.isSome_iff_exists.1 present
      rw [found]
      rfl
    · rfl
  · rename_i absent
    rw [Table.lookup_insertInto, Option.not_isSome_iff_eq_none.1 absent]
    rfl

theorem lookup_mapValues (f : String → Datum → Datum) (name : String) (fields : List (String × Datum)) :
    (fields.map fun e => (e.1, f e.1 e.2)).lookup name = (fields.lookup name).map (f name) := by
  induction fields with
  | nil => rfl
  | cons e fields ih =>
    obtain ⟨n, d⟩ := e
    rw [List.map_cons]
    by_cases same : name = n
    · subst same
      rw [List.lookup_cons_self, List.lookup_cons_self, Option.map_some]
    · rw [Table.lookup_cons_of_ne d _ same, Table.lookup_cons_of_ne _ _ same, ih]

theorem ordered_dropNull (ordered : Table.Ordered fields) : Table.Ordered (dropNull name fields) := by
  unfold dropNull
  split
  · exact ordered.filter _
  · exact ordered

theorem ordered_addDefault (d : Datum) (ordered : Table.Ordered fields) : Table.Ordered (addDefault name d fields) := by
  unfold addDefault
  split
  · exact ordered
  · exact Table.ordered_insertInto name d ordered

theorem ordered_mapValues (f : String → Datum → Datum) (ordered : Table.Ordered fields) :
    Table.Ordered (fields.map fun e => (e.1, f e.1 e.2)) :=
  List.pairwise_map.2 ordered

end

-- A part without the nulls that are left out.
def Part.normalForm : Datum → Datum
  | .object fields => .object (dropNull "attrs" (dropNull "position" fields))
  | d => d

-- A wire as an object with its color.
def Wire.normalForm : Datum → Datum
  | .array [source, target] => .object [("color", .string ""), ("from", source), ("to", target)]
  | .array [source, target, color] => .object [("color", color), ("from", source), ("to", target)]
  | .object fields => .object (addDefault "color" (.string "") fields)
  | d => d

def Wire.withoutUnknown : Datum → Datum
  | .object fields => .object (fields.filter fun e => Wire.knownNames.contains e.1)
  | d => d

def Circuit.fieldForm (wire : Datum → Datum) (name : String) (d : Datum) : Datum :=
  if name = "parts" then onItems Part.normalForm d
  else if name = "connections" then onItems wire d
  else d

-- The fields of a circuit with its defaults and without the null that is left out.
def Circuit.formFields (wire : Datum → Datum) (fields : List (String × Datum)) : List (String × Datum) :=
  addDefault "editor" (.string "") <| addDefault "parts" (.array []) <| addDefault "connections" (.array []) <|
    dropNull "version" <| fields.map fun e => (e.1, Circuit.fieldForm wire e.1 e.2)

def Circuit.normalForm (wire : Datum → Datum) : Datum → Datum
  | .object fields => .object (Circuit.formFields wire fields)
  | d => d

theorem ordered_formFields (wire : Datum → Datum) {fields : List (String × Datum)} (ordered : Table.Ordered fields) :
    Table.Ordered (Circuit.formFields wire fields) :=
  ordered_addDefault _ (ordered_addDefault _ (ordered_addDefault _ (ordered_dropNull (ordered_mapValues _ ordered))))

theorem lookup_formFields (wire : Datum → Datum) (fields : List (String × Datum)) (name : String) :
    (Circuit.formFields wire fields).lookup name =
      let form (name : String) := (fields.lookup name).map (Circuit.fieldForm wire name)
      if name = "editor" then some ((form "editor").getD (.string ""))
      else if name = "parts" then some ((form "parts").getD (.array []))
      else if name = "connections" then some ((form "connections").getD (.array []))
      else if name = "version" then (form "version").bind presentIf
      else form name := by
  simp [Circuit.formFields, lookup_addDefault, lookup_dropNull, lookup_mapValues]

/-! ## Fields and their values -/

theorem takeOnce?_eq_some {α : Type} {present taken : Option α} {decode : Datum → Option α} {d : Datum}
    (once : takeOnce? present decode d = some taken) : present = none ∧ ∃ a, taken = some a ∧ decode d = some a := by
  unfold takeOnce? at once
  split at once
  · cases once
  · rename_i absent
    obtain ⟨a, value, rfl⟩ := Option.map_eq_some_iff.1 once
    exact ⟨Option.not_isSome_iff_eq_none.1 absent, a, rfl, value⟩

theorem value_of_string? {d : Datum} {s : String} (text : d.string? = some s) : d.value = .string s := by
  cases d with
  | string t =>
    cases text
    rfl
  | null | bool | number | array | object => cases text

theorem takeOnce?_string {present taken : Option String} {d : Datum}
    (once : takeOnce? present Datum.string? d = some taken) : taken.map .string = some d.value := by
  obtain ⟨-, s, rfl, text⟩ := takeOnce?_eq_some once
  rw [value_of_string? text, Option.map_some]

theorem takeOnce?_within {levels : Nat} {present taken : Option Datum} {d : Datum}
    (once : takeOnce? present (Datum.within? levels) d = some taken) : taken = some d.value := by
  obtain ⟨-, e, rfl, within⟩ := takeOnce?_eq_some once
  rw [eq_value_of_within? within]

-- The fields that an object with an extra of no known name has.
theorem lookup_extra {levels : Nat} {extra : List (String × Datum)} (kept : KeptFields levels extra)
    (known : List (String × Datum)) (name : String) :
    (fieldValues (known ++ extra)).lookup name = (extra.lookup name).or ((fieldValues known).lookup name) := by
  rw [lookup_fieldValues_append, kept.fieldValues]

theorem lookup_eq_none_of_unknown {names : List String} {extra : List (String × Datum)} {name : String}
    (unknown : ∀ e ∈ extra, e.1 ∉ names) (known : name ∈ names) : extra.lookup name = none := by
  rw [List.lookup_eq_none_iff]
  intro e listed
  rw [bne_iff_ne]
  rintro rfl
  exact unknown e listed known

/-! ## Parts -/

def PartFields.field? (p : PartFields) (name : String) : Option Datum :=
  if name = "type" then p.kind.map .string
  else if name = "id" then p.id.map .string
  else if name = "attrs" then p.attrs
  else if name = "position" then p.position
  else p.extra.lookup name

theorem PartFields.field?_take {levels : Nat} {p p' : PartFields} {e : String × Datum}
    (taken : p.take? levels e = some p') (name : String) :
    p'.field? name = if name = e.1 then some e.2.value else p.field? name := by
  unfold PartFields.take? at taken
  split at taken
  · rename_i called
    obtain ⟨kind, once, rfl⟩ := Option.map_eq_some_iff.1 taken
    have value := takeOnce?_string once
    by_cases same : name = "type" <;> simp [PartFields.field?, called, same, value]
  · rename_i called
    obtain ⟨id, once, rfl⟩ := Option.map_eq_some_iff.1 taken
    have value := takeOnce?_string once
    by_cases same : name = "id" <;> simp [PartFields.field?, called, same, value]
  · rename_i called
    obtain ⟨attrs, once, rfl⟩ := Option.map_eq_some_iff.1 taken
    have value := takeOnce?_within once
    by_cases same : name = "attrs" <;> simp [PartFields.field?, called, same, value]
  · rename_i called
    obtain ⟨position, once, rfl⟩ := Option.map_eq_some_iff.1 taken
    have value := takeOnce?_within once
    by_cases same : name = "position" <;> simp [PartFields.field?, called, same, value]
  · rename_i type id attrs position
    obtain ⟨d, within, rfl⟩ := Option.map_eq_some_iff.1 taken
    rw [← eq_value_of_within? within]
    by_cases same : name = e.1
    · simp only [PartFields.field?, same, if_neg type, if_neg id, if_neg attrs, if_neg position,
        Table.lookup_insertInto, if_true]
    · simp [PartFields.field?, same, Table.lookup_insertInto]

def Part.field? (p : Part) (name : String) : Option Datum :=
  if name = "type" then some (.string p.kind)
  else if name = "id" then some (.string p.id)
  else if name = "attrs" then presentIf p.attrs
  else if name = "position" then presentIf p.position
  else p.extra.lookup name

theorem lookup_optionalField {levels : Nat} {d : Datum} (kept : d.Kept levels) (field name : String) :
    (fieldValues (Part.optionalField field d)).lookup name = if name = field then presentIf d else none := by
  unfold Part.optionalField presentIf
  split
  · simp
  · simp [lookup_fieldValues_cons, kept.value]

-- The fields that are written to a part's file.
def Part.fields (p : Part) : List (String × Datum) :=
  [("type", .string p.kind), ("id", .string p.id)] ++ Part.optionalField "attrs" p.attrs ++
    Part.optionalField "position" p.position ++ p.extra

theorem Part.Kept.lookup_fields {levels : Nat} {p : Part} (kept : p.Kept levels) (name : String) :
    (fieldValues p.fields).lookup name = p.field? name := by
  rw [Part.fields, lookup_extra kept.extra, lookup_fieldValues_append, lookup_fieldValues_append,
    lookup_optionalField kept.attrs, lookup_optionalField kept.position]
  by_cases known : name ∈ Part.knownNames
  · rw [lookup_eq_none_of_unknown kept.unknown known]
    simp only [Part.knownNames, List.mem_cons, List.not_mem_nil, or_false] at known
    obtain rfl | rfl | rfl | rfl := known <;> simp [Part.field?, lookup_fieldValues_cons]
  · simp only [Part.knownNames, List.mem_cons, List.not_mem_nil, or_false, not_or] at known
    obtain ⟨type, id, attrs, position⟩ := known
    simp [Part.field?, lookup_fieldValues_cons, type, id, attrs, position]

theorem fields?_eq_some {σ : Type} {take : Nat → σ → String × Datum → Option σ} {start s : σ} {levels : Nat}
    {d : Datum} (taken : d.fields? take start levels = some s) :
    ∃ inner fields, levels = inner + 1 ∧ d = .object fields ∧ fields.foldlM (take inner) start = some s := by
  cases levels with
  | zero => cases taken
  | succ inner =>
    cases d with
    | object fields => exact ⟨inner, fields, rfl, rfl, taken⟩
    | null | bool | number | string | array => cases taken

theorem presentIf_getD (present : Option Datum) : presentIf (present.getD .null) = present.bind presentIf := by
  cases present <;> rfl

-- A part that is written again is what it was read from.
theorem value_of_part {levels inner : Nat} {d : Datum} {p : Part} (described : Part.ofDatum? levels d = some p)
    (kept : p.Kept inner) : p.toDatum.value = Part.normalForm d.value := by
  obtain ⟨f, taken, whole⟩ := Option.bind_eq_some_iff.1 described
  obtain ⟨_, fields, -, rfl, run⟩ := fields?_eq_some taken
  have follows : ∀ name, (fieldValues fields).lookup name = f.field? name := by
    refine foldlM_follows (R := fun s before => ∀ name, before.lookup name = s.field? name) ?_ run ?_
    · intro s before e s' same taken name
      rw [Table.lookup_insertInto, same name, PartFields.field?_take taken]
    · intro name
      simp [PartFields.field?]
  obtain ⟨kind, called, whole⟩ := bind_eq_ok_iff.1 (toOption_eq_some_iff.1 whole)
  obtain ⟨id, identified, same⟩ := bind_eq_ok_iff.1 whole
  cases same
  have type : f.kind = some kind := by rw [← toOption_need f.kind, called, toOption_ok]
  have identity : f.id = some id := by rw [← toOption_need f.id, identified, toOption_ok]
  rw [value_object, Part.normalForm, Part.toDatum, value_object]
  refine congrArg Datum.object ((ordered_fieldValues _).ext
    (ordered_dropNull (ordered_dropNull (ordered_fieldValues fields))) fun name => ?_)
  rw [lookup_dropNull, lookup_dropNull, lookup_dropNull, follows, follows, follows]
  refine (kept.lookup_fields name).trans ?_
  by_cases attrs : name = "attrs"
  · simp [Part.field?, PartFields.field?, attrs, presentIf_getD]
  by_cases position : name = "position"
  · simp [Part.field?, PartFields.field?, position, presentIf_getD]
  · simp [Part.field?, PartFields.field?, attrs, position, type, identity]

/-! ## Wires -/

def WireFields.field? (w : WireFields) (name : String) : Option Datum :=
  if name = "from" then w.source.map .string
  else if name = "to" then w.target.map .string
  else if name = "color" then w.color.map .string
  else none

theorem WireFields.field?_take {w w' : WireFields} {e : String × Datum} (taken : w.take? e = some w')
    {name : String} (known : name ∈ Wire.knownNames) :
    w'.field? name = if name = e.1 then some e.2.value else w.field? name := by
  unfold WireFields.take? at taken
  split at taken
  · rename_i called
    obtain ⟨source, once, rfl⟩ := Option.map_eq_some_iff.1 taken
    have value := takeOnce?_string once
    by_cases same : name = "from" <;> simp [WireFields.field?, called, same, value]
  · rename_i called
    obtain ⟨target, once, rfl⟩ := Option.map_eq_some_iff.1 taken
    have value := takeOnce?_string once
    by_cases same : name = "to" <;> simp [WireFields.field?, called, same, value]
  · rename_i called
    obtain ⟨color, once, rfl⟩ := Option.map_eq_some_iff.1 taken
    have value := takeOnce?_string once
    by_cases same : name = "color" <;> simp [WireFields.field?, called, same, value]
  · rename_i source target color
    cases taken
    rw [if_neg]
    rintro rfl
    simp only [Wire.knownNames, List.mem_cons, List.not_mem_nil, or_false] at known
    obtain called | called | called := known
    · exact source called
    · exact target called
    · exact color called

theorem value_toDatum_wire (w : Wire) : w.toDatum.value =
    .object [("color", .string w.color), ("from", .string w.source), ("to", .string w.target)] := by
  have ordered : Table.Ordered
      [("color", Datum.string w.color), ("from", .string w.source), ("to", .string w.target)] :=
    .cons (by simp only [List.forall_mem_cons]; exact ⟨by decide, by decide, nofun⟩)
      (.cons (by simp only [List.forall_mem_cons]; exact ⟨by decide, nofun⟩) (.cons nofun .nil))
  rw [Wire.toDatum, value_object]
  refine congrArg Datum.object ((ordered_fieldValues _).ext ordered fun name => ?_)
  rw [lookup_fieldValues_cons, lookup_fieldValues_cons, lookup_fieldValues_cons]
  by_cases source : name = "from"
  · subst source
    rfl
  by_cases target : name = "to"
  · subst target
    rfl
  by_cases color : name = "color"
  · subst color
    rfl
  · rw [if_neg source, if_neg target, if_neg color, Table.lookup_cons_of_ne _ _ color,
      Table.lookup_cons_of_ne _ _ source, Table.lookup_cons_of_ne _ _ target]
    rfl

theorem value_of_wireItems {items : List Datum} {w : Wire} (described : Wire.ofItems? items = some w) :
    w.toDatum.value = Wire.normalForm (Wire.withoutUnknown (Datum.array items).value) := by
  rw [value_toDatum_wire, value_array]
  match items with
  | [] => cases described
  | [_] => cases described
  | source :: target :: others =>
    obtain ⟨s, first, described⟩ := Option.bind_eq_some_iff.1 described
    obtain ⟨t, second, described⟩ := Option.bind_eq_some_iff.1 described
    obtain ⟨color, third, rfl⟩ := Option.map_eq_some_iff.1 described
    match others with
    | [] =>
      cases third
      simp [Wire.withoutUnknown, Wire.normalForm, value_of_string? first, value_of_string? second]
    | [c] =>
      simp [Wire.withoutUnknown, Wire.normalForm, value_of_string? first, value_of_string? second,
        value_of_string? (show c.string? = some color from third)]
    | _ :: _ :: _ => cases third

theorem value_of_wire {levels : Nat} {d : Datum} {w : Wire} (described : Wire.ofDatum? levels d = some w) :
    w.toDatum.value = Wire.normalForm (Wire.withoutUnknown d.value) := by
  cases d with
  | array items =>
    rw [Wire.ofDatum?] at described
    split at described
    · cases described
    · exact value_of_wireItems described
  | object fields =>
    obtain ⟨f, taken, whole⟩ := Option.bind_eq_some_iff.1 described
    obtain ⟨_, _, -, same, run⟩ := fields?_eq_some taken
    cases same
    have follows : ∀ name ∈ Wire.knownNames, (fieldValues fields).lookup name = f.field? name := by
      refine foldlM_follows (R := fun s before => ∀ name ∈ Wire.knownNames, before.lookup name = s.field? name) ?_ run ?_
      · intro s before e s' same taken name known
        rw [Table.lookup_insertInto, same name known, WireFields.field?_take taken known]
      · intro name known
        simp [WireFields.field?]
    obtain ⟨source, first, whole⟩ := bind_eq_ok_iff.1 (toOption_eq_some_iff.1 whole)
    obtain ⟨target, second, same⟩ := bind_eq_ok_iff.1 whole
    cases same
    have first : f.source = some source := by rw [← toOption_need f.source, first, toOption_ok]
    have second : f.target = some target := by rw [← toOption_need f.target, second, toOption_ok]
    rw [value_object, Wire.withoutUnknown, Wire.normalForm, Wire.toDatum, value_object]
    refine congrArg Datum.object ((ordered_fieldValues _).ext
      (ordered_addDefault _ ((ordered_fieldValues fields).filter _)) fun name => ?_)
    rw [lookup_addDefault, lookup_filter, lookup_filter]
    by_cases known : name ∈ Wire.knownNames
    · have source := follows "from" (by decide)
      have target := follows "to" (by decide)
      have color := follows "color" (by decide)
      simp only [Wire.knownNames, List.mem_cons, List.not_mem_nil, or_false] at known
      obtain rfl | rfl | rfl := known
      · simp [lookup_fieldValues_cons, Wire.knownNames, source, WireFields.field?, first]
      · simp [lookup_fieldValues_cons, Wire.knownNames, target, WireFields.field?, second]
      · cases given : f.color <;> simp [lookup_fieldValues_cons, Wire.knownNames, color, WireFields.field?, given]
    · simp only [Wire.knownNames, List.mem_cons, List.not_mem_nil, or_false, not_or] at known
      obtain ⟨source, target, color⟩ := known
      simp [lookup_fieldValues_cons, Wire.knownNames, source, target, color]
  | null | bool | number | string => cases levels <;> cases described

/-! ## Circuits -/

-- A wire as it is written again.
def Wire.writtenForm (d : Datum) : Datum := Wire.normalForm (Wire.withoutUnknown d)

def CircuitFields.field? (c : CircuitFields) (name : String) : Option Datum :=
  if name = "version" then c.version
  else if name = "editor" then c.editor.map .string
  else if name = "parts" then c.parts.map fun ps => .array (ps.map fun p => p.toDatum.value)
  else if name = "connections" then c.wires.map fun ws => .array (ws.map fun w => w.toDatum.value)
  else c.extra.lookup name

theorem items?_eq_some {α : Type} {decode : Nat → Datum → Option α} {levels : Nat} {d : Datum} {all : List α}
    (taken : d.items? decode levels = some all) :
    ∃ inner items, levels = inner + 1 ∧ d = .array items ∧ items.mapM (decode inner) = some all := by
  cases levels with
  | zero => cases taken
  | succ inner =>
    cases d with
    | array items => exact ⟨inner, items, rfl, rfl, taken⟩
    | null | bool | number | string | object => cases taken

-- Items that are decoded one by one are written again one by one.
theorem value_of_items {α : Type} {decode : Nat → Datum → Option α} (form : Datum → Datum) (write : α → Datum)
    {levels : Nat} {d : Datum} {all : List α} (taken : d.items? decode levels = some all)
    (each : ∀ inner d a, a ∈ all → decode inner d = some a → (write a).value = form d.value) :
    onItems form d.value = .array (all.map fun a => (write a).value) := by
  obtain ⟨inner, items, -, rfl, mapped⟩ := items?_eq_some taken
  clear taken
  rw [value_array, onItems, List.map_map]
  congr 1
  induction items generalizing all with
  | nil =>
    cases mapped
    rfl
  | cons item items ih =>
    rw [List.mapM_cons] at mapped
    obtain ⟨a, first, mapped⟩ := Option.bind_eq_some_iff.1 mapped
    obtain ⟨as, others, same⟩ := Option.bind_eq_some_iff.1 mapped
    cases same
    rw [List.map_cons, List.map_cons, Function.comp_apply, each inner item a List.mem_cons_self first,
      ih (fun inner d a listed => each inner d a (List.mem_cons_of_mem _ listed)) others]

theorem CircuitFields.field?_take {levels inner : Nat} {c c' : CircuitFields} {e : String × Datum}
    (taken : c.take? levels e = some c') (kept : ∀ ps ∈ c'.parts, ∀ p ∈ ps, p.Kept inner) (name : String) :
    c'.field? name =
      if name = e.1 then some (Circuit.fieldForm Wire.writtenForm e.1 e.2.value) else c.field? name := by
  unfold CircuitFields.take? at taken
  split at taken
  · rename_i called
    obtain ⟨version, once, rfl⟩ := Option.map_eq_some_iff.1 taken
    have value := takeOnce?_within once
    by_cases same : name = "version" <;> simp [CircuitFields.field?, Circuit.fieldForm, called, same, value]
  · rename_i called
    obtain ⟨editor, once, rfl⟩ := Option.map_eq_some_iff.1 taken
    have value := takeOnce?_string once
    by_cases same : name = "editor" <;> simp [CircuitFields.field?, Circuit.fieldForm, called, same, value]
  · rename_i called
    obtain ⟨parts, once, rfl⟩ := Option.map_eq_some_iff.1 taken
    obtain ⟨-, ps, rfl, items⟩ := takeOnce?_eq_some once
    have form := value_of_items Part.normalForm Part.toDatum items
      fun _ _ p listed described => value_of_part described (kept ps rfl p listed)
    rw [called]
    by_cases same : name = "parts" <;> simp [CircuitFields.field?, Circuit.fieldForm, same, form]
  · rename_i called
    obtain ⟨wires, once, rfl⟩ := Option.map_eq_some_iff.1 taken
    obtain ⟨-, ws, rfl, items⟩ := takeOnce?_eq_some once
    have form := value_of_items Wire.writtenForm Wire.toDatum items
      fun _ _ w _ described => value_of_wire described
    rw [called]
    by_cases same : name = "connections" <;> simp [CircuitFields.field?, Circuit.fieldForm, same, form]
  · rename_i version editor parts connections
    obtain ⟨d, within, rfl⟩ := Option.map_eq_some_iff.1 taken
    rw [← eq_value_of_within? within]
    by_cases same : name = e.1
    · simp only [CircuitFields.field?, Circuit.fieldForm, same, if_neg version, if_neg editor, if_neg parts,
        if_neg connections, Table.lookup_insertInto, if_true]
    · simp [CircuitFields.field?, same, Table.lookup_insertInto]

-- Parts are taken up once.
theorem parts_take {levels : Nat} {c c' : CircuitFields} {e : String × Datum} (taken : c.take? levels e = some c') :
    ∀ ps ∈ c.parts, ps ∈ c'.parts := by
  unfold CircuitFields.take? at taken
  split at taken
  case h_3 =>
    obtain ⟨parts, once, rfl⟩ := Option.map_eq_some_iff.1 taken
    rw [(takeOnce?_eq_some once).1]
    exact nofun
  all_goals
    obtain ⟨_, -, rfl⟩ := Option.map_eq_some_iff.1 taken
    exact fun _ given => given

-- The fields that are written to a circuit's file.
def Circuit.fields (c : Circuit) : List (String × Datum) :=
  Part.optionalField "version" c.version ++
    [("editor", .string c.editor), ("parts", .array (c.parts.map Part.toDatum)),
      ("connections", .array (c.wires.map Wire.toDatum))] ++ c.extra

def Circuit.field? (c : Circuit) (name : String) : Option Datum :=
  if name = "version" then presentIf c.version
  else if name = "editor" then some (.string c.editor)
  else if name = "parts" then some (.array (c.parts.map fun p => p.toDatum.value))
  else if name = "connections" then some (.array (c.wires.map fun w => w.toDatum.value))
  else c.extra.lookup name

theorem Circuit.Kept.lookup_fields {levels : Nat} {c : Circuit} (kept : c.Kept levels) (name : String) :
    (fieldValues c.fields).lookup name = c.field? name := by
  rw [Circuit.fields, lookup_extra kept.extra, lookup_fieldValues_append, lookup_optionalField kept.version]
  by_cases known : name ∈ Circuit.knownNames
  · rw [lookup_eq_none_of_unknown kept.unknown known]
    simp only [Circuit.knownNames, List.mem_cons, List.not_mem_nil, or_false] at known
    obtain rfl | rfl | rfl | rfl := known <;>
      simp [Circuit.field?, lookup_fieldValues_cons, value_array, Function.comp_def]
  · simp only [Circuit.knownNames, List.mem_cons, List.not_mem_nil, or_false, not_or] at known
    obtain ⟨version, editor, parts, connections⟩ := known
    simp [Circuit.field?, lookup_fieldValues_cons, version, editor, parts, connections]

-- What is written is the document that was read, but for the fields of no known name of its wires.
theorem value_of_circuit {d : Datum} {c : Circuit} (described : Circuit.ofDatum? d = some c) (kept : c.Kept 124) :
    c.toDatum.value = Circuit.normalForm Wire.writtenForm d.value := by
  obtain ⟨f, taken, rfl⟩ := Option.map_eq_some_iff.1 described
  obtain ⟨_, fields, -, rfl, run⟩ := fields?_eq_some taken
  have follows : ∀ name, ((fieldValues fields).lookup name).map (Circuit.fieldForm Wire.writtenForm name) =
      f.field? name := by
    refine foldlM_follows (R := fun s before => (∀ ps ∈ s.parts, ∀ p ∈ ps, p.Kept 124) → ∀ name,
      (before.lookup name).map (Circuit.fieldForm Wire.writtenForm name) = s.field? name) ?_ run ?_ ?_
    · intro s before e s' same taken each name
      have each' : ∀ ps ∈ s.parts, ∀ p ∈ ps, p.Kept 124 := fun ps given => each ps (parts_take taken ps given)
      rw [Table.lookup_insertInto, CircuitFields.field?_take taken each, ← same each']
      split
      · rename_i called
        rw [called, Option.map_some]
      · rfl
    · intro _ name
      simp [CircuitFields.field?]
    · intro ps given
      have parts := kept.parts
      rwa [CircuitFields.toCircuit, Option.mem_def.1 given] at parts
  rw [value_object, Circuit.normalForm]
  refine (value_object f.toCircuit.fields).trans (congrArg Datum.object ((ordered_fieldValues _).ext
    (ordered_formFields _ (ordered_fieldValues fields)) fun name => ?_))
  simp only [lookup_formFields, follows, kept.lookup_fields]
  by_cases version : name = "version"
  · simp [Circuit.field?, CircuitFields.field?, CircuitFields.toCircuit, version, presentIf_getD]
  by_cases editor : name = "editor"
  · cases given : f.editor <;>
      simp [Circuit.field?, CircuitFields.field?, CircuitFields.toCircuit, editor, given]
  by_cases parts : name = "parts"
  · cases given : f.parts <;> simp [Circuit.field?, CircuitFields.field?, CircuitFields.toCircuit, parts, given]
  by_cases connections : name = "connections"
  · cases given : f.wires <;>
      simp [Circuit.field?, CircuitFields.field?, CircuitFields.toCircuit, connections, given]
  · simp [Circuit.field?, CircuitFields.field?, CircuitFields.toCircuit, version, editor, parts, connections]

/-! ## What is lost -/

-- Whether a wire has no field of no known name.
def Wire.known : Datum → Bool
  | .object fields => fields.all fun e => Wire.knownNames.contains e.1
  | _ => true

-- The wires of a document that describes a circuit.
def Circuit.wireData : Datum → List Datum
  | .object fields =>
    match fields.lookup "connections" with
    | some (.array wires) => wires
    | _ => []
  | _ => []

theorem Wire.writtenForm_eq_iff (d : Datum) : Wire.writtenForm d = Wire.normalForm d ↔ Wire.known d = true := by
  cases d with
  | null | bool | number | string | array => exact ⟨fun _ => rfl, fun _ => rfl⟩
  | object fields =>
    simp only [Wire.writtenForm, Wire.withoutUnknown, Wire.normalForm, Wire.known, Datum.object.injEq,
      List.all_eq_true]
    constructor
    · intro same e listed
      by_contra unknown
      have lost := congrArg (List.lookup e.1) same
      have color : e.1 ≠ "color" := by
        intro called
        simp [called, Wire.knownNames] at unknown
      rw [lookup_addDefault, lookup_addDefault, if_neg color, if_neg color, lookup_filter, if_neg unknown] at lost
      simpa using List.lookup_eq_none_iff.1 lost.symm e listed
    · intro known
      rw [List.filter_eq_self.2 known]

-- The wires of a circuit's form.
theorem wires_eq_iff (fields : List (String × Datum)) :
    ((fields.lookup "connections").map (onItems Wire.writtenForm)).getD (.array []) =
        ((fields.lookup "connections").map (onItems Wire.normalForm)).getD (.array []) ↔
      (Circuit.wireData (.object fields)).all Wire.known = true := by
  cases connections : fields.lookup "connections" with
  | none => simp [Circuit.wireData, connections]
  | some d =>
    cases d with
    | array wires => simp [Circuit.wireData, connections, onItems, Wire.writtenForm_eq_iff]
    | null | bool | number | string | object => simp [Circuit.wireData, connections, onItems]

theorem Circuit.fieldForm_connections (wire : Datum → Datum) :
    Circuit.fieldForm wire "connections" = onItems wire := by
  funext d
  simp [Circuit.fieldForm]

-- The forms of the other fields do not depend on that of the wires.
theorem Circuit.fieldForm_of_ne {name : String} (other : name ≠ "connections") :
    Circuit.fieldForm Wire.writtenForm name = Circuit.fieldForm Wire.normalForm name := by
  funext d
  simp [Circuit.fieldForm, other]

theorem Circuit.writtenForm_eq_iff {fields : List (String × Datum)} (ordered : Table.Ordered fields) :
    Circuit.normalForm Wire.writtenForm (.object fields) = Circuit.normalForm Wire.normalForm (.object fields) ↔
      (Circuit.wireData (.object fields)).all Wire.known = true := by
  rw [← wires_eq_iff]
  constructor
  · intro same
    have wires := congrArg (List.lookup "connections") (Datum.object.inj same)
    simpa [lookup_formFields, Circuit.fieldForm_connections] using wires
  · intro same
    refine congrArg Datum.object
      ((ordered_formFields _ ordered).ext (ordered_formFields _ ordered) fun name => ?_)
    rw [lookup_formFields, lookup_formFields]
    by_cases connections : name = "connections"
    · simpa [connections, Circuit.fieldForm_connections] using same
    · have editor := Circuit.fieldForm_of_ne (by decide : "editor" ≠ "connections")
      have parts := Circuit.fieldForm_of_ne (by decide : "parts" ≠ "connections")
      have version := Circuit.fieldForm_of_ne (by decide : "version" ≠ "connections")
      simp only [editor, parts, version, Circuit.fieldForm_of_ne connections, if_neg connections]

/-- What is exported is the imported document, with wires as objects, defaults filled in and nulls left
out, but for the fields of no known name of its wires. It reproduces that document exactly if no wire has
such a field. -/
theorem Circuit.export_reproduces_iff {json : String} {c : Circuit} {d : Datum}
    (accepted : Circuit.parse json = .ok c) (holds : Holds json d) :
    c.toDatum.value = Circuit.normalForm Wire.writtenForm d.value ∧
    (c.toDatum.value = Circuit.normalForm Wire.normalForm d.value ↔
      (Circuit.wireData d.value).all Wire.known = true) ∧
    ((∀ x ∈ c.toDatum.reals, (Numeral.real x).ReadsBack) → Holds c.render c.toDatum) := by
  have kept := kept_parse accepted
  have described : Circuit.ofDatum? d = some c :=
    (toOption_parse holds).symm.trans (toOption_eq_some_iff.2 accepted)
  have written := value_of_circuit described kept
  refine ⟨written, ?_, fun exact => (kept.legible exact).holds⟩
  obtain ⟨f, taken, -⟩ := Option.map_eq_some_iff.1 described
  obtain ⟨_, fields, -, rfl, -⟩ := fields?_eq_some taken
  rw [written, value_object]
  exact Circuit.writtenForm_eq_iff (ordered_fieldValues fields)

-- A wire with a field of no known name, in a circuit and beside a part that have one too.
def labelledFile : String :=
  "\x7b\"who\": \"me\", \"parts\": [\x7b\"id\": \"b\", \"type\": \"LED\", \"top\": 1\x7d], \"connections\": " ++
    "[\x7b\"from\": \"a:1\", \"to\": \"b:2\", \"label\": \"data\"\x7d]\x7d"

theorem Circuit.export_labelledFile : ∃ c d, Circuit.parse labelledFile = .ok c ∧ Holds labelledFile d ∧
    (Circuit.wireData d.value).all Wire.known = false ∧
    c.toDatum.value = Circuit.normalForm Wire.writtenForm d.value ∧
    (c.toDatum.value = Circuit.normalForm Wire.normalForm d.value ↔
      (Circuit.wireData d.value).all Wire.known = true) ∧
    ((∀ x ∈ c.toDatum.reals, (Numeral.real x).ReadsBack) → Holds c.render c.toDatum) := by
  have parsed : (Circuit.parse labelledFile).toOption.isSome = true := by decide +kernel
  have read : ((readDocument 3 labelledFile.toList).toOption.map fun read =>
      ((skipSpace read.2).isEmpty, (Circuit.wireData read.1.value).all Wire.known)) = some (true, false) := by
    decide +kernel
  obtain ⟨c, accepted⟩ := Option.isSome_iff_exists.1 parsed
  obtain ⟨⟨d, rest⟩, document, checked⟩ := Option.map_eq_some_iff.1 read
  obtain ⟨blank, labelled⟩ := Prod.mk.inj checked
  have accepted := toOption_eq_some_iff.1 accepted
  have holds : Holds labelledFile d := ⟨3, rest, toOption_eq_some_iff.1 document, blank⟩
  exact ⟨c, d, accepted, holds, labelled, Circuit.export_reproduces_iff accepted holds⟩

end Breadboard
