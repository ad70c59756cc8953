import Breadboard.Proofs.Json.Kept

set_option autoImplicit false

/-!
The value of a document, which does not depend on the order of the fields of an object. Main statements:
what is kept of a document is its value, and an object is taken up field by field as its value is put
together (`foldlM_follows`).
-/
namespace Breadboard.Json

mutual

/-- The value of a document: the fields of an object in the order of their names, of those of one name the
last. -/
def Datum.value : Datum → Datum
  | .array items => .array (Datum.valuesOfItems items)
  | .object fields => .object (Table.ofList (Datum.valuesOfFields fields)).entries
  | d => d

def Datum.valuesOfItems : List Datum → List Datum
  | [] => []
  | item :: items => item.value :: Datum.valuesOfItems items

def Datum.valuesOfFields : List (String × Datum) → List (String × Datum)
  | [] => []
  | (name, d) :: fields => (name, d.value) :: Datum.valuesOfFields fields

end

theorem valuesOfItems_eq_map (items : List Datum) : Datum.valuesOfItems items = items.map Datum.value := by
  induction items with
  | nil => rfl
  | cons item items ih => exact congrArg (List.cons item.value) ih

theorem valuesOfFields_eq_map (fields : List (String × Datum)) :
    Datum.valuesOfFields fields = fields.map fun e => (e.1, e.2.value) := by
  induction fields with
  | nil => rfl
  | cons e fields ih => exact congrArg (List.cons (e.1, e.2.value)) ih

-- The fields of the value of an object.
def fieldValues (fields : List (String × Datum)) : List (String × Datum) :=
  (Table.ofList (fields.map fun e => (e.1, e.2.value))).entries

@[simp] theorem fieldValues_nil : fieldValues [] = [] := rfl

theorem fieldValues_append_singleton (fields : List (String × Datum)) (e : String × Datum) :
    fieldValues (fields ++ [e]) = Table.insertInto e.1 e.2.value (fieldValues fields) := by
  rw [fieldValues, List.map_append, List.map_singleton, Table.ofList_append]
  rfl

theorem ordered_fieldValues (fields : List (String × Datum)) : Table.Ordered (fieldValues fields) :=
  Table.ordered_ofList _

@[simp] theorem value_string (s : String) : (Datum.string s).value = .string s := rfl

theorem value_array (items : List Datum) : (Datum.array items).value = .array (items.map Datum.value) :=
  congrArg Datum.array (valuesOfItems_eq_map items)

theorem value_object (fields : List (String × Datum)) :
    (Datum.object fields).value = .object (fieldValues fields) :=
  congrArg (fun entries => Datum.object (Table.ofList entries).entries) (valuesOfFields_eq_map fields)

theorem lookup_fieldValues_append (fields others : List (String × Datum)) (name : String) :
    (fieldValues (fields ++ others)).lookup name =
      ((fieldValues others).lookup name).or ((fieldValues fields).lookup name) := by
  induction others using List.reverseRecOn with
  | nil => simp
  | append_singleton others e ih =>
    rw [← List.append_assoc, fieldValues_append_singleton, fieldValues_append_singleton, Table.lookup_insertInto,
      Table.lookup_insertInto, ih]
    split <;> rfl

theorem lookup_fieldValues_cons (e : String × Datum) (fields : List (String × Datum)) (name : String) :
    (fieldValues (e :: fields)).lookup name =
      ((fieldValues fields).lookup name).or (if name = e.1 then some e.2.value else none) := by
  have single : (fieldValues [e]).lookup name = if name = e.1 then some e.2.value else none :=
    Table.lookup_insertInto e.1 name e.2.value []
  rw [← List.singleton_append, lookup_fieldValues_append, single]

-- What every field keeps of the relation to the value is kept by all fields of an object.
theorem foldlM_follows {σ : Type} {take : σ → String × Datum → Option σ} {R : σ → List (String × Datum) → Prop}
    (step : ∀ s before e s', R s before → take s e = some s' → R s' (Table.insertInto e.1 e.2.value before))
    {fields : List (String × Datum)} {s s' : σ} (run : fields.foldlM take s = some s') (start : R s []) :
    R s' (fieldValues fields) := by
  induction fields using List.reverseRecOn generalizing s' with
  | nil =>
    cases run
    exact start
  | append_singleton fields e ih =>
    rw [List.foldlM_append] at run
    obtain ⟨middle, front, last⟩ := Option.bind_eq_some_iff.1 run
    obtain ⟨_, last, same⟩ := Option.bind_eq_some_iff.1 last
    cases same
    rw [fieldValues_append_singleton]
    exact step middle _ e _ (ih front) last

theorem mapM_eq_map {α β : Type} {f : α → Option β} {g : α → β} (each : ∀ a b, f a = some b → b = g a) {as : List α}
    {bs : List β} (all : as.mapM f = some bs) : bs = as.map g := by
  induction as generalizing bs with
  | nil =>
    cases all
    rfl
  | cons a as ih =>
    rw [List.mapM_cons] at all
    obtain ⟨b, first, all⟩ := Option.bind_eq_some_iff.1 all
    obtain ⟨bs', others, same⟩ := Option.bind_eq_some_iff.1 all
    cases same
    rw [List.map_cons, ← each a b first, ← ih others]

theorem eq_value_of_within? {levels : Nat} {d e : Datum} (within : d.within? levels = some e) : e = d.value := by
  induction levels generalizing d e with
  | zero =>
    cases d with
    | null | bool | number | string =>
      cases within
      rfl
    | array | object => cases within
  | succ levels ih =>
    cases d with
    | null | bool | number | string =>
      cases within
      rfl
    | array items =>
      obtain ⟨es, all, rfl⟩ := Option.map_eq_some_iff.1 within
      rw [value_array, mapM_eq_map (fun _ _ => ih) all]
    | object fields =>
      obtain ⟨es, all, rfl⟩ := Option.map_eq_some_iff.1 within
      have follows : es = fieldValues fields := by
        refine foldlM_follows (R := fun kept values => kept = values) ?_ all rfl
        rintro kept _ e kept' rfl put
        obtain ⟨d, one, rfl⟩ := Option.map_eq_some_iff.1 put
        rw [ih one]
      rw [value_object, follows]

theorem Datum.Kept.value {levels : Nat} {d : Datum} (kept : d.Kept levels) : d.value = d :=
  (eq_value_of_within? kept.within?).symm

theorem KeptFields.fieldValues {levels : Nat} {fields : List (String × Datum)} (kept : KeptFields levels fields) :
    fieldValues fields = fields := by
  have value := (Datum.Kept.object kept.1 kept.2).value
  rw [value_object] at value
  exact Datum.object.inj value

end Breadboard.Json
