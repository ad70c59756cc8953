import Breadboard.Proofs.Json.Documents
import Breadboard.Proofs.OrderedTable

set_option autoImplicit false

/-!
Documents as they are kept. Main statements: a document is kept as its decoder says; and what is kept is
in order, within its levels, with numbers that fit, and is kept as it is when it is read again.
-/
namespace Breadboard.Json

/-- The document as it is kept: of the fields of one name the last, in the order of the names. There is
none if arrays and objects are nested deeper than the levels allow. -/
def Datum.within? : Nat → Datum → Option Datum
  | 0, .array _ => none
  | levels + 1, .array items => (items.mapM (within? levels)).map .array
  | 0, .object _ => none
  | levels + 1, .object fields =>
    (fields.foldlM (fun kept e => (within? levels e.2).map fun d => Table.insertInto e.1 d kept) []).map .object
  | _, d => some d

theorem within?_of_plain (levels : Nat) {d : Datum} (plain : d.isPlain = true) : d.within? levels = some d := by
  cases d with
  | null | bool | number => cases levels <;> rfl
  | string | array | object => cases plain

theorem decodes_readDatum (levels : Nat) : Decodes (readDatum levels) (Datum.within? levels) := by
  induction levels with
  | zero =>
    intro _ cs d rest read
    cases opening_of_read read with
    | string opens read =>
      rw [readDatum, opens]
      simp [read, Datum.within?, Except.map, Except.toOption]
    | array opens => simp [readDatum, opens, Datum.within?, Except.toOption]
    | object opens => simp [readDatum, opens, Datum.within?, Except.toOption]
    | plain opens mark bracket brace plain read =>
      rw [readDatum, opens]
      simp [mark, bracket, brace, read, within?_of_plain 0 plain, Except.toOption]
  | succ levels ih =>
    intro _ cs d rest read
    cases opening_of_read read with
    | string opens read =>
      rw [readDatum, opens]
      simp [read, Datum.within?, Except.map, Except.toOption]
    | @array _ tail _ items opens _ read =>
      have opened : readDatum (levels + 1) cs =
          (readArray (readDatum levels) tail).map fun found => (.array found.1, found.2) := by
        rw [readDatum, opens]
        rfl
      rw [opened, toOption_map, readArray_decodes read ih, Datum.within?, Option.map_map,
        Option.map_map]
      rfl
    | @object _ tail _ fields opens _ read =>
      have opened : readDatum (levels + 1) cs =
          (readObject (fieldWith Table.insertInto (readDatum levels)) [] tail).map fun found =>
            (.object found.1, found.2) := by
        rw [readDatum, opens]
        rfl
      rw [opened, toOption_map, readObject_decodes read (decodes_fieldWith ih Table.insertInto), Datum.within?,
        Option.map_map, Option.map_map]
      rfl
    | plain opens mark bracket brace plain read =>
      rw [readDatum, opens]
      simp [mark, bracket, brace, read, within?_of_plain _ plain, Except.toOption]

/-- What a reader with so many levels gives. -/
inductive Datum.Kept : Nat → Datum → Prop
  | plain {levels : Nat} {d : Datum} (plain : d.isPlain = true) (fits : ∀ n, d = .number n → n.Fits) :
      Kept levels d
  | string {levels : Nat} (s : String) : Kept levels (.string s)
  | array {levels : Nat} {items : List Datum} (each : ∀ d ∈ items, Kept levels d) :
      Kept (levels + 1) (.array items)
  | object {levels : Nat} {fields : List (String × Datum)} (ordered : Table.Ordered fields)
      (each : ∀ e ∈ fields, Kept levels e.2) : Kept (levels + 1) (.object fields)

theorem Datum.Kept.null (levels : Nat) : Datum.Kept levels .null := by
  refine .plain rfl ?_
  rintro n ⟨⟩

-- Fields in order whose values are kept.
def KeptFields (levels : Nat) (fields : List (String × Datum)) : Prop :=
  Table.Ordered fields ∧ ∀ e ∈ fields, e.2.Kept levels

theorem KeptFields.nil (levels : Nat) : KeptFields levels [] := ⟨.nil, nofun⟩

theorem KeptFields.insertInto {levels : Nat} {fields : List (String × Datum)} {d : Datum}
    (kept : KeptFields levels fields) (name : String) (value : d.Kept levels) :
    KeptFields levels (Table.insertInto name d fields) := by
  refine ⟨Table.ordered_insertInto name d kept.1, fun e listed => ?_⟩
  obtain rfl | before := Table.mem_insertInto listed
  · exact value
  · exact kept.2 e before

theorem kept_readScalar {levels : Nat} {c : Char} {cs rest : List Char} {d : Datum}
    (read : readScalar c cs = .ok (d, rest)) : d.Kept levels := by
  refine .plain (isPlain_readScalar read) ?_
  rintro n rfl
  cases scalarAt_of_read read with
  | number _ _ read => exact fits_readNumber read

theorem kept_readDatum {levels : Nat} {cs rest : List Char} {d : Datum}
    (read : readDatum levels cs = .ok (d, rest)) : d.Kept levels := by
  induction levels generalizing cs d rest with
  | zero =>
    unfold readDatum at read
    split at read
    · cases read
    split at read
    · obtain ⟨⟨s, _⟩, -, same⟩ := map_eq_ok_iff.1 read
      cases same
      exact .string s
    split at read
    · cases read
    split at read
    · cases read
    · exact kept_readScalar read
  | succ levels ih =>
    unfold readDatum at read
    split at read
    · cases read
    split at read
    · obtain ⟨⟨s, _⟩, -, same⟩ := map_eq_ok_iff.1 read
      cases same
      exact .string s
    split at read
    · obtain ⟨_, items, same⟩ := map_eq_ok_iff.1 read
      cases same
      exact .array (readItems_forall (fun _ _ _ => ih) items nofun)
    split at read
    · obtain ⟨⟨fields, _⟩, object, same⟩ := map_eq_ok_iff.1 read
      cases same
      have kept : KeptFields levels fields := by
        refine readFields_invariant (P := KeptFields levels) ?_ object (.nil levels)
        intro kept name cs s' rest before read
        obtain ⟨behind, -, read⟩ := bind_eq_ok_iff.1 read
        obtain ⟨⟨d, _⟩, value, same⟩ := bind_eq_ok_iff.1 read
        cases same
        exact before.insertInto name (ih value)
      exact .object kept.1 kept.2
    · exact kept_readScalar read

theorem mapM_eq_self {α : Type} {f : α → Option α} {as : List α} (each : ∀ a ∈ as, f a = some a) :
    as.mapM f = some as := by
  induction as with
  | nil => rfl
  | cons a as ih =>
    obtain ⟨first, others⟩ := List.forall_mem_cons.1 each
    rw [List.mapM_cons, first, ih others]
    rfl

-- Fields in order are put one behind the other.
theorem foldlM_ordered {σ : Type} (take : σ → String × Datum → Option σ) (put : List (String × Datum) → σ)
    {fields : List (String × Datum)} (ordered : Table.Ordered fields)
    (step : ∀ before, ∀ e ∈ fields, take (put before) e = some (put (Table.insertInto e.1 e.2 before))) :
    fields.foldlM take (put []) = some (put fields) := by
  induction fields using List.reverseRecOn with
  | nil => rfl
  | append_singleton fields e ih =>
    obtain ⟨front, -, last⟩ := List.pairwise_append.1 ordered
    have above : ∀ f ∈ fields, f.1 < e.1 := fun f listed => last f listed e (List.mem_singleton_self e)
    rw [List.foldlM_append, ih front fun before f listed => step before f (List.mem_append_left _ listed)]
    simp [step fields e (List.mem_append_right _ (List.mem_singleton_self e)), Table.insertInto_of_above e.2 above]

-- What is kept is kept as it is.
theorem Datum.Kept.within? {levels : Nat} {d : Datum} (kept : d.Kept levels) : d.within? levels = some d := by
  induction kept with
  | plain plain => exact within?_of_plain _ plain
  | string s =>
    rename_i levels
    cases levels <;> rfl
  | array each ih => rw [Datum.within?, mapM_eq_self ih, Option.map_some]
  | @object levels _ ordered each ih =>
    have fields := foldlM_ordered
      (fun kept e => (e.2.within? levels).map fun d => Table.insertInto e.1 d kept) id ordered
      fun before e listed => by rw [ih e listed, Option.map_some]; rfl
    rw [Datum.within?]
    exact congrArg (Option.map Datum.object) fields

end Breadboard.Json
