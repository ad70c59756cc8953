import Breadboard.Proofs.Json.Lexemes

set_option autoImplicit false

/-!
The document that a text holds. Main statements: a text holds at most one document; and a reader of parts
of a document does to a text what its decoder does to the document that the text holds (`Decodes`), for
strings, arrays and objects.
-/
namespace Breadboard.Json

section Except

variable {ε α β : Type}

@[simp] theorem toOption_ok (a : α) : (Except.ok a : Except ε α).toOption = some a := rfl

@[simp] theorem toOption_error (e : ε) : (Except.error e : Except ε α).toOption = none := rfl

theorem toOption_bind (x : Except ε α) (f : α → Except ε β) :
    (x >>= f).toOption = x.toOption.bind fun a => (f a).toOption := by
  cases x <;> rfl

theorem ok_bind (a : α) (f : α → Except ε β) : (Except.ok a >>= f) = f a := rfl

theorem toOption_map (x : Except ε α) (f : α → β) : (x.map f).toOption = x.toOption.map f := by
  cases x <;> rfl

theorem toOption_eq_some_iff {x : Except ε α} {a : α} : x.toOption = some a ↔ x = .ok a := by
  cases x <;> simp [Except.toOption]

end Except

theorem skipSpace_skipSpace (cs : List Char) : skipSpace (skipSpace cs) = skipSpace cs := by
  induction cs with
  | nil => rfl
  | cons c cs ih => by_cases space : isSpace c = true <;> simp_all [skipSpace]

/-- Reads a document as it is written: the fields of an object stand in their order, and those of one
name are all there. -/
def readDocument : Nat → Reader Datum
  | levels, cs =>
    match skipSpace cs with
    | [] => .error .cutOff
    | c :: rest =>
      if c = '"' then (readString rest).map fun (s, cs) => (.string s, cs)
      else if c = '[' then
        match levels with
        | 0 => .error .notJson
        | levels + 1 => (readArray (readDocument levels) rest).map fun (items, cs) => (.array items, cs)
      else if c = '\x7b' then
        match levels with
        | 0 => .error .notJson
        | levels + 1 =>
          let field (fields : List (String × Datum)) (name : String) :
              Reader (List (String × Datum)) := fun cs => do
            let cs ← readColon cs
            let (d, cs) ← readDocument levels cs
            .ok (fields ++ [(name, d)], cs)
          (readObject field [] rest).map fun (fields, cs) => (.object fields, cs)
      else readScalar c rest

/-- The whole text is that of a document. -/
def Holds (text : String) (d : Datum) : Prop :=
  ∃ levels rest, readDocument levels text.toList = .ok (d, rest) ∧ (skipSpace rest).isEmpty = true

-- A document without parts.
def Datum.isPlain : Datum → Bool
  | .null | .bool _ | .number _ => true
  | .string _ | .array _ | .object _ => false

-- The field of an object as it is read with a reader of documents and put among the fields in front.
def fieldWith (put : String → Datum → List (String × Datum) → List (String × Datum)) (value : Reader Datum)
    (fields : List (String × Datum)) (name : String) : Reader (List (String × Datum)) := fun cs => do
  let cs ← readColon cs
  let (d, cs) ← value cs
  .ok (put name d fields, cs)

abbrev appended (name : String) (d : Datum) (fields : List (String × Datum)) : List (String × Datum) :=
  fields ++ [(name, d)]

-- How a text opens from which a document is read.
inductive Opening (levels : Nat) (cs : List Char) : Datum → List Char → Prop
  | string {tail rest : List Char} {s : String} (opens : skipSpace cs = '"' :: tail)
      (read : readString tail = .ok (s, rest)) : Opening levels cs (.string s) rest
  | array {inner : Nat} {tail rest : List Char} {items : List Datum} (opens : skipSpace cs = '[' :: tail)
      (deeper : levels = inner + 1) (read : readArray (readDocument inner) tail = .ok (items, rest)) :
      Opening levels cs (.array items) rest
  | object {inner : Nat} {tail rest : List Char} {fields : List (String × Datum)}
      (opens : skipSpace cs = '\x7b' :: tail) (deeper : levels = inner + 1)
      (read : readObject (fieldWith appended (readDocument inner)) [] tail = .ok (fields, rest)) :
      Opening levels cs (.object fields) rest
  | plain {c : Char} {tail rest : List Char} {d : Datum} (opens : skipSpace cs = c :: tail)
      (mark : c ≠ '"') (bracket : c ≠ '[') (brace : c ≠ '\x7b') (plain : d.isPlain = true)
      (read : readScalar c tail = .ok (d, rest)) : Opening levels cs d rest

-- What a value without parts is read from.
inductive ScalarAt (c : Char) (cs : List Char) : Datum → List Char → Prop
  | null {rest : List Char} (opens : c = 'n') (read : readWord "ull".toList cs = .ok rest) : ScalarAt c cs .null rest
  | true {rest : List Char} (opens : c = 't') (read : readWord "rue".toList cs = .ok rest) :
      ScalarAt c cs (.bool true) rest
  | false {rest : List Char} (opens : c = 'f') (read : readWord "alse".toList cs = .ok rest) :
      ScalarAt c cs (.bool false) rest
  | number {rest : List Char} {n : Numeral} (noWord : c ≠ 'n' ∧ c ≠ 't' ∧ c ≠ 'f')
      (opens : (c == '-' || c.isDigit) = Bool.true) (read : readNumber (c :: cs) = .ok (n, rest)) :
      ScalarAt c cs (.number n) rest

theorem scalarAt_of_read {c : Char} {cs rest : List Char} {d : Datum} (read : readScalar c cs = .ok (d, rest)) :
    ScalarAt c cs d rest := by
  unfold readScalar at read
  split at read
  · obtain ⟨_, word, same⟩ := map_eq_ok_iff.1 read
    cases same
    exact .null ‹_› word
  rename_i n
  split at read
  · obtain ⟨_, word, same⟩ := map_eq_ok_iff.1 read
    cases same
    exact .true ‹_› word
  rename_i t
  split at read
  · obtain ⟨_, word, same⟩ := map_eq_ok_iff.1 read
    cases same
    exact .false ‹_› word
  rename_i f
  split at read
  · obtain ⟨_, number, same⟩ := map_eq_ok_iff.1 read
    cases same
    exact .number ⟨n, t, f⟩ ‹_› number
  · cases read

theorem isPlain_readScalar {c : Char} {cs rest : List Char} {d : Datum}
    (read : readScalar c cs = .ok (d, rest)) : d.isPlain = true := by
  cases scalarAt_of_read read <;> rfl

theorem opening_of_read {levels : Nat} {cs rest : List Char} {d : Datum}
    (read : readDocument levels cs = .ok (d, rest)) : Opening levels cs d rest := by
  unfold readDocument at read
  split at read
  · cases read
  · rename_i c tail opens
    split at read
    · rename_i mark
      obtain ⟨_, string, same⟩ := map_eq_ok_iff.1 read
      cases same
      exact .string (mark ▸ opens) string
    rename_i mark
    split at read
    · rename_i bracket
      cases levels with
      | zero => cases read
      | succ inner =>
        obtain ⟨_, items, same⟩ := map_eq_ok_iff.1 read
        cases same
        exact .array (bracket ▸ opens) rfl items
    rename_i bracket
    split at read
    · rename_i brace
      cases levels with
      | zero => cases read
      | succ inner =>
        obtain ⟨_, fields, same⟩ := map_eq_ok_iff.1 read
        cases same
        exact .object (brace ▸ opens) rfl fields
    · rename_i brace
      exact .plain opens mark bracket brace (isPlain_readScalar read) read

theorem read_of_opening {levels : Nat} {cs rest : List Char} {d : Datum} (opening : Opening levels cs d rest) :
    readDocument levels cs = .ok (d, rest) := by
  cases opening with
  | string opens read =>
    rw [readDocument, opens]
    simp [read, Except.map]
  | array opens deeper read =>
    subst deeper
    rw [readDocument, opens]
    simp [read, Except.map]
  | @object inner tail _ _ opens deeper read =>
    subst deeper
    have opened : readDocument (inner + 1) cs =
        (readObject (fieldWith appended (readDocument inner)) [] tail).map fun (fields, cs) =>
          (.object fields, cs) := by
      rw [readDocument, opens]
      rfl
    rw [opened, read]
    rfl
  | plain opens mark bracket brace _ read =>
    rw [readDocument, opens]
    simp [mark, bracket, brace, read]

/-! ## Decoders -/

/-- A reader that makes of a text what a decoder makes of the document that opens the text. -/
def Decodes {α : Type} (item : Reader α) (decode : Datum → Option α) : Prop :=
  ∀ levels cs d rest, readDocument levels cs = .ok (d, rest) →
    (item cs).toOption = (decode d).map (·, rest)

/-- The same for a field that goes on from behind its name. -/
def DecodesField {σ : Type} (field : σ → String → Reader σ) (take : σ → String × Datum → Option σ) : Prop :=
  ∀ levels s name cs behind d rest, readColon cs = .ok behind → readDocument levels behind = .ok (d, rest) →
    (field s name cs).toOption = (take s (name, d)).map (·, rest)

section Walks

variable {α σ : Type} {item : Reader α} {field : σ → String → Reader σ}

theorem readItems_succ (item : Reader α) (fuel : Nat) (first : Bool) (seen : List α) (cs : List Char) :
    readItems item (fuel + 1) first seen cs = nextItem first cs >>= fun next => match next with
      | none => .ok (seen.reverse, (skipSpace cs).tail)
      | some cs => item cs >>= fun read => readItems item fuel false (read.1 :: seen) read.2 := rfl

theorem readFields_succ (field : σ → String → Reader σ) (fuel : Nat) (first : Bool) (s : σ) (cs : List Char) :
    readFields field (fuel + 1) first s cs = nextField first cs >>= fun next => match next with
      | none => .ok (s, (skipSpace cs).tail)
      | some cs => readString cs >>= fun name => field s name.1 name.2 >>= fun read =>
          readFields field fuel false read.1 read.2 := rfl

-- What a step of an array's reader can do.
inductive ItemsStep (item : Reader α) (fuel : Nat) (first : Bool) (seen : List α) (cs : List Char) :
    List α → List Char → Prop
  | done (next : nextItem first cs = .ok none) :
      ItemsStep item fuel first seen cs seen.reverse (skipSpace cs).tail
  | goOn {more behind rest : List Char} {a : α} {all : List α} (next : nextItem first cs = .ok (some more))
      (read : item more = .ok (a, behind)) (others : readItems item fuel false (a :: seen) behind = .ok (all, rest)) :
      ItemsStep item fuel first seen cs all rest

theorem itemsStep_of_read {fuel : Nat} {first : Bool} {seen all : List α} {cs rest : List Char}
    (read : readItems item (fuel + 1) first seen cs = .ok (all, rest)) :
    ItemsStep item fuel first seen cs all rest := by
  rw [readItems_succ] at read
  obtain ⟨next, found, read⟩ := bind_eq_ok_iff.1 read
  cases next with
  | none =>
    cases read
    exact .done found
  | some more =>
    obtain ⟨⟨a, behind⟩, value, others⟩ := bind_eq_ok_iff.1 read
    exact .goOn found value others

inductive FieldsStep (field : σ → String → Reader σ) (fuel : Nat) (first : Bool) (s : σ) (cs : List Char) :
    σ → List Char → Prop
  | done (next : nextField first cs = .ok none) : FieldsStep field fuel first s cs s (skipSpace cs).tail
  | goOn {more named behind rest : List Char} {name : String} {s' last : σ}
      (next : nextField first cs = .ok (some more)) (called : readString more = .ok (name, named))
      (read : field s name named = .ok (s', behind))
      (others : readFields field fuel false s' behind = .ok (last, rest)) :
      FieldsStep field fuel first s cs last rest

theorem fieldsStep_of_read {fuel : Nat} {first : Bool} {s last : σ} {cs rest : List Char}
    (read : readFields field (fuel + 1) first s cs = .ok (last, rest)) :
    FieldsStep field fuel first s cs last rest := by
  rw [readFields_succ] at read
  obtain ⟨next, found, read⟩ := bind_eq_ok_iff.1 read
  cases next with
  | none =>
    cases read
    exact .done found
  | some more =>
    obtain ⟨⟨name, named⟩, called, read⟩ := bind_eq_ok_iff.1 read
    obtain ⟨⟨s', behind⟩, value, others⟩ := bind_eq_ok_iff.1 read
    exact .goOn found called value others

-- What holds of every item that is read holds of all items of an array.
theorem readItems_forall {P : α → Prop} (each : ∀ cs a rest, item cs = .ok (a, rest) → P a) {fuel : Nat}
    {first : Bool} {seen all : List α} {cs rest : List Char}
    (read : readItems item fuel first seen cs = .ok (all, rest)) (before : ∀ a ∈ seen, P a) : ∀ a ∈ all, P a := by
  induction fuel generalizing first seen cs with
  | zero => cases read
  | succ fuel ih =>
    cases itemsStep_of_read read with
    | done => exact fun a listed => before a (List.mem_reverse.1 listed)
    | goOn _ value others => exact ih others (List.forall_mem_cons.2 ⟨each _ _ _ value, before⟩)

-- What every field keeps is kept by all fields of an object.
theorem readFields_invariant {P : σ → Prop}
    (each : ∀ s name cs s' rest, P s → field s name cs = .ok (s', rest) → P s') {fuel : Nat} {first : Bool}
    {s last : σ} {cs rest : List Char} (read : readFields field fuel first s cs = .ok (last, rest)) (start : P s) :
    P last := by
  induction fuel generalizing first s cs with
  | zero => cases read
  | succ fuel ih =>
    cases fieldsStep_of_read read with
    | done => exact start
    | goOn _ _ value others => exact ih others (each _ _ _ _ _ start value)

theorem readItems_mono {item' : Reader α} (more : ∀ cs a rest, item cs = .ok (a, rest) → item' cs = .ok (a, rest))
    {fuel : Nat} {first : Bool} {seen all : List α} {cs rest : List Char}
    (read : readItems item fuel first seen cs = .ok (all, rest)) :
    readItems item' fuel first seen cs = .ok (all, rest) := by
  induction fuel generalizing first seen cs with
  | zero => cases read
  | succ fuel ih =>
    cases itemsStep_of_read read with
    | done next =>
      rw [readItems_succ, next]
      rfl
    | goOn next value others =>
      rw [readItems_succ, next, ok_bind]
      simp only [more _ _ _ value, ok_bind]
      exact ih others

theorem readFields_mono {field' : σ → String → Reader σ}
    (more : ∀ s name cs s' rest, field s name cs = .ok (s', rest) → field' s name cs = .ok (s', rest)) {fuel : Nat}
    {first : Bool} {s last : σ} {cs rest : List Char}
    (read : readFields field fuel first s cs = .ok (last, rest)) :
    readFields field' fuel first s cs = .ok (last, rest) := by
  induction fuel generalizing first s cs with
  | zero => cases read
  | succ fuel ih =>
    cases fieldsStep_of_read read with
    | done next =>
      rw [readFields_succ, next]
      rfl
    | goOn next called value others =>
      rw [readFields_succ, next, ok_bind]
      simp only [called, ok_bind, more _ _ _ _ _ value]
      exact ih others

-- The items of an array, seen by any other reader that follows the documents.
theorem readItems_decodes {levels fuel : Nat} {first : Bool} {seen all : List Datum} {cs rest : List Char}
    (read : readItems (readDocument levels) fuel first seen cs = .ok (all, rest)) :
    ∃ ds, all = seen.reverse ++ ds ∧ ∀ {item : Reader α} {decode : Datum → Option α}, Decodes item decode →
      ∀ before, (readItems item fuel first before cs).toOption =
        (ds.mapM decode).map fun as => (before.reverse ++ as, rest) := by
  induction fuel generalizing first seen cs with
  | zero => cases read
  | succ fuel ih =>
    cases itemsStep_of_read read with
    | done next =>
      refine ⟨[], (List.append_nil _).symm, fun _ before => ?_⟩
      rw [readItems_succ, next, ok_bind]
      simp [Except.toOption]
    | @goOn more behind _ d _ next value others =>
      obtain ⟨ds, split, follow⟩ := ih others
      refine ⟨d :: ds, by simp [split], ?_⟩
      intro item decode decodes before
      have one := decodes levels more d behind value
      rw [readItems_succ, next, ok_bind]
      simp only [toOption_bind, one, List.mapM_cons]
      cases decode d with
      | none => rfl
      | some a =>
        simp only [Option.map_some, Option.bind_some]
        rw [follow decodes (a :: before)]
        cases ds.mapM decode with
        | none => rfl
        | some as => simp

theorem readFields_decodes {levels fuel : Nat} {first : Bool} {fields all : List (String × Datum)}
    {cs rest : List Char}
    (read : readFields (fieldWith appended (readDocument levels)) fuel first fields cs = .ok (all, rest)) :
    ∃ others, all = fields ++ others ∧ ∀ {field : σ → String → Reader σ} {take : σ → String × Datum → Option σ},
      DecodesField field take → ∀ s, (readFields field fuel first s cs).toOption =
        (others.foldlM take s).map (·, rest) := by
  induction fuel generalizing first fields cs with
  | zero => cases read
  | succ fuel ih =>
    cases fieldsStep_of_read read with
    | done next =>
      refine ⟨[], (List.append_nil _).symm, fun _ s => ?_⟩
      rw [readFields_succ, next]
      rfl
    | @goOn more named behind _ name _ _ next called value others =>
      obtain ⟨colon, found, value⟩ := bind_eq_ok_iff.1 value
      obtain ⟨⟨d, _⟩, value, same⟩ := bind_eq_ok_iff.1 value
      cases same
      obtain ⟨later, split, follow⟩ := ih others
      refine ⟨(name, d) :: later, by simp [split], ?_⟩
      intro field take decodes s
      have one := decodes levels s name named colon d behind found value
      rw [readFields_succ, next, ok_bind]
      simp only [called, ok_bind, toOption_bind, one, List.foldlM_cons]
      cases take s (name, d) with
      | none => rfl
      | some s' => exact follow decodes s'

variable {decode : Datum → Option α} {take : σ → String × Datum → Option σ}

theorem readArray_decodes {levels : Nat} {cs rest : List Char} {items : List Datum}
    (read : readArray (readDocument levels) cs = .ok (items, rest)) (decodes : Decodes item decode) :
    (readArray item cs).toOption = (items.mapM decode).map (·, rest) := by
  obtain ⟨ds, rfl, follow⟩ := readItems_decodes read
  exact follow decodes []

theorem readObject_decodes {levels : Nat} {cs rest : List Char} {fields : List (String × Datum)}
    (read : readObject (fieldWith appended (readDocument levels)) [] cs = .ok (fields, rest))
    (decodes : DecodesField field take) (s : σ) :
    (readObject field s cs).toOption = (fields.foldlM take s).map (·, rest) := by
  obtain ⟨others, rfl, follow⟩ := readFields_decodes read
  exact follow decodes s

theorem decodes_fieldWith {value : Reader Datum} {decode : Datum → Option Datum} (decodes : Decodes value decode)
    (put : String → Datum → List (String × Datum) → List (String × Datum)) :
    DecodesField (fieldWith put value) fun fields e => (decode e.2).map fun d => put e.1 d fields := by
  intro levels fields name cs behind d rest colon read
  have one := decodes levels behind d rest read
  simp only [fieldWith, colon, ok_bind, toOption_bind, one]
  cases decode d <;> rfl

end Walks

theorem fieldWith_mono {put : String → Datum → List (String × Datum) → List (String × Datum)} {value value' : Reader Datum}
    (more : ∀ cs d rest, value cs = .ok (d, rest) → value' cs = .ok (d, rest)) (before : List (String × Datum))
    (name : String) (cs : List Char) (fields : List (String × Datum)) (rest : List Char)
    (read : fieldWith put value before name cs = .ok (fields, rest)) :
    fieldWith put value' before name cs = .ok (fields, rest) := by
  obtain ⟨behind, colon, read⟩ := bind_eq_ok_iff.1 read
  obtain ⟨⟨d, _⟩, one, same⟩ := bind_eq_ok_iff.1 read
  cases same
  rw [fieldWith, colon, ok_bind, more _ _ _ one]
  rfl

-- More levels do not change what is read.
theorem readDocument_mono {levels levels' : Nat} (le : levels ≤ levels') {cs rest : List Char} {d : Datum}
    (read : readDocument levels cs = .ok (d, rest)) : readDocument levels' cs = .ok (d, rest) := by
  induction levels' generalizing levels cs d rest with
  | zero =>
    obtain rfl := Nat.le_zero.1 le
    exact read
  | succ inner' ih =>
    cases opening_of_read read with
    | string opens read => exact read_of_opening (.string opens read)
    | array opens deeper read =>
      exact read_of_opening (.array opens rfl (readItems_mono (fun _ _ _ => ih (by omega)) read))
    | object opens deeper read =>
      exact read_of_opening (.object opens rfl (readFields_mono (fieldWith_mono fun _ _ _ => ih (by omega)) read))
    | plain opens mark bracket brace plain read => exact read_of_opening (.plain opens mark bracket brace plain read)

/-- A text holds at most one document. -/
theorem Holds.unique {text : String} {d e : Datum} (first : Holds text d) (second : Holds text e) : d = e := by
  obtain ⟨levels, rest, read, -⟩ := first
  obtain ⟨levels', rest', read', -⟩ := second
  have both := (readDocument_mono (Nat.le_max_left levels levels') read).symm.trans
    (readDocument_mono (Nat.le_max_right levels levels') read')
  exact (Prod.mk.inj (Except.ok.inj both)).1

def Datum.string? : Datum → Option String
  | .string s => some s
  | _ => none

theorem decodes_wantString : Decodes wantString Datum.string? := by
  intro levels cs d rest read
  cases opening_of_read read with
  | string opens read => simp [wantString, opens, read, Datum.string?, Except.toOption]
  | array opens => simp [wantString, opens, Datum.string?, Except.toOption]
  | object opens => simp [wantString, opens, Datum.string?, Except.toOption]
  | @plain c _ _ _ opens mark _ _ plain =>
    have none : d.string? = none := by
      cases d with
      | null | bool | number | array | object => rfl
      | string => cases plain
    simp [wantString, opens, mark, none, Except.toOption]

-- The items of an array that is nested no deeper than the levels allow.
def Datum.items? {α : Type} (decode : Nat → Datum → Option α) : Nat → Datum → Option (List α)
  | levels + 1, .array items => items.mapM (decode levels)
  | _, _ => none

theorem decodes_wantArray {α : Type} {item : Nat → Reader α} {decode : Nat → Datum → Option α}
    (decodes : ∀ levels, Decodes (item levels) (decode levels)) (levels : Nat) :
    Decodes (wantArray item levels) (Datum.items? decode levels) := by
  intro _ cs d rest read
  cases opening_of_read read with
  | string opens => simp [wantArray, opens, Datum.items?, Except.toOption]
  | array opens _ read =>
    cases levels with
    | zero => simp [wantArray, opens, Datum.items?, Except.toOption]
    | succ levels =>
      simp only [wantArray, opens, Datum.items?]
      exact readArray_decodes read (decodes levels)
  | object opens => simp [wantArray, opens, Datum.items?, Except.toOption]
  | @plain c _ _ _ opens _ bracket _ plain =>
    have none : d.items? decode levels = none := by
      cases d with
      | null | bool | number | string | object => cases levels <;> rfl
      | array => cases plain
    simp [wantArray, opens, bracket, none, Except.toOption]

end Breadboard.Json
