import Breadboard.Proofs.Json.Kept

set_option autoImplicit false

/-!
Documents read back from their own texts. Main statement: a document whose numbers are read back from
their texts is held by its text, whatever follows the text.
-/
namespace Breadboard.Json

def Numeral.ReadsBack (n : Numeral) : Prop := readNumber n.render = .ok (n, [])

/-- A document that is nested no deeper than the levels and whose numbers are read back from their
texts. -/
inductive Datum.Legible : Nat → Datum → Prop
  | null {levels : Nat} : Legible levels .null
  | bool {levels : Nat} (b : Bool) : Legible levels (.bool b)
  | number {levels : Nat} {n : Numeral} (exact : n.ReadsBack) : Legible levels (.number n)
  | string {levels : Nat} (s : String) : Legible levels (.string s)
  | array {levels : Nat} {items : List Datum} (each : ∀ d ∈ items, Legible levels d) :
      Legible (levels + 1) (.array items)
  | object {levels : Nat} {fields : List (String × Datum)} (each : ∀ e ∈ fields, Legible levels e.2) :
      Legible (levels + 1) (.object fields)

theorem skipSpace_newLine (depth : Nat) (cs : List Char) : skipSpace (newLine depth ++ cs) = skipSpace cs := by
  have blanks (n : Nat) : skipSpace (List.replicate n ' ' ++ cs) = skipSpace cs := by
    induction n with
    | zero => rfl
    | succ n ih => exact ih
  exact blanks (2 * depth)

theorem readDocument_skipSpace (levels : Nat) (cs : List Char) :
    readDocument levels (skipSpace cs) = readDocument levels cs := by
  rw [readDocument, readDocument, skipSpace_skipSpace]

-- No document opens with the end of an array.
theorem opens_of_read {levels : Nat} {cs rest : List Char} {d : Datum}
    (read : readDocument levels cs = .ok (d, rest)) : ∃ c tail, skipSpace cs = c :: tail ∧ c ≠ ']' := by
  cases opening_of_read read with
  | string opens => exact ⟨_, _, opens, by decide⟩
  | array opens => exact ⟨_, _, opens, by decide⟩
  | object opens => exact ⟨_, _, opens, by decide⟩
  | plain opens _ _ _ _ read =>
    refine ⟨_, _, opens, ?_⟩
    rintro rfl
    cases read

theorem readNumber_opens {cs rest : List Char} {n : Numeral} (read : readNumber cs = .ok (n, rest)) :
    ∃ c tail, cs = c :: tail ∧ (c = '-' ∨ c.isDigit = true) := by
  cases cs with
  | nil => cases read
  | cons c cs =>
    refine ⟨c, cs, rfl, ?_⟩
    by_cases minus : c = '-'
    · exact .inl minus
    refine .inr ?_
    have unsigned : readNumber (c :: cs) = readUnsigned false (c :: cs) := by simp [readNumber, minus]
    rw [unsigned, readUnsigned_eq_ok_iff] at read
    by_contra digit
    exact read.1.1 (by simp [digit])

theorem readDocument_number (levels : Nat) {n : Numeral} {cs rest : List Char}
    (read : readNumber cs = .ok (n, rest)) : readDocument levels cs = .ok (.number n, rest) := by
  obtain ⟨c, tail, rfl, opens⟩ := readNumber_opens read
  have mark : isSpace c = false ∧ c ≠ '"' ∧ c ≠ '[' ∧ c ≠ '\x7b' ∧ c ≠ 'n' ∧ c ≠ 't' ∧ c ≠ 'f' := by
    refine ⟨?_, ?_, ?_, ?_, ?_, ?_, ?_⟩
    · rw [Bool.eq_false_iff]
      intro space
      simp only [isSpace, Bool.or_eq_true, beq_iff_eq] at space
      obtain ((rfl | rfl) | rfl) | rfl := space <;> revert opens <;> decide
    all_goals
      rintro rfl
      revert opens
      decide
  obtain ⟨space, quote, bracket, brace, n, t, f⟩ := mark
  have skipped : skipSpace (c :: tail) = c :: tail := by simp [skipSpace, space]
  rw [readDocument, skipped]
  simp [quote, bracket, brace, readScalar, n, t, f, opens, read, Except.map]

/-! ## Items and fields -/

theorem numberEnds_newLine (depth : Nat) (cs : List Char) : NumberEnds (newLine depth ++ cs) := by
  intro c opens
  obtain rfl : '\n' = c := Option.some.inj opens
  decide

theorem numberEnds_comma (cs : List Char) : NumberEnds (',' :: cs) := by
  intro c opens
  obtain rfl : ',' = c := Option.some.inj opens
  decide

theorem numberEnds_renderItems (depth inner : Nat) (items : List Datum) (cs : List Char) :
    NumberEnds (Datum.renderItems depth items ++ (newLine inner ++ cs)) := by
  cases items with
  | nil => exact numberEnds_newLine inner cs
  | cons item items => exact numberEnds_comma _

theorem numberEnds_renderFields (depth inner : Nat) (fields : List (String × Datum)) (cs : List Char) :
    NumberEnds (Datum.renderFields depth fields ++ (newLine inner ++ cs)) := by
  cases fields with
  | nil => exact numberEnds_newLine inner cs
  | cons e fields => exact numberEnds_comma _

theorem length_le_renderItems (depth : Nat) (items : List Datum) :
    items.length ≤ (Datum.renderItems depth items).length := by
  induction items with
  | nil => exact Nat.le_refl 0
  | cons item items ih =>
    simp only [Datum.renderItems, List.length_append, List.length_cons]
    omega

theorem length_le_renderFields (depth : Nat) (fields : List (String × Datum)) :
    fields.length ≤ (Datum.renderFields depth fields).length := by
  induction fields with
  | nil => exact Nat.le_refl 0
  | cons e fields ih =>
    simp only [Datum.renderFields, List.length_append, List.length_cons]
    omega

section

variable {levels depth : Nat}

theorem nextItem_end (first : Bool) (rest : List Char) :
    nextItem first (newLine depth ++ ']' :: rest) = .ok none := by
  rw [nextItem, skipSpace_newLine]
  simp [skipSpace, isSpace]

theorem nextItem_first {cs rest : List Char} {d : Datum} (read : readDocument levels cs = .ok (d, rest)) :
    nextItem true (newLine depth ++ cs) = .ok (some (skipSpace cs)) := by
  obtain ⟨c, tail, opens, bracket⟩ := opens_of_read read
  rw [nextItem, skipSpace_newLine, opens]
  simp [bracket]

theorem nextItem_comma {cs rest : List Char} {d : Datum} (read : readDocument levels cs = .ok (d, rest)) :
    nextItem false (',' :: newLine depth ++ cs) = .ok (some (skipSpace cs)) := by
  obtain ⟨c, tail, opens, bracket⟩ := opens_of_read read
  have comma : skipSpace (',' :: newLine depth ++ cs) = ',' :: (newLine depth ++ cs) := rfl
  rw [nextItem, comma]
  simp [skipSpace_newLine, opens, bracket]

theorem nextField_end (first : Bool) (rest : List Char) :
    nextField first (newLine depth ++ '\x7d' :: rest) = .ok none := by
  rw [nextField, skipSpace_newLine]
  simp [skipSpace, isSpace]

theorem nextField_first (rest : List Char) : nextField true (newLine depth ++ '"' :: rest) = .ok (some rest) := by
  rw [nextField, skipSpace_newLine]
  simp [skipSpace, isSpace]

theorem nextField_comma (rest : List Char) :
    nextField false (',' :: newLine depth ++ '"' :: rest) = .ok (some rest) := by
  have comma : skipSpace (',' :: newLine depth ++ '"' :: rest) = ',' :: (newLine depth ++ '"' :: rest) := rfl
  have mark : skipSpace (newLine depth ++ '"' :: rest) = '"' :: rest := skipSpace_newLine depth ('"' :: rest)
  rw [nextField, comma]
  simp [mark]

-- A text from which a document is read wherever it stands.
abbrev Recovered (levels depth : Nat) (d : Datum) : Prop :=
  ∀ rest, NumberEnds rest → readDocument levels (d.render depth ++ rest) = .ok (d, rest)

theorem readItems_render {items : List Datum} (each : ∀ d ∈ items, Recovered levels depth d) (inner fuel : Nat)
    (enough : items.length < fuel) (seen : List Datum) (rest : List Char) :
    readItems (readDocument levels) fuel false seen
      (Datum.renderItems depth items ++ (newLine inner ++ ']' :: rest)) = .ok (seen.reverse ++ items, rest) := by
  induction items generalizing fuel seen with
  | nil =>
    obtain ⟨fuel, rfl⟩ := Nat.exists_eq_succ_of_ne_zero (Nat.ne_of_gt enough)
    rw [Nat.succ_eq_add_one, readItems_succ, Datum.renderItems, List.nil_append, nextItem_end, ok_bind,
      skipSpace_newLine, List.append_nil]
    rfl
  | cons item items ih =>
    obtain ⟨fuel, rfl⟩ := Nat.exists_eq_succ_of_ne_zero (by omega : fuel ≠ 0)
    obtain ⟨first, others⟩ := List.forall_mem_cons.1 each
    have read := first (Datum.renderItems depth items ++ (newLine inner ++ ']' :: rest))
      (numberEnds_renderItems depth inner items _)
    have text : Datum.renderItems depth (item :: items) ++ (newLine inner ++ ']' :: rest) =
        ',' :: newLine depth ++
          (item.render depth ++ (Datum.renderItems depth items ++ (newLine inner ++ ']' :: rest))) := by
      simp [Datum.renderItems]
    rw [Nat.succ_eq_add_one, readItems_succ, text, nextItem_comma read, ok_bind]
    simp only
    rw [readDocument_skipSpace, read, ok_bind, ih others fuel (by simpa using enough) (item :: seen)]
    simp

theorem field_render {name : String} {d : Datum} (value : Recovered levels depth d)
    (fields : List (String × Datum)) {rest : List Char} (ends : NumberEnds rest) :
    fieldWith appended (readDocument levels) fields name (':' :: ' ' :: d.render depth ++ rest) =
      .ok (fields ++ [(name, d)], rest) := by
  have colon : readColon (':' :: ' ' :: d.render depth ++ rest) = .ok (' ' :: d.render depth ++ rest) := rfl
  have blank : readDocument levels (' ' :: d.render depth ++ rest) = readDocument levels (d.render depth ++ rest) := by
    rw [← readDocument_skipSpace, ← readDocument_skipSpace levels (d.render depth ++ rest)]
    rfl
  rw [fieldWith, colon, ok_bind, blank, value rest ends]
  rfl

theorem readFields_render {fields : List (String × Datum)} (each : ∀ e ∈ fields, Recovered levels depth e.2)
    (inner fuel : Nat) (enough : fields.length < fuel) (before : List (String × Datum)) (rest : List Char) :
    readFields (fieldWith appended (readDocument levels)) fuel false before
      (Datum.renderFields depth fields ++ (newLine inner ++ '\x7d' :: rest)) = .ok (before ++ fields, rest) := by
  induction fields generalizing fuel before with
  | nil =>
    obtain ⟨fuel, rfl⟩ := Nat.exists_eq_succ_of_ne_zero (Nat.ne_of_gt enough)
    rw [Nat.succ_eq_add_one, readFields_succ, Datum.renderFields, List.nil_append, nextField_end, ok_bind,
      skipSpace_newLine, List.append_nil]
    rfl
  | cons e fields ih =>
    obtain ⟨fuel, rfl⟩ := Nat.exists_eq_succ_of_ne_zero (by omega : fuel ≠ 0)
    obtain ⟨name, d⟩ := e
    obtain ⟨first, others⟩ := List.forall_mem_cons.1 each
    have text : Datum.renderFields depth ((name, d) :: fields) ++ (newLine inner ++ '\x7d' :: rest) =
        ',' :: newLine depth ++ '"' :: (name.toList.flatMap escapeChar ++ '"' :: (':' :: ' ' :: d.render depth ++
          (Datum.renderFields depth fields ++ (newLine inner ++ '\x7d' :: rest)))) := by
      simp [Datum.renderFields, renderString]
    rw [Nat.succ_eq_add_one, readFields_succ, text, nextField_comma, ok_bind]
    simp only [readString_escaped, ok_bind]
    rw [field_render first before (numberEnds_renderFields depth inner fields _), ok_bind,
      ih others fuel (by simpa using enough)]
    simp

theorem readArray_render {items : List Datum} (each : ∀ d ∈ items, Recovered levels (depth + 1) d)
    (rest : List Char) : ∃ tail, (Datum.array items).render depth ++ rest = '[' :: tail ∧
      readArray (readDocument levels) tail = .ok (items, rest) := by
  cases items with
  | nil => exact ⟨']' :: rest, rfl, rfl⟩
  | cons item items =>
    obtain ⟨first, others⟩ := List.forall_mem_cons.1 each
    have read := first (Datum.renderItems (depth + 1) items ++ (newLine depth ++ ']' :: rest))
      (numberEnds_renderItems (depth + 1) depth items _)
    refine ⟨newLine (depth + 1) ++ (item.render (depth + 1) ++
      (Datum.renderItems (depth + 1) items ++ (newLine depth ++ ']' :: rest))), ?_, ?_⟩
    · simp [Datum.render]
    · rw [readArray, readItems_succ, nextItem_first read, ok_bind]
      simp only
      have := length_le_renderItems (depth + 1) items
      rw [readDocument_skipSpace, read, ok_bind, readItems_render others depth]
      · rfl
      · simp only [List.length_append, newLine, List.length_cons]
        omega

theorem readObject_render {fields : List (String × Datum)} (each : ∀ e ∈ fields, Recovered levels (depth + 1) e.2)
    (rest : List Char) : ∃ tail, (Datum.object fields).render depth ++ rest = '\x7b' :: tail ∧
      readObject (fieldWith appended (readDocument levels)) [] tail = .ok (fields, rest) := by
  cases fields with
  | nil => exact ⟨'\x7d' :: rest, rfl, rfl⟩
  | cons e fields =>
    obtain ⟨name, d⟩ := e
    obtain ⟨first, others⟩ := List.forall_mem_cons.1 each
    refine ⟨newLine (depth + 1) ++ '"' :: (name.toList.flatMap escapeChar ++ '"' :: (':' :: ' ' ::
      d.render (depth + 1) ++ (Datum.renderFields (depth + 1) fields ++ (newLine depth ++ '\x7d' :: rest)))),
      ?_, ?_⟩
    · simp [Datum.render, renderString]
    · rw [readObject, readFields_succ, nextField_first, ok_bind]
      simp only [readString_escaped, ok_bind]
      have := length_le_renderFields (depth + 1) fields
      rw [field_render first [] (numberEnds_renderFields (depth + 1) depth fields _), ok_bind,
        readFields_render others depth]
      · rfl
      · simp only [List.length_append, newLine, List.length_cons]
        omega

end

theorem Datum.Legible.recovered {levels : Nat} {d : Datum} (legible : d.Legible levels) (depth : Nat) :
    Recovered levels depth d := by
  induction legible generalizing depth with
  | null =>
    intro rest _
    rw [readDocument]
    rfl
  | bool b =>
    intro rest _
    cases b <;> rw [readDocument] <;> rfl
  | number exact =>
    intro rest ends
    exact readDocument_number _ (readNumber_append ends exact)
  | string s =>
    intro rest _
    have text : (Datum.string s).render depth ++ rest = '"' :: (s.toList.flatMap escapeChar ++ '"' :: rest) := by
      simp [Datum.render, renderString]
    rw [text]
    exact read_of_opening (.string rfl (readString_escaped s rest))
  | array _ ih =>
    intro rest _
    obtain ⟨tail, text, read⟩ := readArray_render (fun d listed => ih d listed (depth + 1)) rest
    rw [text]
    exact read_of_opening (.array rfl rfl read)
  | object _ ih =>
    intro rest _
    obtain ⟨tail, text, read⟩ := readObject_render (fun e listed => ih e listed (depth + 1)) rest
    rw [text]
    exact read_of_opening (.object rfl rfl read)

theorem Datum.Legible.holds {levels : Nat} {d : Datum} (legible : d.Legible levels) :
    Holds (String.ofList (d.render 0)) d := by
  refine ⟨levels, [], ?_, rfl⟩
  have read := legible.recovered 0 [] numberEnds_nil
  rwa [List.append_nil, ← @String.toList_ofList (d.render 0)] at read

/-! ## Numbers that are not whole -/

mutual

-- The numbers of a document that are not whole.
def Datum.reals : Datum → List Float
  | .number (.real x) => [x]
  | .array items => Datum.realsOfItems items
  | .object fields => Datum.realsOfFields fields
  | _ => []

def Datum.realsOfItems : List Datum → List Float
  | [] => []
  | item :: items => item.reals ++ Datum.realsOfItems items

def Datum.realsOfFields : List (String × Datum) → List Float
  | [] => []
  | (_, d) :: fields => d.reals ++ Datum.realsOfFields fields

end

theorem mem_realsOfItems {x : Float} {d : Datum} {items : List Datum} (listed : d ∈ items) (real : x ∈ d.reals) :
    x ∈ (Datum.array items).reals := by
  rw [Datum.reals]
  induction items with
  | nil => cases listed
  | cons item items ih =>
    rw [Datum.realsOfItems, List.mem_append]
    obtain rfl | later := List.mem_cons.1 listed
    · exact .inl real
    · exact .inr (ih later)

theorem mem_realsOfFields {x : Float} {e : String × Datum} {fields : List (String × Datum)} (listed : e ∈ fields)
    (real : x ∈ e.2.reals) : x ∈ (Datum.object fields).reals := by
  rw [Datum.reals]
  induction fields with
  | nil => cases listed
  | cons f fields ih =>
    rw [Datum.realsOfFields, List.mem_append]
    obtain rfl | later := List.mem_cons.1 listed
    · exact .inl real
    · exact .inr (ih later)

-- Whole numbers that are kept are always read back.
theorem Datum.Kept.legible {levels : Nat} {d : Datum} (kept : d.Kept levels)
    (exact : ∀ x ∈ d.reals, (Numeral.real x).ReadsBack) : d.Legible levels := by
  induction kept with
  | @plain levels d plain fits =>
    cases d with
    | null => exact .null
    | bool b => exact .bool b
    | number n =>
      cases n with
      | whole n => exact .number (readNumber_integer (fits _ rfl))
      | real x => exact .number (exact x (List.mem_singleton_self x))
    | string | array | object => cases plain
  | string s => exact .string s
  | array each ih => exact .array fun d listed => ih d listed fun x real => exact x (mem_realsOfItems listed real)
  | object ordered each ih =>
    exact .object fun e listed => ih e listed fun x real => exact x (mem_realsOfFields listed real)

end Breadboard.Json
