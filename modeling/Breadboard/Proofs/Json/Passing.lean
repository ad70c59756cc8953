import Breadboard.Proofs.Json.Documents

set_option autoImplicit false

/-!
Passing over a value. Main statement: where a document is read, passing over it ends where the reading
ends. (The converse fails: numbers that are too large and halves of characters are passed over but not
read.)
-/
namespace Breadboard.Json

/-! ## Readers take something off the front -/

theorem skipSpace_suffix (cs : List Char) : skipSpace cs <:+ cs := List.dropWhile_suffix _

theorem readWord_suffix {word cs rest : List Char} (read : readWord word cs = .ok rest) : rest <:+ cs := by
  induction word generalizing cs with
  | nil =>
    cases read
    exact List.suffix_refl _
  | cons w word ih =>
    cases cs with
    | nil => cases read
    | cons c cs =>
      unfold readWord at read
      split at read
      · exact (ih read).trans (List.suffix_cons c cs)
      · cases read

theorem readHex4_suffix {cs rest : List Char} {n : Nat} (read : readHex4 cs = .ok (n, rest)) : rest <:+ cs := by
  unfold readHex4 at read
  split at read
  · cases read
  · split at read
    · cases read
      exact List.drop_suffix 4 cs
    · cases read

theorem readColon_suffix {cs rest : List Char} (read : readColon cs = .ok rest) : rest <:+ cs := by
  unfold readColon at read
  split at read
  · cases read
  · rename_i c tail opens
    split at read
    · cases read
      exact (List.suffix_cons _ _).trans (opens ▸ skipSpace_suffix cs)
    · cases read

/-! ## Strings -/

-- What an escape of a string is: one that is passed over in one turn, or the two halves of a character.
inductive Escape (cs rest : List Char) : Prop
  | whole (d : Char) (read : readEscape passUnicode cs = .ok (d, rest))
  | halves (d e : Char) {behind : List Char} (lead : readEscape passUnicode cs = .ok (d, '\\' :: behind))
      (trail : readEscape passUnicode behind = .ok (e, rest))

theorem passUnicode_of_readHex4 {cs rest : List Char} {n : Nat} (read : readHex4 cs = .ok (n, rest)) :
    readEscape passUnicode ('u' :: cs) = .ok (' ', rest) := by
  simp [readEscape, passUnicode, read, Except.map]

theorem escape_of_read {cs rest : List Char} {d : Char} (read : readEscape readUnicode cs = .ok (d, rest)) :
    Escape cs rest := by
  cases cs with
  | nil => cases read
  | cons c cs =>
    by_cases unicode : c = 'u'
    · subst unicode
      obtain ⟨⟨n, behind⟩, first, read⟩ := bind_eq_ok_iff.1 (show readUnicode cs = .ok (d, rest) from read)
      have lead := passUnicode_of_readHex4 first
      simp only at read
      split at read
      · unfold readTrail at read
        split at read
        · cases read
        · cases read
        · obtain ⟨⟨m, rest'⟩, second, read⟩ := bind_eq_ok_iff.1 read
          simp only at read
          split at read
          · obtain ⟨-, rfl⟩ := Prod.mk.inj (Except.ok.inj read)
            exact .halves ' ' ' ' lead (passUnicode_of_readHex4 second)
          · cases read
        · cases read
      · split at read
        · cases read
        · cases read
          exact .whole ' ' lead
    · refine .whole d ?_
      simp only [readEscape, if_neg unicode] at read ⊢
      exact read

theorem readEscape_shorter {cs rest : List Char} {d : Char} (read : readEscape passUnicode cs = .ok (d, rest)) :
    rest.length < cs.length := by
  cases cs with
  | nil => cases read
  | cons c cs =>
    rw [List.length_cons, Nat.lt_succ_iff]
    simp only [readEscape] at read
    split at read
    · obtain ⟨_, hex, same⟩ := map_eq_ok_iff.1 read
      cases same
      exact (readHex4_suffix hex).length_le
    · split at read
      · cases read
        exact Nat.le_refl _
      · cases read

-- Passing takes the turns of reading and one more for every character in two halves.
theorem passChars_of_read {fuel : Nat} {seen cs s rest : List Char}
    (read : readChars readUnicode fuel seen cs = .ok (s, rest)) (fuel' : Nat) (enough : cs.length < fuel')
    (before : List Char) :
    (readChars passUnicode fuel' before cs).map Prod.snd = .ok rest ∧ rest.length ≤ cs.length := by
  induction fuel generalizing seen cs fuel' before with
  | zero => cases read
  | succ fuel ih =>
    obtain ⟨fuel', rfl⟩ := Nat.exists_eq_succ_of_ne_zero (by omega : fuel' ≠ 0)
    cases cs with
    | nil => cases read
    | cons c cs =>
      rw [List.length_cons] at enough ⊢
      simp only [readChars] at read ⊢
      split at read
      · rename_i mark
        cases read
        rw [if_pos mark]
        exact ⟨rfl, Nat.le_succ _⟩
      rename_i mark
      rw [if_neg mark]
      split at read
      · rename_i backslash
        obtain ⟨⟨d, behind⟩, escape, others⟩ := bind_eq_ok_iff.1 read
        have read : readChars readUnicode fuel (d :: seen) behind = .ok (s, rest) := others
        rw [if_pos backslash]
        cases escape_of_read escape with
        | whole d' one =>
          have shorter := readEscape_shorter one
          obtain ⟨passed, length⟩ := ih read fuel' (by omega) (d' :: before)
          rw [one, ok_bind]
          exact ⟨passed, by omega⟩
        | @halves d' e' more lead trail =>
          have shorter := readEscape_shorter lead
          have shorter' := readEscape_shorter trail
          rw [List.length_cons] at shorter
          obtain ⟨fuel', rfl⟩ := Nat.exists_eq_succ_of_ne_zero (by omega : fuel' ≠ 0)
          have turn : readChars passUnicode (fuel' + 1) (d' :: before) ('\\' :: more) =
              readChars passUnicode fuel' (e' :: d' :: before) behind := by
            rw [readChars]
            simp [trail, ok_bind]
          obtain ⟨passed, length⟩ := ih read fuel' (by omega) (e' :: d' :: before)
          rw [lead, ok_bind]
          exact ⟨(congrArg (Except.map Prod.snd) turn).trans passed, by omega⟩
      rename_i backslash
      rw [if_neg backslash]
      split at read
      · cases read
      · rename_i visible
        obtain ⟨passed, length⟩ := ih read fuel' (by omega) (c :: before)
        rw [if_neg visible]
        exact ⟨passed, by omega⟩

theorem passString_of_read {cs rest : List Char} {s : String} (read : readString cs = .ok (s, rest)) :
    passString cs = .ok rest ∧ rest.length ≤ cs.length := by
  obtain ⟨⟨_, _⟩, chars, same⟩ := bind_eq_ok_iff.1 read
  cases same
  exact passChars_of_read chars (cs.length + 1) (Nat.lt_succ_self _) []

/-! ## Numbers and words -/

section

variable {negative : Bool} {significand : Nat} {start : Int} {cs rest : List Char} {n : Numeral}

-- What passing does with what follows the digits of a number.
def passTail : List Char → Except Defect (List Char)
  | c :: rest => if isExponentMark c then passExponent rest else .ok (c :: rest)
  | [] => .ok []

theorem exponentSign_suffix (cs : List Char) : (exponentSign cs).2 <:+ cs := by
  unfold exponentSign
  split
  · exact List.suffix_cons _ _
  · exact List.suffix_cons _ _
  · exact List.suffix_refl _

theorem passExponent_eq (cs : List Char) :
    passExponent cs = if (exponentSign cs).2.head?.any Char.isDigit then
      .ok ((exponentSign cs).2.dropWhile Char.isDigit) else .error .notJson := by
  cases cs with
  | nil => rfl
  | cons c cs =>
    by_cases plus : c = '+'
    · subst plus
      rfl
    by_cases minus : c = '-'
    · subst minus
      rfl
    simp [passExponent, exponentSign, plus, minus]

theorem passExponent_of_read (read : readExponent negative significand start cs = .ok (n, rest)) :
    passExponent cs = .ok rest ∧ rest <:+ cs := by
  obtain ⟨digit, behind, -⟩ := readExponent_eq_ok_iff.1 read
  rw [passExponent_eq, if_pos digit, behind]
  exact ⟨rfl, behind ▸ (List.dropWhile_suffix _).trans (exponentSign_suffix cs)⟩

theorem passPlaces_of_read (read : readPlaces negative significand start cs = .ok (n, rest)) :
    cs.head?.any Char.isDigit = true ∧ passTail (cs.dropWhile Char.isDigit) = .ok rest ∧ rest <:+ cs := by
  have behind : cs.dropWhile Char.isDigit <:+ cs := List.dropWhile_suffix _
  simp only [readPlaces] at read
  split at read
  · cases read
  · rename_i digits
    refine ⟨?_, ?_⟩
    · cases cs with
      | nil => simp at digits
      | cons c cs =>
        by_cases digit : c.isDigit = true
        · simpa using digit
        · simp [digit] at digits
    · split at read
      · rename_i c tail opens
        rw [opens] at behind ⊢
        rw [passTail]
        split at read
        · rename_i mark
          obtain ⟨passed, suffix⟩ := passExponent_of_read read
          rw [if_pos mark]
          exact ⟨passed, suffix.trans ((List.suffix_cons _ _).trans behind)⟩
        · rename_i mark
          obtain ⟨x, -, same⟩ := bind_eq_ok_iff.1 read
          obtain ⟨-, rfl⟩ := Prod.mk.inj (Except.ok.inj same)
          rw [opens, if_neg mark]
          exact ⟨rfl, behind⟩
      · rename_i opens
        obtain ⟨x, -, same⟩ := bind_eq_ok_iff.1 read
        obtain ⟨-, rfl⟩ := Prod.mk.inj (Except.ok.inj same)
        rw [opens] at behind ⊢
        exact ⟨rfl, behind⟩

-- What passing does with what follows the digits in front of the point.
def passBehind : List Char → Except Defect (List Char)
  | '.' :: rest =>
    if rest.head?.any Char.isDigit then passTail (rest.dropWhile Char.isDigit) else .error .notJson
  | rest => passTail rest

theorem passBehind_of_ne {c : Char} (point : c ≠ '.') (rest : List Char) :
    passBehind (c :: rest) = passTail (c :: rest) := by
  simp [passBehind, point]

theorem passNumber_eq (leads : Leads (cs.takeWhile Char.isDigit)) :
    passNumber cs = passBehind (cs.dropWhile Char.isDigit) := by
  unfold passNumber
  simp only
  split
  · exact absurd ‹_› leads.1
  · exact absurd ‹_› (leads.2 _ _)
  · generalize cs.dropWhile Char.isDigit = more
    cases more with
    | nil => rfl
    | cons c more =>
      by_cases point : c = '.'
      · subst point
        simp only [passBehind]
        split
        · cases more.dropWhile Char.isDigit <;> rfl
        · rfl
      · simp [passBehind, point, passTail]

theorem passNumber_of_read (read : readUnsigned negative cs = .ok (n, rest)) :
    passNumber cs = .ok rest ∧ rest <:+ cs.dropWhile Char.isDigit := by
  obtain ⟨leads, read⟩ := readUnsigned_eq_ok_iff.1 read
  rw [passNumber_eq leads]
  unfold readBehind at read
  generalize takeDigits 0 (cs.takeWhile Char.isDigit) = scanned at read
  obtain ⟨significand, taken, left⟩ := scanned
  generalize cs.dropWhile Char.isDigit = more at read ⊢
  cases more with
  | nil =>
    obtain ⟨rfl, -⟩ := readPlain_eq_ok read
    exact ⟨rfl, List.suffix_refl _⟩
  | cons c tail =>
    simp only at read
    split at read
    · rename_i point
      subst point
      obtain ⟨digit, passed, suffix⟩ := passPlaces_of_read read
      rw [passBehind, if_pos digit]
      exact ⟨passed, suffix.trans (List.suffix_cons _ _)⟩
    rename_i point
    rw [passBehind_of_ne point, passTail]
    split at read
    · rename_i mark
      obtain ⟨passed, suffix⟩ := passExponent_of_read read
      rw [if_pos mark]
      exact ⟨passed, suffix.trans (List.suffix_cons _ _)⟩
    · rename_i mark
      obtain ⟨rfl, -⟩ := readPlain_eq_ok read
      rw [if_neg mark]
      exact ⟨rfl, List.suffix_refl _⟩

theorem passScalar_of_read {c : Char} {d : Datum} (read : readScalar c cs = .ok (d, rest)) :
    passScalar c cs = .ok rest ∧ rest.length ≤ cs.length := by
  cases scalarAt_of_read read with
  | null opens word =>
    subst opens
    exact ⟨word, (readWord_suffix word).length_le⟩
  | true opens word =>
    subst opens
    exact ⟨word, (readWord_suffix word).length_le⟩
  | false opens word =>
    subst opens
    exact ⟨word, (readWord_suffix word).length_le⟩
  | @number _ m noWord opens read =>
    obtain ⟨n, t, f⟩ := noWord
    simp only [passScalar, if_neg n, if_neg t, if_neg f]
    by_cases minus : c = '-'
    · subst minus
      obtain ⟨passed, suffix⟩ := passNumber_of_read (show readUnsigned true cs = .ok (m, rest) from read)
      exact ⟨passed, (suffix.trans (List.dropWhile_suffix _)).length_le⟩
    · have unsigned : readNumber (c :: cs) = readUnsigned false (c :: cs) := by simp [readNumber, minus]
      have digit : c.isDigit = Bool.true := by simpa [minus] using opens
      obtain ⟨passed, suffix⟩ := passNumber_of_read (unsigned ▸ read)
      rw [List.dropWhile_cons_of_pos digit] at suffix
      rw [if_neg minus, if_pos digit]
      exact ⟨passed, (suffix.trans (List.dropWhile_suffix _)).length_le⟩

end

/-! ## Values -/

-- Where passing goes on behind a value.
def passOn (fuel : Nat) (containers : List Bool) (rest : List Char) : Except Defect (List Char) :=
  if containers.isEmpty then .ok rest else pass fuel (.inside true) containers rest

-- From a state on, something is passed over in some turns, at most two for every character.
def PassesFrom (state : PassState) (inside : List Bool) (cs rest : List Char) : Prop :=
  ∃ turns, turns + 2 * rest.length < 2 * cs.length ∧
    ∀ fuel containers, pass (fuel + turns) state (inside ++ containers) cs = passOn fuel containers rest

-- A turn inside a container leads to an item, and behind the item it goes on.
theorem PassesFrom.item {state : PassState} {isObject : Bool} {cs value behind rest : List Char}
    (turn : ∀ fuel containers, pass (fuel + 1) state (isObject :: containers) cs =
      pass fuel .value (isObject :: containers) value)
    (shorter : value.length ≤ cs.length) (passes : PassesFrom .value [] value behind)
    (others : PassesFrom (.inside true) [isObject] behind rest) : PassesFrom state [isObject] cs rest := by
  obtain ⟨turns, bound, passes⟩ := passes
  obtain ⟨turns', bound', others⟩ := others
  refine ⟨turns' + turns + 1, by omega, fun fuel containers => ?_⟩
  calc pass (fuel + (turns' + turns + 1)) state ([isObject] ++ containers) cs
      = pass (fuel + turns' + turns + 1) state (isObject :: containers) cs := by
        rw [← Nat.add_assoc, ← Nat.add_assoc]
        rfl
    _ = pass (fuel + turns' + turns) .value (isObject :: containers) value := turn _ _
    _ = pass (fuel + turns') (.inside true) (isObject :: containers) behind := passes _ _
    _ = passOn fuel containers rest := others fuel containers

-- The end of a container.
theorem PassesFrom.close {afterItem isObject : Bool} {cs tail : List Char}
    (opens : skipSpace cs = (if isObject then '\x7d' else ']') :: tail) :
    PassesFrom (.inside afterItem) [isObject] cs tail := by
  have skipped := (skipSpace_suffix cs).length_le
  rw [opens, List.length_cons] at skipped
  refine ⟨1, by omega, fun fuel containers => ?_⟩
  simp [pass, opens, passOn]

section

variable {levels : Nat} {first : Bool} {cs rest : List Char}

theorem pass_skipSpace (fuel : Nat) (containers : List Bool) (cs : List Char) :
    pass fuel .value containers (skipSpace cs) = pass fuel .value containers cs := by
  cases fuel with
  | zero => rfl
  | succ fuel => rw [pass, pass, skipSpace_skipSpace]

-- What stands in front of an item: the start of the array, or a comma.
inductive ItemAt : Bool → List Char → List Char → Prop
  | first {c : Char} {cs tail : List Char} (opens : skipSpace cs = c :: tail) (goesOn : c ≠ ']') :
      ItemAt true cs (c :: tail)
  | next {cs tail : List Char} (opens : skipSpace cs = ',' :: tail) : ItemAt false cs (skipSpace tail)

theorem itemAt_of_next {more : List Char} (next : nextItem first cs = .ok (some more)) : ItemAt first cs more := by
  unfold nextItem at next
  split at next
  · cases next
  rename_i c tail opens
  split at next
  · cases next
  rename_i goesOn
  split at next
  · rename_i isFirst
    cases next
    exact isFirst ▸ .first opens goesOn
  rename_i notFirst
  split at next
  · rename_i comma
    split at next
    · cases next
    · rename_i d behind item
      split at next
      · cases next
      · cases next
        rw [← item, Bool.eq_false_iff.2 notFirst]
        exact .next (comma ▸ opens)
  · cases next

theorem end_of_nextItem (next : nextItem first cs = .ok none) : ∃ tail, skipSpace cs = ']' :: tail := by
  unfold nextItem at next
  split at next
  · cases next
  rename_i c tail opens
  split at next
  · rename_i closes
    exact ⟨tail, closes ▸ opens⟩
  split at next
  · cases next
  split at next
  · split at next
    · cases next
    · split at next <;> cases next
  · cases next

theorem passes_items (each : ∀ cs d rest, readDocument levels cs = .ok (d, rest) → PassesFrom .value [] cs rest)
    {fuel : Nat} {seen all : List Datum}
    (read : readItems (readDocument levels) fuel first seen cs = .ok (all, rest)) :
    PassesFrom (.inside !first) [false] cs rest := by
  induction fuel generalizing first seen cs with
  | zero => cases read
  | succ fuel ih =>
    have skipped := (skipSpace_suffix cs).length_le
    cases itemsStep_of_read read with
    | done next =>
      obtain ⟨tail, opens⟩ := end_of_nextItem next
      rw [opens]
      exact .close opens
    | goOn next value others =>
      cases itemAt_of_next next with
      | first opens goesOn =>
        refine .item (fun fuel containers => ?_) (opens ▸ skipped) (each _ _ _ value) (ih others)
        simp [pass, opens, goesOn]
        rfl
      | @next _ tail opens =>
        have shorter := (skipSpace_suffix tail).length_le
        rw [opens, List.length_cons] at skipped
        refine .item (fun fuel containers => ?_) (by omega) (each _ _ _ value) (ih others)
        rw [pass_skipSpace]
        simp [pass, opens]
        rfl

inductive FieldAt : Bool → List Char → List Char → Prop
  | first {cs more : List Char} (opens : skipSpace cs = '"' :: more) : FieldAt true cs more
  | next {cs tail more : List Char} (opens : skipSpace cs = ',' :: tail) (mark : skipSpace tail = '"' :: more) :
      FieldAt false cs more

theorem fieldAt_of_next {more : List Char} (next : nextField first cs = .ok (some more)) :
    FieldAt first cs more := by
  unfold nextField at next
  split at next
  · cases next
  rename_i c tail opens
  split at next
  · cases next
  split at next
  · rename_i isFirst
    split at next
    · rename_i mark
      cases next
      exact isFirst ▸ .first (mark ▸ opens)
    · cases next
  rename_i notFirst
  split at next
  · rename_i comma
    split at next
    · cases next
    · rename_i behind field
      split at next
      · rename_i mark
        cases next
        rw [Bool.eq_false_iff.2 notFirst]
        exact .next (comma ▸ opens) (mark ▸ field)
      · cases next
  · cases next

theorem end_of_nextField (next : nextField first cs = .ok none) : ∃ tail, skipSpace cs = '\x7d' :: tail := by
  unfold nextField at next
  split at next
  · cases next
  rename_i c tail opens
  split at next
  · rename_i closes
    exact ⟨tail, closes ▸ opens⟩
  split at next
  · split at next <;> cases next
  split at next
  · split at next
    · cases next
    · split at next <;> cases next
  · cases next

theorem passName_of_read {more named behind : List Char} {name : String} (opens : skipSpace cs = '"' :: more)
    (called : readString more = .ok (name, named)) (colon : readColon named = .ok behind) :
    passName cs = .ok behind := by
  simp [passName, opens, (passString_of_read called).1, ok_bind, colon]

theorem passes_fields (each : ∀ cs d rest, readDocument levels cs = .ok (d, rest) → PassesFrom .value [] cs rest)
    {fuel : Nat} {fields all : List (String × Datum)}
    (read : readFields (fieldWith appended (readDocument levels)) fuel first fields cs = .ok (all, rest)) :
    PassesFrom (.inside !first) [true] cs rest := by
  induction fuel generalizing first fields cs with
  | zero => cases read
  | succ fuel ih =>
    have skipped := (skipSpace_suffix cs).length_le
    cases fieldsStep_of_read read with
    | done next =>
      obtain ⟨tail, opens⟩ := end_of_nextField next
      rw [opens]
      exact .close opens
    | @goOn more named _ _ name _ _ next called field others =>
      obtain ⟨behind, colon, field⟩ := bind_eq_ok_iff.1 field
      obtain ⟨⟨d, _⟩, value, same⟩ := bind_eq_ok_iff.1 field
      cases same
      have shorter := (passString_of_read called).2
      have shorter' := (readColon_suffix colon).length_le
      cases fieldAt_of_next next with
      | first opens =>
        have mark : skipSpace ('"' :: more) = '"' :: more := rfl
        have passed : passName ('"' :: more) = .ok behind := passName_of_read mark called colon
        rw [opens, List.length_cons] at skipped
        refine .item (fun fuel containers => ?_) (by omega) (each _ _ _ value) (ih others)
        simp [pass, opens, passed, ok_bind]
      | @next _ tail _ opens mark =>
        have passed : passName tail = .ok behind := passName_of_read mark called colon
        have skipped' := (skipSpace_suffix tail).length_le
        rw [opens, List.length_cons] at skipped
        rw [mark, List.length_cons] at skipped'
        refine .item (fun fuel containers => ?_) (by omega) (each _ _ _ value) (ih others)
        simp [pass, opens, passed, ok_bind]

-- One turn for a value without parts.
theorem passes_scalar {c : Char} {tail : List Char} (opens : skipSpace cs = c :: tail) (bracket : c ≠ '[')
    (brace : c ≠ '\x7b') (passed : passScalar c tail = .ok rest) (shorter : rest.length ≤ tail.length) :
    PassesFrom .value [] cs rest := by
  have skipped := (skipSpace_suffix cs).length_le
  rw [opens, List.length_cons] at skipped
  refine ⟨1, by omega, fun fuel containers => ?_⟩
  simp [pass, opens, bracket, brace, passed, ok_bind, passOn]

theorem passes_container {c : Char} {tail : List Char} (opens : skipSpace cs = c :: tail)
    (opener : c = '[' ∨ c = '\x7b') (inner : PassesFrom (.inside false) [c == '\x7b'] tail rest) :
    PassesFrom .value [] cs rest := by
  have skipped := (skipSpace_suffix cs).length_le
  rw [opens, List.length_cons] at skipped
  obtain ⟨turns, bound, passes⟩ := inner
  refine ⟨turns + 1, by omega, fun fuel containers => ?_⟩
  have turn : pass (fuel + (turns + 1)) .value ([] ++ containers) cs =
      pass (fuel + turns) (.inside false) ([c == '\x7b'] ++ containers) tail := by
    rw [← Nat.add_assoc]
    simp [pass, opens, opener]
  rw [turn, passes]

theorem passes_document {d : Datum} (read : readDocument levels cs = .ok (d, rest)) :
    PassesFrom .value [] cs rest := by
  induction levels using Nat.strongRecOn generalizing cs d rest with
  | ind levels ih =>
    cases opening_of_read read with
    | string opens read =>
      obtain ⟨passed, shorter⟩ := passString_of_read read
      exact passes_scalar opens (by decide) (by decide) passed shorter
    | @array inner _ _ _ opens deeper read =>
      exact passes_container opens (.inl rfl) (passes_items (fun _ _ _ => ih inner (by omega)) read)
    | @object inner _ _ _ opens deeper read =>
      exact passes_container opens (.inr rfl) (passes_fields (fun _ _ _ => ih inner (by omega)) read)
    | plain opens _ bracket brace _ read =>
      obtain ⟨passed, shorter⟩ := passScalar_of_read read
      exact passes_scalar opens bracket brace passed shorter

/-- A document that is read is passed over. -/
theorem passValue_of_read {d : Datum} (read : readDocument levels cs = .ok (d, rest)) :
    passValue cs = .ok rest := by
  obtain ⟨turns, bound, passes⟩ := passes_document read
  have passed := passes (2 * cs.length + 2 - turns) []
  rwa [Nat.sub_add_cancel (by omega)] at passed

end

end Breadboard.Json
