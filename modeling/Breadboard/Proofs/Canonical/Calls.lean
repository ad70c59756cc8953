import Breadboard.Proofs.Canonical.Words

set_option autoImplicit false

/-!
Calls, lists of arguments and keywords. Main statements: a call is read back with its arguments under
its own name and no other, a list is split into its parts, and a text that opens with another word is
not taken for a compound statement.
-/
namespace Breadboard.Canonical

open Text

section Prefixes

variable {p : Char → Bool} {name word rest left : List Char}

-- A word that a name is dropped from is the name itself, or more of the word is left.
theorem dropPrefix?_word (names : ∀ c ∈ name, p c = true) (words : ∀ c ∈ word, p c = true)
    (stop : ∀ c ∈ rest.head?, p c = false) (found : dropPrefix? name (word ++ rest) = some left) :
    (name = word ∧ left = rest) ∨ Starts (p · = true) left := by
  induction name generalizing word with
  | nil =>
    obtain rfl : word ++ rest = left := by simpa [dropPrefix?] using found
    cases word with
    | nil => exact .inl ⟨rfl, rfl⟩
    | cons c word => exact .inr ⟨c, word ++ rest, rfl, words c (by simp)⟩
  | cons c name ih =>
    rw [List.forall_mem_cons] at names
    cases word with
    | nil =>
      cases rest with
      | nil => simp [dropPrefix?] at found
      | cons d rest =>
        have differ : c ≠ d := ne_of_class names.1 (stop d (by simp))
        simp [dropPrefix?, differ] at found
    | cons d word =>
      rw [List.forall_mem_cons] at words
      by_cases same : c = d
      · simp only [List.cons_append, dropPrefix?, same, if_true] at found
        rcases ih names.2 words.2 found with ⟨rfl, rfl⟩ | more
        · exact .inl ⟨by rw [same], rfl⟩
        · exact .inr more
      · simp [dropPrefix?, same] at found

end Prefixes

section Keywords

variable {word rest : List Char}

theorem dropWord?_eq_none {other : List Char} (others : ∀ c ∈ other, isWordChar c = true)
    (words : ∀ c ∈ word, isWordChar c = true) (stop : ∀ c ∈ rest.head?, isWordChar c = false)
    (ne : other ≠ word) : dropWord? other (word ++ rest) = none := by
  cases found : dropPrefix? other (word ++ rest) with
  | none => simp [dropWord?, found]
  | some left =>
    rcases dropPrefix?_word others words stop found with ⟨same, -⟩ | ⟨c, more, rfl, isWord⟩
    · exact absurd same ne
    · simp [dropWord?, found, isWord, guard, failure]

theorem leadingKeyword_eq_none (starts : Starts (isBlank · = false) (word ++ rest))
    (words : ∀ c ∈ word, isWordChar c = true) (stop : ∀ c ∈ rest.head?, isWordChar c = false)
    (free : String.ofList word ∉ keywords) : leadingKeyword (word ++ rest) = none := by
  have differ {keyword : String} (h : keyword ∈ keywords) : keyword.toList ≠ word := by
    rintro rfl
    rw [String.ofList_toList] at free
    exact free h
  have drop (keyword : String) (h : keyword ∈ keywords)
      (letters : ∀ c ∈ keyword.toList, isWordChar c = true) :
      dropWord? keyword.toList (word ++ rest) = none :=
    dropWord?_eq_none letters words stop (differ h)
  have dropElse := drop "else" (by decide) (by decide)
  have dropIf := drop "if" (by decide) (by decide)
  have dropFor := drop "for" (by decide) (by decide)
  have dropWhile := drop "while" (by decide) (by decide)
  rw [leadingKeyword, starts.trimStart_eq, dropElse, dropIf, dropFor, dropWhile]
  rfl

end Keywords

section Calls

/-- A name that can be called. -/
structure Callable (name : String) : Prop where
  nonempty : name.toList ≠ []
  chars : ∀ c ∈ name.toList, isNameChar c = true

instance (name : String) : Decidable (Callable name) :=
  decidable_of_iff (name.toList ≠ [] ∧ ∀ c ∈ name.toList, isNameChar c = true)
    ⟨fun h => ⟨h.1, h.2⟩, fun h => ⟨h.1, h.2⟩⟩

theorem callable_of_isIdentifier {name : String} (identifier : isIdentifier name.toList = true) :
    Callable name where
  nonempty := fun eq => by
    rw [eq] at identifier
    exact absurd identifier (by decide)
  chars := fun c h => isNameChar_of_isWordChar (isWordChar_of_isIdentifier identifier c h)

theorem Name.callable {reserved : List String} (name : Name reserved) : Callable name.spelling :=
  callable_of_isIdentifier name.isIdentifier

theorem callable_builtin (f : Builtin) : Callable f.name := by cases f <;> decide

variable {name : String} {args : List Char}

theorem Callable.starts (callable : Callable name) : Starts (isNameChar · = true) name.toList := by
  obtain ⟨c, rest, eq⟩ := List.exists_cons_of_ne_nil callable.nonempty
  exact ⟨c, rest, eq, callable.chars c (by simp [eq])⟩

theorem Callable.starts_callText (callable : Callable name) (args : List Char) :
    Starts (isNameChar · = true) (callText name args) := callable.starts.append _

theorem Callable.tight_callText (callable : Callable name) (args : List Char) :
    Tight (callText name args) where
  starts := (callable.starts_callText args).mono fun _ => isBlank_of_isNameChar
  ends := ⟨name.toList ++ '(' :: args, ')', by simp [callText, parens], rfl⟩

theorem enclosed?_eq_none {cs : List Char} (other : ¬ Starts (· = '(') cs) :
    Bracket.round.enclosed? cs = none := by
  cases cs with
  | nil => rfl
  | cons c cs =>
    have ne : c ≠ Bracket.round.opener := fun eq => other ⟨c, cs, rfl, eq⟩
    simp [Bracket.enclosed?, ne]

theorem enclosed?_parens {within top : Char → Prop} (code : Code within top args) (rest : List Char) :
    Bracket.round.enclosed? (parens args ++ rest) = some (args, rest) := by
  have closed : Bracket.round.enclosed? (Bracket.round.opener :: args ++ Bracket.round.closer :: rest) =
      some (args, rest) := code.enclosed? Bracket.round
  simpa [parens, Bracket.opener, Bracket.closer] using closed

-- A text is a call only of the name that it opens with, and only if a parenthesis follows.
theorem stripCall_eq_none {word rest : List Char} (callable : Callable name)
    (words : ∀ c ∈ word, isNameChar c = true) (stop : ∀ c ∈ rest.head?, isNameChar c = false)
    (tight : Tight (word ++ rest)) (other : name.toList = word → ¬ Starts (· = '(') (trimStart rest)) :
    stripCall name.toList (word ++ rest) = none := by
  rw [stripCall, tight.trim_eq]
  cases found : dropPrefix? name.toList (word ++ rest) with
  | none => rfl
  | some left =>
    have closed : Bracket.round.enclosed? (trimStart left) = none := by
      rcases dropPrefix?_word callable.chars words stop found with ⟨same, rfl⟩ | more
      · exact enclosed?_eq_none (other same)
      · rw [(more.mono fun _ => isBlank_of_isNameChar).trimStart_eq]
        obtain ⟨c, rest, rfl, isName⟩ := more
        refine enclosed?_eq_none ?_
        rintro ⟨_, _, eq, rfl⟩
        obtain ⟨rfl, -⟩ := List.cons.inj eq
        exact absurd isName (by decide)
    simp [closed]

theorem stripCall_word (callable : Callable name) {cs : List Char} (tight : Tight cs)
    (words : ∀ c ∈ cs, isWordChar c = true) : stripCall name.toList cs = none := by
  have alone : Tight (cs ++ []) := by simpa using tight
  have none := stripCall_eq_none callable (fun c h => isNameChar_of_isWordChar (words c h))
    (by simp) alone (by rintro - ⟨_, _, eq, -⟩; simp at eq)
  simpa using none

theorem stripCall_callText (callable : Callable name) {within top : Char → Prop}
    (code : Code within top args) : stripCall name.toList (callText name args) = some args := by
  rw [stripCall, (callable.tight_callText args).trim_eq]
  have opens : trimStart (parens args) = parens args := Starts.trimStart_eq ⟨'(', _, rfl, rfl⟩
  have inside := enclosed?_parens code []
  rw [List.append_nil] at inside
  simp [callText, opens, inside]

theorem stripCall_callText_of_ne {other : String} (callable : Callable name) (callable' : Callable other)
    (ne : name ≠ other) (args : List Char) : stripCall name.toList (callText other args) = none := by
  refine stripCall_eq_none callable callable'.chars ?_ (callable'.tight_callText args) ?_
  · simp [parens]; decide
  · intro same
    exact absurd (String.toList_injective same) ne

theorem splitCall_callText (identifier : isIdentifier name.toList = true) {within top : Char → Prop}
    (code : Code within top args) : splitCall (callText name args) = some (name.toList, args) := by
  have words := isWordChar_of_isIdentifier identifier
  have callable := callable_of_isIdentifier identifier
  have called : (callText name args).contains '(' = true := by simp [callText, parens]
  have front : (callText name args).takeWhile (· != '(') = name.toList := by
    have other : ∀ c ∈ name.toList, (c != '(') = true := fun c h => by
      simpa using ne_of_class (words c h) (by decide)
    rw [callText, List.takeWhile_append_of_pos other]
    simp [parens]
  simp only [splitCall, (callable.tight_callText args).trim_eq, called, front,
    (tight_of_isWordChar callable.nonempty words).trim_eq, identifier, stripCall_callText callable code]
  rfl

theorem splitCall_eq_none {cs : List Char} (tight : Tight cs) (words : ∀ c ∈ cs, isWordChar c = true) :
    splitCall cs = none := by
  have plain : cs.contains '(' = false := by
    rw [List.contains_eq_mem, decide_eq_false_iff_not]
    intro h
    exact absurd (words _ h) (by decide)
  rw [splitCall, tight.trim_eq, plain]
  rfl

end Calls

section Lists

/-- The parts of a list as they are cut at its separators: `pre` stands in front of the first part,
and of what surrounds a separator `before` stays behind the part and `behind` in front of the next. -/
def cut (before behind : List Char) : List Char → List (List Char) → List (List Char)
  | _, [] => []
  | pre, [part] => [pre ++ part]
  | pre, part :: next :: rest => (pre ++ (part ++ before)) :: cut before behind behind (next :: rest)

variable {within top : Char → Prop} {before behind sep : List Char} {h : Char}

theorem splitTop_intercalate (parts : List (List Char)) (nonempty : parts ≠ []) (pre : List Char)
    (codes : ∀ part ∈ parts, Code within top part) (blankPre : Code within top pre)
    (blankBefore : Code within top before) (blankBehind : Code within top behind)
    (mark : isMark h = false) (flat : depthStep h = 0) (apart : ¬ top h) :
    splitTop (h :: sep) (pre ++ (before ++ (h :: sep) ++ behind).intercalate parts) =
      cut before behind pre parts := by
  induction parts generalizing pre with
  | nil => exact absurd rfl nonempty
  | cons part parts ih =>
    rw [List.forall_mem_cons] at codes
    cases parts with
    | nil => simpa [cut, List.intercalate] using (blankPre.append codes.1).splitTop_eq flat apart
    | cons next rest =>
      have first := blankPre.append (codes.1.append blankBefore)
      have text : pre ++ (before ++ (h :: sep) ++ behind).intercalate (part :: next :: rest) =
          (pre ++ (part ++ before)) ++ (h :: sep ++
            (behind ++ (before ++ (h :: sep) ++ behind).intercalate (next :: rest))) := by
        simp [List.intercalate]
      rw [text, first.splitTop_sep mark flat apart, ih (by simp) behind codes.2 blankBehind]
      rfl

-- What ignores blanks around a part finds the parts themselves.
theorem map_cut {α β : Type} {f : List Char → β} {g : α → β} {text : α → List Char} (parts : List α)
    (pre : List Char)
    (same : ∀ part ∈ parts, ∀ a b : List Char, (∀ c ∈ a, isBlank c = true) →
      (∀ c ∈ b, isBlank c = true) → f (a ++ (text part ++ b)) = g part)
    (blankPre : ∀ c ∈ pre, isBlank c = true) (blankBefore : ∀ c ∈ before, isBlank c = true)
    (blankBehind : ∀ c ∈ behind, isBlank c = true) :
    (cut before behind pre (parts.map text)).map f = parts.map g := by
  induction parts generalizing pre with
  | nil => rfl
  | cons part parts ih =>
    rw [List.forall_mem_cons] at same
    cases parts with
    | nil => simpa [cut] using same.1 pre [] blankPre (by simp)
    | cons next rest =>
      have others := ih behind same.2 blankBehind
      simp only [List.map_cons] at others ⊢
      rw [cut, List.map_cons, same.1 pre before blankPre blankBefore, others]

theorem splitArgs_listed {parts : List (List Char)} (codes : ∀ part ∈ parts, Code within top part)
    (tight : ∀ part ∈ parts, Tight part) (space : top ' ') (apart : ¬ top ',') :
    splitArgs (listed parts) = parts := by
  cases parts with
  | nil => rfl
  | cons part rest =>
    have solid : isBlankText (listed (part :: rest)) = false := by
      obtain ⟨c, others, rfl, solid⟩ := (tight part (by simp)).starts
      cases rest <;> simp [listed, List.intercalate, isBlankText, solid]
    have split : splitTop [','] (listed (part :: rest)) = cut [] [' '] [] (part :: rest) :=
      splitTop_intercalate _ (by simp) [] codes .nil .nil (.char rfl space .nil) rfl rfl apart
    have trimmed : (cut [] [' '] [] ((part :: rest).map id)).map trim = (part :: rest).map id :=
      map_cut (part :: rest) [] (fun part h a b before behind => (tight part h).trim_between before behind)
        (by simp) (by simp) (by decide)
    rw [splitArgs, solid, split]
    simpa using trimmed

end Lists

end Breadboard.Canonical
