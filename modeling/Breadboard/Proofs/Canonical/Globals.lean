import Breadboard.Proofs.Canonical.Statements

set_option autoImplicit false

/-!
Globals. Main statement: of the lines of a sketch those that declare a global put it into the table,
and the lines of its functions put nothing into it.
-/
namespace Breadboard.Canonical

open Text

section Initials

variable (initial : Initial)

theorem Initial.code_code : Code InLine IsWord initial.code := by
  cases initial with
  | number n => exact code_of_isWordChar n.isWordChar_text
  | text s => exact .ofQuote s

theorem Initial.tight_code : Tight initial.code := by
  cases initial with
  | number n => exact n.tight_text
  | text s => exact tight_quote s

theorem Initial.not_constant : String.ofList initial.code ∉ constants := by
  cases initial with
  | number n =>
    obtain ⟨c, rest, eq, digit⟩ := n.starts_text
    exact Expr.not_constant (c := c) (by simp [Initial.code, eq]) (.inl digit)
  | text s => exact Expr.not_constant (c := '"') (by simp [Initial.code, quote]) (.inr rfl)

theorem Initial.dropEndWhile_code : dropEndWhile (· == ';') initial.code = initial.code := by
  cases initial with
  | number n =>
    have last := List.dropLast_concat_getLast n.text_ne_nil
    have digit := n.isDigit_text _ (List.getLast_mem n.text_ne_nil)
    have ne : n.text.getLast n.text_ne_nil ≠ ';' := ne_of_class digit (by decide)
    rw [Initial.code, ← last]
    exact dropEndWhile_eq _ (by simpa using ne)
  | text s => exact dropEndWhile_eq ('"' :: escape s.toList) (by decide)

theorem Initial.literalValue_code (globals : Table Value) {cs : List Char}
    (trimmed : trim cs = initial.code) : literalValue globals cs = initial.value := by
  have free := initial.not_constant
  simp only [constants, List.mem_cons, List.not_mem_nil, or_false, not_or] at free
  simp only [literalValue, trimmed, initial.dropEndWhile_code, initial.tight_code.trim_eq, free,
    decide_false, Bool.or_self, Bool.false_eq_true, if_false]
  cases initial with
  | number n => simp only [Initial.code, n.numberLiteral?_text, Initial.value]
  | text s =>
    have noNumber : numberLiteral? (quote s) = none :=
      numberLiteral?_of_starts (tight_quote s) ⟨'"', _, rfl, by decide⟩
    have opens : (quote s).head? = some '"' := rfl
    simp only [Initial.code, noNumber, opens, if_true, unquote_quote, ofList_expandEscapes_escape,
      Initial.value]

end Initials

section Declarations

-- Words and what stands between them.
def InWords (c : Char) : Prop := isWordChar c = true ∨ c = ' '

instance : DecidablePred InWords := fun c => inferInstanceAs (Decidable (isWordChar c = true ∨ c = ' '))

theorem InWords.inLine {c : Char} (words : InWords c) : InLine c := by
  rcases words with word | rfl
  · exact .of_isWordChar word
  · decide

theorem InWords.isPlain {c : Char} (words : InWords c) : isPlain c = true := by
  rcases words with word | rfl
  · exact isPlain_of_isWordChar word
  · rfl

theorem InWords.opensNothing {c : Char} (words : InWords c) :
    isMark c = false ∧ c ≠ Bracket.curly.opener :=
  ⟨isMark_of_isPlain words.isPlain, (ne_bracket_of_depthStep (depthStep_of_isPlain words.isPlain) _).1⟩

theorem code_of_inWords {within : Char → Prop} {cs : List Char} (words : ∀ c ∈ cs, InWords c) :
    Code within InWords cs := .ofPlain (fun c h => (words c h).isPlain) words

-- What a declaration declares: a type and a name.
def Global.declared (g : Global) : List Char := g.initial.type ++ ' ' :: g.name.text ++ [' ']

def InDeclaration (c : Char) : Prop := InWords c ∨ c = '='

instance : DecidablePred InDeclaration := fun c => inferInstanceAs (Decidable (InWords c ∨ c = '='))

variable (g : Global)

theorem Initial.isIdentifier_type (initial : Initial) : isIdentifier initial.type = true := by
  cases initial <;> rfl

theorem Initial.isWordChar_type (initial : Initial) : ∀ c ∈ initial.type, isWordChar c = true :=
  isWordChar_of_isIdentifier initial.isIdentifier_type

theorem Global.inWords_declared : ∀ c ∈ g.declared, InWords c := by
  intro c h
  simp only [Global.declared, List.mem_append, List.mem_cons, List.not_mem_nil, or_false] at h
  rcases h with (type | space | name) | space
  · exact .inl (g.initial.isWordChar_type c type)
  · exact .inr space
  · exact .inl (g.name.isWordChar_text c name)
  · exact .inr space

theorem Global.code_declared : Code InLine InWords g.declared := code_of_inWords g.inWords_declared

theorem Global.line_eq : g.line = g.declared ++ (['='] ++ ' ' :: g.initial.code) ++ [';'] := by
  simp [Global.line, Global.declared]

theorem Global.code_declaration :
    Code InLine InDeclaration (g.declared ++ (['='] ++ ' ' :: g.initial.code)) := by
  have front : Code InLine InDeclaration g.declared :=
    g.code_declared.mono (fun _ h => h) fun _ => .inl
  have back : Code InLine InDeclaration g.initial.code :=
    g.initial.code_code.mono (fun _ h => h) fun _ word => .inl (.inl word)
  exact front.append (.char rfl (by decide) (.char rfl (by decide) back))

theorem Global.code_line : Code InLine InLine g.line := by
  have declaration : Code InLine InLine (g.declared ++ (['='] ++ ' ' :: g.initial.code)) := by
    refine g.code_declaration.mono (fun _ h => h) fun c h => ?_
    rcases h with words | rfl
    · exact words.inLine
    · decide
  rw [g.line_eq]
  exact declaration.append (.char rfl (by decide) .nil)

theorem Global.declaredName?_declared :
    Outline.declaredName? true g.declared = some g.name.text := by
  have noCall : '(' ∉ g.declared := by
    intro h
    exact absurd (g.inWords_declared _ h) (by decide)
  have words : words g.declared = [g.initial.type, g.name.text] := by
    have typeWord : g.initial.type ≠ [] := by cases g.initial <;> exact List.cons_ne_nil _ _
    have text : g.declared = g.initial.type ++ ' ' :: (g.name.text ++ [' ']) := by simp [Global.declared]
    rw [text, words_cons _ typeWord g.initial.isWordChar_type,
      words_cons [] g.name.text_ne_nil g.name.isWordChar_text]
    rfl
  have typed : isIdentifier (dropEndWhile Outline.isPointerMark g.initial.type) = true := by
    cases g.initial <;> rfl
  have noPointer : g.name.text.dropWhile Outline.isPointerMark = g.name.text := by
    obtain ⟨c, rest, eq, word⟩ := g.name.starts_text
    have other : Outline.isPointerMark c = false := by
      have star : c ≠ '*' := ne_of_class word (by decide)
      have ampersand : c ≠ '&' := ne_of_class word (by decide)
      simp [Outline.isPointerMark, star, ampersand]
    simp [eq, other]
  have noArray : g.name.text.takeWhile (· != '[') = g.name.text := by
    have kept : ∀ c ∈ g.name.text, (c != '[') = true := fun c h => by
      simpa using ne_of_class (g.name.isWordChar_text c h) (by decide)
    simpa using @List.takeWhile_append_of_pos _ _ _ [] kept
  have identifier : isIdentifier g.name.text = true := g.name.isIdentifier
  simp [Outline.declaredName?, noCall, words, typed, noPointer, noArray, identifier, guard]

theorem Global.starts_line : Starts IsWord g.line := by
  have type := (starts_of_isIdentifier g.initial.isIdentifier_type).mono fun _ => And.right
  rw [g.line_eq, Global.declared]
  exact (((type.append _).append _).append _).append _

theorem Global.tight_line : Tight g.line := by
  refine ⟨g.starts_line.mono fun _ => isBlank_of_isWordChar, ?_⟩
  rw [g.line_eq]
  exact Ends.append ⟨[], ';', rfl, rfl⟩ _

-- A line that opens with a word is read at its semicolons.
theorem addLine_eq {line : List Char} (tight : Tight line) (starts : Starts IsWord line)
    (globals : Table Value) : Outline.addLine globals line =
      (splitTop [';'] line).dropLast.foldl Outline.addDeclaration globals := by
  obtain ⟨c, rest, eq, word⟩ := starts
  have ne : c ≠ '#' := ne_of_class word (by decide)
  have noDefine : dropPrefix? "#define".toList line = none := by simp [eq, dropPrefix?, ne.symm]
  have noMark : line.head? ≠ some '#' := by simpa [eq] using ne
  simp only [Outline.addLine, tight.trim_eq, noDefine, noMark, if_false]

theorem Global.addLine_line (globals : Table Value) :
    Outline.addLine globals g.line = globals.insert g.name.spelling g.initial.value := by
  -- The line is cut at its semicolon, then at commas, of which there are none, then at the sign.
  have statements : splitTop [';'] g.line =
      [g.declared ++ (['='] ++ ' ' :: g.initial.code), []] := by
    rw [g.line_eq]
    exact g.code_declaration.splitTop_sep rfl rfl (by decide)
  have parts : splitTop [','] (g.declared ++ (['='] ++ ' ' :: g.initial.code)) =
      [g.declared ++ (['='] ++ ' ' :: g.initial.code)] :=
    g.code_declaration.splitTop_eq rfl (by decide)
  have sides : cutTop? ['='] (g.declared ++ (['='] ++ ' ' :: g.initial.code)) =
      some (g.declared, ' ' :: g.initial.code) :=
    g.code_declared.cutTop?_sep rfl rfl (by decide)
  have trimmed := g.initial.tight_code.trim_between (a := [' ']) (b := []) (by decide) (by simp)
  rw [List.append_nil] at trimmed
  have value := g.initial.literalValue_code globals trimmed
  rw [addLine_eq g.tight_line g.starts_line]
  simp only [statements, List.dropLast, List.foldl_cons, List.foldl_nil, Outline.addDeclaration, parts, Outline.addDeclarators, sides,
    g.declaredName?_declared, Option.map_some, Option.getD_some, Name.ofList_text]
  rw [← value]
  rfl

theorem outside_of_inWords {cs : List Char} (words : ∀ c ∈ cs, InWords c) : Outside cs :=
  .ofChars fun c h => (words c h).opensNothing

theorem Global.outside_line : Outside (g.line ++ ['\n']) := by
  have initial : Outside g.initial.code := by
    cases g.initial with
    | number n => exact outside_of_inWords fun c h => .inl (n.isWordChar_text c h)
    | text s => exact .ofQuote s
  have front := (outside_of_inWords g.inWords_declared).append (.ofChars (a := ['=', ' ']) (by decide))
  have whole := (front.append initial).append (.ofChars (a := [';', '\n']) (by decide))
  simpa [g.line_eq] using whole

theorem addLines_globals (globals : List Global) (t : Table Value) (rest : List (List Char)) :
    Outline.addLines 0 t (globals.map Global.line ++ rest) =
      Outline.addLines 0 (t.insertAll (globals.map fun g => (g.name.spelling, g.initial.value))) rest := by
  induction globals generalizing t with
  | nil => rfl
  | cons g globals ih =>
    rw [List.map_cons, List.cons_append, Outline.addLines, if_pos rfl, g.addLine_line,
      g.code_line.balance_eq]
    exact ih _

end Declarations

end Breadboard.Canonical
