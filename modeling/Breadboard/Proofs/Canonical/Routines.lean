import Breadboard.Proofs.Canonical.Globals

set_option autoImplicit false

/-!
Functions. Main statements: the block of a function is found as a whole, the text in front of it is
read as the head that it is, and its lines declare no globals.
-/
namespace Breadboard.Canonical

open Text

section Heads

variable (params : List (Name ["void"]))

theorem inWords_paramText (p : Name ["void"]) : ∀ c ∈ paramText p, InWords c :=
  List.forall_mem_append.2 ⟨by decide, fun c h => .inl (p.isWordChar_text c h)⟩

theorem forall_mem_listed {p : Char → Prop} {parts : List (List Char)}
    (chars : ∀ part ∈ parts, ∀ c ∈ part, p c) (comma : p ',') (space : p ' ') :
    ∀ c ∈ listed parts, p c := by
  induction parts with
  | nil => simp [listed, List.intercalate]
  | cons part parts ih =>
    rw [List.forall_mem_cons] at chars
    cases parts with
    | nil => simpa [listed, List.intercalate] using chars.1
    | cons next rest =>
      have text : listed (part :: next :: rest) = part ++ ([',', ' '] ++ listed (next :: rest)) := by
        simp [listed, List.intercalate]
      rw [text, List.forall_mem_append, List.forall_mem_append]
      exact ⟨chars.1, by simp [comma, space], ih chars.2⟩

theorem chars_params : ∀ c ∈ listed (params.map paramText), InWords c ∨ c = ',' := by
  refine forall_mem_listed (List.forall_mem_map.2 fun p _ c h => ?_) (.inr rfl) (.inl (.inr rfl))
  exact .inl (inWords_paramText p c h)

theorem code_params : Code InLine InLine (listed (params.map paramText)) := by
  refine .ofPlain (fun c h => ?_) fun c h => ?_
  · rcases chars_params params c h with words | rfl
    · exact words.isPlain
    · rfl
  · rcases chars_params params c h with words | rfl
    · exact words.inLine
    · decide

variable {name : String} (identifier : isIdentifier name.toList = true)

include identifier

theorem code_routineHead : Code InLine InWords (routineHead name params) := by
  have call : Code InLine InWords (callText name (listed (params.map paramText))) :=
    code_callText (callable_of_isIdentifier identifier)
      (fun c h => .inl (isWordChar_of_isIdentifier identifier c h)) (code_params params)
  exact Code.append (code_of_inWords (by decide)) call

theorem outside_routineHead : Outside (routineHead name params) := by
  have inner : Outside (listed (params.map paramText)) := by
    refine .ofChars fun c h => ?_
    rcases chars_params params c h with words | rfl
    · exact words.opensNothing
    · decide
  have called : Outside name.toList :=
    outside_of_inWords fun c h => .inl (isWordChar_of_isIdentifier identifier c h)
  exact .append (outside_of_inWords (by decide)) (called.append inner.parens)

end Heads

section Signatures

theorem backToOpening_eq {a : List Char} (rest : List Char) (flat : ∀ c ∈ a, c ≠ '(' ∧ c ≠ ')') :
    Outline.backToOpening 0 (a ++ '(' :: rest) = some (a, rest) := by
  induction a with
  | nil => rfl
  | cons c a ih =>
    rw [List.forall_mem_cons] at flat
    simp [Outline.backToOpening, flat.1, ih flat.2]

theorem takeWhile_word {word rest : List Char} (words : ∀ c ∈ word, isWordChar c = true) :
    (word ++ ' ' :: rest).takeWhile isWordChar = word ∧
      (word ++ ' ' :: rest).dropWhile isWordChar = ' ' :: rest := by
  have blank : isWordChar ' ' = false := rfl
  rw [List.takeWhile_append_of_pos words, List.dropWhile_append_of_pos words]
  simp [blank]

theorem paramName?_paramText (p : Name ["void"]) : Outline.paramName? (paramText p) = some p.spelling := by
  have noDefault : (paramText p).takeWhile (· != '=') = paramText p := by
    have kept : ∀ c ∈ paramText p, (c != '=') = true := fun c h => by
      have ne : c ≠ '=' := fun eq => absurd (eq ▸ inWords_paramText p c h) (by decide)
      simpa using ne
    simpa using @List.takeWhile_append_of_pos _ _ _ [] kept
  have backwards : (paramText p).reverse = p.text.reverse ++ ' ' :: "tni".toList := List.reverse_append
  have reversed : ∀ c ∈ p.text.reverse, isWordChar c = true := fun c h =>
    p.isWordChar_text c (List.mem_reverse.1 h)
  have starts : (p.text.reverse ++ ' ' :: "tni".toList).dropWhile (fun c => !isWordChar c) =
      p.text.reverse ++ ' ' :: "tni".toList := by
    obtain ⟨c, rest, eq⟩ := List.exists_cons_of_ne_nil (List.reverse_ne_nil_iff.2 p.text_ne_nil)
    have word := reversed c (by simp [eq])
    simp [eq, word]
  have identifier : isIdentifier p.text = true := p.isIdentifier
  have notVoid : p.spelling ≠ "void" := by simpa using p.notReserved
  simp only [Outline.paramName?, noDefault, backwards, starts, (takeWhile_word reversed).1,
    List.reverse_reverse, Name.ofList_text]
  exact if_pos ⟨notVoid, identifier⟩

theorem params_listed (params : List (Name ["void"])) :
    (splitArgs (listed (params.map paramText))).filterMap Outline.paramName? =
      params.map Name.spelling := by
  have codes : ∀ part ∈ params.map paramText, Code InLine InWords part :=
    List.forall_mem_map.2 fun p _ => code_of_inWords (inWords_paramText p)
  have tight : ∀ part ∈ params.map paramText, Tight part :=
    List.forall_mem_map.2 fun p _ => ⟨⟨'i', _, rfl, rfl⟩, p.tight_text.ends.append _⟩
  have parts := splitArgs_listed codes tight (by decide) (by decide)
  have named : Outline.paramName? ∘ paramText = fun p => some p.spelling := by
    simp only [Function.comp_def, paramName?_paramText]
  rw [parts, List.filterMap_map, named, List.filterMap_eq_map']

/-- Read backwards from its block, the head of a function is the signature that it writes down. -/
theorem signature?_routineHead {name : String} (identifier : isIdentifier name.toList = true)
    (free : name ∉ ["if", "for", "while", "switch"]) (params : List (Name ["void"]))
    (behind : List Char) : ∃ line, Outline.signature? (' ' :: (routineHead name params).reverse ++ behind) =
      some ⟨name, params.map Name.spelling, line⟩ := by
  -- Backwards come the parenthesis, the parameters, the name, and the type with all in front of it.
  let inner := listed (params.map paramText)
  let front := "void ".toList.reverse ++ behind
  have flat : ∀ c ∈ inner.reverse, c ≠ '(' ∧ c ≠ ')' := by
    intro c h
    rcases chars_params params c (List.mem_reverse.1 h) with words | rfl
    · exact ne_bracket_of_depthStep (depthStep_of_isPlain words.isPlain) .round
    · decide
  have call : (callText name inner).reverse = ')' :: (inner.reverse ++ '(' :: name.toList.reverse) := by
    simp [callText, parens]
  have head : (routineHead name params).reverse = (callText name inner).reverse ++ "void ".toList.reverse :=
    List.reverse_append
  have text : ' ' :: (routineHead name params).reverse ++ behind =
      ' ' :: ')' :: (inner.reverse ++ '(' :: (name.toList.reverse ++ front)) := by
    simp only [head, call, front, List.cons_append, List.append_assoc]
  have words : ∀ c ∈ name.toList.reverse, isWordChar c = true := fun c h =>
    isWordChar_of_isIdentifier identifier c (List.mem_reverse.1 h)
  have solid : (name.toList.reverse ++ front).dropWhile isBlank = name.toList.reverse ++ front := by
    have nonempty := List.reverse_ne_nil_iff.2 (callable_of_isIdentifier identifier).nonempty
    exact ((tight_of_isWordChar nonempty words).starts.append front).trimStart_eq
  have nameCut : (name.toList.reverse ++ front).takeWhile isWordChar = name.toList.reverse ∧
      (name.toList.reverse ++ front).dropWhile isWordChar = front :=
    @takeWhile_word _ ("diov".toList ++ behind) words
  have notKeyword : ["if", "for", "while", "switch"].contains name = false := by
    rw [List.contains_eq_mem, decide_eq_false_iff_not]
    exact free
  have closes : (' ' :: ')' :: (inner.reverse ++ '(' :: (name.toList.reverse ++ front))).dropWhile isBlank =
      ')' :: (inner.reverse ++ '(' :: (name.toList.reverse ++ front)) := rfl
  have spaced : front.head?.any (fun c => isBlank c || Outline.isPointerMark c) = true := rfl
  have typed : (front.dropWhile isBlank).head?.any (fun c => isWordChar c || Outline.isPointerMark c) = true :=
    rfl
  have listed : (splitArgs inner).filterMap Outline.paramName? = params.map Name.spelling :=
    params_listed params
  refine ⟨newlines front + 1, ?_⟩
  simp only [text, Outline.signature?, closes, backToOpening_eq _ flat, Option.bind_eq_bind,
    Option.bind_some, solid, nameCut, List.reverse_reverse, String.ofList_toList, identifier, notKeyword,
    spaced, typed, listed, guard, Bool.not_false, if_true]
  rfl

end Signatures

section Blocks

variable (width : Nat) {name : String} (params : List (Name ["void"])) (body : List Statement)

theorem printed_eq (line : List Char) (ls : List (List Char)) :
    printed (line :: ls) = line ++ follow ls ++ ['\n'] := by
  induction ls generalizing line with
  | nil => simp
  | cons next ls ih => simp [printed_cons line, ih next]

theorem printed_routineLines : printed (routineLines width name params body) =
    routineHead name params ++ block width 0 body ['\n'] := by
  have whole := opening_body width 0 (routineHead name params) body
  rw [Nat.zero_add] at whole
  rw [routineLines, List.cons_append, printed_eq]
  have closer : [['\x7d']] = [indented 0 ['\x7d']] := rfl
  rw [closer, whole]
  simp [block]

variable (identifier : isIdentifier name.toList = true)

include identifier

theorem balanced_routine : Balanced (printed (routineLines width name params body)) := by
  have head := (code_routineHead params identifier).mono (fun _ h => h) fun _ => InWords.inLine
  rw [printed_routineLines]
  exact balanced_block width 0 head (Statement.balanced_linesAll width body _) (.char rfl trivial .nil)

-- A function adds one block to those of a text.
theorem blocksFrom_routine (behind cs : List Char) :
    ∃ behind', blocksFrom .code (.outside behind) (printed (routineLines width name params body) ++ cs) =
      ⟨' ' :: (routineHead name params).reverse ++ behind, inside width 0 body⟩ ::
        blocksFrom .code (.outside behind') cs := by
  have front : Outside (routineHead name params ++ [' ']) :=
    (outside_routineHead params identifier).append (.ofChars (by decide))
  have lineEnd : Outside ['\n'] := .ofChars (by decide)
  have balanced := balanced_inside width 0 (Statement.balanced_linesAll width body (0 + width))
  have text : printed (routineLines width name params body) ++ cs =
      (routineHead name params ++ [' ']) ++
        (Bracket.curly.opener :: inside width 0 body ++ Bracket.curly.closer :: (['\n'] ++ cs)) := by
    simp [printed_routineLines, block, Bracket.opener, Bracket.closer]
  have backwards : (routineHead name params ++ [' ']).reverse ++ behind =
      ' ' :: (routineHead name params).reverse ++ behind := by simp
  rw [text, front, balanced.blocksFrom_block, lineEnd, backwards]
  exact ⟨_, rfl⟩

end Blocks

section Lines

-- Lines inside of a block declare no globals.
theorem Passes.addLines_eq {ls : List (List Char)} (passes : Passes ls) {depth : Int} (deep : 1 ≤ depth)
    (globals : Table Value) (rest : List (List Char)) :
    Outline.addLines depth globals (ls ++ rest) = Outline.addLines depth globals rest := by
  induction passes generalizing depth rest with
  | nil => rfl
  | line _ even =>
    have within : depth ≠ 0 := by omega
    simp [Outline.addLines, within, even]
  | append _ _ first second => rw [List.append_assoc, first deep, second deep]
  | @body first last inner _ opens _ _ closes middle =>
    have within : depth ≠ 0 := by omega
    have inside : depth + 1 ≠ 0 := by omega
    have level : depth + 1 + -1 = depth := by omega
    have text : first :: inner ++ [last] ++ rest = first :: (inner ++ (last :: rest)) := by simp
    rw [text, Outline.addLines, if_neg within, opens, middle (by omega), Outline.addLines,
      if_neg inside, closes, level]

variable (width : Nat) {name : String} (params : List (Name ["void"])) (body : List Statement)
  (identifier : isIdentifier name.toList = true)

include identifier

theorem inLine_routineLines : ∀ line ∈ routineLines width name params body, ∀ c ∈ line, InLine c := by
  have head := (code_routineHead params identifier).inLine fun _ => InWords.inLine
  have inner := (Statement.passes_linesAll width body width).inLine
  rw [routineLines, List.forall_mem_append, List.forall_mem_cons]
  exact ⟨⟨inLine_opening head, inner⟩, by decide⟩

theorem addLine_head (globals : Table Value) :
    Outline.addLine globals (opening (routineHead name params)) = globals := by
  have starts : Starts IsWord (opening (routineHead name params)) := ⟨'v', _, rfl, rfl⟩
  have tight : Tight (opening (routineHead name params)) :=
    ⟨starts.mono fun _ => isBlank_of_isWordChar, Ends.append ⟨[' '], _, rfl, rfl⟩ _⟩
  have whole : splitTop [';'] (opening (routineHead name params)) = [opening (routineHead name params)] := by
    rw [splitTop, opening, (code_routineHead params identifier).splitTopFrom_append rfl (Int.le_refl 0)
      (.inr (by decide))]
    rfl
  rw [addLine_eq tight starts, whole]
  rfl

-- The lines of a function declare no globals.
theorem addLines_routineLines (globals : Table Value) (rest : List (List Char)) :
    Outline.addLines 0 globals (routineLines width name params body ++ rest) =
      Outline.addLines 0 globals rest := by
  have opens : Bracket.curly.balance .code (opening (routineHead name params)) = 1 :=
    balance_opening ((code_routineHead params identifier).mono (fun _ h => h) fun _ => InWords.inLine)
  have inner := Statement.passes_linesAll width body width
  have text : routineLines width name params body ++ rest = opening (routineHead name params) ::
      (Statement.linesAll width width body ++ (['\x7d'] :: rest)) := by simp [routineLines]
  rw [text, Outline.addLines, if_pos rfl, addLine_head params identifier, opens,
    inner.addLines_eq (by decide), Outline.addLines, balance_closer]
  rfl

end Lines

end Breadboard.Canonical
