import Breadboard.Proofs.Canonical.Expressions

set_option autoImplicit false

/-!
Simple statements. Main statement: the text of a simple statement opens no compound one, and reading
it gives the statement's meaning.
-/
namespace Breadboard.Canonical

open Text

section HardwareCalls

variable {name : String} {args : List Char}

theorem findSome?_stripCall {α : Type} (calls : List (String × (List Char → α)))
    (callables : ∀ call ∈ calls, Callable call.1) (callable : Callable name)
    (code : Code InLine InLine args) :
    (calls.findSome? fun (called, read) => (stripCall called.toList (callText name args)).map read) =
      (calls.lookup name).map (· args) := by
  induction calls with
  | nil => rfl
  | cons call calls ih =>
    obtain ⟨called, read⟩ := call
    rw [List.forall_mem_cons] at callables
    rw [List.findSome?_cons, List.lookup_cons]
    by_cases same : name = called
    · simp [same, stripCall_callText callables.1 code]
    · have other : (name == called) = false := by simp [same]
      simp [other, stripCall_callText_of_ne callables.1 callable (Ne.symm same), ih callables.2]

theorem callable_hardwareCalls : ∀ call ∈ Action.hardwareCalls, Callable call.1 := by decide

theorem hardwareCall?_callText (callable : Callable name) (code : Code InLine InLine args) :
    Action.hardwareCall? (callText name args) = (Action.hardwareCalls.lookup name).map (· args) :=
  findSome?_stripCall _ callable_hardwareCalls callable code

theorem hardwareCall?_eq_none {text : List Char}
    (noCall : ∀ called : String, Callable called → stripCall called.toList text = none) :
    Action.hardwareCall? text = none := by
  rw [Action.hardwareCall?, List.findSome?_eq_none_iff]
  intro call h
  simp [noCall call.1 (callable_hardwareCalls call h)]

theorem readSimple_callText (loc : Location) (callable : Callable name) (code : Code InLine InLine args)
    {read : List Char → Option Action} (known : Action.hardwareCalls.lookup name = some read)
    {action : Action} (done : read args = some action) :
    Stmt.readSimple loc (callText name args) = .act loc action := by
  simp [Stmt.readSimple, hardwareCall?_callText callable code, known, done]

end HardwareCalls

section Arguments

theorem read_code (e : Expr) (enough : e.levels ≤ maxLevels) : Breadboard.Expr.read e.code = e.meaning :=
  e.readWithin_code enough e.tight_code.trim_eq

theorem read_codes (es : List Expr) (enough : Expr.levelsAll es ≤ maxLevels) :
    (Expr.codes es).map Breadboard.Expr.read = Expr.meanings es :=
  Expr.readWithin_codes es enough

theorem twoArgs?_listed (a b : Expr) (enough : max a.levels b.levels ≤ maxLevels) :
    Action.twoArgs? (listed [a.code, b.code]) = some (a.meaning, b.meaning) := by
  rw [Nat.max_le] at enough
  have args : splitArgs (listed [a.code, b.code]) = [a.code, b.code] := Expr.splitArgs_codes [a, b]
  simp only [Action.twoArgs?, args, read_code a enough.1, read_code b enough.2]

theorem stripCall_expr (e : Expr) {called : String} (callable : Callable called)
    (other : called ∉ ["millis", "micros", "digitalRead", "analogRead"])
    (notBuiltin : ∀ f : Builtin, called ≠ f.name) (notText : e.isText = false) :
    stripCall called.toList e.code = none := by
  simp only [List.mem_cons, List.not_mem_nil, or_false, not_or] at other
  cases e with
  | number n => exact stripCall_word callable n.tight_text n.isWordChar_text
  | text s => simp [Expr.isText] at notText
  | var name => exact stripCall_word callable name.tight_text name.isWordChar_text
  | millis => exact stripCall_callText_of_ne callable (by decide) other.1 _
  | micros => exact stripCall_callText_of_ne callable (by decide) other.2.1 _
  | digitalRead pin => exact stripCall_callText_of_ne callable (by decide) other.2.2.1 _
  | analogRead pin => exact stripCall_callText_of_ne callable (by decide) other.2.2.2 _
  | builtin f args => exact stripCall_callText_of_ne callable (callable_builtin f) (notBuiltin f) _

theorem stripCall_quote {called : String} (callable : Callable called) (s : String) :
    stripCall called.toList (quote s) = none := by
  have stop : ∀ c ∈ (quote s).head?, isNameChar c = false := by
    simp only [quote, List.cons_append, List.head?_cons, Option.mem_some_iff]
    rintro c rfl
    rfl
  exact @stripCall_eq_none called [] (quote s) callable (by simp) stop (tight_quote s)
    fun eq => absurd eq callable.nonempty

theorem unquote_expr (e : Expr) (notText : e.isText = false) : unquote e.code = none :=
  unquote_of_starts e.tight_code ((e.starts_word notText).mono fun _ word =>
    isMark_of_isPlain (isPlain_of_isWordChar word))

theorem printArg_code (arg : PrintArg) (enough : arg.levels ≤ maxLevels) :
    Action.printArg arg.code = arg.meaning := by
  have wrapper : Callable "F" := by decide
  cases arg with
  | literal s =>
    have args : splitArgs (quote s) = [quote s] := Expr.splitArgs_code (.text s)
    have noWrap : stripCall ['F'] (quote s) = none := stripCall_quote wrapper s
    simp only [Action.printArg, PrintArg.code, args, noWrap, Option.getD_none, unquote_quote,
      ofList_expandEscapes_escape, PrintArg.meaning]
  | value e notText =>
    have noWrap : stripCall ['F'] e.code = none :=
      stripCall_expr e wrapper (by decide) (by intro f; cases f <;> decide) notText
    simp only [Action.printArg, PrintArg.code, e.splitArgs_code, noWrap, Option.getD_none, unquote_expr e notText,
      read_code e enough, PrintArg.meaning]
  | empty => rfl

theorem readPrintf?_listed (template : String) (args : List Expr)
    (enough : Expr.levelsAll args ≤ maxLevels) :
    Action.readPrintf? (listed (quote template :: Expr.codes args)) =
      some (.printf template (Expr.meanings args)) := by
  have split : splitArgs (listed (quote template :: Expr.codes args)) = quote template :: Expr.codes args :=
    Expr.splitArgs_codes (.text template :: args)
  have opens : (quote template).head? = some '"' := rfl
  simp only [Action.readPrintf?, split, opens, if_true, unquote_quote, Option.map_some,
    ofList_expandEscapes_escape, read_codes args enough]

end Arguments

section Assignments

theorem wordsFrom_append (seen : List Char) {word : List Char} (cs : List Char)
    (solid : ∀ c ∈ word, isBlank c = false) :
    wordsFrom seen (word ++ cs) = wordsFrom (word.reverse ++ seen) cs := by
  induction word generalizing seen with
  | nil => rfl
  | cons c word ih =>
    rw [List.forall_mem_cons] at solid
    simp [wordsFrom, solid.1, ih (c :: seen) solid.2]

theorem words_cons {word : List Char} (cs : List Char) (nonempty : word ≠ [])
    (letters : ∀ c ∈ word, isWordChar c = true) : words (word ++ ' ' :: cs) = word :: words cs := by
  have blank : isBlank ' ' = true := rfl
  rw [words, wordsFrom_append [] _ fun c h => isBlank_of_isWordChar (letters c h)]
  simp [wordsFrom, blank, nonempty, words]

-- The equals sign that ends the first part assigns, with the operator in front of it if there is
-- one.
theorem findAssign_eq {text part back : List Char} (front : List Char) (before : Char)
    {parts : List (List Char)} (ends : part = front ++ [before])
    (eq : text = part ++ '=' :: ' ' :: back) (assigns : before ∉ ['=', '!', '<', '>']) :
    Action.findAssign text 0 (part :: parts) =
      match Action.assignOp? before with
      | some op => some (front, op, ' ' :: back)
      | none => some (front ++ [before], .set, ' ' :: back) := by
  simp only [List.mem_cons, List.not_mem_nil, or_false, not_or] at assigns
  have atEnd : text = (front ++ [before, '=']) ++ ' ' :: back := by simp [eq, ends]
  have pos : 0 + part.length = front.length + 1 := by simp [ends]
  have short : ¬ text.length ≤ front.length + 1 := by simp [eq, ends]
  have atBefore : text.getD (front.length + 1 - 1) ' ' = before := by simp [eq, ends]
  have keep : text.take (front.length + 1) = front ++ [before] := by
    rw [eq, ends]
    exact List.take_left' (by simp)
  have drop : text.drop (front.length + 1 + 1) = ' ' :: back := by
    rw [atEnd]
    exact List.drop_left' (by simp)
  have atBehind : text.getD (front.length + 1 + 1) ' ' = ' ' := by
    rw [List.getD_eq_getElem?_getD, ← List.head?_drop, drop]
    rfl
  have keepLess : text.take (front.length + 1 - 1) = front := by simp [eq, ends]
  have later : (front.length + 1 = 0) = False := by simp
  rw [Action.findAssign]
  simp only [pos, if_neg short, later, if_false, atBefore, atBehind, assigns, keep, drop, keepLess]
  rfl

variable (name : Name keywords) (op : AssignOp) (value : Expr)

theorem findAssign_assign :
    Action.findAssign (Simple.assign name op value).code 0
        (splitTop ['='] (Simple.assign name op value).code) =
      some (name.text ++ [' '], op, ' ' :: value.code) := by
  have marks : ∀ c ∈ ' ' :: assignMark op, isMark c = false ∧ depthStep c = 0 ∧ '=' ≠ c := by
    cases op <;> decide
  have flat : ∀ c ∈ name.text ++ ' ' :: assignMark op, isMark c = false ∧ depthStep c = 0 ∧ '=' ≠ c := by
    intro c h
    rcases List.mem_append.1 h with h | h
    · have word := name.isWordChar_text c h
      have plain := isPlain_of_isWordChar word
      exact ⟨isMark_of_isPlain plain, depthStep_of_isPlain plain, (ne_of_class word (by decide)).symm⟩
    · exact marks c h
  have whole : (Simple.assign name op value).code =
      (name.text ++ ' ' :: assignMark op) ++ '=' :: ' ' :: value.code := by simp [Simple.code]
  have sign : splitTopFrom ['='] .code 0 0 ('=' :: ' ' :: value.code) =
      ([], (splitTopFrom ['='] .code 0 0 (' ' :: value.code)).1 ::
        (splitTopFrom ['='] .code 0 0 (' ' :: value.code)).2) := splitTopFrom_sep rfl rfl
  have split : splitTop ['='] (Simple.assign name op value).code =
      (name.text ++ ' ' :: assignMark op) :: splitTop ['='] (' ' :: value.code) := by
    simp only [whole, splitTop, splitTopFrom_flat flat, sign, onFirst, List.append_nil]
  rw [split]
  -- The character in front of the equals sign tells the operator; a blank stands for none.
  cases op with
  | set => exact findAssign_eq name.text ' ' rfl whole (by decide)
  | add => exact findAssign_eq (name.text ++ [' ']) '+' (by simp [assignMark]) whole (by decide)
  | sub => exact findAssign_eq (name.text ++ [' ']) '-' (by simp [assignMark]) whole (by decide)
  | mul => exact findAssign_eq (name.text ++ [' ']) '*' (by simp [assignMark]) whole (by decide)
  | div => exact findAssign_eq (name.text ++ [' ']) '/' (by simp [assignMark]) whole (by decide)

theorem readAssign?_assign (enough : value.levels ≤ maxLevels) :
    Action.readAssign? (Simple.assign name op value).code =
      some (.assign name.spelling op value.meaning) := by
  have words : words (name.text ++ [' ']) = [name.text] :=
    words_cons [] name.text_ne_nil name.isWordChar_text
  have noStar : name.text.dropWhile (· == '*') = name.text := by
    obtain ⟨c, rest, eq, word⟩ := name.starts_text
    have ne : c ≠ '*' := ne_of_class word (by decide)
    simp [eq, ne]
  have identifier : isIdentifier name.text = true := name.isIdentifier
  have read : Breadboard.Expr.read (' ' :: value.code) = value.meaning := by
    have trimmed := value.tight_code.trim_between (a := [' ']) (b := []) (by decide) (by simp)
    rw [List.append_nil] at trimmed
    exact value.readWithin_code enough trimmed
  simp [Action.readAssign?, findAssign_assign, words, noStar, identifier, read, guard]

-- Without an equals sign outside of parentheses nothing is assigned.
theorem readAssign?_eq_none {top : Char → Prop} {text : List Char} (code : Code InLine top text)
    (apart : ¬ top '=') : Action.readAssign? text = none := by
  simp [Action.readAssign?, code.splitTop_eq rfl apart, Action.findAssign]

theorem dropSuffix?_append (front tail : List Char) : dropSuffix? tail (front ++ tail) = some front := by
  simp [dropSuffix?]

theorem readStep?_step (up : Bool) :
    Action.readStep? (Simple.step name up).code =
      some (.step name.spelling (if up then 1.0 else -1.0)) := by
  have identifier : isIdentifier name.text = true := name.isIdentifier
  cases up with
  | true =>
    simp [Action.readStep?, Simple.code, dropSuffix?_append, name.tight_text.trim_eq, identifier, guard]
  | false =>
    have notUp : dropSuffix? ['+', '+'] (name.text ++ ['-', '-']) = none := by
      simp [dropSuffix?, dropPrefix?]
    simp [Action.readStep?, Simple.code, notUp, dropSuffix?_append, name.tight_text.trim_eq, identifier,
      guard]

theorem readStep?_callText {called : String} (callable : Callable called) (args : List Char) :
    Action.readStep? (callText called args) = none := by
  obtain ⟨c, rest, eq, first⟩ := callable.starts_callText args
  have plus : '+' ≠ c := (ne_of_class first (by decide)).symm
  have minus : '-' ≠ c := (ne_of_class first (by decide)).symm
  have noPrefix (d : Char) (ne : d ≠ c) : dropPrefix? [d, d] (callText called args) = none := by
    simp [eq, dropPrefix?, ne]
  have noSuffix (d : Char) (ne : d ≠ ')') : dropSuffix? [d, d] (callText called args) = none := by
    simp [callText, parens, dropSuffix?, dropPrefix?, ne]
  simp [Action.readStep?, noPrefix '+' plus, noPrefix '-' minus, noSuffix '+' (by decide),
    noSuffix '-' (by decide)]

end Assignments

theorem PrintArg.code_code (arg : PrintArg) : Code InLine InLine arg.code := by
  cases arg with
  | literal s => exact .ofQuote s
  | value e _ => exact e.code_inner
  | empty => exact .nil

namespace Simple

-- The characters of a simple statement that stand in no parentheses.
def InSimple (c : Char) : Prop := IsWord c ∨ c ∈ ['.', ' ', '=', '+', '-', '*', '/']

instance : DecidablePred InSimple := fun c =>
  inferInstanceAs (Decidable (IsWord c ∨ c ∈ ['.', ' ', '=', '+', '-', '*', '/']))

theorem InSimple.inLine {c : Char} (h : InSimple c) : InLine c := by
  rcases h with word | known
  · exact .of_isWordChar word
  · revert c
    decide

theorem code_name {reserved : List String} (name : Name reserved) : Code InLine InSimple name.text :=
  (code_of_isWordChar name.isWordChar_text).mono (fun _ h => h) fun _ => .inl

theorem code_assign (name : Name keywords) (op : AssignOp) (value : Expr) :
    Code InLine InSimple (assign name op value).code := by
  have operator : Code InLine InSimple (' ' :: assignMark op ++ ['=', ' ']) := by
    cases op with
    | div => exact .char rfl (by decide) (.divide (by decide) (by decide) (.char rfl (by decide) .nil))
    | _ => exact .ofPlain (by decide) (by decide)
  have whole := (code_name name).append
    (operator.append (value.code_code.mono (fun _ h => h) fun _ => .inl))
  simpa [code] using whole

theorem code_step (name : Name keywords) (up : Bool) :
    Code InLine (fun c => IsWord c ∨ c ∈ ['+', '-']) (step name up).code := by
  refine .append ((code_of_isWordChar name.isWordChar_text).mono (fun _ h => h) fun _ => .inl) ?_
  cases up <;> exact .ofPlain (by decide) (by decide)

theorem code_code (s : Simple) : Code InLine InSimple s.code := by
  have call {name : String} {args : List Char} (callable : Callable name) (inner : Code InLine InLine args) :
      Code InLine InSimple (callText name args) := by
    refine code_callText callable (fun c h => ?_) inner
    have isName := callable.chars c h
    simp only [isNameChar, Bool.or_eq_true, beq_iff_eq] at isName
    rcases isName with word | rfl
    · exact .inl word
    · decide
  cases s with
  | delay ms => exact call (by decide) ms.code_inner
  | delayMicros us => exact call (by decide) us.code_inner
  | serialBegin => exact call (by decide) (.ofPlain (by decide) (by decide))
  | print arg newline =>
    cases newline <;> exact call (by decide) arg.code_code
  | printf template args => exact call (by decide) (code_listed (Expr.code_codes (.text template :: args)))
  | pinMode pin mode => exact call (by decide) (code_listed (Expr.code_codes [pin, mode]))
  | digitalWrite pin value => exact call (by decide) (code_listed (Expr.code_codes [pin, value]))
  | analogWrite pin duty => exact call (by decide) (code_listed (Expr.code_codes [pin, duty]))
  | assign name op value => exact code_assign name op value
  | step name up =>
    have signs : ∀ c ∈ ['+', '-'], InSimple c := by decide
    exact (code_step name up).mono (fun _ h => h) fun c h => h.elim .inl (signs c)
  | call name args => exact call name.callable (code_listed (Expr.code_codes args))

-- A text that opens with a word that is no keyword, and in which the word ends.
def OpensFree (cs : List Char) : Prop := ∃ word c rest, cs = word ++ c :: rest ∧ word ≠ [] ∧
  (∀ d ∈ word, isWordChar d = true) ∧ isWordChar c = false ∧ String.ofList word ∉ keywords

theorem opensFree_name {reserved : List String} (name : Name reserved) (free : name.spelling ∉ keywords)
    {c : Char} (stop : isWordChar c = false) (rest : List Char) : OpensFree (name.text ++ c :: rest) :=
  ⟨name.text, c, rest, rfl, name.text_ne_nil, name.isWordChar_text, stop, by simpa using free⟩

theorem opensFree_code (s : Simple) : OpensFree s.code := by
  -- The name of a serial call ends at its point, that of any other at its parenthesis.
  have call (name : String) (args : List Char) (nonempty : name.toList ≠ [])
      (words : ∀ d ∈ name.toList, isWordChar d = true) (free : name ∉ keywords) :
      OpensFree (callText name args) :=
    ⟨name.toList, '(', args ++ [')'], rfl, nonempty, words, rfl, by simpa using free⟩
  have serial (method args : List Char) : OpensFree ("Serial".toList ++ '.' :: (method ++ parens args)) :=
    ⟨"Serial".toList, '.', _, rfl, by decide, by decide, rfl, by decide⟩
  cases s with
  | delay ms => exact call "delay" _ (by decide) (by decide) (by decide)
  | delayMicros us => exact call "delayMicroseconds" _ (by decide) (by decide) (by decide)
  | serialBegin => exact serial "begin".toList _
  | print arg newline =>
    cases newline with
    | true => exact serial "println".toList _
    | false => exact serial "print".toList _
  | printf template args => exact serial "printf".toList _
  | pinMode pin mode => exact call "pinMode" _ (by decide) (by decide) (by decide)
  | digitalWrite pin value => exact call "digitalWrite" _ (by decide) (by decide) (by decide)
  | analogWrite pin duty => exact call "analogWrite" _ (by decide) (by decide) (by decide)
  | assign name op value =>
    have opens := opensFree_name name name.notReserved (c := ' ') rfl (assignMark op ++ '=' :: ' ' :: value.code)
    simpa [code] using opens
  | step name up =>
    cases up with
    | true => exact opensFree_name name name.notReserved rfl ['+']
    | false => exact opensFree_name name name.notReserved rfl ['-']
  | call name args =>
    refine opensFree_name name (fun known => name.notReserved ?_) rfl _
    exact List.mem_append_left _ known

theorem leadingKeyword_code (s : Simple) (rest : List Char) : leadingKeyword (s.code ++ rest) = none := by
  obtain ⟨word, c, more, eq, nonempty, words, stop, free⟩ := s.opensFree_code
  have text : s.code ++ rest = word ++ (c :: (more ++ rest)) := by simp [eq]
  have starts := (tight_of_isWordChar nonempty words).starts.append (c :: (more ++ rest))
  rw [text]
  exact leadingKeyword_eq_none starts words (by simpa using stop) free

theorem starts_code (s : Simple) : Starts IsWord s.code := by
  obtain ⟨word, c, more, eq, nonempty, words, -⟩ := s.opensFree_code
  obtain ⟨d, rest, rfl⟩ := List.exists_cons_of_ne_nil nonempty
  exact ⟨d, rest ++ c :: more, eq, words d (by simp)⟩

theorem ends_code (s : Simple) : Ends s.code := by
  have call (name : String) (args : List Char) : Ends (callText name args) :=
    ⟨name.toList ++ '(' :: args, ')', by simp [callText, parens], rfl⟩
  cases s with
  | assign name op value =>
    simpa [code] using value.tight_code.ends.append (name.text ++ ' ' :: assignMark op ++ ['=', ' '])
  | step name up => cases up <;> exact Ends.append ⟨[_], _, rfl, rfl⟩ _
  | _ => exact call _ _

theorem tight_code (s : Simple) : Tight s.code :=
  ⟨s.starts_code.mono fun _ => isBlank_of_isWordChar, s.ends_code⟩

-- A name that is followed by an operator is called by nothing.
theorem hardwareCall?_operator (name : Name keywords) {c : Char} (rest : List Char)
    (stop : isNameChar c = false) (other : ¬ Starts (· = '(') (trimStart (c :: rest)))
    (tight : Tight (name.text ++ c :: rest)) : Action.hardwareCall? (name.text ++ c :: rest) = none := by
  refine hardwareCall?_eq_none fun called callable => ?_
  refine stripCall_eq_none callable (fun c h => isNameChar_of_isWordChar (name.isWordChar_text c h))
    (by simpa using stop) tight fun _ => other

theorem hardwareCall?_assign (name : Name keywords) (op : AssignOp) (value : Expr) :
    Action.hardwareCall? (assign name op value).code = none := by
  have tight := (assign name op value).tight_code
  have text : (assign name op value).code =
      name.text ++ ' ' :: (assignMark op ++ '=' :: ' ' :: value.code) := by simp [code]
  rw [text] at tight ⊢
  refine hardwareCall?_operator name _ rfl ?_ tight
  have blank : isBlank ' ' = true := rfl
  rw [trimStart, List.dropWhile_cons_of_pos blank]
  rintro ⟨c, rest, eq, rfl⟩
  cases op <;> simp [assignMark, isBlank] at eq

theorem hardwareCall?_step (name : Name keywords) (up : Bool) :
    Action.hardwareCall? (step name up).code = none := by
  have tight := (step name up).tight_code
  have other (c : Char) (solid : isBlank c = false) (ne : c ≠ '(') :
      ¬ Starts (· = '(') (trimStart [c, c]) := by
    rintro ⟨d, rest, eq, rfl⟩
    simp [trimStart, solid, ne] at eq
  cases up with
  | true => exact hardwareCall?_operator name ['+'] rfl (other '+' rfl (by decide)) tight
  | false => exact hardwareCall?_operator name ['-'] rfl (other '-' rfl (by decide)) tight

/-- Reading the text of a simple statement gives its meaning. -/
theorem readSimple_code (s : Simple) (enough : s.levels ≤ maxLevels) (loc : Location) :
    (Stmt.readSimple loc s.code).unlocated = s.meaning := by
  have hardware {name : String} {args : List Char} {read : List Char → Option Action} {action : Action}
      (callable : Callable name) (inner : Code InLine InLine args)
      (known : Action.hardwareCalls.lookup name = some read) (done : read args = some action) :
      (Stmt.readSimple loc (callText name args)).unlocated = .act .start action := by
    rw [readSimple_callText loc callable inner known done]
    rfl
  have listing (es : List Expr) := code_listed (Expr.code_codes es)
  -- Hardware calls are found under their names; the other forms come after all of them.
  cases s with
  | delay ms => exact hardware (by decide) ms.code_inner rfl (by rw [read_code ms enough])
  | delayMicros us => exact hardware (by decide) us.code_inner rfl (by rw [read_code us enough])
  | serialBegin => exact hardware (by decide) (.ofPlain (by decide) (by decide)) rfl rfl
  | print arg newline =>
    cases newline with
    | true => exact hardware (by decide) arg.code_code rfl (by rw [printArg_code arg enough])
    | false => exact hardware (by decide) arg.code_code rfl (by rw [printArg_code arg enough])
  | printf template args =>
    exact hardware (by decide) (listing (.text template :: args)) rfl (readPrintf?_listed template args enough)
  | pinMode pin mode =>
    exact hardware (by decide) (listing [pin, mode]) rfl (by rw [twoArgs?_listed pin mode enough]; rfl)
  | digitalWrite pin value =>
    exact hardware (by decide) (listing [pin, value]) rfl (by rw [twoArgs?_listed pin value enough]; rfl)
  | analogWrite pin duty =>
    exact hardware (by decide) (listing [pin, duty]) rfl (by rw [twoArgs?_listed pin duty enough]; rfl)
  | assign name op value =>
    simp [Stmt.readSimple, hardwareCall?_assign, readAssign?_assign name op value enough, meaning,
      Stmt.unlocated]
  | step name up =>
    have noAssign : Action.readAssign? (step name up).code = none := by
      refine readAssign?_eq_none (code_step name up) ?_
      decide
    simp [Stmt.readSimple, hardwareCall?_step, noAssign, readStep?_step, meaning, Stmt.unlocated]
  | call name args =>
    have inner := listing args
    have noHardware : Action.hardwareCall? (callText name.spelling (listed (Expr.codes args))) = none := by
      have unknown : Action.hardwareCalls.lookup name.spelling = none := by
        rw [List.lookup_eq_none_iff]
        intro entry h
        have ne : name.spelling ≠ entry.1 := fun same =>
          name.notReserved (List.mem_append_right _ (List.mem_map.2 ⟨entry, h, same.symm⟩))
        simpa using ne
      rw [hardwareCall?_callText name.callable inner, unknown]
      rfl
    have noAssign : Action.readAssign? (callText name.spelling (listed (Expr.codes args))) = none := by
      refine readAssign?_eq_none (code_callText name.callable name.isWordChar_text inner) ?_
      decide
    have noStep := readStep?_callText name.callable (listed (Expr.codes args))
    have split := splitCall_callText name.isIdentifier inner
    simp only [Stmt.readSimple, code, noHardware, noAssign, noStep, Option.or_none, split,
      Expr.splitArgs_codes, read_codes args enough, Stmt.unlocated, meaning, String.ofList_toList]

end Simple

end Breadboard.Canonical
