import Breadboard.Proofs.Canonical.Calls

set_option autoImplicit false

/-!
Expressions and conditions. Main statements: reading the text of an expression or a condition within
as many levels as it has gives its meaning.
-/
namespace Breadboard.Canonical

open Text

theorem InLine.of_isWordChar {c : Char} (word : IsWord c) : InLine c :=
  ⟨ne_of_class word (by decide), ne_of_class word (by decide)⟩

section Codes

variable {within top : Char → Prop}

theorem code_callText {name : String} {args : List Char} (callable : Callable name)
    (names : ∀ c ∈ name.toList, top c) (code : Code within within args) :
    Code within top (callText name args) :=
  (Code.ofPlain (fun c h => isPlain_of_isNameChar (callable.chars c h)) names).append code.ofParens

theorem code_intercalate {sep : List Char} {parts : List (List Char)} (separator : Code within top sep)
    (codes : ∀ part ∈ parts, Code within top part) : Code within top (sep.intercalate parts) := by
  induction parts with
  | nil => exact .nil
  | cons part parts ih =>
    rw [List.forall_mem_cons] at codes
    cases parts with
    | nil => simpa [List.intercalate] using codes.1
    | cons next rest =>
      have rest := ih codes.2
      simpa [List.intercalate] using codes.1.append (separator.append rest)

theorem code_listed {parts : List (List Char)} (codes : ∀ part ∈ parts, Code InLine IsWord part) :
    Code InLine InLine (listed parts) := by
  refine code_intercalate ?_ fun part h => (codes part h).mono (fun _ h => h) fun _ => .of_isWordChar
  exact .char rfl (by decide) (.char rfl (by decide) .nil)

end Codes

namespace Expr

theorem isIdentifier_builtin (f : Builtin) : isIdentifier f.name.toList = true := by cases f <;> decide

mutual

theorem code_code : ∀ e : Expr, Code InLine IsWord e.code
  | number n => code_of_isWordChar n.isWordChar_text
  | text s => .ofQuote s
  | var name => code_of_isWordChar name.isWordChar_text
  | millis => code_callText (by decide) (by decide) .nil
  | micros => code_callText (by decide) (by decide) .nil
  | digitalRead pin =>
    code_callText (by decide) (by decide) (pin.code_code.mono (fun _ h => h) fun _ => .of_isWordChar)
  | analogRead pin =>
    code_callText (by decide) (by decide) (pin.code_code.mono (fun _ h => h) fun _ => .of_isWordChar)
  | builtin f args =>
    code_callText (callable_builtin f) (isWordChar_of_isIdentifier (isIdentifier_builtin f))
      (code_listed (code_codes args))

theorem code_codes : ∀ es : List Expr, ∀ part ∈ codes es, Code InLine IsWord part
  | [], _, h => absurd h List.not_mem_nil
  | e :: es, part, h => by
    rcases List.mem_cons.1 h with rfl | h
    · exact e.code_code
    · exact code_codes es part h

end

-- The first character of an expression.
def Opens (c : Char) : Prop := isWordChar c = true ∨ c = '"'

instance : DecidablePred Opens := fun c => inferInstanceAs (Decidable (isWordChar c = true ∨ c = '"'))

theorem starts_word (e : Expr) (notText : e.isText = false) : Starts IsWord e.code := by
  have call {name : String} (identifier : isIdentifier name.toList = true) (args : List Char) :
      Starts IsWord (callText name args) :=
    ((starts_of_isIdentifier identifier).mono fun _ => And.right).append _
  cases e with
  | number n => exact n.starts_text.mono fun c digit => by simp [IsWord, isWordChar, Char.isAlphanum, digit]
  | text s => simp [isText] at notText
  | var name => exact name.starts_text
  | millis => exact call (by decide) _
  | micros => exact call (by decide) _
  | digitalRead pin => exact call (by decide) _
  | analogRead pin => exact call (by decide) _
  | builtin f args => exact call (isIdentifier_builtin f) _

theorem starts_code (e : Expr) : Starts Opens e.code := by
  cases text : e.isText with
  | false => exact (e.starts_word text).mono fun _ => .inl
  | true =>
    cases e <;> simp [isText] at text
    exact ⟨'"', _, rfl, .inr rfl⟩

theorem tight_code (e : Expr) : Tight e.code := by
  cases e with
  | number n => exact n.tight_text
  | text s => exact tight_quote s
  | var name => exact name.tight_text
  | millis => exact Callable.tight_callText (by decide) _
  | micros => exact Callable.tight_callText (by decide) _
  | digitalRead pin => exact Callable.tight_callText (by decide) _
  | analogRead pin => exact Callable.tight_callText (by decide) _
  | builtin f args => exact (callable_builtin f).tight_callText _

theorem mem_codes {es : List Expr} {part : List Char} (h : part ∈ codes es) : ∃ e : Expr, part = e.code := by
  induction es with
  | nil => exact absurd h List.not_mem_nil
  | cons e es ih =>
    rcases List.mem_cons.1 h with rfl | h
    · exact ⟨e, rfl⟩
    · exact ih h

theorem splitArgs_codes (es : List Expr) : splitArgs (listed (codes es)) = codes es := by
  have spaced : ∀ part ∈ codes es, Code InLine (fun c => IsWord c ∨ c = ' ') part := fun part h =>
    (code_codes es part h).mono (fun _ h => h) fun _ => .inl
  refine splitArgs_listed spaced (fun part h => ?_) (.inr rfl) ?_
  · obtain ⟨e, rfl⟩ := mem_codes h
    exact e.tight_code
  · decide

theorem not_constant {cs : List Char} {c : Char} (used : c ∈ cs)
    (other : c.isDigit = true ∨ isWordChar c = false) : String.ofList cs ∉ constants := by
  intro constant
  have letters : ∀ s ∈ constants, ∀ c ∈ s.toList, c.isDigit = false ∧ isWordChar c = true := by decide
  have letter := letters _ constant c (by simpa using used)
  simp [letter] at other

theorem readLeaf?_eq {cs : List Char} (free : String.ofList cs ∉ constants) :
    Breadboard.Expr.readLeaf? cs =
      match numberLiteral? cs with
      | some n => some (.number n)
      | none =>
        match unquote cs with
        | some body => some (.text (String.ofList (expandEscapes body)))
        | none =>
          if isBareCall "millis" cs then some .millis
          else if isBareCall "micros" cs then some .micros
          else none := by
  simp only [constants, List.mem_cons, List.not_mem_nil, or_false, not_or] at free
  have high : ¬ (String.ofList cs = "HIGH" || String.ofList cs = "true") = true := by simp [free]
  have low : ¬ (String.ofList cs = "LOW" || String.ofList cs = "false") = true := by simp [free]
  have mode : ¬ (String.ofList cs = "INPUT" || String.ofList cs = "OUTPUT" ||
      String.ofList cs = "INPUT_PULLUP") = true := by simp [free]
  exact (if_neg high).trans ((if_neg low).trans (if_neg mode))

-- What opens with an identifier is neither a number nor a text.
theorem readLeaf?_word {cs : List Char} (free : String.ofList cs ∉ constants) (tight : Tight cs)
    (starts : Starts (fun c => c.isDigit = false ∧ isWordChar c = true) cs) :
    Breadboard.Expr.readLeaf? cs =
      if isBareCall "millis" cs then some .millis
      else if isBareCall "micros" cs then some .micros
      else none := by
  have noNumber : numberLiteral? cs = none := by
    refine numberLiteral?_of_starts tight (starts.mono fun c first => ⟨first.1, fun known => ?_⟩)
    have others : ∀ d ∈ ['.', '-', '+'], isWordChar d = false := by decide
    exact ne_of_class first.2 (others c known) rfl
  have noText : unquote cs = none := by
    refine unquote_of_starts tight (starts.mono fun c first => ?_)
    exact isMark_of_isPlain (isPlain_of_isWordChar first.2)
  rw [readLeaf?_eq free, noNumber, noText]

section Calls

variable (name : String) {args : List Char}

theorem isBareCall_callText {called : String} (callable : Callable called) (callable' : Callable name)
    (code : Code InLine InLine args) :
    isBareCall called (callText name args) = (name == called && isBlankText args) := by
  rw [isBareCall]
  by_cases same : name = called
  · simp [same, stripCall_callText callable code]
  · simp [same, stripCall_callText_of_ne callable callable' (Ne.symm same)]

theorem readLeaf?_callText (identifier : isIdentifier name.toList = true)
    (code : Code InLine InLine args) :
    Breadboard.Expr.readLeaf? (callText name args) =
      if name = "millis" ∧ isBlankText args then some .millis
      else if name = "micros" ∧ isBlankText args then some .micros
      else none := by
  have callable := callable_of_isIdentifier identifier
  have free : String.ofList (callText name args) ∉ constants :=
    not_constant (c := '(') (by simp [callText, parens]) (.inr rfl)
  rw [readLeaf?_word free (callable.tight_callText args)
    ((starts_of_isIdentifier identifier).append _), isBareCall_callText name (by decide) callable code,
    isBareCall_callText name (by decide) callable code]
  simp

end Calls

theorem isBareCall_word {called : String} (callable : Callable called) {cs : List Char} (tight : Tight cs)
    (words : ∀ c ∈ cs, isWordChar c = true) : isBareCall called cs = false := by
  rw [isBareCall, stripCall_word callable tight words]
  rfl

theorem readLeaf?_name (name : Name constants) : Breadboard.Expr.readLeaf? name.text = none := by
  have free : String.ofList name.text ∉ constants := by simpa using name.notReserved
  rw [readLeaf?_word free name.tight_text (starts_of_isIdentifier name.isIdentifier),
    isBareCall_word (by decide) name.tight_text name.isWordChar_text,
    isBareCall_word (by decide) name.tight_text name.isWordChar_text]
  rfl

theorem readLeaf?_number (n : Numeral) : Breadboard.Expr.readLeaf? n.text = some (.number n.number) := by
  obtain ⟨c, rest, eq, digit⟩ := n.starts_text
  have free : String.ofList n.text ∉ constants := not_constant (c := c) (by simp [eq]) (.inl digit)
  rw [readLeaf?_eq free, n.numberLiteral?_text]

theorem readLeaf?_quote (s : String) : Breadboard.Expr.readLeaf? (quote s) = some (.text s) := by
  have free : String.ofList (quote s) ∉ constants := not_constant (c := '"') (by simp [quote]) (.inr rfl)
  have noNumber : numberLiteral? (quote s) = none :=
    numberLiteral?_of_starts (tight_quote s) ⟨'"', _, rfl, by decide⟩
  rw [readLeaf?_eq free, noNumber, unquote_quote]
  simp

theorem code_inner (e : Expr) : Code InLine InLine e.code :=
  e.code_code.mono (fun _ h => h) fun _ => .of_isWordChar

theorem one_le_levels (e : Expr) : 1 ≤ e.levels := by cases e <;> simp [levels]

mutual

theorem readWithin_code : ∀ (e : Expr) {n : Nat} {cs : List Char}, e.levels ≤ n → trim cs = e.code →
    Breadboard.Expr.readWithin n cs = e.meaning
  | e, 0, _, enough, _ => absurd e.one_le_levels (by omega)
  | number n, _ + 1, _, _, trimmed => by
    simp [Breadboard.Expr.readWithin, trimmed, code, readLeaf?_number, meaning]
  | text s, _ + 1, _, _, trimmed => by
    simp [Breadboard.Expr.readWithin, trimmed, code, readLeaf?_quote, meaning]
  | var name, _ + 1, _, _, trimmed => by
    have digital : stripCall "digitalRead".toList name.text = none :=
      stripCall_word (by decide) name.tight_text name.isWordChar_text
    have analog : stripCall "analogRead".toList name.text = none :=
      stripCall_word (by decide) name.tight_text name.isWordChar_text
    have noCall : Breadboard.Expr.builtinCall? name.text = none := by
      simp [Breadboard.Expr.builtinCall?, splitCall_eq_none name.tight_text name.isWordChar_text]
    have identifier : isIdentifier name.text = true := name.isIdentifier
    simp only [Breadboard.Expr.readWithin, trimmed, code, readLeaf?_name, digital, analog, noCall,
      identifier, if_true, meaning, Name.ofList_text]
  | millis, _ + 1, _, _, trimmed => by
    have leaf := readLeaf?_callText "millis" (by decide) .nil
    simp [Breadboard.Expr.readWithin, trimmed, code, leaf, meaning, isBlankText]
  | micros, _ + 1, _, _, trimmed => by
    have leaf := readLeaf?_callText "micros" (by decide) .nil
    simp [Breadboard.Expr.readWithin, trimmed, code, leaf, meaning, isBlankText]
  | digitalRead pin, n + 1, _, enough, trimmed => by
    have leaf := readLeaf?_callText "digitalRead" (by decide) pin.code_inner
    have digital : stripCall "digitalRead".toList (callText "digitalRead" pin.code) = some pin.code :=
      stripCall_callText (by decide) pin.code_inner
    have inner := pin.readWithin_code (Nat.le_of_succ_le_succ enough) pin.tight_code.trim_eq
    simp only [Breadboard.Expr.readWithin, trimmed, code, leaf, digital, inner, meaning]
    rfl
  | analogRead pin, n + 1, _, enough, trimmed => by
    have leaf := readLeaf?_callText "analogRead" (by decide) pin.code_inner
    have digital : stripCall "digitalRead".toList (callText "analogRead" pin.code) = none :=
      stripCall_callText_of_ne (by decide) (by decide) (by decide) _
    have analog : stripCall "analogRead".toList (callText "analogRead" pin.code) = some pin.code :=
      stripCall_callText (by decide) pin.code_inner
    have inner := pin.readWithin_code (Nat.le_of_succ_le_succ enough) pin.tight_code.trim_eq
    simp only [Breadboard.Expr.readWithin, trimmed, code, leaf, digital, analog, inner, meaning]
    rfl
  | builtin f args, n + 1, _, enough, trimmed => by
    -- No other reading of a call is tried before that of its name.
    have inside := code_listed (code_codes args)
    have leaf := readLeaf?_callText f.name (isIdentifier_builtin f) inside
    have others : f.name ≠ "millis" ∧ f.name ≠ "micros" ∧ "digitalRead" ≠ f.name ∧
        "analogRead" ≠ f.name := by cases f <;> decide
    have digital : stripCall "digitalRead".toList (callText f.name (listed (codes args))) = none :=
      stripCall_callText_of_ne (by decide) (callable_builtin f) others.2.2.1 _
    have analog : stripCall "analogRead".toList (callText f.name (listed (codes args))) = none :=
      stripCall_callText_of_ne (by decide) (callable_builtin f) others.2.2.2 _
    have called : Breadboard.Expr.builtinCall? (callText f.name (listed (codes args))) =
        some (f, codes args) := by
      simp [Breadboard.Expr.builtinCall?, splitCall_callText (isIdentifier_builtin f) inside,
        Breadboard.Builtin.ofName?_name, splitArgs_codes]
    have inner := readWithin_codes args (Nat.le_of_succ_le_succ enough)
    simp only [Breadboard.Expr.readWithin, trimmed, code, leaf, others, false_and, if_false, digital,
      analog, called, inner, meaning]

theorem readWithin_codes : ∀ (es : List Expr) {n : Nat}, levelsAll es ≤ n →
    (codes es).map (Breadboard.Expr.readWithin n) = meanings es
  | [], _, _ => rfl
  | e :: es, n, enough => by
    simp only [levelsAll, Nat.max_le] at enough
    simp only [codes, List.map_cons, meanings, e.readWithin_code enough.1 e.tight_code.trim_eq,
      readWithin_codes es enough.2]

end

theorem splitArgs_code (e : Expr) : splitArgs e.code = [e.code] := by
  simpa [codes, listed, List.intercalate] using splitArgs_codes [e]

end Expr

namespace Cond

section Comparisons

-- The comparisons that are searched for before `op`.
def earlier (op : Comparison) : List Comparison := Comparison.searchOrder.takeWhile (· != op)

-- A comparison that is searched for earlier does not begin inside of `op`.
theorem splitTopFrom_earlier {op other : Comparison} (h : other ∈ earlier op) (cs : List Char) :
    splitTopFrom other.symbol.toList .code 0 0 (op.symbol.toList ++ ' ' :: cs) =
      onFirst (op.symbol.toList ++ [' ']) (splitTopFrom other.symbol.toList .code 0 0 cs) := by
  revert h
  cases op <;> cases other <;> simp +decide [Comparison.symbol, splitTopFrom, onFirst, depthStep]

theorem searchOrder_eq (op : Comparison) :
    ∃ later, Comparison.searchOrder = earlier op ++ op :: later := by
  cases op <;> exact ⟨_, rfl⟩

def comparisonChars : List Char := ['<', '>', '=', '!']

theorem symbol_eq (op : Comparison) :
    ∃ first rest, op.symbol.toList = first :: rest ∧ first ∈ comparisonChars := by
  cases op <;> exact ⟨_, _, rfl, by decide⟩

theorem flat_of_comparisonChars {c : Char} (h : c ∈ comparisonChars) :
    isMark c = false ∧ depthStep c = 0 ∧ ¬ (IsWord c ∨ c = ' ') := by
  revert c
  decide

variable {lhs rhs : List Char}

theorem comparison?_eq (left : Code InLine IsWord lhs) (right : Code InLine IsWord rhs)
    (op : Comparison) :
    Breadboard.Cond.comparison? (lhs ++ spaced op.symbol.toList ++ rhs) =
      some (op, lhs ++ [' '], ' ' :: rhs) := by
  have side : Code InLine (fun c => IsWord c ∨ c = ' ') (lhs ++ [' ']) :=
    (left.mono (fun _ h => h) fun _ => .inl).append (.char rfl (.inr rfl) .nil)
  have right' : Code InLine (fun c => IsWord c ∨ c = ' ') rhs := right.mono (fun _ h => h) fun _ => .inl
  have text : lhs ++ spaced op.symbol.toList ++ rhs =
      (lhs ++ [' ']) ++ (op.symbol.toList ++ ' ' :: rhs) := by simp [spaced]
  -- Neither the sides nor the symbol itself hold a comparison that is searched for earlier.
  have missed : ∀ other ∈ earlier op,
      cutTop? other.symbol.toList (lhs ++ spaced op.symbol.toList ++ rhs) = none := by
    intro other h
    have passed := splitTopFrom_earlier h rhs
    obtain ⟨first, rest, symbol, known⟩ := symbol_eq other
    obtain ⟨-, flat, apart⟩ := flat_of_comparisonChars known
    rw [symbol] at passed
    rw [text, cutTop?, symbol, side.splitTopFrom_append flat (Int.le_refl 0) (.inr apart), passed,
      right'.splitTopFrom_eq flat apart]
    rfl
  have found : cutTop? op.symbol.toList (lhs ++ spaced op.symbol.toList ++ rhs) =
      some (lhs ++ [' '], ' ' :: rhs) := by
    obtain ⟨first, rest, symbol, known⟩ := symbol_eq op
    obtain ⟨mark, flat, apart⟩ := flat_of_comparisonChars known
    rw [text, symbol]
    exact side.cutTop?_sep mark flat apart
  obtain ⟨later, order⟩ := searchOrder_eq op
  rw [Breadboard.Cond.comparison?, order, List.findSome?_append, List.findSome?_cons, found,
    List.findSome?_eq_none_iff.2 fun other h => by rw [missed other h]; rfl]
  rfl

theorem comparison?_eq_none {cs : List Char} (code : Code InLine IsWord cs) :
    Breadboard.Cond.comparison? cs = none := by
  rw [Breadboard.Cond.comparison?, List.findSome?_eq_none_iff]
  intro op _
  obtain ⟨first, rest, symbol, known⟩ := symbol_eq op
  obtain ⟨-, flat, apart⟩ := flat_of_comparisonChars known
  have whole : splitTopFrom (first :: rest) .code 0 0 cs = (cs, []) :=
    code.splitTopFrom_eq flat fun word => apart (.inl word)
  rw [cutTop?, symbol, whole]
  rfl

end Comparisons

-- The characters of a condition that stand in no parentheses.
def InCond (c : Char) : Prop := IsWord c ∨ c ∈ ' ' :: '&' :: '|' :: comparisonChars

instance : DecidablePred InCond := fun c =>
  inferInstanceAs (Decidable (IsWord c ∨ c ∈ ' ' :: '&' :: '|' :: comparisonChars))

theorem InCond.inLine {c : Char} (h : InCond c) : InLine c := by
  rcases h with word | known
  · exact .of_isWordChar word
  · revert c
    decide

theorem code_compare (lhs : Expr) (op : Comparison) (rhs : Expr) :
    Code InLine (fun c => IsWord c ∨ c = ' ' ∨ c ∈ comparisonChars)
      (lhs.code ++ spaced op.symbol.toList ++ rhs.code) := by
  have symbol : Code InLine (fun c => IsWord c ∨ c = ' ' ∨ c ∈ comparisonChars)
      (spaced op.symbol.toList) := by
    cases op <;> exact .ofPlain (by decide) (by decide)
  exact ((lhs.code_code.mono (fun _ h => h) fun _ => .inl).append symbol).append
    (rhs.code_code.mono (fun _ h => h) fun _ => .inl)

theorem code_connect {top : Char → Prop} {op : Connective} {parts : List (List Char)} (space : top ' ')
    (symbols : ∀ c ∈ op.symbol, top c) (codes : ∀ part ∈ parts, Code InLine top part) :
    Code InLine top ((spaced op.symbol).intercalate parts) := by
  refine code_intercalate ?_ codes
  have plain : ∀ c ∈ spaced op.symbol, isPlain c = true := by cases op <;> decide
  refine .ofPlain plain fun c h => ?_
  simp only [spaced, List.cons_append, List.mem_cons, List.mem_append, List.not_mem_nil, or_false] at h
  rcases h with rfl | h | rfl
  · exact space
  · exact symbols c h
  · exact space

mutual

theorem code_code : ∀ c : Cond, Code InLine InCond c.code
  | compare lhs op rhs => (code_compare lhs op rhs).mono (fun _ h => h) fun c h => by
    rcases h with word | rfl | known
    · exact .inl word
    · decide
    · exact .inr (by simp [known])
  | truth e => e.code_code.mono (fun _ h => h) fun _ => .inl
  | not inner => .char rfl (by decide) (inner.code_inner.ofParens)
  | connect op first second rest => by
    refine code_connect (by decide) (by cases op <;> decide) fun part h => ?_
    rcases List.mem_cons.1 h with rfl | h
    · exact first.code_inner.ofParens
    rcases List.mem_cons.1 h with rfl | h
    · exact second.code_inner.ofParens
    · exact code_codes rest part h

theorem code_inner (c : Cond) : Code InLine InLine c.code :=
  c.code_code.mono (fun _ h => h) fun _ => InCond.inLine

theorem code_codes {top : Char → Prop} : ∀ (cs : List Cond), ∀ part ∈ codes cs, Code InLine top part
  | [], _, h => absurd h List.not_mem_nil
  | c :: cs, part, h => by
    rcases List.mem_cons.1 h with rfl | h
    · exact c.code_inner.ofParens
    · exact code_codes cs part h

end

theorem tight_parens (cs : List Char) : Tight (parens cs) :=
  ⟨⟨'(', _, rfl, rfl⟩, ⟨'(' :: cs, ')', rfl, rfl⟩⟩

theorem codes_eq (cs : List Cond) : codes cs = cs.map fun c => parens c.code := by
  induction cs with
  | nil => rfl
  | cons c cs ih => rw [codes, ih, List.map_cons]

theorem ends_intercalate {sep : List Char} {parts : List (List Char)} (nonempty : parts ≠ [])
    (ends : ∀ part ∈ parts, Ends part) : Ends (sep.intercalate parts) := by
  induction parts with
  | nil => exact absurd rfl nonempty
  | cons part parts ih =>
    rw [List.forall_mem_cons] at ends
    cases parts with
    | nil => simpa [List.intercalate] using ends.1
    | cons next rest =>
      have rest := ih (by simp) ends.2
      simpa [List.intercalate] using (rest.append sep).append part

-- A connection opens with the parentheses of its first part, and more follows them.
theorem connect_eq (op : Connective) (first second : Cond) (rest : List Cond) :
    (connect op first second rest).code = parens first.code ++
      (spaced op.symbol ++ (spaced op.symbol).intercalate (codes (second :: rest))) := by
  simp [code, codes, List.intercalate]

theorem tight_code (c : Cond) : Tight c.code := by
  cases c with
  | compare lhs op rhs =>
    exact ⟨(lhs.tight_code.starts.append _).append _, rhs.tight_code.ends.append _⟩
  | truth e => exact e.tight_code
  | not inner => exact ⟨⟨'!', _, rfl, rfl⟩, (tight_parens _).ends.cons '!'⟩
  | connect op first second rest =>
    rw [connect_eq]
    refine ⟨(tight_parens _).starts.append _, Ends.append (Ends.append (ends_intercalate ?_ ?_) _) _⟩
    · simp [codes]
    · intro part h
      rw [codes_eq, List.mem_map] at h
      obtain ⟨c, -, rfl⟩ := h
      exact (tight_parens _).ends

-- A condition keeps the parentheses of its parts.
theorem stripParens_code (c : Cond) {cs : List Char} (trimmed : trim cs = c.code) :
    Breadboard.Cond.stripParens cs = c.code := by
  have opens (e : Expr) (rest : List Char) : Bracket.round.enclosed? (e.code ++ rest) = none := by
    refine enclosed?_eq_none ?_
    rintro ⟨c, others, eq, rfl⟩
    obtain ⟨d, more, eq', first⟩ := e.starts_code.append rest
    rw [eq'] at eq
    obtain ⟨rfl, -⟩ := List.cons.inj eq
    revert first
    decide
  rw [Breadboard.Cond.stripParens, trimmed]
  cases c with
  | compare lhs op rhs => simp [code, opens]
  | truth e =>
    have none := opens e []
    rw [List.append_nil] at none
    simp [code, none]
  | not inner => rfl
  | connect op first second rest =>
    rw [connect_eq, enclosed?_parens first.code_inner]
    rfl

theorem stripParens_parens (c : Cond) {a b : List Char} (before : ∀ c ∈ a, isBlank c = true)
    (behind : ∀ c ∈ b, isBlank c = true) :
    Breadboard.Cond.stripParens (a ++ (parens c.code ++ b)) = c.code := by
  have inside := enclosed?_parens c.code_inner []
  rw [List.append_nil] at inside
  simp [Breadboard.Cond.stripParens, (tight_parens _).trim_between before behind, inside,
    c.tight_code.trim_eq]

theorem one_le_levels (c : Cond) : 1 ≤ c.levels := by cases c <;> simp [levels]

theorem negated?_expr (e : Expr) (rest : List Char) : Breadboard.Cond.negated? (e.code ++ rest) = none := by
  obtain ⟨c, others, eq, first⟩ := e.starts_code.append rest
  have ne : c ≠ '!' := by rintro rfl; revert first; decide
  rw [eq, Breadboard.Cond.negated?]
  simpa using ne

theorem splitTop_connect {h : Char} {sep : List Char} (parts : List (List Char)) (nonempty : parts ≠ [])
    (codes : ∀ part ∈ parts, Code InLine (· = ' ') part) (mark : isMark h = false)
    (flat : depthStep h = 0) (apart : h ≠ ' ') :
    splitTop (h :: sep) ((spaced (h :: sep)).intercalate parts) = cut [' '] [' '] [] parts := by
  have space : Code InLine (· = ' ') [' '] := .char rfl rfl .nil
  have whole : splitTop (h :: sep) ([] ++ ([' '] ++ (h :: sep) ++ [' ']).intercalate parts) =
      cut [' '] [' '] [] parts :=
    splitTop_intercalate parts nonempty [] codes .nil space space mark flat apart
  simpa [spaced] using whole

-- The parts of a connection, cut at its separators, are as many as it has.
theorem cut_eq (before behind pre : List Char) (first second : List Char) (rest : List (List Char)) :
    ∃ a b others, cut before behind pre (first :: second :: rest) = a :: b :: others := by
  cases rest with
  | nil => exact ⟨_, _, _, rfl⟩
  | cons third rest => exact ⟨_, _, _, rfl⟩

theorem meanings_eq (cs : List Cond) : meanings cs = cs.map meaning := by
  induction cs with
  | nil => rfl
  | cons c cs ih => rw [meanings, ih, List.map_cons]

-- A connection is cut at its own symbol, once no other connection is found first.
theorem readWithin_connect (op : Connective) {first second : Cond} {rest : List Cond} {n : Nat}
    {cs : List Char} (stripped : Breadboard.Cond.stripParens cs = (connect op first second rest).code)
    (read : (cut [' '] [' '] [] (codes (first :: second :: rest))).map (Breadboard.Cond.readWithin n) =
      (first :: second :: rest).map meaning) :
    Breadboard.Cond.readWithin (n + 1) cs = (connect op first second rest).meaning := by
  have parts : ∀ {top : Char → Prop}, ∀ part ∈ codes (first :: second :: rest), Code InLine top part :=
    fun {top} => code_codes _
  have shape := cut_eq [' '] [' '] [] (parens first.code) (parens second.code) (codes rest)
  obtain ⟨a, b, others, shape⟩ := shape
  rw [show codes (first :: second :: rest) = parens first.code :: parens second.code :: codes rest
    from rfl, shape] at read
  cases op with
  | all =>
    have split : splitTop "&&".toList (connect .all first second rest).code = a :: b :: others :=
      (splitTop_connect _ (by simp [codes]) parts rfl rfl (by decide)).trans shape
    simp only [Breadboard.Cond.readWithin, stripped, split, read, meaning, meanings_eq, List.map_cons]
  | any =>
    -- The ampersands of the parts stand in parentheses, where no cut is made.
    have whole : Code InLine (fun c => c = ' ' ∨ c = '|') (connect .any first second rest).code :=
      code_connect (.inl rfl) (by decide) parts
    have noAll : splitTop "&&".toList (connect .any first second rest).code = [_] :=
      whole.splitTop_eq rfl (by decide)
    have split : splitTop "||".toList (connect .any first second rest).code = a :: b :: others :=
      (splitTop_connect _ (by simp [codes]) parts rfl rfl (by decide)).trans shape
    simp only [Breadboard.Cond.readWithin, stripped, noAll, split, read, meaning, meanings_eq,
      List.map_cons]

mutual

theorem readWithin_code : ∀ (c : Cond) {n : Nat} {cs : List Char}, c.levels ≤ n →
    Breadboard.Cond.stripParens cs = c.code → Breadboard.Cond.readWithin n cs = c.meaning
  | c, 0, _, enough, _ => absurd c.one_le_levels (by omega)
  | compare lhs op rhs, n + 1, _, enough, stripped => by
    simp only [levels, Nat.add_le_add_iff_right, Nat.max_le] at enough
    have whole := code_compare lhs op rhs
    have noAll : splitTop "&&".toList (lhs.code ++ spaced op.symbol.toList ++ rhs.code) = [_] :=
      whole.splitTop_eq rfl (by decide)
    have noAny : splitTop "||".toList (lhs.code ++ spaced op.symbol.toList ++ rhs.code) = [_] :=
      whole.splitTop_eq rfl (by decide)
    have left := lhs.readWithin_code enough.1
      (lhs.tight_code.trim_between (a := []) (b := [' ']) (by simp) (by simp; rfl))
    have right := rhs.readWithin_code enough.2
      (rhs.tight_code.trim_between (a := [' ']) (b := []) (by simp; rfl) (by simp))
    have notNegated := negated?_expr lhs (spaced op.symbol.toList ++ rhs.code)
    simp only [List.nil_append, List.append_nil, List.cons_append] at left right
    rw [← List.append_assoc] at notNegated
    simp only [Breadboard.Cond.readWithin, stripped, code, noAll, noAny, notNegated,
      comparison?_eq lhs.code_code rhs.code_code, left, right, meaning]
  | truth e, n + 1, _, enough, stripped => by
    have noAll : splitTop "&&".toList e.code = [e.code] := e.code_code.splitTop_eq rfl (by decide)
    have noAny : splitTop "||".toList e.code = [e.code] := e.code_code.splitTop_eq rfl (by decide)
    have notNegated := negated?_expr e []
    rw [List.append_nil] at notNegated
    have inner := e.readWithin_code (Nat.le_of_succ_le_succ enough) e.tight_code.trim_eq
    simp only [Breadboard.Cond.readWithin, stripped, code, noAll, noAny, notNegated,
      comparison?_eq_none e.code_code, inner, meaning]
  | not inner, n + 1, _, enough, stripped => by
    have whole : Code InLine (· = '!') ('!' :: parens inner.code) :=
      .char rfl rfl inner.code_inner.ofParens
    have noAll : splitTop "&&".toList ('!' :: parens inner.code) = [_] :=
      whole.splitTop_eq rfl (by decide)
    have noAny : splitTop "||".toList ('!' :: parens inner.code) = [_] :=
      whole.splitTop_eq rfl (by decide)
    have negated : Breadboard.Cond.negated? ('!' :: parens inner.code) = some (parens inner.code) := rfl
    have stripped' := inner.stripParens_parens (a := []) (b := []) (by simp) (by simp)
    simp only [List.nil_append, List.append_nil] at stripped'
    have read := inner.readWithin_code (Nat.le_of_succ_le_succ enough) stripped'
    simp only [Breadboard.Cond.readWithin, stripped, code, noAll, noAny, negated, read, meaning]
  | connect op first second rest, n + 1, _, enough, stripped => by
    simp only [levels, Nat.add_le_add_iff_right, Nat.max_le] at enough
    have parts : ∀ c ∈ first :: second :: rest, ∀ {text : List Char},
        Breadboard.Cond.stripParens text = c.code → Breadboard.Cond.readWithin n text = c.meaning := by
      rw [List.forall_mem_cons, List.forall_mem_cons]
      exact ⟨first.readWithin_code enough.1.1, second.readWithin_code enough.1.2,
        readWithin_all rest enough.2⟩
    have read : (cut [' '] [' '] [] (codes (first :: second :: rest))).map
        (Breadboard.Cond.readWithin n) = (first :: second :: rest).map meaning := by
      rw [codes_eq]
      exact map_cut _ [] (fun c h a b before behind => parts c h (c.stripParens_parens before behind))
        (by simp) (by decide) (by decide)
    exact readWithin_connect op stripped read

theorem readWithin_all : ∀ (cs : List Cond) {n : Nat}, levelsAll cs ≤ n → ∀ c ∈ cs,
    ∀ {text : List Char}, Breadboard.Cond.stripParens text = c.code →
      Breadboard.Cond.readWithin n text = c.meaning
  | [], _, _, _, h => absurd h List.not_mem_nil
  | c :: cs, n, enough, d, h => by
    simp only [levelsAll, Nat.max_le] at enough
    rcases List.mem_cons.1 h with eq | h
    · rw [eq]
      exact c.readWithin_code enough.1
    · exact readWithin_all cs enough.2 d h

end

theorem read_code (c : Cond) (enough : c.levels ≤ maxLevels) {cs : List Char} (trimmed : trim cs = c.code) :
    Breadboard.Cond.read cs = c.meaning :=
  c.readWithin_code enough (c.stripParens_code trimmed)

end Cond

end Breadboard.Canonical
