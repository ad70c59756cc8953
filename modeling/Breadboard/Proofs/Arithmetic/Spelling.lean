import Mathlib.Data.List.TakeWhile
import Breadboard.Proofs.Arithmetic.Grammar
import Breadboard.Proofs.Canonical.Words

set_option autoImplicit false

/-!
The text of arithmetic. Main statement: a text without names is worth the value of the expression that it
spells, and zero if it spells none, if two pluses or two minuses stand side by side, if signs and
parentheses are nested too deep, if something is divided by zero, or if the value is not finite.
-/
namespace Breadboard.Arithmetic

open Text
open Canonical (isNameChar isBlank_of_isNameChar isNameChar_of_isWordChar)

/-- The operators and the parentheses. -/
def marks : List Char := "+-*/%()".toList

/-- How a text spells symbols: blanks stand anywhere between them, an atom goes as far as it can. -/
inductive Spells {α : Type} (Writes : α → List Char → Prop) : List Char → List (Symbol α) → Prop where
  | nil : Spells Writes [] []
  | blank {c : Char} {cs : List Char} {ss : List (Symbol α)} (space : isBlank c = true)
      (rest : Spells Writes cs ss) : Spells Writes (c :: cs) ss
  | mark {c : Char} {cs : List Char} {ss : List (Symbol α)} (known : c ∈ marks)
      (rest : Spells Writes cs ss) : Spells Writes (c :: cs) (.mark c :: ss)
  | atom {a : α} {ds cs : List Char} {ss : List (Symbol α)} (written : Writes a ds)
      (apart : ∀ c, cs.head? = some c → isNameChar c = false)
      (rest : Spells Writes cs ss) : Spells Writes (ds ++ cs) (.atom a :: ss)

/-- A number and its digits. -/
structure IsLiteral (x : Float) (ds : List Char) : Prop where
  written : ds ≠ []
  digits : ∀ c ∈ ds, isNumberChar c = true
  reads : Decimal.read? ds = some x

/-- What a text without names has to be for it to be worth `x`, as the expression `e`. -/
structure Accepted (cs : List Char) (e : Tree Float .sum) (x : Float) : Prop where
  spelled : Spells IsLiteral cs e.symbols
  noIncrement : ¬['+', '+'] <:+: cs
  noDecrement : ¬['-', '-'] <:+: cs
  shallow : e.depth ≤ maxNesting
  value : e.value id = some x
  finite : x.isFinite = true

section Characters

variable {c : Char} {cs : List Char}

theorem isNameChar_of_isNumberChar (digit : isNumberChar c = true) : isNameChar c = true := by
  simp only [isNumberChar, Bool.or_eq_true] at digit
  simp only [isNameChar, isWordChar, Char.isAlphanum, Bool.or_eq_true]
  exact digit.imp (fun isDigit => .inl (.inr isDigit)) id

theorem isNameChar_of_isBlank (space : isBlank c = true) : isNameChar c = false :=
  Bool.eq_false_iff.2 fun name => by simp [isBlank_of_isNameChar name] at space

theorem isNumberChar_of_not_isNameChar (other : isNameChar c = false) : isNumberChar c = false :=
  Bool.eq_false_iff.2 fun digit => by simp [isNameChar_of_isNumberChar digit] at other

theorem isWordChar_of_not_isNameChar (other : isNameChar c = false) : isWordChar c = false :=
  Bool.eq_false_iff.2 fun word => by simp [isNameChar_of_isWordChar word] at other

theorem mark_cases (known : c ∈ marks) :
    isNumberChar c = false ∧ isWordChar c = false ∧ isNameChar c = false ∧ isBlank c = false ∧
      isAllowed c = true := by
  revert c
  decide

-- A character of an expression without names belongs to a number, is blank, or is a mark.
theorem isAllowed_cases (allowed : isAllowed c = true) :
    isNumberChar c = true ∨ isBlank c = true ∨ c ∈ marks := by
  simp only [isAllowed, Bool.or_eq_true, List.contains_iff_mem] at allowed
  rcases allowed with (digit | space) | symbol
  · exact .inl (by simp [isNumberChar, digit])
  · exact .inr (.inl space)
  · rw [show "+-*/%().".toList = marks ++ ['.'] from rfl, List.mem_append] at symbol
    rcases symbol with known | point
    · exact .inr (.inr known)
    · exact .inl (by simp [isNumberChar, List.mem_singleton.1 point])

theorem isAllowed_of_isNumberChar (digit : isNumberChar c = true) : isAllowed c = true := by
  simp only [isNumberChar, Bool.or_eq_true, beq_iff_eq] at digit
  rcases digit with isDigit | rfl
  · simp [isAllowed, isDigit]
  · decide

theorem isAllowed_of_isBlank (space : isBlank c = true) : isAllowed c = true := by
  simp [isAllowed, space]

-- What ends a number ends a name too.
theorem isNameChar_of_not_isNumberChar (allowed : isAllowed c = true) (other : isNumberChar c = false) :
    isNameChar c = false := by
  rcases isAllowed_cases allowed with number | space | known
  · rw [other] at number
    cases number
  · exact isNameChar_of_isBlank space
  · exact (mark_cases known).2.2.1

@[simp] theorem hasPair_nil (c : Char) : hasPair c [] = false := rfl

theorem hasPair_cons (c d : Char) (cs : List Char) :
    hasPair c (d :: cs) = (decide (d = c ∧ cs.head? = some c) || hasPair c cs) := by
  cases cs with
  | nil =>
    have single : hasPair c [d] = false := rfl
    simp [single]
  | cons e cs =>
    have pair : hasPair c (d :: e :: cs) = ((d = c && e = c) || hasPair c (e :: cs)) := rfl
    simp [pair]

theorem hasPair_iff : hasPair c cs = true ↔ [c, c] <:+: cs := by
  induction cs with
  | nil => simp
  | cons d cs ih =>
    have first : [c, c] <+: d :: cs ↔ d = c ∧ cs.head? = some c := by
      rw [List.cons_prefix_cons, List.head?_eq_some_iff, eq_comm]
      exact and_congr_right fun _ => ⟨fun ⟨rest, text⟩ => ⟨rest, text.symm⟩, fun ⟨rest, text⟩ => ⟨rest, text.symm⟩⟩
    rw [hasPair_cons, List.infix_cons_iff, first, Bool.or_eq_true, decide_eq_true_eq, ih]

end Characters

section Tokens

variable {c : Char} {cs ds seen : List Char}

theorem tokensFrom_digit (digit : isNumberChar c = true) (seen cs : List Char) :
    tokensFrom seen (c :: cs) = tokensFrom (c :: seen) cs := if_pos digit

-- What is no part of a number ends the one in front of it.
theorem tokensFrom_other (other : isNumberChar c = false) (seen cs : List Char) :
    tokensFrom seen (c :: cs) = tokensFrom seen [] ++ if isBlank c then tokens cs else markToken c :: tokens cs := by
  have step : tokensFrom seen (c :: cs) =
      let rest := if isBlank c then tokens cs else if c = '(' then .opening :: tokens cs
        else if c = ')' then .closing :: tokens cs else .op c :: tokens cs
      if seen.isEmpty then rest else numberToken seen.reverse :: rest := if_neg (by simp [other])
  have number : tokensFrom seen [] = if seen.isEmpty then [] else [numberToken seen.reverse] := rfl
  have mark : markToken c :: tokens cs = if c = '(' then .opening :: tokens cs
      else if c = ')' then .closing :: tokens cs else .op c :: tokens cs := by
    unfold markToken
    split
    · rfl
    · split <;> rfl
  rw [step, number, mark]
  cases seen.isEmpty <;> rfl

theorem tokens_blank (space : isBlank c = true) : tokens (c :: cs) = tokens cs := by
  have other := isNumberChar_of_not_isNameChar (isNameChar_of_isBlank space)
  rw [tokens, tokensFrom_other other, if_pos space]
  rfl

theorem tokens_mark (known : c ∈ marks) : tokens (c :: cs) = markToken c :: tokens cs := by
  obtain ⟨digit, -, -, space, -⟩ := mark_cases known
  rw [tokens, tokensFrom_other digit, if_neg (by simp [space])]
  rfl

theorem tokensFrom_digits (digits : ∀ c ∈ ds, isNumberChar c = true) (seen cs : List Char) :
    tokensFrom seen (ds ++ cs) = tokensFrom (ds.reverse ++ seen) cs := by
  induction ds generalizing seen with
  | nil => rfl
  | cons d ds ih =>
    rw [List.cons_append, tokensFrom_digit (digits d List.mem_cons_self),
      ih fun c later => digits c (List.mem_cons_of_mem d later)]
    simp

-- A number ends where something else begins.
theorem tokensFrom_apart (some_ : seen ≠ []) (apart : ∀ c, cs.head? = some c → isNumberChar c = false) :
    tokensFrom seen cs = numberToken seen.reverse :: tokens cs := by
  have number : tokensFrom seen [] = [numberToken seen.reverse] := if_neg (by simpa using some_)
  cases cs with
  | nil => exact number
  | cons c cs =>
    have other := apart c rfl
    have rest : tokens (c :: cs) = if isBlank c then tokens cs else markToken c :: tokens cs :=
      tokensFrom_other other [] cs
    rw [tokensFrom_other other, number, rest, List.singleton_append]

theorem tokens_number (some_ : ds ≠ []) (digits : ∀ c ∈ ds, isNumberChar c = true)
    (apart : ∀ c, cs.head? = some c → isNumberChar c = false) :
    tokens (ds ++ cs) = numberToken ds :: tokens cs := by
  rw [tokens, tokensFrom_digits digits, List.append_nil, tokensFrom_apart (by simpa using some_) apart,
    List.reverse_reverse]

theorem markToken_inj {d : Char} (same : markToken c = markToken d) : c = d := by
  unfold markToken at same
  grind

-- The symbol of a token is the mark or the number that was read.
theorem eq_mark_of_token {s : Symbol Float} (token : markToken c = s.token) : s = .mark c := by
  cases s with
  | atom x =>
    simp only [Symbol.token, markToken] at token
    grind
  | mark d => rw [markToken_inj token]

theorem exists_atom_of_token {s : Symbol Float} (token : numberToken ds = s.token) :
    ∃ x, s = .atom x ∧ Decimal.read? ds = some x := by
  rw [numberToken] at token
  cases s with
  | mark d =>
    simp only [Symbol.token, markToken] at token
    grind
  | atom x =>
    split at token
    · rename_i y found
      obtain rfl := Token.number.inj token
      exact ⟨y, rfl, found⟩
    · cases token

-- A number goes as far as there are digits and points.
theorem exists_number (digit : isNumberChar c = true) (cs : List Char) :
    ∃ ds rest, c :: cs = ds ++ rest ∧ ds ≠ [] ∧ (∀ d ∈ ds, isNumberChar d = true) ∧
      ∀ d, rest.head? = some d → isNumberChar d = false := by
  refine ⟨(c :: cs).takeWhile isNumberChar, (c :: cs).dropWhile isNumberChar,
    List.takeWhile_append_dropWhile.symm, by simp [digit], fun d used => List.mem_takeWhile_imp used, ?_⟩
  intro d next
  have stops := List.head?_dropWhile_not isNumberChar (c :: cs)
  rw [next] at stops
  exact stops

end Tokens

section Texts

variable {cs : List Char} {ss : List (Symbol Float)}

theorem Spells.tokens_eq (spells : Spells IsLiteral cs ss) : tokens cs = ss.map Symbol.token := by
  induction spells with
  | nil => rfl
  | blank space _ ih => rw [tokens_blank space, ih]
  | mark known _ ih => rw [tokens_mark known, ih]; rfl
  | @atom x ds cs ss literal apart _ ih =>
    have ends (c : Char) (first : cs.head? = some c) := isNumberChar_of_not_isNameChar (apart c first)
    rw [tokens_number literal.written literal.digits ends, ih, numberToken, literal.reads]
    rfl

theorem Spells.allowed (spells : Spells IsLiteral cs ss) : ∀ c ∈ cs, isAllowed c = true := by
  induction spells with
  | nil => simp
  | blank space _ ih => exact List.forall_mem_cons.2 ⟨isAllowed_of_isBlank space, ih⟩
  | mark known _ ih => exact List.forall_mem_cons.2 ⟨(mark_cases known).2.2.2.2, ih⟩
  | atom literal _ _ ih =>
    exact List.forall_mem_append.2 ⟨fun c used => isAllowed_of_isNumberChar (literal.digits c used), ih⟩

-- A text without names that has the tokens of symbols spells these symbols. By induction on its length: a
-- step takes a blank, a mark or a whole number.
theorem spells_of_tokens (allowed : ∀ c ∈ cs, isAllowed c = true) (read : tokens cs = ss.map Symbol.token) :
    Spells IsLiteral cs ss := by
  induction n : cs.length using Nat.strongRecOn generalizing cs ss with
  | ind n ih =>
    subst n
    cases cs with
    | nil =>
      obtain rfl := List.map_eq_nil_iff.1 read.symm
      exact .nil
    | cons c cs =>
      obtain ⟨first, others⟩ := List.forall_mem_cons.1 allowed
      rcases isAllowed_cases first with digit | space | known
      · obtain ⟨ds, rest, text, some_, digits, apart⟩ := exists_number digit cs
        rw [text] at allowed read ih ⊢
        rw [tokens_number some_ digits apart] at read
        obtain ⟨s, ss, rfl, token, behind⟩ := List.map_eq_cons_iff.1 read.symm
        obtain ⟨x, rfl, reads⟩ := exists_atom_of_token token.symm
        have later := (List.forall_mem_append.1 allowed).2
        have shorter : rest.length < (ds ++ rest).length := by
          rw [List.length_append]
          exact Nat.lt_add_of_pos_left (List.length_pos_iff.2 some_)
        refine .atom ⟨some_, digits, reads⟩ (fun d next => ?_) (ih _ shorter later behind.symm rfl)
        exact isNameChar_of_not_isNumberChar (later d (List.mem_of_head? next)) (apart d next)
      · rw [tokens_blank space] at read
        exact .blank space (ih _ (Nat.lt_succ_self _) others read rfl)
      · rw [tokens_mark known] at read
        obtain ⟨s, ss, rfl, token, behind⟩ := List.map_eq_cons_iff.1 read.symm
        obtain rfl := eq_mark_of_token token.symm
        exact .mark known (ih _ (Nat.lt_succ_self _) others behind.symm rfl)

theorem Tree.symbols_ne_nil {α : Type} {l : Level} (t : Tree α l) : t.symbols ≠ [] := by
  induction t with
  | atom | signed | group => exact List.cons_ne_nil _ _
  | single _ ih => exact ih
  | scaled => simp [symbols]
  | whole _ ih => exact ih
  | summed => simp [symbols]

theorem Spells.isBlankText_eq (spells : Spells IsLiteral cs ss) (some_ : ss ≠ []) :
    isBlankText cs = false := by
  cases blank : isBlankText cs with
  | false => rfl
  | true =>
    have none (cs : List Char) (blank : isBlankText cs = true) : tokens cs = [] := by
      induction cs with
      | nil => rfl
      | cons c cs ih =>
        obtain ⟨first, rest⟩ := Bool.and_eq_true_iff.1 blank
        rw [tokens_blank first, ih rest]
    have empty := spells.tokens_eq
    rw [none cs blank] at empty
    exact absurd (List.map_eq_nil_iff.1 empty.symm) some_

end Texts

section Evaluation

variable {lookup : String → Option Float} {text cs seen ds : List Char} {e : Tree Float .sum} {x : Float}

-- What a text is worth that spells an expression once its names are replaced.
theorem evaluate_of_spells (replaced : substitute lookup text = cs) (spelled : Spells IsLiteral cs e.symbols)
    (shallow : e.depth ≤ maxNesting) :
    evaluate lookup text =
      if hasPair '+' cs || hasPair '-' cs then 0.0 else ((e.value id).filter Float.isFinite).getD 0.0 := by
  have solid := spelled.isBlankText_eq e.symbols_ne_nil
  have allowed : cs.all isAllowed = true := List.all_eq_true.2 spelled.allowed
  have worth : tokensValue? (tokens cs) = (e.value id).filter Float.isFinite := by
    rw [spelled.tokens_eq]
    exact tokensValue?_tokens e shallow
  simp [evaluate, replaced, solid, allowed, worth]

theorem evaluate_of_accepted (replaced : substitute lookup text = cs) (accepted : Accepted cs e x) :
    evaluate lookup text = x := by
  obtain ⟨spelled, plus, minus, shallow, value, finite⟩ := accepted
  have noPlus : hasPair '+' cs = false := by rwa [← hasPair_iff, Bool.not_eq_true] at plus
  have noMinus : hasPair '-' cs = false := by rwa [← hasPair_iff, Bool.not_eq_true] at minus
  simp [evaluate_of_spells replaced spelled shallow, noPlus, noMinus, value, Option.filter, finite]

theorem evaluate_of_not_accepted (replaced : substitute lookup text = cs) (refused : ∀ e x, ¬Accepted cs e x) :
    evaluate lookup text = 0.0 := by
  rw [evaluate, replaced]
  split
  · rfl
  · rename_i fine
    simp only [Bool.or_eq_true, Bool.not_eq_true', not_or, Bool.not_eq_false, Bool.not_eq_true] at fine
    obtain ⟨⟨⟨-, allowed⟩, plus⟩, minus⟩ := fine
    cases worth : tokensValue? (tokens cs) with
    | none => rfl
    | some x =>
      obtain ⟨e, read, shallow, value, finite⟩ := exists_of_tokensValue? worth
      refine absurd ⟨spells_of_tokens (List.all_eq_true.1 allowed) read.symm, ?_, ?_, shallow, value, finite⟩
        (refused e x)
      · rw [← hasPair_iff, plus]
        simp
      · rw [← hasPair_iff, minus]
        simp

theorem constant?_of_digit {word : List Char} (digit : word.head?.any Char.isDigit = true) :
    constant? (String.ofList word) = none := by
  have other (name : List Char) (letter : name.head?.any Char.isDigit = false) :
      String.ofList word ≠ String.ofList name := by
    intro same
    rw [String.ofList_injective same, letter] at digit
    cases digit
  have high : String.ofList word ≠ "HIGH" := other "HIGH".toList (by decide)
  have low : String.ofList word ≠ "LOW" := other "LOW".toList (by decide)
  have true_ : String.ofList word ≠ "true" := other "true".toList (by decide)
  have false_ : String.ofList word ≠ "false" := other "false".toList (by decide)
  simp [constant?, high, low, true_, false_]

theorem replaceWord_of_digit {word : List Char} (digit : word.head?.any Char.isDigit = true) :
    replaceWord lookup word = word := by
  simp [replaceWord, constant?_of_digit digit, digit]

theorem substitute_nil (lookup : String → Option Float) : substitute lookup [] = [] := rfl

theorem substituteFrom_letter {c : Char} (word : isWordChar c = true) (seen cs : List Char) :
    substituteFrom lookup seen (c :: cs) = substituteFrom lookup (c :: seen) cs := if_pos word

-- The word that was seen ends with the text, or in front of a character that is in no word.
theorem substituteFrom_end (seen : List Char) (apart : ∀ c, cs.head? = some c → isWordChar c = false) :
    substituteFrom lookup seen cs =
      (if seen.isEmpty then [] else replaceWord lookup seen.reverse) ++ substitute lookup cs := by
  cases cs with
  | nil => exact (List.append_nil _).symm
  | cons c cs =>
    have other : ¬isWordChar c = true := Bool.eq_false_iff.1 (apart c rfl)
    exact (if_neg other).trans (congrArg _ (if_neg other).symm)

theorem substitute_cons {c : Char} (other : isWordChar c = false) :
    substitute lookup (c :: cs) = c :: substitute lookup cs := if_neg (Bool.eq_false_iff.1 other)

-- A run of digits stays, and so do the marks around it.
theorem substituteFrom_plain (plain : ∀ c ∈ ds, isWordChar c = true → c.isDigit = true)
    (digits : ∀ c ∈ seen, c.isDigit = true) (apart : ∀ c, cs.head? = some c → isWordChar c = false) :
    substituteFrom lookup seen (ds ++ cs) = seen.reverse ++ (ds ++ substitute lookup cs) := by
  have flush (seen : List Char) (digits : ∀ c ∈ seen, c.isDigit = true) :
      (if seen.isEmpty then [] else replaceWord lookup seen.reverse) = seen.reverse := by
    cases seen with
    | nil => rfl
    | cons c seen =>
      have last : (c :: seen).reverse ≠ [] := by simp
      have first : (c :: seen).reverse.head?.any Char.isDigit = true := by
        rw [List.head?_eq_some_head last, Option.any_some]
        exact digits _ (List.mem_reverse.1 (List.head_mem last))
      exact replaceWord_of_digit first
  induction ds generalizing seen with
  | nil => rw [List.nil_append, substituteFrom_end seen apart, flush seen digits, List.nil_append]
  | cons d ds ih =>
    obtain ⟨first, others⟩ := List.forall_mem_cons.1 plain
    cases word : isWordChar d with
    | true =>
      rw [List.cons_append, substituteFrom_letter word, ih others (List.forall_mem_cons.2 ⟨first word, digits⟩)]
      simp
    | false =>
      have ended : ∀ c, (d :: (ds ++ cs)).head? = some c → isWordChar c = false := fun c same =>
        Option.some.inj same ▸ word
      have rest : substitute lookup (ds ++ cs) = [].reverse ++ (ds ++ substitute lookup cs) :=
        ih others (by simp)
      rw [List.cons_append, substituteFrom_end seen ended, flush seen digits, substitute_cons word, rest]
      rfl

theorem isDigit_of_isAllowed {c : Char} (allowed : isAllowed c = true) (word : isWordChar c = true) :
    c.isDigit = true := by
  rcases isAllowed_cases allowed with number | space | known
  · simp only [isNumberChar, Bool.or_eq_true, beq_iff_eq] at number
    rcases number with digit | rfl
    · exact digit
    · cases word
  · rw [Canonical.isBlank_of_isWordChar word] at space
    cases space
  · rw [(mark_cases known).2.1] at word
    cases word

theorem substitute_of_allowed (allowed : ∀ c ∈ cs, isAllowed c = true) : substitute lookup cs = cs := by
  have same : substituteFrom lookup [] (cs ++ []) = [].reverse ++ (cs ++ substitute lookup []) :=
    substituteFrom_plain (fun c used => isDigit_of_isAllowed (allowed c used)) (by simp) (by simp)
  rw [List.append_nil, substitute_nil, List.append_nil] at same
  exact same

end Evaluation

/-- The evaluator accepts just its grammar: a text without names is worth the value of the expression that
it spells, if that can be had, and zero otherwise. -/
theorem evaluate_eq_value_or_zero (lookup : String → Option Float) (text : List Char)
    (nameless : ∀ c ∈ text, isAllowed c = true) :
    (∀ e x, Accepted text e x → evaluate lookup text = x) ∧
      ((∀ e x, ¬Accepted text e x) → evaluate lookup text = 0.0) :=
  ⟨fun _ _ => evaluate_of_accepted (substitute_of_allowed nameless),
    evaluate_of_not_accepted (substitute_of_allowed nameless)⟩

-- What stands behind a division binds as its sign and its parentheses say.
theorem evaluate_eq_value_or_zero_quotient :
    evaluate (fun _ => none) "6 / -(1.5 + 1.5) - 1".toList = -3.0 := by
  let three : Tree Float .sum := .summed (.whole (.single (.atom 1.5))) .plus (.single (.atom 1.5))
  let quotient : Tree Float .product := .scaled (.single (.atom 6.0)) .dividedBy (.signed .minus (.group three))
  let text := "6 / -(1.5 + 1.5) - 1".toList
  let e : Tree Float .sum := .summed (.whole quotient) .minus (.single (.atom 1.0))
  have nameless : ∀ c ∈ text, isAllowed c = true := by decide
  have accepted : Accepted text e (-3.0) :=
    { spelled := spells_of_tokens nameless (by decide +kernel)
      noIncrement := mt hasPair_iff.2 (by decide)
      noDecrement := mt hasPair_iff.2 (by decide)
      shallow := by decide
      value := by decide +kernel
      finite := by decide +kernel }
  exact (evaluate_eq_value_or_zero _ text nameless).1 e (-3.0) accepted

end Breadboard.Arithmetic
