import Mathlib.Data.List.TakeWhile
import Breadboard.Proofs.Canonical.Expressions
import Breadboard.Proofs.Compound.SharedLine
import Breadboard.Proofs.Splitting
import Breadboard.Engine.Basic

set_option autoImplicit false

/-!
Parentheses around conditions. Main statement: one pair around a condition, or around an operand of one,
makes no difference, unless there is a pair already; with a second pair the condition is taken for
arithmetic, and then a comparison or a connection of conditions never holds.
-/
namespace Breadboard

open Text
open Canonical (parens onFirst Starts Ends Tight Connective)

namespace Arithmetic

variable {lookup : String → Option Float} {c : Char} {cs : List Char}

-- A character that no name can hold stays when names are replaced.
theorem mem_substituteFrom (other : isWordChar c = false) (seen : List Char) (used : c ∈ cs) :
    c ∈ substituteFrom lookup seen cs := by
  induction cs generalizing seen with
  | nil => cases used
  | cons d cs ih =>
    rw [substituteFrom]
    obtain rfl | later := List.mem_cons.1 used
    · simp [other]
    · split
      · exact ih _ later
      · exact List.mem_append_right _ (List.mem_cons_of_mem _ (ih _ later))

theorem evaluate_eq_zero (other : isWordChar c = false) (refused : isAllowed c = false) (used : c ∈ cs) :
    evaluate lookup cs = 0.0 := by
  have kept : c ∈ substituteFrom lookup [] cs := mem_substituteFrom other [] used
  have all : (substitute lookup cs).all isAllowed = false := by
    rw [List.all_eq_false]
    exact ⟨c, kept, by simp [refused]⟩
  simp [evaluate, all]

end Arithmetic

section Enclosed

variable {b : Bracket} {q : Quote} {depth : Nat} {cs inside rest : List Char}

-- Where a bracket is closed, the code is closed but for brackets of other kinds.
theorem closed_of_close (found : b.close q depth cs = some (inside, rest)) :
    q.after inside = .code ∧ (depth : Int) + b.balance q inside = 0 ∧
      ∀ front, front <+: inside → 0 ≤ (depth : Int) + b.balance q front := by
  induction cs generalizing q depth inside with
  | nil => cases found
  | cons c cs ih =>
    obtain ⟨rfl, rfl, rfl⟩ | ⟨depth', moved⟩ := closes_or_moves b q depth c
    · rw [Canonical.close_closer_zero] at found
      obtain ⟨rfl, -⟩ := Prod.mk.inj (Option.some.inj found)
      exact ⟨rfl, rfl, fun front begins => by rw [List.prefix_nil.1 begins]; simp⟩
    · rw [close_step b moved] at found
      obtain ⟨inside', later, rfl⟩ := Canonical.exists_of_map_cons found
      obtain ⟨code, level, low⟩ := ih later
      refine ⟨code, ?_, fun front begins => ?_⟩
      · rw [Bracket.balance]
        omega
      · obtain rfl | ⟨more, rfl, within⟩ := prefix_cons_cases begins
        · simp
        · have bound := low more within
          rw [Bracket.balance]
          omega

-- A text is what is left when it is trimmed, with blanks around it.
theorem exists_blanks (cs : List Char) : ∃ a b, cs = a ++ (trim cs ++ b) ∧
    (∀ c ∈ a, isBlank c = true) ∧ ∀ c ∈ b, isBlank c = true := by
  have front := List.takeWhile_append_dropWhile (p := isBlank) (l := cs)
  have back := List.takeWhile_append_dropWhile (p := isBlank) (l := (trimStart cs).reverse)
  refine ⟨cs.takeWhile isBlank, ((trimStart cs).reverse.takeWhile isBlank).reverse, ?_,
    fun c h => List.mem_takeWhile_imp h, fun c h => List.mem_takeWhile_imp (List.mem_reverse.1 h)⟩
  have ends : trim cs ++ ((trimStart cs).reverse.takeWhile isBlank).reverse = trimStart cs := by
    rw [trim, trimEnd, dropEndWhile, ← List.reverse_append, back, List.reverse_reverse]
  rw [ends]
  exact front.symm

theorem Closed.blanks (blank : ∀ c ∈ cs, isBlank c = true) : Closed cs :=
  .plain fun c h => ⟨(plain_of_isBlank (blank c h)).1, (plain_of_isBlank (blank c h)).2.1⟩

/-- Whether one pair of parentheses stands around a text. -/
def isEnclosed (cs : List Char) : Bool :=
  match Bracket.round.enclosed? (trim cs) with
  | some (_, []) => true
  | _ => false

-- In closed code the parentheses around a text stand around closed code.
theorem Closed.exists_of_isEnclosed (closed : Closed cs) (enclosed : isEnclosed cs = true) :
    ∃ inside, trim cs = parens inside ∧ Closed inside := by
  obtain ⟨a, b, text, before, behind⟩ := exists_blanks cs
  unfold isEnclosed at enclosed
  split at enclosed
  · rename_i inside found
    unfold Bracket.enclosed? at found
    split at found
    · cases found
    · rename_i c rest trimmed
      split at found
      · rename_i opener
        subst opener
        have whole : trim cs = parens inside := by
          rw [trimmed, Bracket.close_eq found]
          rfl
        obtain ⟨code, level, low⟩ := closed_of_close found
        -- The brackets of the other kinds are those of the whole text.
        have shape : cs = (a ++ ['(']) ++ (inside ++ (')' :: b)) := by
          rw [text, whole]
          simp [parens]
        have start : Quote.code.after (a ++ ['(']) = .code := by
          rw [Quote.after_append, (Closed.blanks before).after_eq]
          rfl
        have other (k : Bracket) (kind : k ≠ .round) (front : List Char) :
            k.balance .code ((a ++ ['(']) ++ front) = k.balance .code front := by
          have flat : k.balance .code ['('] = 0 := by cases k <;> first | rfl | exact absurd rfl kind
          rw [Bracket.balance_append, start, Bracket.balance_append, (Closed.blanks before).after_eq,
            (Closed.blanks before).balance_eq, flat]
          omega
        have after (k : Bracket) (kind : k ≠ .round) : k.balance .code (')' :: b) = 0 := by
          have flat : k.weight ')' = 0 := by cases k <;> first | rfl | exact absurd rfl kind
          rw [Canonical.balance_cons_code k rfl, flat, (Closed.blanks behind).balance_eq]
          rfl
        refine ⟨inside, whole, code, fun k => ?_, fun k front begins => ?_⟩
        · by_cases kind : k = .round
          · subst kind
            simpa using level
          · have sum := closed.balance_eq k
            rwa [shape, other k kind, Bracket.balance_append, code, after k kind, Int.add_zero] at sum
        · by_cases kind : k = .round
          · subst kind
            simpa using low front begins
          · have bound := closed.nonneg k ((a ++ ['(']) ++ front) (by
              rw [shape]
              exact List.prefix_append_right_inj _ |>.2 (begins.trans (List.prefix_append _ _)))
            rwa [other k kind] at bound
      · cases found
  · cases enclosed

-- Closed code in front of which a text starts in code can be exchanged for other such code.
theorem exists_close_of_exchange {front a a' back : List Char} (code : q.after front = .code)
    (closed : Closed a) (closed' : Closed a') (some_ : a' ≠ [])
    (found : b.close q depth (front ++ (a' ++ back)) = some (inside, [])) :
    ∃ inside', b.close q depth (front ++ (a ++ back)) = some (inside', []) := by
  induction front generalizing q depth inside with
  | nil =>
    obtain rfl : q = .code := code
    have low {m : List Char} (closed : Closed m) :
        ∀ front, front <+: m → 0 ≤ (depth : Int) + b.balance .code front := fun front begins => by
      have bound := closed.nonneg b front begins
      omega
    rw [List.nil_append, close_append b (low closed'), closed'.after_eq, closed'.balance_eq] at found
    obtain ⟨⟨inner, rest⟩, later, eq⟩ := Option.map_eq_some_iff.1 found
    obtain ⟨-, rfl⟩ := Prod.mk.inj eq
    refine ⟨a ++ inner, ?_⟩
    rw [List.nil_append, close_append b (low closed), closed.after_eq, closed.balance_eq, later]
    rfl
  | cons c front ih =>
    simp only [List.cons_append] at found ⊢
    unfold Bracket.close at found ⊢
    by_cases closes : (q.isCode c && c == b.closer) = true
    · rw [if_pos closes] at found ⊢
      cases depth with
      | zero =>
        have none := (Prod.mk.inj (Option.some.inj found)).2
        exact absurd (List.append_eq_nil_iff.1 (List.append_eq_nil_iff.1 none).2).1 some_
      | succ depth =>
        obtain ⟨inner, later, -⟩ := Canonical.exists_of_map_cons found
        obtain ⟨inner', closed⟩ := ih code later
        exact ⟨c :: inner', congrArg (Option.map _) closed⟩
    · rw [if_neg closes] at found ⊢
      obtain ⟨inner, later, -⟩ := Canonical.exists_of_map_cons found
      obtain ⟨inner', closed⟩ := ih code later
      exact ⟨c :: inner', congrArg (Option.map _) closed⟩

end Enclosed

namespace Expr

-- What opens with a parenthesis is arithmetic.
theorem readWithin_parens (n : Nat) (cs : List Char) :
    readWithin (n + 1) (parens cs) = .arithmetic (String.ofList (parens cs)) := by
  have tight := Canonical.Cond.tight_parens cs
  have opens : parens cs = '(' :: (cs ++ [')']) := rfl
  have free : String.ofList (parens cs) ∉ Canonical.constants :=
    Canonical.Expr.not_constant (c := '(') (by simp [opens]) (.inr rfl)
  have noNumber : numberLiteral? (parens cs) = none :=
    Canonical.numberLiteral?_of_starts tight ⟨'(', _, rfl, by decide⟩
  have noText : unquote (parens cs) = none := Canonical.unquote_of_starts tight ⟨'(', _, rfl, rfl⟩
  have noCall {c : Char} {name : List Char} (ne : c ≠ '(') : stripCall (c :: name) (parens cs) = none := by
    rw [stripCall, tight.trim_eq, opens]
    simp [dropPrefix?, ne]
  have millis : isBareCall "millis" (parens cs) = false := by
    rw [isBareCall]
    exact congrArg (Option.any isBlankText) (noCall (by decide))
  have micros : isBareCall "micros" (parens cs) = false := by
    rw [isBareCall]
    exact congrArg (Option.any isBlankText) (noCall (by decide))
  have leaf : readLeaf? (parens cs) = none := by
    rw [Canonical.Expr.readLeaf?_eq free, noNumber, noText, millis, micros]
    rfl
  have digital : stripCall "digitalRead".toList (parens cs) = none := noCall (by decide)
  have analog : stripCall "analogRead".toList (parens cs) = none := noCall (by decide)
  have noBuiltin : builtinCall? (parens cs) = none := by
    rw [builtinCall?, splitCall, tight.trim_eq]
    rfl
  have noName : isIdentifier (parens cs) = false := rfl
  simp only [readWithin, tight.trim_eq, leaf, digital, analog, noBuiltin, noName, Bool.false_eq_true,
    if_false]

end Expr

namespace Cond

variable {cs t inside : List Char} {n : Nat}

/-- Reading a condition behind the parentheses around it. -/
def readStripped (levels : Nat) (text : List Char) : Cond :=
  match splitTop "&&".toList text with
  | first :: second :: rest => .all ((first :: second :: rest).map (readWithin levels))
  | _ =>
    match splitTop "||".toList text with
    | first :: second :: rest => .any ((first :: second :: rest).map (readWithin levels))
    | _ =>
      match negated? text with
      | some rest => .not (readWithin levels rest)
      | none =>
        match comparison? text with
        | some (op, lhs, rhs) => .compare (.readWithin levels lhs) op (.readWithin levels rhs)
        | none => .truth (.readWithin levels text)

theorem readWithin_succ (n : Nat) (cs : List Char) :
    readWithin (n + 1) cs = readStripped n (stripParens cs) := rfl

theorem stripParens_eq_trim (bare : isEnclosed cs = false) : stripParens cs = trim cs := by
  unfold isEnclosed at bare
  unfold stripParens
  dsimp only
  split
  · rename_i found
    simp [found] at bare
  · rfl

theorem stripParens_parens (closed : Closed cs) : stripParens (parens cs) = trim cs := by
  have found : Bracket.round.enclosed? (parens cs) = some (cs, []) := closed.enclosed? .round
  simp [stripParens, (Canonical.Cond.tight_parens cs).trim_eq, found]

/-- One pair of parentheses around a condition without any makes no difference. -/
theorem readWithin_parens (closed : Closed cs) (bare : isEnclosed cs = false) (n : Nat) :
    readWithin n (parens cs) = readWithin n cs := by
  cases n with
  | zero => rfl
  | succ n => rw [readWithin_succ, readWithin_succ, stripParens_parens closed, stripParens_eq_trim bare]

theorem splitTop_parens (closed : Closed inside) {sep : List Char} (apart : sep.head? ≠ some ')') :
    splitTop sep (parens inside) = [parens inside] := by
  have passed := splitTopFrom_parens closed apart []
  rw [List.append_nil] at passed
  simp [splitTop, passed, splitTopFrom, onFirst]

-- Behind one pair of parentheses another one hides all but arithmetic.
theorem readStripped_parens (closed : Closed inside) (n : Nat) :
    readStripped (n + 1) (parens inside) = .truth (.arithmetic (String.ofList (parens inside))) := by
  have noAll : splitTop "&&".toList (parens inside) = [parens inside] := splitTop_parens closed (by decide)
  have noAny : splitTop "||".toList (parens inside) = [parens inside] := splitTop_parens closed (by decide)
  have notNegated : negated? (parens inside) = none := rfl
  have noComparison : comparison? (parens inside) = none := by
    rw [comparison?, List.findSome?_eq_none_iff]
    intro op _
    have whole : splitTop op.symbol.toList (parens inside) = [parens inside] :=
      splitTop_parens closed (by cases op <;> decide)
    obtain ⟨first, others⟩ := List.cons.inj whole
    rw [cutTop?, show splitTopFrom op.symbol.toList .code 0 0 (parens inside) = (parens inside, []) from
      Prod.ext first others]
    rfl
  simp only [readStripped, noAll, noAny, notNegated, noComparison, Expr.readWithin_parens]

/-- A second pair of parentheses makes arithmetic of a condition. -/
theorem readWithin_parens_of_isEnclosed (closed : Closed cs) (enclosed : isEnclosed cs = true) (n : Nat) :
    readWithin (n + 2) (parens cs) = .truth (.arithmetic (String.ofList (trim cs))) := by
  obtain ⟨inside, text, inner⟩ := closed.exists_of_isEnclosed enclosed
  rw [readWithin_succ, stripParens_parens closed, text, readStripped_parens inner]

/-- Where an operand stands in a condition: between the other parts of a connection, or behind the sign of a
negation. -/
inductive Position where
  | part (op : Connective) (before after : List (List Char))
  | negated

namespace Position

def front : Position → List Char
  | part op before _ => frontOf op.symbol before
  | negated => ['!']

def behind : Position → List Char
  | part op _ after => behindOf op.symbol after
  | negated => []

/-- The condition with `t` for its operand. -/
def text (p : Position) (t : List Char) : List Char := p.front ++ (t ++ p.behind)

/-- What is read of a condition, with `c` for what is read of the operand. -/
def cond (levels : Nat) (c : Cond) : Position → Cond
  | part .all before after => .all (before.map (readWithin levels) ++ c :: after.map (readWithin levels))
  | part .any before after => .any (before.map (readWithin levels) ++ c :: after.map (readWithin levels))
  | negated => .not c

/-- Whether `t` is the operand that a condition has at a position. The condition has no blanks and no
parentheses around it. -/
structure Holds (p : Position) (t : List Char) : Prop where
  trimmed : trim (p.text t) = p.text t
  bare : isEnclosed (p.text t) = false
  isOperand : match p with
    | part .all before after =>
      before ++ after ≠ [] ∧ splitTop ['&', '&'] (p.text t) = before ++ t :: after
    | part .any before after =>
      before ++ after ≠ [] ∧ splitTop ['|', '|'] (p.text t) = before ++ t :: after ∧
        splitTop ['&', '&'] (p.text t) = [p.text t]
    | negated => t.head? ≠ some '=' ∧ splitTop ['&', '&'] (p.text t) = [p.text t] ∧
        splitTop ['|', '|'] (p.text t) = [p.text t]

variable {p : Position}

/-- An operand is read as a condition of its own. -/
theorem Holds.readWithin_text (holds : p.Holds t) (n : Nat) :
    readWithin (n + 1) (p.text t) = p.cond n (readWithin n t) := by
  obtain ⟨trimmed, bare, isOperand⟩ := holds
  rw [readWithin_succ, stripParens_eq_trim bare, trimmed]
  have two {before after : List (List Char)} (others : before ++ after ≠ []) :
      ∃ first second rest, before ++ t :: after = first :: second :: rest := by
    cases before with
    | nil =>
      obtain ⟨next, rest, rfl⟩ := List.exists_cons_of_ne_nil others
      exact ⟨t, next, rest, rfl⟩
    | cons first before => cases before <;> exact ⟨_, _, _, rfl⟩
  cases p with
  | part op before after =>
    cases op with
    | all =>
      obtain ⟨others, parts⟩ := isOperand
      obtain ⟨first, second, rest, shape⟩ := two others
      have split : splitTop "&&".toList ((part .all before after).text t) = first :: second :: rest :=
        parts.trans shape
      simp only [readStripped, split, cond]
      rw [← shape, List.map_append, List.map_cons]
    | any =>
      obtain ⟨others, parts, noAll⟩ := isOperand
      obtain ⟨first, second, rest, shape⟩ := two others
      have split : splitTop "||".toList ((part .any before after).text t) = first :: second :: rest :=
        parts.trans shape
      have whole : splitTop "&&".toList ((part .any before after).text t) = [_] := noAll
      simp only [readStripped, whole, split, cond]
      rw [← shape, List.map_append, List.map_cons]
  | negated =>
    obtain ⟨first, noAll, noAny⟩ := isOperand
    have whole : splitTop "&&".toList (negated.text t) = [_] := noAll
    have whole' : splitTop "||".toList (negated.text t) = [_] := noAny
    have sign : negated? (negated.text t) = some t := by simp [text, front, behind, negated?, first]
    simp only [readStripped, whole, whole', sign, cond]

section Exchange

variable {sep front back : List Char}

-- Parentheses around closed code bring about no new separator outside of them.
theorem splitTop_exchange (closed : Closed t) (apart : sep.head? ≠ some ')')
    (code : Quote.code.after front = .code) (level : net .code front = 0)
    (last : ∀ x c, front = x ++ [c] → c ∉ sep)
    (uncut : splitTop sep (front ++ (t ++ back)) = [front ++ (t ++ back)]) :
    splitTop sep (front ++ (parens t ++ back)) = [front ++ (parens t ++ back)] := by
  obtain ⟨first, others⟩ := List.cons.inj uncut
  have whole : splitTopFrom sep .code 0 0 (front ++ (t ++ back)) = (front ++ (t ++ back), []) :=
    Prod.ext first others
  have rest := uncut_behind whole
  rw [code, level] at rest
  have behind := uncut_behind rest
  rw [closed.after_eq, closed.net_eq] at behind
  have passed := splitTopFrom_of_uncut whole last (parens t ++ back)
  rw [code, level, Int.zero_add, splitTopFrom_parens closed apart] at passed
  rw [splitTop, passed, show splitTopFrom sep .code 0 0 back = (back, []) from behind]
  rfl

-- Parentheses around closed code in a text are not those around the text.
theorem isEnclosed_exchange (closed : Closed t) (code : Quote.code.after front = .code)
    (alone : front = [] → back ≠ []) (trimmed : trim (front ++ (t ++ back)) = front ++ (t ++ back))
    (trimmed' : trim (front ++ (parens t ++ back)) = front ++ (parens t ++ back))
    (bare : isEnclosed (front ++ (t ++ back)) = false) :
    isEnclosed (front ++ (parens t ++ back)) = false := by
  unfold isEnclosed
  rw [trimmed']
  cases front with
  | nil =>
    have shape : [] ++ (parens t ++ back) = '(' :: (t ++ ')' :: back) := by simp [parens]
    have found : Bracket.round.enclosed? ('(' :: (t ++ ')' :: back)) = some (t, back) :=
      closed.enclosed? .round
    obtain ⟨c, back, rfl⟩ := List.exists_cons_of_ne_nil (alone rfl)
    rw [shape, found]
  | cons c front =>
    split
    · rename_i inside found
      rw [List.cons_append, Bracket.enclosed?] at found
      split at found
      · rename_i opener
        subst opener
        have grouped : Closed (parens t) := closed.group .round
        have inner : Quote.code.after front = .code := code
        obtain ⟨inside', again⟩ := exists_close_of_exchange inner closed grouped (by simp [parens]) found
        have enclosed : Bracket.round.enclosed? (Bracket.round.opener :: front ++ (t ++ back)) =
            some (inside', []) := by
          rw [List.cons_append, Bracket.enclosed?, if_pos rfl, again]
        rw [isEnclosed, trimmed, enclosed] at bare
        cases bare
      · cases found
    · rfl

end Exchange

theorem plain_symbol (op : Connective) : ∀ c ∈ op.symbol, isMark c = false ∧ depthStep c = 0 := by
  cases op <;> decide

-- What stands in front of an operand is code with all its brackets closed.
theorem Holds.front_eq (holds : p.Holds t) :
    Quote.code.after p.front = .code ∧ net .code p.front = 0 ∧ (p.front = [] → p.behind ≠ []) := by
  have alone {sep : List Char} {before after : List (List Char)} (some_ : sep ≠ [])
      (others : before ++ after ≠ []) : frontOf sep before = [] → behindOf sep after ≠ [] := by
    cases before with
    | nil => cases after <;> simp_all [behindOf]
    | cons first before => simp [frontOf, some_]
  cases p with
  | part op before after =>
    cases op with
    | all =>
      obtain ⟨others, parts⟩ := holds.isOperand
      obtain ⟨code, level⟩ := ends_frontOf (plain_symbol .all) parts
      exact ⟨code, level, alone (by simp [Connective.symbol]) others⟩
    | any =>
      obtain ⟨others, parts, -⟩ := holds.isOperand
      obtain ⟨code, level⟩ := ends_frontOf (plain_symbol .any) parts
      exact ⟨code, level, alone (by simp [Connective.symbol]) others⟩
  | negated => exact ⟨rfl, by decide, by simp [front]⟩

-- The text of a condition is as tight with parentheses around its operand as it is without.
theorem Holds.tight_parens (holds : p.Holds t) : Tight (p.text (parens t)) := by
  have operand := Canonical.Cond.tight_parens t
  have whole (some_ : p.front ++ p.behind ≠ []) : Tight (p.text t) := by
    have all : trim (p.text t) ≠ [] := by
      rw [holds.trimmed]
      intro none
      obtain ⟨front_, rest⟩ := List.append_eq_nil_iff.1 none
      exact some_ (by rw [front_, (List.append_eq_nil_iff.1 rest).2]; rfl)
    exact holds.trimmed ▸ tight_trim all
  constructor
  · cases front_ : p.front with
    | nil =>
      rw [text, front_, List.nil_append]
      exact operand.starts.append _
    | cons c front =>
      obtain ⟨d, rest, eq, solid⟩ := (whole (by simp [front_])).starts
      rw [text, front_, List.cons_append] at eq
      obtain ⟨rfl, -⟩ := List.cons.inj eq
      rw [text, front_]
      exact ⟨c, _, rfl, solid⟩
  · by_cases behind_ : p.behind = []
    · rw [text, behind_, List.append_nil]
      exact operand.ends.append _
    · obtain ⟨x, c, eq, solid⟩ := (whole (by simp [behind_])).ends
      have last := List.dropLast_concat_getLast behind_
      rw [text, ← last, ← List.append_assoc, ← List.append_assoc] at eq
      obtain ⟨-, same⟩ := List.append_inj' eq rfl
      rw [← (List.cons.inj same).1] at solid
      exact Ends.append (Ends.append ⟨_, _, last.symm, solid⟩ _) _

theorem splitTop_part (closed : Closed t) (op : Connective) {before after : List (List Char)}
    (found : splitTop op.symbol ((part op before after).text t) = before ++ t :: after) :
    splitTop op.symbol ((part op before after).text (parens t)) = before ++ parens t :: after := by
  obtain ⟨rest, whole, ending, alike⟩ := exists_of_splitTop_append found
  obtain rfl := List.append_cancel_left whole
  have apart : op.symbol.head? ≠ some ')' := by cases op <;> decide
  have behind : splitTop op.symbol (parens t ++ behindOf op.symbol after) = parens t :: after := by
    obtain ⟨-, rfl | ⟨last, shape, others⟩⟩ := exists_of_splitTop_cons ending
    · simpa [behindOf] using splitTop_parens closed apart
    · obtain ⟨h, sep, symbol⟩ : ∃ h sep, op.symbol = h :: sep := by cases op <;> exact ⟨_, _, rfl⟩
      have plain := plain_symbol op h (by simp [symbol])
      rw [shape, splitTop, splitTopFrom_parens closed apart]
      rw [symbol] at others ⊢
      rw [Canonical.splitTopFrom_sep plain.1 plain.2, ← others]
      simp [onFirst, splitTop]
  exact (alike _).trans (congrArg (before ++ ·) behind)

/-- An operand keeps its position with parentheses around it. -/
theorem Holds.parens (closed : Closed t) (holds : p.Holds t) : p.Holds (parens t) := by
  obtain ⟨code, level, alone⟩ := holds.front_eq
  have trimmed := holds.tight_parens.trim_eq
  have keeps (sep : List Char) (apart : sep.head? ≠ some ')')
      (last : ∀ x c, p.front = x ++ [c] → c ∉ sep) (uncut : splitTop sep (p.text t) = [p.text t]) :
      splitTop sep (p.text (Canonical.parens t)) = [p.text (Canonical.parens t)] :=
    splitTop_exchange closed apart code level last uncut
  refine ⟨trimmed, isEnclosed_exchange closed code alone holds.trimmed trimmed holds.bare, ?_⟩
  cases p with
  | part op before after =>
    cases op with
    | all =>
      obtain ⟨others, found⟩ := holds.isOperand
      exact ⟨others, splitTop_part closed .all found⟩
    | any =>
      obtain ⟨others, found, noAll⟩ := holds.isOperand
      refine ⟨others, splitTop_part closed .any found, keeps _ (by decide) ?_ noAll⟩
      -- What stands in front ends in a bar.
      intro x c eq
      by_cases none : before = []
      · subst none
        cases x <;> cases eq
      · have shape : (part .any before after).front =
            (frontOf ['|', '|'] before.dropLast ++ before.getLast none ++ ['|']) ++ ['|'] := by
          refine (congrArg (frontOf ['|', '|']) (List.dropLast_concat_getLast none)).symm.trans ?_
          simp [frontOf]
        rw [shape] at eq
        obtain ⟨-, same⟩ := List.append_inj' eq rfl
        rw [← (List.cons.inj same).1]
        decide
  | negated =>
    obtain ⟨-, noAll, noAny⟩ := holds.isOperand
    have sign (x : List Char) (c : Char) (eq : negated.front = x ++ [c]) : c = '!' := by
      have shape : [] ++ ['!'] = x ++ [c] := eq
      obtain ⟨-, same⟩ := List.append_inj' shape rfl
      exact (List.cons.inj same).1.symm
    refine ⟨by simp [Canonical.parens], keeps _ (by decide) (fun x c eq => ?_) noAll,
      keeps _ (by decide) (fun x c eq => ?_) noAny⟩
    all_goals rw [sign x c eq]; decide

end Position

-- The signs of comparisons and connections, which arithmetic does not know.
def signs : List Char := ['<', '>', '=', '!', '&', '|']

theorem check_ofList (e : Engine) (cs : List Char) :
    (e.check (String.ofList cs)).1 = ((read cs).holds (e.world.env e.reading) e.world.random).1 := by
  simp [Engine.check, World.holds]

/-- One pair of parentheses around a condition, or around an operand of one, makes no difference, unless
there is a pair already: a second one makes arithmetic of the condition. So parentheses keep the truth of a
condition just if it had none, or if it is as true as its arithmetic; arithmetic with a comparison or a
connection in it is never true. -/
theorem parens_harmless_iff (t : List Char) (closed : Closed t) :
    (isEnclosed t = false → ∀ n, readWithin n (parens t) = readWithin n t) ∧
    (isEnclosed t = true → ∀ n,
      readWithin (n + 2) (parens t) = .truth (.arithmetic (String.ofList (trim t)))) ∧
    (∀ (p : Position) (n : Nat), p.Holds t →
      readWithin (n + 1) (p.text t) = p.cond n (readWithin n t) ∧
        readWithin (n + 1) (p.text (parens t)) = p.cond n (readWithin n (parens t))) ∧
    (∀ e : Engine,
      (e.check (String.ofList (parens t))).1 = (e.check (String.ofList t)).1 ↔
        (isEnclosed t = true →
          (Value.number (Arithmetic.evaluate (e.world.env e.reading).number? (trim t))).isTrue =
            (e.check (String.ofList t)).1)) ∧
    (isEnclosed t = true → (∃ c ∈ t, c ∈ signs) →
      ∀ e : Engine, (e.check (String.ofList (parens t))).1 = false) := by
  have one := readWithin_parens closed
  have two := readWithin_parens_of_isEnclosed closed
  -- What a condition with a second pair is worth.
  have worth (enclosed : isEnclosed t = true) (e : Engine) : (e.check (String.ofList (parens t))).1 =
      (Value.number (Arithmetic.evaluate (e.world.env e.reading).number? (trim t))).isTrue := by
    rw [check_ofList, read, show maxLevels = 63 + 2 from rfl, two enclosed, holds, Expr.eval,
      String.toList_ofList]
  refine ⟨one, two, fun p n holds => ⟨holds.readWithin_text n, (holds.parens closed).readWithin_text n⟩,
    fun e => ?_, fun enclosed signed e => ?_⟩
  · cases enclosed : isEnclosed t with
    | false =>
      rw [check_ofList, check_ofList, read, one enclosed]
      simp [read]
    | true =>
      rw [worth enclosed]
      simp
  · obtain ⟨c, used, sign⟩ := signed
    have known : ∀ d ∈ signs, isWordChar d = false ∧ isBlank d = false ∧ Arithmetic.isAllowed d = false := by
      decide
    obtain ⟨other, solid, refused⟩ := known c sign
    obtain ⟨a, b, text, before, behind⟩ := exists_blanks t
    have kept : c ∈ trim t := by
      rw [text, List.mem_append, List.mem_append] at used
      rcases used with front | inside | back
      · rw [before c front] at solid
        cases solid
      · exact inside
      · rw [behind c back] at solid
        cases solid
    rw [worth enclosed, Arithmetic.evaluate_eq_zero other refused kept]
    decide

-- `(1 > 0)` holds, `((1 > 0))` does not.
theorem parens_harmless_iff_doubled :
    let e := Engine.ofConfig .standard
    (e.check "(1 > 0)").1 = true ∧ (e.check "((1 > 0))").1 = false := by
  have closed : Closed "(1 > 0)".toList := by decide
  obtain ⟨-, -, -, -, never⟩ := parens_harmless_iff _ closed
  exact ⟨by decide +kernel, never (by decide) ⟨'>', by decide, by decide⟩ _⟩

end Cond

end Breadboard
