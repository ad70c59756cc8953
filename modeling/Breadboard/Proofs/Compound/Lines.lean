import Breadboard.Proofs.Compound.Heads
import Breadboard.Proofs.Cutting

set_option autoImplicit false

/-!
Blocks of a line or two. Main statements: a line that opens with a keyword is taken as one statement as
a whole, and a line with one simple statement gives that statement.
-/
namespace Breadboard

open Text
open Canonical (Starts Ends Tight)

section Lines

variable {line : List Char}

theorem linesFrom_inLine (seen cs : List Char) (inLine : '\n' ∉ line) :
    linesFrom seen (line ++ cs) = linesFrom (line.reverse ++ seen) cs := by
  induction line generalizing seen with
  | nil => rfl
  | cons c line ih =>
    simp only [List.mem_cons, not_or] at inLine
    simp [linesFrom, Ne.symm inLine.1, ih (c :: seen) inLine.2]

-- The last line needs no end.
theorem lines_single (inLine : '\n' ∉ line) (text : line ≠ []) : lines line = [line] := by
  have whole := linesFrom_inLine [] [] inLine
  rw [List.append_nil, List.append_nil] at whole
  rw [lines, whole]
  simp [linesFrom, text]

-- A line that ends with a solid character has no carriage return at its end.
theorem lines_ended (inLine : '\n' ∉ line) (solid : Ends line) (cs : List Char) :
    lines (line ++ '\n' :: cs) = line :: lines cs := by
  obtain ⟨front, c, rfl, solid⟩ := solid
  have kept : dropReturn (front ++ [c]).reverse = (front ++ [c]).reverse := by
    have other : c ≠ '\r' := by
      rintro rfl
      exact absurd solid (by decide)
    rw [List.reverse_append]
    simp [dropReturn, other]
  rw [lines, linesFrom_inLine [] _ inLine, List.append_nil, linesFrom, if_pos rfl, kept,
    List.reverse_reverse]
  rfl

end Lines

section Starting

variable {a b line : List Char}

-- A line is taken without the blanks around it, and its statements stand where it starts.
theorem startLine_eq (before : ∀ c ∈ a, isBlank c = true) (behind : ∀ c ∈ b, isBlank c = true)
    (tight : Tight line) (opens : line.head? ≠ some '\x7d') (solid : Piece.isFiller line = false)
    (number : Nat) (others : List (List Char)) :
    CutState.startLine number (a ++ (line ++ b)) others =
      match leadingKeyword line with
      | some k => CutState.absorb ⟨⟨number, byteSize a + 1⟩, [], 0, false, CutState.isChainWord k⟩ line others
      | none => CutState.join ⟨number, byteSize a + 1⟩ line (Bracket.round.balance .code line) := by
  have trimmed := tight.trim_between before behind
  have start : trimStart (a ++ (line ++ b)) = line ++ b :=
    Canonical.trimStart_blanks before (tight.starts.append b)
  have bare : trimStart ((trim (a ++ (line ++ b))).dropWhile (· == '\x7d')) = line := by
    obtain ⟨c, rest, rfl, first⟩ := tight.starts
    have other : c ≠ '\x7d' := by simpa using opens
    rw [trimmed, List.dropWhile_cons_of_neg (by simp [other])]
    exact tight.starts.trimStart_eq
  have column : byteSize (a ++ (line ++ b)) - byteSize (trimStart (a ++ (line ++ b))) + 1 =
      byteSize a + 1 := by
    rw [start, byteSize_append a, Nat.add_sub_cancel]
  rw [CutState.startLine]
  cases keyword : leadingKeyword line with
  | none => simp only [bare, solid, column, keyword, Bool.false_eq_true, if_false]
  | some k => simp only [bare, solid, column, keyword, Bool.false_eq_true, if_false]

-- What is being taken in at the last line of a block is one statement.
theorem finish_absorb (c : Compound) (line : List Char) :
    (CutState.absorb c line []).1 ++ (CutState.absorb c line []).2.finish = [(c.add line).piece] := by
  have last : Compound.continuesIn [] = false := rfl
  unfold CutState.absorb
  dsimp only
  split
  · simp only [last, Bool.and_false, Bool.false_eq_true, if_false]
    rfl
  · rfl

theorem cutLines_last (number : Nat) (line : List Char) :
    cutLines .idle number [line] =
      (CutState.startLine number line []).1 ++ (CutState.startLine number line []).2.finish := rfl

theorem not_closer_of_word (starts : Starts Canonical.IsWord line) : line.head? ≠ some '\x7d' := by
  obtain ⟨c, rest, rfl, word⟩ := starts
  simpa using Canonical.ne_of_class word (by decide)

/-- A line that opens with a keyword is one statement, whatever else is on it. -/
theorem cutBlock_compound {k : Keyword} (before : ∀ c ∈ a, isBlank c = true)
    (behind : ∀ c ∈ b, isBlank c = true) (tight : Tight line) (starts : Starts Canonical.IsWord line)
    (inLine : '\n' ∉ a ++ (line ++ b)) (keyword : leadingKeyword line = some k) (number : Nat) :
    cutBlock number (a ++ (line ++ b)) = [⟨line, ⟨number, byteSize a + 1⟩⟩] := by
  have text : a ++ (line ++ b) ≠ [] := by
    obtain ⟨c, rest, rfl, -⟩ := starts
    simp
  have start := startLine_eq before behind tight (not_closer_of_word starts)
    (Canonical.isFiller_of_starts starts) number []
  simp only [keyword] at start
  rw [cutBlock, lines_single inLine text, cutLines_last, start, finish_absorb]
  simp [Compound.piece, Compound.add, List.intercalate]

/-- A line with a block on it that ends a compound statement is one statement, unless the next line goes
on with an `else`. -/
theorem cutBlock_block {k : Keyword} {cs : List Char} (tight : Tight line)
    (starts : Starts Canonical.IsWord line) (inLine : '\n' ∉ line) (keyword : leadingKeyword line = some k)
    (balanced : Bracket.curly.balance .code line = 0) (block : containsCode 0x7b .code line = true)
    (ends : (CutState.isChainWord k && Compound.continuesIn (lines cs)) = false) (number : Nat) :
    cutBlock number (line ++ '\n' :: cs) = ⟨line, ⟨number, 1⟩⟩ :: cutBlock (number + 1) cs := by
  have start := startLine_eq (a := []) (b := []) (by simp) (by simp) tight (not_closer_of_word starts)
    (Canonical.isFiller_of_starts starts) number (lines cs)
  simp only [List.nil_append, List.append_nil, keyword] at start
  have taken : CutState.absorb ⟨⟨number, byteSize [] + 1⟩, [], 0, false, CutState.isChainWord k⟩ line
      (lines cs) = ([⟨line, ⟨number, 1⟩⟩], .idle) := by
    simp [CutState.absorb, Compound.add, Compound.isComplete, balanced, block, ends, Compound.piece,
      List.intercalate, byteSize]
  rw [cutBlock, lines_ended inLine tight.ends, cutLines]
  simp only [CutState.next, start, taken]
  rfl

/-- The text of a simple statement, less its semicolon: closed code in which no statement ends, and that
opens neither with a keyword nor with a brace. -/
structure IsSimple (t : List Char) : Prop where
  closed : Closed t
  whole : Whole t
  starts : Starts (fun c => isBlank c = false ∧ c ≠ '\x7b') t
  plain : leadingKeyword t = none

theorem isSimple_iff (t : List Char) : IsSimple t ↔ Closed t ∧ Whole t ∧
    t.head?.any (fun c => !isBlank c && c != '\x7b') = true ∧ leadingKeyword t = none := by
  constructor
  · rintro ⟨closed, whole, ⟨c, rest, rfl, solid, other⟩, plain⟩
    exact ⟨closed, whole, by simp [solid, other], plain⟩
  · rintro ⟨closed, whole, starts, plain⟩
    cases t with
    | nil => cases starts
    | cons c rest => exact ⟨closed, whole, ⟨c, rest, rfl, by simpa using starts⟩, plain⟩

instance : DecidablePred IsSimple := fun t => decidable_of_iff _ (isSimple_iff t).symm

-- Code that is closed opens with no closing bracket.
theorem Closed.not_closer (closed : Closed line) (b : Bracket) (rest : List Char) :
    line ≠ b.closer :: rest := by
  rintro rfl
  have low := closed.nonneg b [b.closer] (List.cons_prefix_cons.2 ⟨rfl, List.nil_prefix⟩)
  rw [Canonical.balance_cons_code b (Canonical.isMark_closer b)] at low
  have weight := Canonical.weight_closer b
  simp [weight] at low

theorem Whole.not_semicolon (whole : Whole line) (rest : List Char) : line ≠ ';' :: rest := by
  rintro rfl
  rw [Whole, splitTopFrom_semicolon] at whole
  cases whole

namespace IsSimple

variable {t : List Char} (simple : IsSimple t)

include simple

theorem starts_solid : Starts (isBlank · = false) t := simple.starts.mono fun _ => And.left

theorem first_solid (more : List Char) : Piece.isFiller (t ++ more) = false ∧
    (t ++ more).head? ≠ some '\x7d' := by
  obtain ⟨c, rest, rfl, solid, notOpener⟩ := simple.starts
  have notCloser : c ≠ '\x7d' := fun same => simple.closed.not_closer .curly rest (by rw [same]; rfl)
  have notEnd : c ≠ ';' := fun same => simple.whole.not_semicolon rest (by rw [same])
  simp [Piece.isFiller, solid, notOpener, notCloser, notEnd]

theorem not_filler_trim : Piece.isFiller (trim t) = false := by
  have filler := (simple.first_solid []).1
  rw [List.append_nil] at filler
  cases trimmed : Piece.isFiller (trim t) with
  | false => rfl
  | true =>
    have none := essence_eq_nil_iff.2 trimmed
    rw [essence_trim, essence_eq_nil_iff, filler] at none
    cases none

/-- A line with one simple statement gives that statement. -/
theorem cutBlock_eq (before : ∀ c ∈ a, isBlank c = true) (behind : ∀ c ∈ b, isBlank c = true)
    (inLine : '\n' ∉ a ++ (t ++ [';'] ++ b)) (number : Nat) :
    cutBlock number (a ++ (t ++ [';'] ++ b)) = [⟨trim t, ⟨number, byteSize a + 1⟩⟩] := by
  have tight : Tight (t ++ [';']) := ⟨simple.starts_solid.append _, ⟨t, ';', rfl, by decide⟩⟩
  obtain ⟨solid, opens⟩ := simple.first_solid [';']
  have start := startLine_eq before behind tight opens solid number []
  have plain : leadingKeyword (t ++ [';']) = none := by rw [leadingKeyword_semicolon, simple.plain]
  have balanced : Bracket.round.balance .code (t ++ [';']) = 0 :=
    (simple.closed.append (.plain (by decide))).balance_eq .round
  have pieces (loc : Location) : Piece.ofLine loc (t ++ [';']) = [⟨trim t, loc⟩] := by
    have none : Piece.isFiller [] = true := rfl
    rw [Piece.ofLine, simple.whole.splitTop_append simple.closed]
    simp [Whole.nil.splitTop_eq, simple.not_filler_trim, none]
  simp only [plain, CutState.join, balanced, pieces] at start
  rw [cutBlock, lines_single inLine (by simp), cutLines_last, start]
  rfl

end IsSimple

end Starting

end Breadboard
