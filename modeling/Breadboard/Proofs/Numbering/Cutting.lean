import Breadboard.Proofs.Compound.Rereading

set_option autoImplicit false

/-!
The lines on which the statements of a block stand. Main statements: they are lines of the block, the text
of a statement takes up no more of them than there are, and where the lines of the block get other numbers
the statements follow.
-/
namespace Breadboard

open Text

/-- A place whose line has got another number. -/
def Location.renumber (f : Nat → Nat) (loc : Location) : Location := { loc with line := f loc.line }

def Piece.renumber (f : Nat → Nat) (p : Piece) : Piece := { p with location := p.location.renumber f }

/-- Whether the lines from `lo` on and in front of line `hi` keep their distances when they get other
numbers. -/
def Moves (f : Nat → Nat) (lo hi : Nat) : Prop := ∀ m n, lo ≤ m → m ≤ n → n < hi → f n = f m + (n - m)

/-- Whether a text that starts on line `number` stands on lines from `lo` on and in front of line `hi`. -/
structure StandsIn (lo hi number : Nat) (text : List Char) : Prop where
  low : lo ≤ number
  high : number + newlines text < hi

theorem newlines_le_of_sublist {a b : List Char} (part : a.Sublist b) : newlines a ≤ newlines b :=
  part.count_le _

namespace StandsIn

variable {lo hi lo' hi' number : Nat} {text inner : List Char}

theorem part (stands : StandsIn lo hi number text) (sub : inner.Sublist text) : StandsIn lo hi number inner :=
  ⟨stands.low, Nat.lt_of_le_of_lt (Nat.add_le_add_left (newlines_le_of_sublist sub) _) stands.high⟩

theorem mono (stands : StandsIn lo hi number text) (lower : lo' ≤ lo) (higher : hi ≤ hi') :
    StandsIn lo' hi' number text :=
  ⟨Nat.le_trans lower stands.low, Nat.lt_of_lt_of_le stands.high higher⟩

end StandsIn

section Counting

theorem newlines_dropReturn_le (seen : List Char) : newlines (dropReturn seen) ≤ newlines seen := by
  unfold dropReturn
  split
  · exact newlines_le_of_sublist (List.sublist_cons_self _ _)
  · exact Nat.le_refl _

theorem newlines_reverse (cs : List Char) : newlines cs.reverse = newlines cs := List.count_reverse

theorem newlines_linesFrom {seen : List Char} (inLine : newlines seen = 0) (cs : List Char) :
    ∀ line ∈ linesFrom seen cs, newlines line = 0 := by
  induction cs generalizing seen with
  | nil =>
    unfold linesFrom
    split
    · simp
    · simpa [newlines_reverse] using inLine
  | cons c cs ih =>
    unfold linesFrom
    split
    · refine List.forall_mem_cons.2 ⟨?_, ih rfl⟩
      have returned := newlines_dropReturn_le seen
      rw [newlines_reverse]
      omega
    · rename_i other
      exact ih (by simpa [newlines, other] using inLine)

theorem newlines_lines {cs : List Char} : ∀ line ∈ lines cs, newlines line = 0 := newlines_linesFrom rfl cs

theorem length_lines_le (cs : List Char) : (lines cs).length ≤ newlines cs + 1 := by
  have from_ (seen : List Char) : (linesFrom seen cs).length ≤ newlines cs + 1 := by
    induction cs generalizing seen with
    | nil =>
      unfold linesFrom
      split <;> simp
    | cons c cs ih =>
      unfold linesFrom
      split
      · rename_i newline
        have rest := ih []
        simp only [newlines, newline, List.count_cons_self, List.length_cons] at rest ⊢
        omega
      · rename_i other
        simpa [newlines, other] using ih (c :: seen)
  exact from_ []

theorem StandsIn.lines_le {lo hi number : Nat} {text : List Char} (stands : StandsIn lo hi number text) :
    number + (lines text).length ≤ hi := by
  have most := length_lines_le text
  have high := stands.high
  omega

theorem newlines_intercalate {ls : List (List Char)} (inLine : ∀ line ∈ ls, newlines line = 0) :
    newlines (['\n'].intercalate ls) = ls.length - 1 := by
  cases ls with
  | nil => rfl
  | cons line ls =>
    induction ls generalizing line with
    | nil => simpa [List.intercalate] using inLine
    | cons next ls ih =>
      obtain ⟨first, others⟩ := List.forall_mem_cons.1 inLine
      have rest := ih next others
      have end_ : newlines ['\n'] = 1 := rfl
      simp only [List.intercalate, List.intersperse_cons_cons, List.flatten_cons, newlines_append] at rest ⊢
      simp only [List.length_cons] at rest ⊢
      omega

end Counting

section Renumbering

variable (f : Nat → Nat)

def Compound.renumber (c : Compound) : Compound := { c with location := c.location.renumber f }

def CutState.renumber : CutState → CutState
  | idle => idle
  | joining loc text parens => joining (loc.renumber f) text parens
  | absorbing c => absorbing (c.renumber f)

/-- What taking in a line gives, with other numbers. -/
def renumberTaken (taken : List Piece × CutState) : List Piece × CutState :=
  (taken.1.map (Piece.renumber f), taken.2.renumber f)

theorem ofLine_renumber (loc : Location) (line : List Char) :
    Piece.ofLine (loc.renumber f) line = (Piece.ofLine loc line).map (Piece.renumber f) := by
  rw [Piece.ofLine, Piece.ofLine, List.map_filterMap]
  congr 1
  funext part
  split <;> rfl

theorem join_renumber (loc : Location) (text : List Char) (parens : Int) :
    CutState.join (loc.renumber f) text parens = renumberTaken f (CutState.join loc text parens) := by
  unfold CutState.join
  split
  · rfl
  · rw [ofLine_renumber]
    rfl

theorem absorb_renumber (c : Compound) (line : List Char) (rest : List (List Char)) :
    CutState.absorb (c.renumber f) line rest = renumberTaken f (CutState.absorb c line rest) := by
  have added : (c.renumber f).add line = (c.add line).renumber f := rfl
  have complete : ((c.add line).renumber f).isComplete line = (c.add line).isComplete line := rfl
  have chain : ((c.add line).renumber f).isChain = (c.add line).isChain := rfl
  unfold CutState.absorb
  simp only [added, complete, chain]
  split
  · split <;> rfl
  · rfl

theorem startLine_renumber (number : Nat) (raw : List Char) (rest : List (List Char)) :
    CutState.startLine (f number) raw rest = renumberTaken f (CutState.startLine number raw rest) := by
  unfold CutState.startLine
  dsimp only
  split
  · rfl
  · split
    · exact absorb_renumber f ⟨⟨number, _⟩, [], 0, false, _⟩ _ rest
    · exact join_renumber f ⟨number, _⟩ _ _

theorem next_renumber (s : CutState) (number : Nat) (raw : List Char) (rest : List (List Char)) :
    (s.renumber f).next (f number) raw rest = renumberTaken f (s.next number raw rest) := by
  cases s with
  | idle => exact startLine_renumber f number raw rest
  | joining loc text parens => exact join_renumber f loc _ _
  | absorbing c => exact absorb_renumber f c raw rest

theorem finish_renumber (s : CutState) : (s.renumber f).finish = s.finish.map (Piece.renumber f) := by
  cases s with
  | idle => rfl
  | joining loc text parens => exact ofLine_renumber f loc text
  | absorbing c => rfl

theorem cutLines_renumber (s : CutState) {lo hi : Nat} (number : Nat) (ls : List (List Char))
    (moves : Moves f lo hi) (low : lo ≤ number) (high : number + ls.length ≤ hi) :
    cutLines (s.renumber f) (f number) ls = (cutLines s number ls).map (Piece.renumber f) := by
  induction ls generalizing s number with
  | nil => exact finish_renumber f s
  | cons raw ls ih =>
    rw [List.length_cons] at high
    rw [cutLines, cutLines, next_renumber, List.map_append]
    refine congrArg _ ?_
    have rest := ih (s.next number raw ls).2 (number + 1) (by omega) (by omega)
    -- Behind the last line there is no line that would need a number.
    cases ls with
    | nil => exact rest
    | cons next ls =>
      have following := moves number (number + 1) low (Nat.le_succ _) (by rw [List.length_cons] at high; omega)
      rw [following, Nat.add_sub_cancel_left] at rest
      exact rest

theorem cutBlock_renumber {lo hi number : Nat} {text : List Char} (moves : Moves f lo hi) (low : lo ≤ number)
    (high : number + (lines text).length ≤ hi) :
    cutBlock (f number) text = (cutBlock number text).map (Piece.renumber f) :=
  cutLines_renumber f .idle number (lines text) moves low high

end Renumbering

section Places

variable {lo number : Nat}

/-- Whether what is being taken in stands on lines from `lo` on and in front of line `number`. -/
def CutState.StandsBefore (lo number : Nat) : CutState → Prop
  | idle => True
  | joining loc text _ => StandsIn lo number loc.line text
  | absorbing c => lo ≤ c.location.line ∧ c.location.line + c.lines.length ≤ number ∧ c.lines ≠ [] ∧
      ∀ line ∈ c.lines, newlines line = 0

def TakenBefore (lo number : Nat) (taken : List Piece × CutState) : Prop :=
  (∀ p ∈ taken.1, StandsIn lo number p.location.line p.text) ∧ taken.2.StandsBefore lo number

theorem standsIn_ofLine {loc : Location} {text : List Char} (stands : StandsIn lo number loc.line text) :
    ∀ p ∈ Piece.ofLine loc text, StandsIn lo number p.location.line p.text := by
  intro p member
  obtain ⟨part, inside, made⟩ := List.mem_filterMap.1 member
  obtain ⟨whole, split, rfl⟩ := List.mem_map.1 inside
  have part := (trim_sublist whole).trans (sublist_of_mem_splitTop split)
  split at made
  · cases made
  · cases made
    exact stands.part part

theorem standsIn_piece {c : Compound} (stands : (CutState.absorbing c).StandsBefore lo number) :
    StandsIn lo number c.piece.location.line c.piece.text := by
  obtain ⟨low, high, some_, inLine⟩ := stands
  have text : newlines c.piece.text = c.lines.length - 1 := by
    rw [Compound.piece, newlines_intercalate (by simpa using inLine), List.length_reverse]
  have first := List.length_pos_iff.2 some_
  refine ⟨low, ?_⟩
  rw [text]
  change c.location.line + (c.lines.length - 1) < number
  omega

theorem takenBefore_join {loc : Location} {text : List Char} (parens : Int)
    (stands : StandsIn lo number loc.line text) : TakenBefore lo number (CutState.join loc text parens) := by
  unfold CutState.join
  split
  · exact ⟨by simp, stands⟩
  · exact ⟨standsIn_ofLine stands, trivial⟩

theorem takenBefore_absorb {c : Compound} {line : List Char} (rest : List (List Char)) (low : lo ≤ c.location.line)
    (high : c.location.line + c.lines.length < number) (inLine : ∀ line ∈ c.lines, newlines line = 0)
    (plain : newlines line = 0) : TakenBefore lo number (CutState.absorb c line rest) := by
  have added : (CutState.absorbing (c.add line)).StandsBefore lo number :=
    ⟨low, high, List.cons_ne_nil _ _, List.forall_mem_cons.2 ⟨plain, inLine⟩⟩
  unfold CutState.absorb
  dsimp only
  split
  · split
    · exact ⟨by simp, added⟩
    · exact ⟨by simpa using standsIn_piece added, trivial⟩
  · exact ⟨by simp, added⟩

theorem takenBefore_next {s : CutState} {raw : List Char} (rest : List (List Char)) (low : lo ≤ number)
    (stands : s.StandsBefore lo number) (plain : newlines raw = 0) :
    TakenBefore lo (number + 1) (s.next number raw rest) := by
  have trimmed := newlines_le_of_sublist (trim_sublist raw)
  cases s with
  | idle =>
    have bare : newlines (trimStart ((trim raw).dropWhile (· == '\x7d'))) = 0 := by
      have fewer := newlines_le_of_sublist ((trimStart_sublist _).trans
        (List.dropWhile_sublist (l := trim raw) (· == '\x7d')))
      omega
    simp only [CutState.next, CutState.startLine]
    split
    · exact ⟨by simp, trivial⟩
    · split
      · exact takenBefore_absorb rest low (Nat.lt_succ_self _) (by simp) bare
      · exact takenBefore_join _ ⟨low, by dsimp only; omega⟩
  | joining loc text parens =>
    have blank : newlines (' ' :: trim raw) = newlines (trim raw) := rfl
    have high := stands.high
    exact takenBefore_join _ ⟨stands.low, by rw [newlines_append, blank]; omega⟩
  | absorbing c =>
    obtain ⟨from_, high, -, inLine⟩ := stands
    exact takenBefore_absorb rest from_ (Nat.lt_succ_of_le high) inLine plain

theorem standsIn_cutLines {s : CutState} {ls : List (List Char)} (low : lo ≤ number)
    (stands : s.StandsBefore lo number) (plain : ∀ line ∈ ls, newlines line = 0) :
    ∀ p ∈ cutLines s number ls, StandsIn lo (number + ls.length) p.location.line p.text := by
  induction ls generalizing s number with
  | nil =>
    intro p member
    cases s with
    | idle => cases member
    | joining loc text parens => exact standsIn_ofLine stands p member
    | absorbing c =>
      obtain rfl := List.mem_singleton.1 member
      exact standsIn_piece stands
  | cons raw ls ih =>
    intro p member
    obtain ⟨first, others⟩ := List.forall_mem_cons.1 plain
    obtain ⟨pieces, state⟩ := takenBefore_next ls low stands first
    rcases List.mem_append.1 member with member | member
    · exact (pieces p member).mono (Nat.le_refl _) (by simp)
    · have later := @ih (number + 1) _ (Nat.le_succ_of_le low) state others p member
      rwa [Nat.add_right_comm] at later

/-- The statements of a block stand on the lines of it. -/
theorem standsIn_of_mem_cutBlock {text : List Char} {p : Piece} (member : p ∈ cutBlock number text) :
    StandsIn number (number + (lines text).length) p.location.line p.text :=
  standsIn_cutLines (s := .idle) (Nat.le_refl _) trivial newlines_lines p member

end Places

end Breadboard
