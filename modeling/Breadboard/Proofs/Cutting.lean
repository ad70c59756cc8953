import Breadboard.Sketch.Piece

set_option autoImplicit false

/-!
Cutting a block into statements. Main statement: the lines of a block fall into groups, one after the
other, and the statements of a block are those of its groups; each stands where its group starts, and
together they have all the code of it.
-/
namespace Breadboard

open Text

-- Characters that only stand between statements.
def isGap (c : Char) : Bool := isBlank c || c == '\x7b' || c == '\x7d' || c == ';'

/-- What is left of a text without blanks, braces and semicolons. -/
def essence (cs : List Char) : List Char := cs.filter (!isGap ·)

def Piece.texts (pieces : List Piece) : List Char := pieces.flatMap Piece.text

/-- Consecutive lines with the statements that are cut out of them. -/
structure LineGroup where
  first : List Char
  others : List (List Char)
  pieces : List Piece

namespace LineGroup

def lines (g : LineGroup) : List (List Char) := g.first :: g.others

/-- Where the statements of a line that has a number start. -/
def start (number : Nat) (line : List Char) : Location :=
  ⟨number, byteSize (line.takeWhile isBlank) + 1⟩

/-- The statements of a group whose first line has a number: all of them start there, and none of its
code is missing from them or in them twice. -/
structure Faithful (number : Nat) (g : LineGroup) : Prop where
  location : ∀ p ∈ g.pieces, p.location = start number g.first
  essence : essence (Piece.texts g.pieces) = essence g.lines.flatten

end LineGroup

section Essence

variable {a b cs : List Char}

@[simp] theorem essence_nil : essence [] = [] := rfl

@[simp] theorem essence_append (a b : List Char) : essence (a ++ b) = essence a ++ essence b :=
  List.filter_append ..

theorem essence_cons_gap {c : Char} (gap : isGap c = true) (cs : List Char) :
    essence (c :: cs) = essence cs := by
  simp [essence, gap]

theorem isGap_of_isBlank {c : Char} (blank : isBlank c = true) : isGap c = true := by
  simp [isGap, blank]

theorem essence_eq_nil_iff : essence cs = [] ↔ Piece.isFiller cs = true := by
  change essence cs = [] ↔ cs.all isGap = true
  simp [essence]

theorem essence_dropWhile {p : Char → Bool} (gaps : ∀ c, p c = true → isGap c = true) (cs : List Char) :
    essence (cs.dropWhile p) = essence cs := by
  induction cs with
  | nil => rfl
  | cons c cs ih =>
    by_cases dropped : p c = true
    · rw [List.dropWhile_cons_of_pos dropped, ih, essence_cons_gap (gaps c dropped)]
    · rw [List.dropWhile_cons_of_neg dropped]

theorem essence_reverse (cs : List Char) : essence cs.reverse = (essence cs).reverse :=
  List.filter_reverse

theorem essence_trimStart (cs : List Char) : essence (trimStart cs) = essence cs :=
  essence_dropWhile (fun _ => isGap_of_isBlank) cs

theorem essence_trimEnd (cs : List Char) : essence (trimEnd cs) = essence cs := by
  rw [trimEnd, dropEndWhile, essence_reverse, essence_dropWhile (fun _ => isGap_of_isBlank),
    essence_reverse, List.reverse_reverse]

@[simp] theorem essence_trim (cs : List Char) : essence (trim cs) = essence cs := by
  rw [trim, essence_trimEnd, essence_trimStart]

@[simp] theorem texts_append (p q : List Piece) :
    Piece.texts (p ++ q) = Piece.texts p ++ Piece.texts q :=
  List.flatMap_append

-- What a line starts on is the line less the blanks around it and the braces that close blocks.
theorem essence_bare (raw : List Char) :
    essence (trimStart ((trim raw).dropWhile (· == '\x7d'))) = essence raw := by
  have braces : ∀ c, (c == '\x7d') = true → isGap c = true := by
    intro c brace
    simp [isGap, eq_of_beq brace]
  rw [essence_trimStart, essence_dropWhile braces, essence_trim]

-- Splitting takes away nothing but semicolons.
theorem essence_splitTopFrom (q : Quote) (depth : Int) (cs : List Char) :
    essence ((splitTopFrom [';'] q depth 0 cs).1 ++ (splitTopFrom [';'] q depth 0 cs).2.flatten) =
      essence cs := by
  have semicolon : isGap ';' = true := by decide
  induction cs generalizing q depth with
  | nil => rfl
  | cons c cs ih =>
    have kept (q : Quote) (depth : Int) :
        essence (c :: (splitTopFrom [';'] q depth 0 cs).1 ++ (splitTopFrom [';'] q depth 0 cs).2.flatten) =
          essence (c :: cs) := by
      have rest := ih q depth
      rw [List.cons_append]
      by_cases gap : isGap c = true
      · rw [essence_cons_gap gap, essence_cons_gap gap, rest]
      · simp only [essence, List.filter_cons, gap] at rest ⊢
        simp [rest]
    rw [splitTopFrom]
    by_cases code : q.isCode c = true
    · rw [if_pos code]
      dsimp only
      by_cases at_ : depth + depthStep c = 0 ∧ [';'] ≠ [] ∧ [';'].isPrefixOf (c :: cs) = true
      · rw [if_pos at_]
        have same : ';' = c := by simpa [List.isPrefixOf] using at_.2.2
        subst same
        have rest := ih .code (depth + depthStep ';')
        simpa [essence_cons_gap semicolon] using rest
      · rw [if_neg at_]
        exact kept .code (depth + depthStep c)
    · rw [if_neg code]
      exact kept (q.next c) depth

theorem essence_ofLine (loc : Location) (line : List Char) :
    essence (Piece.texts (Piece.ofLine loc line)) = essence line := by
  -- A part that is left out has no code in it.
  have parts (parts : List (List Char)) :
      essence (Piece.texts ((parts.map trim).filterMap fun part =>
        if Piece.isFiller part then none else some ⟨part, loc⟩)) = essence parts.flatten := by
    induction parts with
    | nil => rfl
    | cons part parts ih =>
      rw [List.map_cons, List.flatten_cons, essence_append, ← ih]
      by_cases filler : Piece.isFiller (trim part) = true
      · rw [List.filterMap_cons_none (by simp [filler]), ← essence_trim part,
          essence_eq_nil_iff.2 filler, List.nil_append]
      · rw [List.filterMap_cons_some (by simp [filler]; rfl)]
        simp [Piece.texts]
  rw [Piece.ofLine, parts, splitTop, List.flatten_cons, essence_splitTopFrom]

theorem location_ofLine {loc : Location} {line : List Char} :
    ∀ p ∈ Piece.ofLine loc line, p.location = loc := by
  intro p member
  obtain ⟨part, -, made⟩ := List.mem_filterMap.1 member
  split at made
  · cases made
  · cases made
    rfl

theorem essence_intercalate (ls : List (List Char)) :
    essence (['\n'].intercalate ls) = essence ls.flatten := by
  have lineEnd : isGap '\n' = true := by decide
  cases ls with
  | nil => rfl
  | cons line ls =>
    induction ls generalizing line with
    | nil => simp [List.intercalate]
    | cons next ls ih =>
      have rest := ih next
      simp only [List.intercalate, List.intersperse_cons_cons, List.flatten_cons] at rest ⊢
      simp only [essence_append, essence_cons_gap lineEnd, essence_nil, List.nil_append] at rest ⊢
      rw [rest]

-- Ending a line takes away nothing but blanks.
theorem essence_linesFrom (seen cs : List Char) :
    essence (linesFrom seen cs).flatten = essence (seen.reverse ++ cs) := by
  have lineEnd : isGap '\n' = true := by decide
  have returned (seen : List Char) : essence (dropReturn seen).reverse = essence seen.reverse := by
    have carriage : isGap '\r' = true := by decide
    unfold dropReturn
    split
    · simp [essence_cons_gap carriage]
    · rfl
  induction cs generalizing seen with
  | nil =>
    unfold linesFrom
    cases seen <;> simp
  | cons c cs ih =>
    unfold linesFrom
    split
    · rename_i newline
      subst newline
      simp [ih, returned, essence_cons_gap lineEnd]
    · rw [ih]
      simp

end Essence

section Taking

variable {number : Nat} {first : List Char} {others : List (List Char)}

/-- Whether what is being taken in starts where a line starts that has a number, and has the code of
that line and of `others`. -/
def CutState.Took (number : Nat) (first : List Char) (others : List (List Char)) : CutState → Prop
  | .idle => False
  | .joining loc text _ =>
    loc = LineGroup.start number first ∧ essence text = essence (first :: others).flatten
  | .absorbing c =>
    c.location = LineGroup.start number first ∧
      essence c.lines.reverse.flatten = essence (first :: others).flatten

/-- What taking in the latest line of a group leads to: the group goes on, or it is complete. -/
def Advances (number : Nat) (first : List Char) (others : List (List Char))
    (taken : List Piece × CutState) : Prop :=
  (taken.1 = [] ∧ taken.2.Took number first others) ∨
    (taken.2 = .idle ∧ (LineGroup.mk first others taken.1).Faithful number)

theorem faithful_ofLine {text : List Char} (same : essence text = essence (first :: others).flatten) :
    (LineGroup.mk first others (Piece.ofLine (LineGroup.start number first) text)).Faithful number where
  location := location_ofLine
  essence := (essence_ofLine _ text).trans same

theorem faithful_piece {c : Compound} (place : c.location = LineGroup.start number first)
    (same : essence c.lines.reverse.flatten = essence (first :: others).flatten) :
    (LineGroup.mk first others [c.piece]).Faithful number where
  location := by simpa [Compound.piece] using place
  essence := by
    have text := essence_intercalate c.lines.reverse
    simpa [Piece.texts, Compound.piece, LineGroup.lines, text] using same

theorem advances_join {text : List Char} (parens : Int)
    (same : essence text = essence (first :: others).flatten) :
    Advances number first others (CutState.join (LineGroup.start number first) text parens) := by
  unfold CutState.join
  split
  · exact .inl ⟨rfl, rfl, same⟩
  · exact .inr ⟨rfl, faithful_ofLine same⟩

theorem advances_absorb {c : Compound} {line : List Char} (rest : List (List Char))
    (place : c.location = LineGroup.start number first)
    (same : essence (c.lines.reverse.flatten ++ line) = essence (first :: others).flatten) :
    Advances number first others (CutState.absorb c line rest) := by
  have added : essence (c.add line).lines.reverse.flatten = essence (first :: others).flatten := by
    simpa [Compound.add] using same
  unfold CutState.absorb
  dsimp only
  split
  · split
    · exact .inl ⟨rfl, place, added⟩
    · exact .inr ⟨rfl, faithful_piece place added⟩
  · exact .inl ⟨rfl, place, added⟩

theorem start_eq (number : Nat) (line : List Char) :
    LineGroup.start number line = ⟨number, byteSize line - byteSize (trimStart line) + 1⟩ := by
  have parts : byteSize line = byteSize (line.takeWhile isBlank) + byteSize (trimStart line) := by
    rw [← byteSize_append, trimStart, List.takeWhile_append_dropWhile]
  rw [LineGroup.start, parts, Nat.add_sub_cancel]

-- A group starts with a line that nothing else takes in.
theorem advances_startLine (number : Nat) (raw : List Char) (rest : List (List Char)) :
    Advances number raw [] (CutState.startLine number raw rest) := by
  have bare := essence_bare raw
  unfold CutState.startLine
  dsimp only
  rw [← start_eq]
  split
  · rename_i filler
    have empty : essence raw = [] := bare.symm.trans (essence_eq_nil_iff.2 filler)
    exact .inr ⟨rfl, ⟨by simp, by simp [LineGroup.lines, Piece.texts, empty]⟩⟩
  · split
    · exact advances_absorb rest rfl (by simpa using bare)
    · exact advances_join _ (by simpa using bare)

theorem CutState.Took.next {s : CutState} (took : s.Took number first others) (n : Nat)
    (raw : List Char) (rest : List (List Char)) :
    Advances number first (others ++ [raw]) (s.next n raw rest) := by
  have blank : isGap ' ' = true := by decide
  cases s with
  | idle => exact took.elim
  | joining loc text parens =>
    obtain ⟨rfl, same⟩ := took
    refine advances_join _ ?_
    simp only [List.flatten_cons, essence_append] at same
    simp [essence_cons_gap blank, same]
  | absorbing c =>
    obtain ⟨place, same⟩ := took
    refine advances_absorb rest place ?_
    simp only [List.flatten_cons, essence_append] at same
    simp [same]

theorem CutState.Took.faithful_finish {s : CutState} (took : s.Took number first others) :
    (LineGroup.mk first others s.finish).Faithful number := by
  cases s with
  | idle => exact took.elim
  | joining loc text parens =>
    obtain ⟨rfl, same⟩ := took
    exact faithful_ofLine same
  | absorbing c => exact faithful_piece took.1 took.2

end Taking

/-- Groups that are faithful one after the other, with `number` that of the first line. -/
def FaithfulFrom : Nat → List LineGroup → Prop
  | _, [] => True
  | number, g :: groups => g.Faithful number ∧ FaithfulFrom (number + g.lines.length) groups

/-- Groups of consecutive lines with the statements that are cut out of them. -/
structure Grouped (number : Nat) (ls : List (List Char)) (pieces : List Piece)
    (groups : List LineGroup) : Prop where
  lines_eq : groups.flatMap LineGroup.lines = ls
  pieces_eq : groups.flatMap LineGroup.pieces = pieces
  faithful : FaithfulFrom number groups

theorem Grouped.cons {number : Nat} {g : LineGroup} {ls : List (List Char)} {pieces : List Piece}
    {groups : List LineGroup} (grouped : Grouped (number + g.lines.length) ls pieces groups)
    (faithful : g.Faithful number) :
    Grouped number (g.lines ++ ls) (g.pieces ++ pieces) (g :: groups) where
  lines_eq := by rw [List.flatMap_cons, grouped.lines_eq]
  pieces_eq := by rw [List.flatMap_cons, grouped.pieces_eq]
  faithful := ⟨faithful, grouped.faithful⟩

-- By induction on the lines to come, whether a group is open in front of them or not.
theorem grouped_cutLines (ls : List (List Char)) :
    (∀ number, ∃ groups, Grouped number ls (cutLines .idle number ls) groups) ∧
    ∀ (s : CutState) (number : Nat) (first : List Char) (others : List (List Char)),
      s.Took number first others →
      ∃ groups, Grouped number (first :: others ++ ls)
        (cutLines s (number + (first :: others).length) ls) groups := by
  induction ls with
  | nil =>
    refine ⟨fun number => ⟨[], rfl, rfl, trivial⟩, fun s number first others took => ?_⟩
    have last : Grouped (number + (LineGroup.mk first others s.finish).lines.length) [] [] [] :=
      ⟨rfl, rfl, trivial⟩
    exact ⟨_, by simpa [LineGroup.lines, cutLines] using last.cons took.faithful_finish⟩
  | cons raw ls ih =>
    have taken (number : Nat) (first : List Char) (others : List (List Char))
        (result : List Piece × CutState) (advances : Advances number first others result) :
        ∃ groups, Grouped number (first :: others ++ ls)
          (result.1 ++ cutLines result.2 (number + (first :: others).length) ls) groups := by
      obtain ⟨pieces, s⟩ := result
      obtain ⟨none, took⟩ | ⟨idle, faithful⟩ := advances
      · obtain rfl : pieces = [] := none
        exact ih.2 s number first others took
      · obtain rfl : s = .idle := idle
        obtain ⟨groups, grouped⟩ := ih.1 (number + (first :: others).length)
        exact ⟨_, grouped.cons faithful⟩
    constructor
    · intro number
      exact taken number raw [] _ (advances_startLine number raw ls)
    · intro s number first others took
      obtain ⟨groups, grouped⟩ := taken number first (others ++ [raw]) _
        (took.next (number + (first :: others).length) raw ls)
      refine ⟨groups, ?_⟩
      simpa [cutLines, Nat.add_assoc] using grouped

theorem FaithfulFrom.cut {number : Nat} {before after : List LineGroup} {g : LineGroup}
    (faithful : FaithfulFrom number (before ++ g :: after)) :
    g.Faithful (number + (before.flatMap LineGroup.lines).length) := by
  induction before generalizing number with
  | nil => exact faithful.1
  | cons b before ih =>
    have later := ih faithful.2
    simpa [Nat.add_assoc] using later

theorem FaithfulFrom.essence_eq {number : Nat} {groups : List LineGroup}
    (faithful : FaithfulFrom number groups) :
    essence (Piece.texts (groups.flatMap LineGroup.pieces)) =
      essence (groups.flatMap LineGroup.lines).flatten := by
  induction groups generalizing number with
  | nil => rfl
  | cons g groups ih => simp [faithful.1.essence, ih faithful.2]

theorem exists_grouped (number : Nat) (text : List Char) :
    ∃ groups, Grouped number (lines text) (cutBlock number text) groups :=
  (grouped_cutLines (lines text)).1 number

theorem essence_cutBlock (number : Nat) (text : List Char) :
    essence (Piece.texts (cutBlock number text)) = essence text := by
  obtain ⟨groups, grouped⟩ := exists_grouped number text
  have ends : essence (lines text).flatten = essence text := essence_linesFrom [] text
  have whole := grouped.faithful.essence_eq
  rwa [grouped.pieces_eq, grouped.lines_eq, ends] at whole

/-- The lines of a block fall into groups, one after the other, whose statements are those of the block
in their order. Each statement of a group stands on the first line of it, behind the blanks there, and
together they have the code of the group, blanks, braces and semicolons aside; so that the statements
of a block have all of its code. -/
theorem cutting_loses_nothing (number : Nat) (text : List Char) :
    (∃ groups : List LineGroup, groups.flatMap LineGroup.lines = lines text ∧
      groups.flatMap LineGroup.pieces = cutBlock number text ∧
      ∀ before g after, groups = before ++ g :: after →
        g.Faithful (number + (before.flatMap LineGroup.lines).length)) ∧
    essence (Piece.texts (cutBlock number text)) = essence text := by
  obtain ⟨groups, grouped⟩ := exists_grouped number text
  have each (before : List LineGroup) (g : LineGroup) (after : List LineGroup)
      (cut : groups = before ++ g :: after) :
      g.Faithful (number + (before.flatMap LineGroup.lines).length) :=
    FaithfulFrom.cut (cut ▸ grouped.faithful)
  exact ⟨⟨groups, grouped.lines_eq, grouped.pieces_eq, each⟩, essence_cutBlock number text⟩

end Breadboard
