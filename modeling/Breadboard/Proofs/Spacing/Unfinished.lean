import Breadboard.Proofs.Spacing.Cutting

set_option autoImplicit false

/-!
Texts that end within a statement. Main statement: if the blocks that are open at the end of a text end within
statements, so do those that are open at the end of the statement that is being taken in there.
-/
namespace Breadboard

open Text
open Canonical (Starts Ends Tight within?)

variable {q : Quote} {depth : Nat} {a b f g g' l m m' r r' t t' u w x y z z' : List Char} {c : Char}

section Closing

theorem close_of_closed {bracket : Bracket} (code : q.after a = .code)
    (even : (depth : Int) + bracket.balance q a = 0)
    (low : ∀ front, front <+: a → 0 ≤ (depth : Int) + bracket.balance q front) (b : List Char) :
    bracket.close q depth (a ++ bracket.closer :: b) = some (a, b) := by
  rw [close_append bracket low, code, even]
  change within? a (bracket.close .code 0 (bracket.closer :: b)) = _
  rw [Canonical.close_closer_zero, within?]
  simp

theorem close_front {bracket : Bracket} (open_ : bracket.close q depth (a ++ b) = none) :
    bracket.close q depth a = none := by
  cases found : bracket.close q depth a with
  | none => rfl
  | some p =>
    obtain ⟨inside, rest⟩ := p
    obtain ⟨code, even, low⟩ := closed_of_close found
    rw [Bracket.close_eq found, List.append_assoc, List.cons_append, close_of_closed code even low] at open_
    cases open_

theorem close_behind {bracket : Bracket} (blank : ∀ c ∈ g, isBlank c = true)
    (open_ : bracket.close q depth a = none) : bracket.close q depth (a ++ g) = none := by
  have solid : isBlank bracket.closer = false := by cases bracket <;> decide
  cases found : bracket.close q depth (a ++ g) with
  | none => rfl
  | some p =>
    obtain ⟨inside, rest⟩ := p
    obtain ⟨code, even, low⟩ := closed_of_close found
    obtain ⟨rest', -, text⟩ := before_blank blank solid (Bracket.close_eq found)
    rw [text, close_of_closed code even low] at open_
    cases open_

theorem close_trim (bracket : Bracket) (a : List Char) :
    bracket.close .code 0 (trim a) = none ↔ bracket.close .code 0 a = none := by
  obtain ⟨left, right, text, blank, blank'⟩ := exists_blanks a
  have whole : bracket.close .code 0 a = within? left (bracket.close .code 0 (trim a ++ right)) := by
    conv_lhs => rw [text]
    have level : ∀ front, front <+: left → 0 ≤ ((0 : Nat) : Int) + bracket.balance .code front :=
      fun front inside => by
        have low := (Closed.blanks blank).nonneg bracket front inside
        omega
    rw [close_append bracket level, (Closed.blanks blank).after_eq, (Closed.blanks blank).balance_eq]
    rfl
  rw [whole, within?, Option.map_eq_none_iff]
  exact ⟨close_behind blank', close_front⟩

theorem Aligned.close_eq_none_iff (aligned : Aligned a b) :
    Bracket.curly.close .code 0 a = none ↔ Bracket.curly.close .code 0 b = none := by
  rw [← close_trim, ← close_trim _ b]
  have found := aligned.same.close .curly 0
  generalize Bracket.curly.close .code 0 (Text.trim a) = p at found
  generalize Bracket.curly.close .code 0 (Text.trim b) = p' at found
  cases found <;> simp

end Closing

/-- Whether nothing is being taken in. -/
def CutState.isIdle : CutState → Bool
  | idle => true
  | _ => false

/-- Whether the cutting of a block is within a statement at the end of a text. -/
def goesOn (cs : List Char) : Bool := !(CutState.idle.run [] 0 (lines cs)).2.isIdle

theorem CutState.eq_idle_of_isIdle {s : CutState} (idle_ : s.isIdle = true) : s = idle := by
  cases s with
  | idle => rfl
  | joining loc text parens => cases idle_
  | absorbing c => cases idle_

theorem run_of_ended (ended : goesOn a = false) : (CutState.idle.run [] 0 (lines a)).2 = .idle := by
  rw [goesOn, Bool.not_eq_false'] at ended
  exact CutState.eq_idle_of_isIdle ended

/-- What stands in the blocks that are open at the end of a text. -/
def openBlocks : Quote → List Char → List (List Char)
  | _, [] => []
  | q, c :: cs =>
    if q.isCode c ∧ c = '\x7b' ∧ Bracket.curly.close .code 0 cs = none then cs :: openBlocks (q.next c) cs
    else openBlocks (q.next c) cs

/-- Whether nothing stands in a block yet, or the cutting of it is within a statement. -/
def midway (cs : List Char) : Bool := isBlankText cs || goesOn cs

/-- Whether a text ends within a statement, and so does each block that is open at its end. -/
def Unfinished (cs : List Char) : Prop := ∀ u ∈ cs :: openBlocks .code cs, midway u = true

instance : DecidablePred Unfinished := fun cs =>
  inferInstanceAs (Decidable (∀ u ∈ cs :: openBlocks .code cs, midway u = true))

/-- Whether each block that is open at the end of a text ends within a statement. -/
def Inside (cs : List Char) : Prop := ∀ u ∈ openBlocks .code cs, midway u = true

section Blocks

theorem mem_openBlocks : u ∈ openBlocks q x ↔
    ∃ f, x = f ++ '\x7b' :: u ∧ q.after f = .code ∧ Bracket.curly.close .code 0 u = none := by
  induction x generalizing q with
  | nil => simp [openBlocks]
  | cons c x ih =>
    have later : u ∈ openBlocks (q.next c) x ↔ ∃ f, c :: x = (c :: f) ++ '\x7b' :: u ∧
        q.after (c :: f) = .code ∧ Bracket.curly.close .code 0 u = none := by
      rw [ih]
      simp
    have either : (∃ f, c :: x = f ++ '\x7b' :: u ∧ q.after f = .code ∧ Bracket.curly.close .code 0 u = none) ↔
        (c :: x = '\x7b' :: u ∧ q = .code ∧ Bracket.curly.close .code 0 u = none) ∨
          ∃ f, c :: x = (c :: f) ++ '\x7b' :: u ∧ q.after (c :: f) = .code ∧
            Bracket.curly.close .code 0 u = none := by
      constructor
      · rintro ⟨f, text, code, open_⟩
        cases f with
        | nil => exact .inl ⟨text, code, open_⟩
        | cons d f =>
          obtain ⟨rfl, -⟩ := List.cons.inj text
          exact .inr ⟨f, text, code, open_⟩
      · rintro (⟨text, code, open_⟩ | ⟨f, text, code, open_⟩)
        · exact ⟨[], text, code, open_⟩
        · exact ⟨_, text, code, open_⟩
    rw [either, ← later, openBlocks]
    by_cases opens : q.isCode c ∧ c = '\x7b' ∧ Bracket.curly.close .code 0 x = none
    · obtain ⟨code, rfl, open_⟩ := opens
      obtain ⟨rfl, -⟩ := code_of_isCode code
      rw [if_pos ⟨code, rfl, open_⟩, List.mem_cons]
      refine or_congr_left ⟨?_, fun ⟨text, _⟩ => (List.cons.inj text).2.symm⟩
      rintro rfl
      exact ⟨rfl, rfl, open_⟩
    · rw [if_neg opens]
      refine ⟨.inr, fun found => found.resolve_left ?_⟩
      rintro ⟨text, rfl, open_⟩
      obtain ⟨rfl, rfl⟩ := List.cons.inj text
      exact opens ⟨by decide, rfl, open_⟩

theorem Aligned.isIdle_run_eq (aligned : Aligned a b) (number number' : Nat) :
    (CutState.idle.run [] number (Text.lines a)).2.isIdle = (CutState.idle.run [] number' (Text.lines b)).2.isIdle := by
  have state := (abreast_run carries_aligned .idle aligned.lines .nil (not_mem_lines a) (not_mem_lines b)
    number number').2
  generalize (CutState.idle.run [] number (Text.lines a)).2 = s at state
  generalize (CutState.idle.run [] number' (Text.lines b)).2 = s' at state
  cases state <;> rfl

theorem Aligned.goesOn_eq (aligned : Aligned a b) : goesOn a = goesOn b := by
  rw [goesOn, goesOn, aligned.isIdle_run_eq 0 0]

theorem Aligned.midway_eq (aligned : Aligned a b) : midway a = midway b := by
  rw [midway, midway, aligned.isBlankText_eq, aligned.goesOn_eq]

/-- The blocks that are open at the end of two such texts are such texts. -/
theorem Aligned.openBlocks (aligned : Aligned a b) (member : u ∈ openBlocks .code b) :
    ∃ u' ∈ Breadboard.openBlocks .code a, Aligned u' u := by
  obtain ⟨f', text, code, open_⟩ := mem_openBlocks.1 member
  have solid : isBlank '\x7b' = false := by decide
  obtain ⟨left, right, whole, blank, blank'⟩ := exists_blanks b
  obtain ⟨left', right', whole', blank₂, blank₂'⟩ := exists_blanks a
  obtain ⟨f, rfl, inner⟩ := behind_blank blank solid (whole.symm.trans text)
  obtain ⟨u₀, rfl, trimmed⟩ := before_blank blank' solid inner
  rw [Quote.after_append, (Closed.blanks blank).after_eq] at code
  have same := aligned.same.symm
  rw [trimmed] at same
  obtain ⟨f₁, u₁, trimmed', front, behind⟩ := same.split solid
  rw [code] at behind
  have text' : a = (left' ++ f₁) ++ '\x7b' :: (u₁ ++ right') := by
    conv_lhs => rw [whole', trimmed']
    simp
  have code' : Quote.code.after (left' ++ f₁) = .code := by
    rw [Quote.after_append, (Closed.blanks blank₂).after_eq, ← front.after_eq, code]
  have shape (f u : List Char) : f ++ '\x7b' :: u = (f ++ ['\x7b']) ++ (u ++ []) := by simp
  have part : Aligned (u₁ ++ right') (u₀ ++ right) := by
    have both := aligned
    rw [text, text', shape (left' ++ f₁), shape (left ++ f)] at both
    refine both.part ?_ ?_ ?_ ?_
    · simp only [solids_append, front.solids_eq, solids_eq_nil_iff.2 blank, solids_eq_nil_iff.2 blank₂]
    · rw [Quote.after_append, code']
      rfl
    · rw [trim_behind blank₂', trim_behind blank']
      exact Spaced.trim behind.symm
    · have closed := aligned.after_eq
      rw [text', Quote.after_append, code'] at closed
      exact closed
  exact ⟨_, mem_openBlocks.2 ⟨_, text', code', part.close_eq_none_iff.2 open_⟩, part⟩

theorem Inside.of_aligned (inside : Inside a) (aligned : Aligned a b) : Inside b := by
  intro u member
  obtain ⟨u', member', same⟩ := aligned.openBlocks member
  rw [← same.midway_eq]
  exact inside u' member'

theorem Inside.behind (inside : Inside (f ++ x)) (code : Quote.code.after f = .code) : Inside x := by
  intro u member
  obtain ⟨front, rfl, code', open_⟩ := mem_openBlocks.1 member
  exact inside u (mem_openBlocks.2 ⟨f ++ front, by simp, by simp [code, code'], open_⟩)

theorem Unfinished.of_aligned (unfinished : Unfinished a) (aligned : Aligned a b) : Unfinished b := by
  obtain ⟨first, others⟩ := List.forall_mem_cons.1 unfinished
  refine List.forall_mem_cons.2 ⟨by rwa [← aligned.midway_eq], ?_⟩
  exact Inside.of_aligned others aligned

end Blocks

section Lines

variable {ls rest context : List (List Char)} {raw : List Char} {s : CutState}

theorem placed_dropReturn (seen : List Char) : placed (dropReturn seen).reverse = placed seen.reverse := by
  obtain ⟨g, text, blank⟩ := exists_dropReturn seen
  rw [text, placed_behind blank]

theorem placed_append_trail (a : List Char) (ls : List (List Char)) :
    placed (a ++ trail ls) = placed a ++ placed (trail ls) := by
  cases ls with
  | nil => simp [placed, placedFrom]
  | cons l ls =>
    have start := placed_front (g := ['\n']) (by decide) (l ++ trail ls)
    rw [trail_cons, placed_newline]
    exact congrArg _ start.symm

theorem placed_trail_linesFrom (seen cs : List Char) :
    placed (trail (linesFrom seen cs)) = placed (seen.reverse ++ cs) := by
  have front (a : List Char) : placed ('\n' :: a) = placed a := placed_front (g := ['\n']) (by decide) a
  induction cs generalizing seen with
  | nil =>
    rw [linesFrom]
    split
    · rename_i none
      rw [List.isEmpty_iff] at none
      rw [none]
      rfl
    · rw [trail_cons, front]
      rfl
  | cons c cs ih =>
    rw [linesFrom]
    split
    · rename_i newline
      rw [trail_cons, front, placed_append_trail, ih, placed_dropReturn, newline, placed_newline]
      rfl
    · rw [ih]
      simp

-- A text and its lines one behind the other.
theorem aligned_trail_lines (closed : linesClosed .code x = true) : Aligned x (trail (lines x)) where
  same := by
    have newline : ∀ c ∈ ['\n'], isBlank c = true := by decide
    have same := (spaced_linesFrom [] closed).trim
    rw [trim_behind newline] at same
    change Spaced .code (trim (['\n'] ++ (x ++ ['\n']))) (trim (trail (lines x))) at same
    rwa [trim_front newline, trim_behind newline] at same
  breaks := (placed_trail_linesFrom [] x).symm
  closed := closed

-- Blanks at the end of a line make no difference.
theorem aligned_drop_blank (closed : linesClosed .code (a ++ (g ++ trail ls)) = true)
    (blank : ∀ c ∈ g, isBlank c = true) : Aligned (a ++ (g ++ trail ls)) (a ++ trail ls) := by
  cases ls with
  | nil =>
    rw [trail_nil, List.append_nil] at closed ⊢
    rw [List.append_nil]
    have code := code_of_after_blank blank (after_of_linesClosed closed)
    rw [linesClosed_append code, Bool.and_eq_true] at closed
    exact (Aligned.refl closed.1).behind blank
  | cons l ls =>
    have code : Quote.code.after a = .code := by
      refine code_of_after_blank blank (after_of_newline (b := l ++ trail ls) ?_)
      simpa using closed
    refine ⟨?_, ?_, closed⟩
    · refine Spaced.trim ((Spaced.refl .code a).append ?_)
      rw [code, trail_cons]
      exact Spaced.widen (.refl .code _) (by decide) blank
    · rw [← List.append_assoc, placed_append_trail, placed_append_trail, placed_behind blank]

/-- The text of the compound statement that is being taken in. -/
def CutState.compound : CutState → List Char
  | absorbing c => c.piece.text
  | _ => []

/-- Whether the compound statement that is being taken in and the lines to come end within statements, as far
as blocks are open at their end. -/
structure CutState.Within (s : CutState) (ls : List (List Char)) : Prop where
  inside : Inside (s.compound ++ trail ls)
  closed : linesClosed .code (s.compound ++ trail ls) = true
  some_ (c : Compound) (absorbs : s = .absorbing c) : c.lines ≠ []

namespace CutState.Within

theorem of_trail (inside : Inside (a ++ trail ls)) (closed : linesClosed .code (a ++ trail ls) = true) :
    Inside (trail ls) ∧ linesClosed .code (trail ls) = true := by
  have code : Quote.code.after a = .code := by
    cases ls with
    | nil =>
      rw [trail_nil, List.append_nil] at closed
      exact after_of_linesClosed closed
    | cons l ls =>
      rw [trail_cons] at closed
      exact after_of_newline closed
  rw [linesClosed_append code, Bool.and_eq_true] at closed
  exact ⟨inside.behind code, closed.2⟩

theorem idle_of (inside : Inside (a ++ trail ls)) (closed : linesClosed .code (a ++ trail ls) = true) :
    CutState.idle.Within ls := ⟨(of_trail inside closed).1, (of_trail inside closed).2, by simp⟩

theorem join (loc : Location) (text : List Char) (parens : Int) (inside : Inside (a ++ trail rest))
    (closed : linesClosed .code (a ++ trail rest) = true) : (CutState.join loc text parens).2.Within rest := by
  unfold CutState.join
  split
  · exact ⟨(of_trail inside closed).1, (of_trail inside closed).2, by simp⟩
  · exact idle_of inside closed

theorem absorb {c : Compound} {line : List Char} (context : List (List Char))
    (inside : Inside ((c.add line).piece.text ++ trail rest))
    (closed : linesClosed .code ((c.add line).piece.text ++ trail rest) = true) :
    (CutState.absorb c line context).2.Within rest := by
  have added (d : Compound) (lines : d.lines = (c.add line).lines) : (CutState.absorbing d).Within rest := by
    have text : d.piece.text = (c.add line).piece.text := by rw [Compound.piece, Compound.piece, lines]
    refine ⟨by rwa [CutState.compound, text], by rwa [CutState.compound, text], fun e absorbs => ?_⟩
    cases absorbs
    rw [lines]
    exact List.cons_ne_nil _ _
  unfold CutState.absorb
  dsimp only
  split
  · split
    · exact added _ rfl
    · exact idle_of inside closed
  · exact added _ rfl

-- One line.
theorem next (within : s.Within (raw :: rest)) (number : Nat) (context : List (List Char)) :
    (s.next number raw context).2.Within rest := by
  obtain ⟨inside, closed, some_⟩ := within
  cases s with
  | joining loc text parens =>
    exact join loc _ _ (a := '\n' :: raw) (by simpa [CutState.compound] using inside)
      (by simpa [CutState.compound] using closed)
  | absorbing c =>
    have text : (c.add raw).piece.text ++ trail rest = c.piece.text ++ trail (raw :: rest) := by
      rw [c.piece_add (some_ c rfl)]
      simp
    refine absorb context ?_ ?_
    · rwa [text]
    · rwa [text]
  | idle =>
    obtain ⟨before, behind, text, left, right⟩ := exists_bareLine raw
    have start : Quote.code.after ('\n' :: before) = .code := after_of_unmarked (List.forall_mem_cons.2 ⟨rfl,
      fun c member => by
        obtain blank | rfl := left c member
        · exact (plain_of_isBlank blank).1
        · rfl⟩)
    have shape : trail (raw :: rest) = ('\n' :: before) ++ (bareLine raw ++ (behind ++ trail rest)) := by
      rw [trail_cons]
      conv_lhs => rw [text]
      simp
    change Inside (trail (raw :: rest)) at inside
    change linesClosed .code (trail (raw :: rest)) = true at closed
    rw [shape] at inside closed
    rw [linesClosed_append start, Bool.and_eq_true] at closed
    have same := aligned_drop_blank closed.2 right
    have inside := (inside.behind start).of_aligned same
    have closed := same.symm.closed
    rw [CutState.next, startLine_bareLine]
    split
    · exact idle_of inside closed
    · split
      · refine absorb context ?_ ?_
        · rwa [piece_first _ rfl]
        · rwa [piece_first _ rfl]
      · exact join _ _ _ inside closed

-- The lines in front of the break.
theorem run {ms : List (List Char)} (within : s.Within (ls ++ ms)) (number : Nat) (context : List (List Char)) :
    (s.run context number ls).2.Within ms := by
  induction ls generalizing s number with
  | nil => exact within
  | cons raw ls ih => exact ih (within.next number (ls ++ context)) (number + 1)

end CutState.Within

end Lines

end Breadboard
