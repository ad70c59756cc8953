import Breadboard.Proofs.Numbering.Cutting
import Breadboard.Proofs.Spacing.Statements

set_option autoImplicit false

/-!
Texts with the same code that break in the same gaps. Main statements: what stands in the same place of two
of them is such a pair again, and their lines are the same but for lines without text and for how the lines
are spaced.
-/
namespace Breadboard

open Text
open Canonical (Starts Ends Tight)

variable {q : Quote} {a a' b b' f f' g g' l l' r r' t t' x y : List Char} {c : Char} {fresh fresh' : Bool}

section Trimming

theorem trim_front (blank : ∀ c ∈ g, isBlank c = true) (a : List Char) : trim (g ++ a) = trim a := by
  rw [trim, trimStart, List.dropWhile_append_of_pos blank]
  rfl

theorem trim_behind (blank : ∀ c ∈ g, isBlank c = true) (a : List Char) : trim (a ++ g) = trim a := by
  rw [trim, trimStart, List.dropWhile_append]
  split
  · rename_i none
    rw [List.isEmpty_iff] at none
    have skipped : g.dropWhile isBlank = [] := List.dropWhile_eq_nil_iff.2 blank
    rw [skipped, trim, trimStart, none]
  · rw [Spaced.trimEnd_append, trimEnd_blank blank, if_pos rfl]
    rfl

theorem trim_eq_nil_iff : trim a = [] ↔ ∀ c ∈ a, isBlank c = true := by
  constructor
  · intro none
    obtain ⟨left, right, text, blank, blank'⟩ := exists_blanks a
    rw [text, none, List.nil_append, List.forall_mem_append]
    exact ⟨blank, blank'⟩
  · intro blank
    have behind := trim_behind blank []
    rwa [List.nil_append] at behind

theorem solids_trim (a : List Char) : solids (trim a) = solids a := by
  obtain ⟨left, right, text, blank, blank'⟩ := exists_blanks a
  conv_rhs => rw [text]
  rw [solids_append, solids_append, solids_eq_nil_iff.2 blank, solids_eq_nil_iff.2 blank', List.nil_append,
    List.append_nil]

theorem after_trim (code : Quote.code.after a = .code) : Quote.code.after (trim a) = .code := by
  obtain ⟨left, right, text, blank, blank'⟩ := exists_blanks a
  rw [text, Quote.after_append, (Closed.blanks blank).after_eq] at code
  exact code_of_after_blank blank' code

theorem linesClosed_trim (a : List Char) : linesClosed .code (trim a) = linesClosed .code a := by
  obtain ⟨left, right, text, blank, blank'⟩ := exists_blanks a
  have whole : linesClosed .code a = linesClosed .code (trim a ++ right) := by
    conv_lhs => rw [text]
    rw [linesClosed_append (Closed.blanks blank).after_eq, linesClosed_blank blank, Bool.true_and]
  rw [whole, Bool.eq_iff_iff]
  constructor
  · intro closed
    rw [linesClosed_append (after_of_linesClosed closed), closed, linesClosed_blank blank']
    rfl
  · intro closed
    have code := code_of_after_blank blank' (after_of_linesClosed closed)
    rw [linesClosed_append code, Bool.and_eq_true] at closed
    exact closed.1

-- Two texts one behind the other, with a gap between them.
theorem spaced_joined (front : Spaced .code (trim a) (trim a')) (code : Quote.code.after (trim a) = .code)
    (behind : Spaced .code (trim b) (trim b')) (gap : Space g) (gap' : Space g') :
    Spaced .code (trim (a ++ (g ++ b))) (trim (a' ++ (g' ++ b'))) := by
  by_cases none : trim a = []
  · have skip {a g : List Char} (none : trim a = []) (gap : Space g) (b : List Char) :
        trim (a ++ (g ++ b)) = trim b := by
      rw [trim_front (trim_eq_nil_iff.1 none), trim_front gap.blank]
    rwa [skip none gap, skip (front.eq_nil_iff.1 none) gap']
  by_cases last : trim b = []
  · have skip {b g : List Char} (last : trim b = []) (gap : Space g) (a : List Char) :
        trim (a ++ (g ++ b)) = trim a := by
      rw [trim_behind (List.forall_mem_append.2 ⟨gap.blank, trim_eq_nil_iff.1 last⟩)]
    rwa [skip last gap, skip (behind.eq_nil_iff.1 last) gap']
  have between {a b g : List Char} (some_ : trim a ≠ []) (some_' : trim b ≠ []) (gap : Space g) :
      ∃ wide, Space wide ∧ trim (a ++ (g ++ b)) = trim a ++ (wide ++ trim b) := by
    obtain ⟨a₁, a₂, left, blank₁, blank₂⟩ := exists_blanks a
    obtain ⟨b₁, b₂, right, blank₃, blank₄⟩ := exists_blanks b
    have wide : Space (a₂ ++ (g ++ b₁)) := ⟨by simp [gap.some_], by
      simp only [List.forall_mem_append]
      exact ⟨blank₂, gap.blank, blank₃⟩⟩
    refine ⟨_, wide, ?_⟩
    have tight : Tight (trim a ++ ((a₂ ++ (g ++ b₁)) ++ trim b)) :=
      ⟨(tight_trim some_).starts.append _, ((tight_trim some_').ends.append _).append _⟩
    have text : a ++ (g ++ b) = a₁ ++ ((trim a ++ ((a₂ ++ (g ++ b₁)) ++ trim b)) ++ b₂) := by
      conv_lhs => rw [left, right]
      simp only [List.append_assoc]
    rw [text, tight.trim_between blank₁ blank₄]
  obtain ⟨wide, space, text⟩ := between none last gap
  obtain ⟨wide', space', text'⟩ := between (fun none' => none (front.eq_nil_iff.2 none'))
    (fun last' => last (behind.eq_nil_iff.2 last')) gap'
  rw [text, text']
  exact front.append (by rw [code]; exact .gap space space' behind)

end Trimming

section Placing

/-- The characters of a text that are not blank, each with whether a line breaks in the gap in front of it;
`fresh` tells whether one has just been broken. -/
def placedFrom : Bool → List Char → List (Char × Bool)
  | _, [] => []
  | fresh, c :: cs =>
    if isBlank c then placedFrom (fresh || c == '\n') cs else (c, fresh) :: placedFrom false cs

/-- A text starts on a line of its own. -/
def placed (cs : List Char) : List (Char × Bool) := placedFrom true cs

/-- Whether a line is broken behind the last character of a text that is not blank. -/
def freshAfter (fresh : Bool) (cs : List Char) : Bool :=
  cs.foldl (fun fresh c => if isBlank c then fresh || c == '\n' else false) fresh

theorem placedFrom_append (fresh : Bool) (a b : List Char) :
    placedFrom fresh (a ++ b) = placedFrom fresh a ++ placedFrom (freshAfter fresh a) b := by
  induction a generalizing fresh with
  | nil => rfl
  | cons c a ih =>
    simp only [List.cons_append, placedFrom, freshAfter, List.foldl_cons, ih]
    split <;> rfl

theorem fst_placedFrom (fresh : Bool) (a : List Char) : (placedFrom fresh a).map Prod.fst = solids a := by
  induction a generalizing fresh with
  | nil => rfl
  | cons c a ih =>
    by_cases blank : isBlank c = true
    · rw [placedFrom, if_pos blank, ih, solids, solids, List.filter_cons_of_neg (by simp [blank])]
    · rw [placedFrom, if_neg blank, List.map_cons, ih, solids_cons (by simpa using blank)]

theorem length_placedFrom (fresh : Bool) (a : List Char) : (placedFrom fresh a).length = (solids a).length := by
  rw [← fst_placedFrom fresh, List.length_map]

theorem placedFrom_blank (blank : ∀ c ∈ g, isBlank c = true) (fresh : Bool) : placedFrom fresh g = [] := by
  rw [← List.length_eq_zero_iff, length_placedFrom, solids_eq_nil_iff.2 blank]
  rfl

theorem freshAfter_blank (blank : ∀ c ∈ g, isBlank c = true) (fresh : Bool) :
    freshAfter fresh g = (fresh || g.contains '\n') := by
  induction g generalizing fresh with
  | nil => simp [freshAfter]
  | cons c g ih =>
    rw [List.forall_mem_cons] at blank
    have rest := ih blank.2 (fresh || c == '\n')
    simp only [freshAfter, List.foldl_cons, blank.1, if_true] at rest ⊢
    rw [rest, List.contains_cons, Bool.or_assoc, BEq.comm]

/-- The first character of a text stands on a line of its own. -/
def leading : List (Char × Bool) → List (Char × Bool)
  | [] => []
  | p :: rest => (p.1, true) :: rest

theorem placed_eq_leading (fresh : Bool) (a : List Char) : placed a = leading (placedFrom fresh a) := by
  induction a generalizing fresh with
  | nil => rfl
  | cons c a ih =>
    by_cases blank : isBlank c = true
    · rw [placed, placedFrom, placedFrom, if_pos blank, if_pos blank, Bool.true_or]
      exact ih _
    · rw [placed, placedFrom, placedFrom, if_neg blank, if_neg blank]
      rfl

-- So where a text stands makes no difference to where its lines break.
theorem placed_eq_of (same : placedFrom fresh a = placedFrom fresh' b) : placed a = placed b := by
  rw [placed_eq_leading fresh, placed_eq_leading fresh', same]

theorem placedFrom_inLine (inLine : '\n' ∉ a) : placedFrom false a = (solids a).map fun c => (c, false) := by
  induction a with
  | nil => rfl
  | cons c a ih =>
    simp only [List.mem_cons, not_or] at inLine
    have other : (c == '\n') = false := by simpa using Ne.symm inLine.1
    by_cases blank : isBlank c = true
    · rw [placedFrom, if_pos blank, other, Bool.or_self, ih inLine.2, solids, solids,
        List.filter_cons_of_neg (by simp [blank])]
    · rw [placedFrom, if_neg blank, ih inLine.2, solids_cons (by simpa using blank), List.map_cons]

theorem placed_inLine (same : solids a = solids b) (inLine : '\n' ∉ a) (inLine' : '\n' ∉ b) :
    placed a = placed b :=
  placed_eq_of (show placedFrom false a = placedFrom false b by
    rw [placedFrom_inLine inLine, placedFrom_inLine inLine', same])

theorem placed_newline (a b : List Char) : placed (a ++ '\n' :: b) = placed a ++ placed b := by
  have newline : isBlank '\n' = true := by decide
  rw [placed, placedFrom_append, placedFrom, if_pos newline]
  simp [placed]

theorem placed_behind (blank : ∀ c ∈ g, isBlank c = true) (a : List Char) : placed (a ++ g) = placed a := by
  rw [placed, placedFrom_append, placedFrom_blank blank, List.append_nil]
  rfl

theorem placed_front (blank : ∀ c ∈ g, isBlank c = true) (a : List Char) : placed (g ++ a) = placed a := by
  rw [placed, placedFrom_append, placedFrom_blank blank, freshAfter_blank blank]
  rfl

theorem placed_trim (a : List Char) : placed (trim a) = placed a := by
  obtain ⟨left, right, text, blank, blank'⟩ := exists_blanks a
  conv_rhs => rw [text]
  rw [placed_front blank, placed_behind blank']

-- The place of a character is found by what stands in front of it.
theorem placed_part (same : placed (f ++ (t ++ r)) = placed (f' ++ (t' ++ r'))) (front : solids f = solids f')
    (part : solids t = solids t') : placed t = placed t' := by
  have length {a b : List Char} (same : solids a = solids b) (fresh fresh' : Bool) :
      (placedFrom fresh a).length = (placedFrom fresh' b).length := by
    rw [length_placedFrom, length_placedFrom, same]
  simp only [placed, placedFrom_append] at same
  obtain ⟨-, behind⟩ := List.append_inj same (length front _ _)
  exact placed_eq_of (List.append_inj behind (length part _ _)).1

end Placing

/-- Texts with the same code but for the blanks around it, whose lines break in the same gaps. -/
structure Aligned (a b : List Char) : Prop where
  same : Spaced .code (trim a) (trim b)
  breaks : placed a = placed b
  closed : linesClosed .code a = true

namespace Aligned

theorem refl (closed : linesClosed .code a = true) : Aligned a a := ⟨.refl _ _, rfl, closed⟩

theorem symm (aligned : Aligned a b) : Aligned b a where
  same := aligned.same.symm
  breaks := aligned.breaks.symm
  closed := by rw [← linesClosed_trim, ← aligned.same.linesClosed_eq, linesClosed_trim, aligned.closed]

theorem after_eq (aligned : Aligned a b) : Quote.code.after a = .code := after_of_linesClosed aligned.closed

theorem trim_eq_nil_iff (aligned : Aligned a b) : Text.trim a = [] ↔ Text.trim b = [] := aligned.same.eq_nil_iff

theorem trim (aligned : Aligned a b) : Aligned (trim a) (trim b) where
  same := by rw [trim_trim, trim_trim]; exact aligned.same
  breaks := by rw [placed_trim, placed_trim, aligned.breaks]
  closed := by rw [linesClosed_trim, aligned.closed]

-- On one line there is no break.
theorem inLine (same : Spaced .code (Text.trim a) (Text.trim b)) (closed : linesClosed .code a = true)
    (inLine : '\n' ∉ a) (inLine' : '\n' ∉ b) : Aligned a b where
  same := same
  breaks := by
    have solid := same.solids_eq
    rw [solids_trim, solids_trim] at solid
    exact placed_inLine solid inLine inLine'
  closed := closed

theorem behind (aligned : Aligned a b) (blank : ∀ c ∈ g, isBlank c = true) : Aligned (a ++ g) b where
  same := by rw [trim_behind blank]; exact aligned.same
  breaks := by rw [placed_behind blank, aligned.breaks]
  closed := by rw [linesClosed_append aligned.after_eq, aligned.closed, linesClosed_blank blank]; rfl

-- Lines one behind the other.
theorem newline (aligned : Aligned a b) (more : Aligned l l') : Aligned (a ++ '\n' :: l) (b ++ '\n' :: l') where
  same := by
    have gap : Space ['\n'] := .singleton (by decide)
    exact spaced_joined aligned.same (after_trim aligned.after_eq) more.same gap gap
  breaks := by rw [placed_newline, placed_newline, aligned.breaks, more.breaks]
  closed := by
    have end_ : linesClosed .code ('\n' :: l) = true := by
      rw [linesClosed]
      exact more.closed
    rw [linesClosed_append aligned.after_eq, aligned.closed, end_]
    rfl

/-- What stands in the same place of two such texts. -/
theorem part (aligned : Aligned (f ++ (t ++ r)) (f' ++ (t' ++ r'))) (front : solids f = solids f')
    (code : Quote.code.after f = .code) (same : Spaced .code (Text.trim t) (Text.trim t'))
    (code' : Quote.code.after t = .code) : Aligned t t' where
  same := same
  breaks := by
    have solid := same.solids_eq
    rw [solids_trim, solids_trim] at solid
    exact placed_part aligned.breaks front solid
  closed := by
    have closed := aligned.closed
    rw [linesClosed_append code, linesClosed_append code', Bool.and_eq_true, Bool.and_eq_true] at closed
    exact closed.2.1

end Aligned

section Lines

variable {ls ls' ms : List (List Char)} {seen seen' h h' w w' : List Char}

/-- Lines that are the same but for lines without text and for how they are spaced. -/
inductive LinesAlike : List (List Char) → List (List Char) → Prop
  | nil : LinesAlike [] []
  | cons {l l' : List Char} {ls ls' : List (List Char)} : Aligned l l' → LinesAlike ls ls' →
    LinesAlike (l :: ls) (l' :: ls')
  | left {l : List Char} {ls ls' : List (List Char)} : (∀ c ∈ l, isBlank c = true) → LinesAlike ls ls' →
    LinesAlike (l :: ls) ls'
  | right {l : List Char} {ls ls' : List (List Char)} : (∀ c ∈ l, isBlank c = true) → LinesAlike ls ls' →
    LinesAlike ls (l :: ls')

/-- Lines without text. -/
def Bare (ls : List (List Char)) : Prop := ∀ l ∈ ls, ∀ c ∈ l, isBlank c = true

namespace LinesAlike

theorem symm (alike : LinesAlike ls ls') : LinesAlike ls' ls := by
  induction alike with
  | nil => exact .nil
  | cons same _ ih => exact .cons same.symm ih
  | left blank _ ih => exact .right blank ih
  | right blank _ ih => exact .left blank ih

theorem refl (closed : ∀ l ∈ ls, linesClosed .code l = true) : LinesAlike ls ls := by
  induction ls with
  | nil => exact .nil
  | cons l ls ih =>
    rw [List.forall_mem_cons] at closed
    exact .cons (.refl closed.1) (ih closed.2)

theorem append {ms' : List (List Char)} (alike : LinesAlike ls ls') (more : LinesAlike ms ms') :
    LinesAlike (ls ++ ms) (ls' ++ ms') := by
  induction alike with
  | nil => exact more
  | cons same _ ih => exact .cons same ih
  | left blank _ ih => exact .left blank ih
  | right blank _ ih => exact .right blank ih

theorem bare_left (bare : Bare ms) (alike : LinesAlike ls ls') : LinesAlike (ms ++ ls) ls' := by
  induction ms with
  | nil => exact alike
  | cons l ms ih =>
    obtain ⟨first, others⟩ := List.forall_mem_cons.1 bare
    exact .left first (ih others)

theorem bare (bare : Bare ls) (bare' : Bare ls') : LinesAlike ls ls' := by
  have left := bare_left bare (bare_left bare' .nil).symm
  rwa [List.append_nil, List.append_nil] at left

end LinesAlike

theorem mem_of_mem_dropReturn (member : c ∈ dropReturn seen) : c ∈ seen := by
  unfold dropReturn at member
  split at member
  · exact List.mem_cons_of_mem _ member
  · exact member

theorem trim_dropReturn (seen : List Char) : trim (dropReturn seen).reverse = trim seen.reverse := by
  obtain ⟨g, text, blank⟩ := exists_dropReturn seen
  rw [text, trim_behind blank]

-- Blanks in front of a line: lines without text, and the line goes on.
theorem exists_linesFrom_blank (blank : ∀ c ∈ g, isBlank c = true) (blank' : ∀ c ∈ seen, isBlank c = true)
    (inLine : '\n' ∉ seen) (w : List Char) : ∃ ms seen', linesFrom seen (g ++ w) = ms ++ linesFrom seen' w ∧
      Bare ms ∧ (∀ c ∈ seen', isBlank c = true) ∧ '\n' ∉ seen' := by
  induction g generalizing seen with
  | nil => exact ⟨[], seen, rfl, by simp [Bare], blank', inLine⟩
  | cons c g ih =>
    rw [List.forall_mem_cons] at blank
    by_cases newline : c = '\n'
    · obtain ⟨ms, seen', eq, bare, rest⟩ := ih blank.2 (show ∀ c ∈ [], isBlank c = true by simp) (by simp)
      refine ⟨(dropReturn seen).reverse :: ms, seen', ?_, List.forall_mem_cons.2 ⟨?_, bare⟩, rest⟩
      · rw [List.cons_append, linesFrom, if_pos newline, eq]
        rfl
      · intro d member
        exact blank' d (mem_of_mem_dropReturn (List.mem_reverse.1 member))
    · rw [List.cons_append, linesFrom, if_neg newline]
      exact ih blank.2 (List.forall_mem_cons.2 ⟨blank.1, blank'⟩) (by simp [Ne.symm newline, inLine])

-- A gap in which a line breaks: the line ends, and what follows starts on a line without text so far.
theorem exists_linesFrom_break (blank : ∀ c ∈ g, isBlank c = true) (broken : '\n' ∈ g) (inLine : '\n' ∉ seen)
    (w : List Char) : ∃ l ms seen', linesFrom seen (g ++ w) = l :: (ms ++ linesFrom seen' w) ∧
      trim l = trim seen.reverse ∧ '\n' ∉ l ∧ Bare ms ∧ (∀ c ∈ seen', isBlank c = true) ∧ '\n' ∉ seen' := by
  induction g generalizing seen with
  | nil => cases broken
  | cons c g ih =>
    rw [List.forall_mem_cons] at blank
    by_cases newline : c = '\n'
    · obtain ⟨ms, seen', eq, rest⟩ := exists_linesFrom_blank blank.2 (show ∀ c ∈ [], isBlank c = true by simp)
        (by simp) w
      refine ⟨(dropReturn seen).reverse, ms, seen', ?_, trim_dropReturn seen, ?_, rest⟩
      · rw [List.cons_append, linesFrom, if_pos newline, eq]
      · intro member
        exact inLine (mem_of_mem_dropReturn (List.mem_reverse.1 member))
    · rw [List.cons_append, linesFrom, if_neg newline]
      have later := ih blank.2 (by simpa [Ne.symm newline] using broken)
        (show '\n' ∉ c :: seen by simp [Ne.symm newline, inLine])
      rwa [List.reverse_cons, trim_behind (by simpa using blank.1)] at later

theorem linesClosed_behind (closed : linesClosed q (a ++ b) = true) : linesClosed (q.after a) b = true := by
  induction a generalizing q with
  | nil => exact closed
  | cons c a ih =>
    rw [List.cons_append, linesClosed, Bool.and_eq_true] at closed
    exact ih closed.2

theorem linesClosed_front (closed : linesClosed q (x ++ '\n' :: y) = true) : linesClosed q x = true := by
  induction x generalizing q with
  | nil =>
    rw [List.nil_append, linesClosed, Bool.and_eq_true] at closed
    simpa [linesClosed] using closed.1
  | cons c x ih =>
    rw [List.cons_append, linesClosed, Bool.and_eq_true] at closed
    rw [linesClosed, closed.1, ih closed.2]
    rfl

theorem linesClosed_inLine (inLine : '\n' ∉ a) : linesClosed q a = (q.after a == .code) := by
  induction a generalizing q with
  | nil => rfl
  | cons c a ih =>
    simp only [List.mem_cons, not_or] at inLine
    rw [linesClosed, ih inLine.2]
    simp [Ne.symm inLine.1]

-- What goes on two lines that are the same so far but for the blanks in front.
theorem trimStart_joined (sofar : Spaced .code (trimStart a) (trimStart a'))
    (more : Spaced (Quote.code.after a) b b') :
    Spaced .code (trimStart (a ++ b)) (trimStart (a' ++ b')) := by
  have text (a b : List Char) : trimStart (a ++ b) =
      if trimStart a = [] then trimStart b else trimStart a ++ b := by
    rw [trimStart, List.dropWhile_append]
    simp only [List.isEmpty_iff]
    rfl
  have start : Quote.code.after (trimStart a) = Quote.code.after a := by
    conv_rhs => rw [← List.takeWhile_append_dropWhile (p := isBlank) (l := a)]
    rw [Quote.after_append, (Closed.blanks fun c member => List.mem_takeWhile_imp member).after_eq]
    rfl
  rw [text, text]
  by_cases none : trimStart a = []
  · rw [if_pos none, if_pos (sofar.eq_nil_iff.1 none)]
    rw [← start, none] at more
    exact more.trimStart
  · rw [if_neg none, if_neg fun none' => none (sofar.eq_nil_iff.2 none')]
    exact sofar.append (by rwa [start])

theorem trimStart_eq_nil_iff : trimStart a = [] ↔ ∀ c ∈ a, isBlank c = true := List.dropWhile_eq_nil_iff

/-- What two lines that have begun hold: the same text, but for its gaps and the blanks in front. -/
structure LinesBegun (q : Quote) (seen seen' : List Char) : Prop where
  start : Quote.code.after seen.reverse = q
  sofar : Spaced .code (trimStart seen.reverse) (trimStart seen'.reverse)
  inLine : '\n' ∉ seen
  inLine' : '\n' ∉ seen'

namespace LinesBegun

theorem blank (blank : ∀ c ∈ seen, isBlank c = true) (blank' : ∀ c ∈ seen', isBlank c = true)
    (inLine : '\n' ∉ seen) (inLine' : '\n' ∉ seen') : LinesBegun .code seen seen' where
  start := (Closed.blanks (by simpa using blank)).after_eq
  sofar := by
    have none {seen : List Char} (blank : ∀ c ∈ seen, isBlank c = true) : trimStart seen.reverse = [] :=
      trimStart_eq_nil_iff.2 (by simpa using blank)
    rw [none blank, none blank']
    exact .nil _
  inLine := inLine
  inLine' := inLine'

theorem blank_iff (begun : LinesBegun q seen seen') :
    (∀ c ∈ seen, isBlank c = true) ↔ ∀ c ∈ seen', isBlank c = true := by
  have none (seen : List Char) : trimStart seen.reverse = [] ↔ ∀ c ∈ seen, isBlank c = true := by
    rw [trimStart_eq_nil_iff]
    simp
  rw [← none, ← none]
  exact begun.sofar.eq_nil_iff

theorem joined (begun : LinesBegun q seen seen') (more : Spaced q a b) (inLine : '\n' ∉ a)
    (inLine' : '\n' ∉ b) : LinesBegun (q.after a) (a.reverse ++ seen) (b.reverse ++ seen') where
  start := by rw [List.reverse_append, List.reverse_reverse, Quote.after_append, begun.start]
  sofar := by
    rw [List.reverse_append, List.reverse_reverse, List.reverse_append, List.reverse_reverse]
    exact trimStart_joined begun.sofar (by rwa [begun.start])
  inLine := by simp [inLine, begun.inLine]
  inLine' := by simp [inLine', begun.inLine']

theorem push (begun : LinesBegun q seen seen') (other : c ≠ '\n') :
    LinesBegun (q.next c) (c :: seen) (c :: seen') :=
  begun.joined (.refl q [c]) (by simp [Ne.symm other]) (by simp [Ne.symm other])

theorem ended {l l' : List Char} (begun : LinesBegun .code seen seen') (text : trim l = trim seen.reverse)
    (text' : trim l' = trim seen'.reverse) (single : '\n' ∉ l) (single' : '\n' ∉ l') : Aligned l l' := by
  refine .inLine ?_ ?_ single single'
  · rw [text, text']
    exact begun.sofar.trimEnd
  · rw [← linesClosed_trim, text, linesClosed_trim, linesClosed_inLine (by simpa using begun.inLine),
      begun.start]
    rfl

/-- A gap behind two lines that have begun: it breaks both or neither, unless there is no text on them so
far, and what follows goes on with two lines that have begun. -/
theorem over_gap (begun : LinesBegun q seen seen') (same : Spaced q g g') (gap : ∀ c ∈ g, isBlank c = true)
    (gap' : ∀ c ∈ g', isBlank c = true) (code : '\n' ∈ g → q = .code)
    (breaks : (¬∀ c ∈ seen, isBlank c = true) → ('\n' ∈ g ↔ '\n' ∈ g'))
    (behind : ∀ {s s'}, LinesBegun (q.after g) s s' → LinesAlike (linesFrom s t) (linesFrom s' t')) :
    LinesAlike (linesFrom seen (g ++ t)) (linesFrom seen' (g' ++ t')) := by
  have blankLine {s s' : List Char} (q_eq : q = .code) (bare : ∀ c ∈ s, isBlank c = true)
      (bare' : ∀ c ∈ s', isBlank c = true) (inLine : '\n' ∉ s) (inLine' : '\n' ∉ s') :
      LinesAlike (linesFrom s t) (linesFrom s' t') := by
    refine behind ?_
    rw [q_eq, (Closed.blanks gap).after_eq]
    exact .blank bare bare' inLine inLine'
  by_cases bare : ∀ c ∈ seen, isBlank c = true
  · have q_eq : q = .code := by rw [← begun.start, (Closed.blanks (by simpa using bare)).after_eq]
    obtain ⟨ms, s, eq, bareMs, blanks, single⟩ := exists_linesFrom_blank gap bare begun.inLine t
    obtain ⟨ms', s', eq', bareMs', blanks', single'⟩ :=
      exists_linesFrom_blank gap' (begun.blank_iff.1 bare) begun.inLine' t'
    rw [eq, eq']
    exact .bare_left bareMs (.symm (.bare_left bareMs' (blankLine q_eq blanks blanks' single single').symm))
  by_cases break_ : '\n' ∈ g
  · obtain rfl := code break_
    obtain ⟨l, ms, s, eq, text, single, bareMs, blanks, inLine⟩ :=
      exists_linesFrom_break gap break_ begun.inLine t
    obtain ⟨l', ms', s', eq', text', single', bareMs', blanks', inLine'⟩ :=
      exists_linesFrom_break gap' ((breaks bare).1 break_) begun.inLine' t'
    rw [eq, eq']
    refine .cons (begun.ended text text' single single') (.bare_left bareMs (.symm (.bare_left bareMs' ?_)))
    exact (blankLine rfl blanks blanks' inLine inLine').symm
  · have break_' : '\n' ∉ g' := fun found => break_ ((breaks bare).2 found)
    rw [linesFrom_inLine seen _ break_, linesFrom_inLine seen' _ break_']
    exact behind (begun.joined same break_ break_')

end LinesBegun

theorem bare_linesFrom_nil (blank : ∀ c ∈ seen, isBlank c = true) : Bare (linesFrom seen []) := by
  unfold linesFrom
  split
  · simp [Bare]
  · simpa [Bare] using blank

-- Behind the last character of a text there is the rest of a line, and lines without text.
theorem exists_linesFrom_end (some_ : seen ≠ []) (blank : ∀ c ∈ h, isBlank c = true) (inLine : '\n' ∉ seen) :
    ∃ l ms, linesFrom seen h = l :: ms ∧ trim l = trim seen.reverse ∧ '\n' ∉ l ∧ Bare ms := by
  by_cases broken : '\n' ∈ h
  · obtain ⟨l, ms, seen', eq, text, single, bare, blank', -⟩ := exists_linesFrom_break blank broken inLine []
    rw [List.append_nil] at eq
    refine ⟨l, ms ++ linesFrom seen' [], eq, text, single, List.forall_mem_append.2 ⟨bare, ?_⟩⟩
    exact bare_linesFrom_nil blank'
  · have whole := linesFrom_inLine seen [] broken
    rw [List.append_nil] at whole
    refine ⟨seen.reverse ++ h, [], ?_, trim_behind blank _, by simp [inLine, broken], by simp [Bare]⟩
    rw [whole, linesFrom, if_neg (by simp [some_]), List.reverse_append, List.reverse_reverse]

theorem bare_linesFrom (blank : ∀ c ∈ seen, isBlank c = true) (inLine : '\n' ∉ seen)
    (blank' : ∀ c ∈ h, isBlank c = true) : Bare (linesFrom seen h) := by
  obtain ⟨ms, seen', eq, bare, blanks, -⟩ := exists_linesFrom_blank blank' blank inLine []
  rw [List.append_nil] at eq
  rw [eq]
  exact List.forall_mem_append.2 ⟨bare, bare_linesFrom_nil blanks⟩

theorem LinesBegun.linesAlike (begun : LinesBegun .code seen seen') (blank : ∀ c ∈ h, isBlank c = true)
    (blank' : ∀ c ∈ h', isBlank c = true) : LinesAlike (linesFrom seen h) (linesFrom seen' h') := by
  by_cases bare : ∀ c ∈ seen, isBlank c = true
  · exact .bare (bare_linesFrom bare begun.inLine blank)
      (bare_linesFrom (begun.blank_iff.1 bare) begun.inLine' blank')
  · have some_ {seen : List Char} (text : ¬∀ c ∈ seen, isBlank c = true) : seen ≠ [] := by
      rintro rfl
      exact text (by simp)
    obtain ⟨l, ms, eq, text, single, bareMs⟩ := exists_linesFrom_end (some_ bare) blank begun.inLine
    obtain ⟨l', ms', eq', text', single', bareMs'⟩ :=
      exists_linesFrom_end (some_ (mt begun.blank_iff.2 bare)) blank' begun.inLine'
    rw [eq, eq']
    exact .cons (begun.ended text text' single single') (.bare bareMs bareMs')

theorem exists_solid (some_ : ¬∀ c ∈ a, isBlank c = true) :
    ∃ g c x, a = g ++ c :: x ∧ (∀ d ∈ g, isBlank d = true) ∧ isBlank c = false := by
  have parts := List.takeWhile_append_dropWhile (p := isBlank) (l := a)
  have first := List.head?_dropWhile_not isBlank a
  cases rest : a.dropWhile isBlank with
  | nil => exact absurd (List.dropWhile_eq_nil_iff.1 rest) some_
  | cons c x =>
    rw [rest] at parts first
    exact ⟨_, c, x, parts.symm, fun d member => List.mem_takeWhile_imp member, by simpa using first⟩

theorem placedFrom_gap (gap : ∀ d ∈ g, isBlank d = true) (solid : isBlank c = false) (x : List Char) :
    placedFrom fresh (g ++ c :: x) = (c, fresh || g.contains '\n') :: placedFrom false x := by
  rw [placedFrom_append, placedFrom_blank gap, freshAfter_blank gap, placedFrom, if_neg (by simp [solid]),
    List.nil_append]

theorem Spaced.blank_iff (same : Spaced q a b) : (∀ c ∈ a, isBlank c = true) ↔ ∀ c ∈ b, isBlank c = true := by
  rw [← solids_eq_nil_iff, same.solids_eq, solids_eq_nil_iff]

-- The lines of two texts, with what stands in front of them on their first lines. By induction on the
-- length: a step takes a gap and the character behind it, as the gaps of a text need not be whole ones.
theorem linesAlike_from (same : Spaced q a b) (begun : LinesBegun q seen seen')
    (closed : linesClosed q a = true) (fresh_ : isBlankText seen = fresh)
    (breaks : placedFrom fresh a = placedFrom fresh b) (blank : ∀ c ∈ h, isBlank c = true)
    (blank' : ∀ c ∈ h', isBlank c = true) :
    LinesAlike (linesFrom seen (a ++ h)) (linesFrom seen' (b ++ h')) := by
  induction length : a.length using Nat.strongRecOn generalizing q a b seen seen' fresh with
  | _ n ih =>
  have code_of {g : List Char} (blanks : ∀ c ∈ g, isBlank c = true) (ends : q.after g = .code) : q = .code := by
    rw [← begun.start, ← Quote.after_append] at ends
    rw [← begun.start, code_of_after_blank blanks ends]
  by_cases none : ∀ c ∈ a, isBlank c = true
  · obtain rfl := code_of none (after_of_linesClosed closed)
    exact begun.linesAlike (List.forall_mem_append.2 ⟨none, blank⟩)
      (List.forall_mem_append.2 ⟨same.blank_iff.1 none, blank'⟩)
  obtain ⟨g, c, x, rfl, gap, solid⟩ := exists_solid none
  obtain ⟨g', y, rfl, front, behind⟩ := same.split solid
  have gap' := front.blank_iff.1 gap
  rw [placedFrom_gap gap solid, placedFrom_gap gap' solid] at breaks
  obtain ⟨broken, breaks⟩ := List.cons.inj breaks
  rw [List.append_assoc, List.append_assoc]
  refine begun.over_gap front gap gap' ?_ ?_ ?_
  · intro break_
    obtain ⟨g₁, g₂, rfl⟩ := List.append_of_mem break_
    rw [List.append_assoc] at closed
    exact code_of (List.forall_mem_append.1 gap).1 (after_of_newline closed)
  · intro text
    have going : fresh = false := by
      rw [← fresh_, ← Bool.not_eq_true]
      simpa [isBlankText] using text
    have flags := (Prod.mk.inj broken).2
    rw [going, Bool.false_or, Bool.false_or] at flags
    rw [← List.contains_iff_mem, flags, List.contains_iff_mem]
  · intro s s' begun
    have other : c ≠ '\n' := Canonical.ne_of_class (p := (!isBlank ·)) (by simp [solid]) (by decide)
    have later : linesClosed ((q.after g).next c) x = true := by
      have rest := linesClosed_behind closed
      rw [linesClosed, Bool.and_eq_true] at rest
      exact rest.2
    have step (s x h : List Char) : linesFrom s (c :: x ++ h) = linesFrom (c :: s) (x ++ h) := by
      rw [List.cons_append, linesFrom, if_neg other]
    rw [step, step]
    refine ih x.length ?_ behind (begun.push other) later ?_ breaks rfl
    · simp only [List.length_append, List.length_cons] at length
      omega
    · simp [isBlankText, solid]

/-- The lines of two texts that break in the same gaps. -/
theorem Aligned.lines (aligned : Aligned a b) : LinesAlike (lines a) (lines b) := by
  obtain ⟨left, right, text, blank, blank'⟩ := exists_blanks a
  obtain ⟨left', right', text', blank₂, blank₂'⟩ := exists_blanks b
  have nothing : ∀ c ∈ ([] : List Char), isBlank c = true := by simp
  obtain ⟨ms, s, eq, bare, blanks, inLine⟩ := exists_linesFrom_blank blank nothing (by simp)
    (Text.trim a ++ right)
  obtain ⟨ms', s', eq', bare', blanks', inLine'⟩ := exists_linesFrom_blank blank₂ nothing (by simp)
    (Text.trim b ++ right')
  have whole : Text.lines a = ms ++ linesFrom s (Text.trim a ++ right) := by
    rw [← eq, ← text, Text.lines]
  have whole' : Text.lines b = ms' ++ linesFrom s' (Text.trim b ++ right') := by
    rw [← eq', ← text', Text.lines]
  rw [whole, whole']
  refine .bare_left bare (.symm (.bare_left bare' (.symm ?_)))
  have start : isBlankText s = true := by simpa [isBlankText] using blanks
  refine linesAlike_from aligned.same (.blank blanks blanks' inLine inLine') ?_ start ?_ blank' blank₂'
  · rw [linesClosed_trim, aligned.closed]
  · exact aligned.trim.breaks

end Lines

end Breadboard
