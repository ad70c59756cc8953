import Mathlib.Data.List.Basic
import Mathlib.Data.List.Forall2
import Mathlib.Data.List.TakeWhile
import Breadboard.Sketch.Outline

set_option autoImplicit false

/-!
Removing comments. Main statement: every source text is a row of code, literals and comments; removing the
comments leaves the first two as they are, every line on its number, and nothing that reads as a comment.
-/
namespace Breadboard.Text

/-- What a literal can hold between its marks. A backslash takes the next character with it. -/
inductive LiteralBody (mark : Char) : List Char → Prop where
  | nil : LiteralBody mark []
  | char {c : Char} {cs : List Char} : c ≠ '\\' → c ≠ mark → c ≠ '\n' → LiteralBody mark cs →
    LiteralBody mark (c :: cs)
  | escape (c : Char) {cs : List Char} : LiteralBody mark cs → LiteralBody mark ('\\' :: c :: cs)

/-- A stretch of a source text: a character of code, a literal or a comment, the last two up to where they
end. -/
inductive Stretch where
  | code (c : Char)
  | literal (mark : Char) (body ending : List Char)
  | lineComment (body : List Char)
  | blockComment (body ending : List Char)
  deriving DecidableEq, Repr

namespace Stretch

def text : Stretch → List Char
  | code c => [c]
  | literal mark body ending => mark :: (body ++ ending)
  | lineComment body => '/' :: '/' :: body
  | blockComment body ending => '/' :: '*' :: (body ++ ending)

/-- What is left of a stretch: of a comment nothing but the ends of its lines. -/
def kept : Stretch → List Char
  | lineComment _ => []
  | blockComment body _ => body.filter (· == '\n')
  | s => s.text

/-- Whether a stretch can stand in front of `rest`. A slash of code opens no comment, a literal ends at its
mark or with its line, a line comment in front of the end of its line and a block comment at the first `*/`;
what is open at the end of the text ends there. -/
def Fits (rest : List Char) : Stretch → Prop
  | code c => isMark c = false ∧ (c = '/' → rest.head? ≠ some '/' ∧ rest.head? ≠ some '*')
  | literal mark body ending => isMark mark = true ∧ LiteralBody mark body ∧
    (ending = [mark] ∨ ending = ['\n'] ∨ rest = [] ∧ (ending = [] ∨ ending = ['\\']))
  | lineComment body => '\n' ∉ body ∧ (rest = [] ∨ rest.head? = some '\n')
  | blockComment body ending => ending = ['*', '/'] ∧ ¬['*', '/'] <:+: body ++ ['*'] ∨
    rest = [] ∧ ending = [] ∧ ¬['*', '/'] <:+: body

/-- The text of a row of stretches. -/
def textOf (row : List Stretch) : List Char := row.flatMap text

/-- Whether every stretch of a row can stand in front of those behind it. -/
def Row : List Stretch → Prop
  | [] => True
  | s :: row => s.Fits (textOf row) ∧ Row row

variable {mark : Char} {body rest : List Char} {s : Stretch} {row : List Stretch}

@[simp] theorem textOf_nil : textOf [] = [] := rfl

@[simp] theorem textOf_cons (s : Stretch) (row : List Stretch) : textOf (s :: row) = s.text ++ textOf row :=
  rfl

section Removal

theorem stripFrom_literal (inner : LiteralBody mark body) (cs : List Char) :
    stripFrom (.literal mark) (body ++ cs) = body ++ stripFrom (.literal mark) cs := by
  induction inner with
  | nil => rfl
  | char backslash notMark newline _ ih => simp [stripFrom_inLiteral, backslash, notMark, newline, ih]
  | escape c _ ih => simp [stripFrom_inLiteral, stripFrom_inEscape, ih]

theorem stripFrom_lineComment (oneLine : '\n' ∉ body) (stop : rest = [] ∨ rest.head? = some '\n') :
    stripFrom .lineComment (body ++ rest) = stripFrom .code rest := by
  induction body with
  | nil =>
    obtain rfl | newline := stop
    · rfl
    · obtain ⟨tail, rfl⟩ := List.head?_eq_some_iff.1 newline
      simp [stripFrom_inLine, stripFrom_inCode, isMark]
  | cons c body ih =>
    rw [List.mem_cons, not_or] at oneLine
    simp [stripFrom_inLine, Ne.symm oneLine.1, ih oneLine.2]

/-- The star in front of a text in a block comment, if there is one. -/
def starBefore (star : Bool) : List Char := if star then ['*'] else []

theorem stripFrom_blockComment_cons {star : Bool} {c : Char} (inside : ¬(star = true ∧ c = '/')) :
    stripFrom (.blockComment star) (c :: rest) =
      [c].filter (· == '\n') ++ stripFrom (.blockComment (c == '*')) rest := by
  by_cases newline : c = '\n'
  · subst newline
    simp [stripFrom_inBlock]
  · simp [stripFrom_inBlock, inside, newline, Bool.beq_eq_decide_eq]

-- In a text that does not close the comment only the ends of its lines are left.
theorem stripFrom_blockComment (rest : List Char) (star : Bool) (opened : ¬['*', '/'] <:+: starBefore star ++ body) :
    stripFrom (.blockComment star) (body ++ rest) = body.filter (· == '\n') ++
      stripFrom (.blockComment (body.foldl (fun _ c => c == '*') star)) rest := by
  induction body generalizing star with
  | nil => rfl
  | cons c body ih =>
    have inside : ¬(star = true ∧ c = '/') := by
      rintro ⟨rfl, rfl⟩
      exact opened ⟨[], body, rfl⟩
    have later : ¬['*', '/'] <:+: starBefore (c == '*') ++ body := by
      refine fun closes => opened (closes.trans (List.IsSuffix.isInfix ?_))
      have char : starBefore (c == '*') <:+ [c] := by
        unfold starBefore
        split
        · rename_i isStar
          exact ⟨[], by simp [eq_of_beq isStar]⟩
        · exact List.nil_suffix
      obtain ⟨front, eq⟩ := char
      exact ⟨starBefore star ++ front, by simp [← List.append_assoc front, eq]⟩
    rw [List.cons_append, stripFrom_blockComment_cons inside, ih _ later, ← List.append_assoc,
      ← List.filter_append]
    rfl

/-- Removing the comments of a stretch leaves what is kept of it. -/
theorem stripFrom_text (fits : s.Fits rest) :
    stripFrom .code (s.text ++ rest) = s.kept ++ stripFrom .code rest := by
  cases s with
  | code c =>
    obtain ⟨notMark, slash⟩ := fits
    by_cases isSlash : c = '/'
    · subst isSlash
      simp [text, kept, stripFrom_inCode, notMark, slash rfl]
    · simp [text, kept, stripFrom_inCode, notMark, isSlash]
  | literal mark body ending =>
    obtain ⟨isMark_, inner, ends⟩ := fits
    have notEscape : mark ≠ '\\' := by
      rintro rfl
      cases isMark_
    have opened : stripFrom .code (mark :: (body ++ (ending ++ rest))) =
        mark :: (body ++ stripFrom (.literal mark) (ending ++ rest)) := by
      rw [stripFrom_inCode, if_pos isMark_, stripFrom_literal inner]
    simp only [text, kept, List.cons_append, List.append_assoc, opened]
    obtain rfl | rfl | ⟨rfl, rfl | rfl⟩ := ends <;>
      simp [stripFrom_nil, stripFrom_inLiteral, notEscape]
  | lineComment body =>
    have opened (cs : List Char) : stripFrom .code ('/' :: '/' :: cs) = stripFrom .lineComment cs := by
      simp [stripFrom_inCode, stripFrom_inLine, isMark]
    simp only [text, kept, List.cons_append, opened]
    exact stripFrom_lineComment fits.1 fits.2
  | blockComment body ending =>
    have opened (cs : List Char) :
        stripFrom .code ('/' :: '*' :: cs) = stripFrom (.blockComment false) cs := by
      simp [stripFrom_inCode, stripFrom_opening, isMark]
    simp only [text, kept, List.cons_append, opened]
    obtain ⟨rfl, first⟩ | ⟨rfl, rfl, never⟩ := fits
    · have inside := stripFrom_blockComment ('/' :: rest) false first
      simpa [stripFrom_inBlock] using inside
    · have inside := stripFrom_blockComment [] false never
      simpa [stripFrom_nil] using inside

theorem stripComments_textOf (fits : Row row) : stripComments (textOf row) = row.flatMap kept := by
  unfold stripComments
  induction row with
  | nil => rfl
  | cons s row ih => rw [textOf_cons, stripFrom_text fits.1, ih fits.2, List.flatMap_cons]

end Removal

section Reading

theorem exists_literal (mark : Char) (cs : List Char) : ∃ body ending rest, cs = body ++ (ending ++ rest) ∧
    LiteralBody mark body ∧
      (ending = [mark] ∨ ending = ['\n'] ∨ rest = [] ∧ (ending = [] ∨ ending = ['\\'])) := by
  induction cs using expandEscapes.induct with
  | case1 => exact ⟨[], [], [], rfl, .nil, by simp⟩
  | case2 => exact ⟨[], ['\\'], [], rfl, .nil, by simp⟩
  | case3 c cs ih =>
    obtain ⟨body, ending, rest, rfl, inner, ends⟩ := ih
    exact ⟨'\\' :: c :: body, ending, rest, rfl, .escape c inner, ends⟩
  | case4 c cs last pair ih =>
    have backslash : c ≠ '\\' := fun eq => by
      cases cs with
      | nil => exact last eq rfl
      | cons d cs => exact pair d cs eq rfl
    by_cases ends : c = mark
    · exact ⟨[], [mark], cs, by simp [ends], .nil, .inl rfl⟩
    by_cases newline : c = '\n'
    · exact ⟨[], ['\n'], cs, by simp [newline], .nil, .inr (.inl rfl)⟩
    obtain ⟨body, ending, rest, rfl, inner, stop⟩ := ih
    exact ⟨c :: body, ending, rest, rfl, .char backslash ends newline inner, stop⟩

-- The first end of a block comment in a text.
theorem exists_commentEnd (cs : List Char) : ¬['*', '/'] <:+: cs ∨
    ∃ body rest, cs = body ++ (['*', '/'] ++ rest) ∧ ¬['*', '/'] <:+: body ++ ['*'] := by
  induction cs with
  | nil => exact .inl (by decide)
  | cons c cs ih =>
    by_cases here : ['*', '/'] <+: c :: cs
    · obtain ⟨rest, eq⟩ := here
      exact .inr ⟨[], rest, eq.symm, by decide⟩
    obtain never | ⟨body, rest, rfl, first⟩ := ih
    · exact .inl fun inside => (List.infix_cons_iff.1 inside).elim here never
    · refine .inr ⟨c :: body, rest, rfl, fun inside => (List.infix_cons_iff.1 inside).elim ?_ first⟩
      -- An end on the first character would be one of the whole text.
      rintro ⟨tail, eq⟩
      obtain ⟨rfl, behind⟩ := List.cons.inj eq
      cases body with
      | nil => cases behind
      | cons d body =>
        obtain rfl := (List.cons.inj behind).1
        exact here ⟨body ++ (['*', '/'] ++ rest), rfl⟩

/-- Every text is a row of stretches. -/
theorem exists_row (cs : List Char) : ∃ row, Row row ∧ textOf row = cs := by
  induction length : cs.length using Nat.strongRecOn generalizing cs with
  | _ n ih =>
    -- A stretch in front of a shorter text.
    have put (s : Stretch) (rest : List Char) (eq : cs = s.text ++ rest) (fits : s.Fits rest) :
        ∃ row, Row row ∧ textOf row = cs := by
      have some_ : 0 < s.text.length := by cases s <;> simp [text]
      have short : rest.length < n := by
        rw [← length, eq, List.length_append]
        omega
      obtain ⟨row, others, rfl⟩ := ih _ short rest rfl
      exact ⟨s :: row, ⟨fits, others⟩, eq.symm⟩
    cases cs with
    | nil => exact ⟨[], trivial, rfl⟩
    | cons c cs =>
      by_cases mark : isMark c = true
      · obtain ⟨body, ending, rest, rfl, inner, ends⟩ := exists_literal c cs
        exact put (.literal c body ending) rest (by simp [text]) ⟨mark, inner, ends⟩
      have notMark : isMark c = false := by simpa using mark
      by_cases slash : c = '/' ∧ (cs.head? = some '/' ∨ cs.head? = some '*')
      · obtain ⟨rfl, line | block⟩ := slash
        · obtain ⟨cs, rfl⟩ := List.head?_eq_some_iff.1 line
          have parts := List.takeWhile_append_dropWhile (p := (· != '\n')) (l := cs)
          refine put (.lineComment (cs.takeWhile (· != '\n'))) (cs.dropWhile (· != '\n'))
            (by simp [text, parts]) ⟨fun inside => ?_, ?_⟩
          · simpa using List.mem_takeWhile_imp inside
          · cases tail : cs.dropWhile (· != '\n') with
            | nil => exact .inl rfl
            | cons d rest =>
              have stop := List.head?_dropWhile_not (· != '\n') cs
              simp only [tail, List.head?_cons] at stop
              exact .inr (by simpa using stop)
        · obtain ⟨cs, rfl⟩ := List.head?_eq_some_iff.1 block
          obtain never | ⟨body, rest, rfl, first⟩ := exists_commentEnd cs
          · exact put (.blockComment cs []) [] (by simp [text]) (.inr ⟨rfl, rfl, never⟩)
          · exact put (.blockComment body ['*', '/']) rest (by simp [text]) (.inl ⟨rfl, first⟩)
      · have apart : c = '/' → cs.head? ≠ some '/' ∧ cs.head? ≠ some '*' := by
          simpa [not_or] using slash
        exact put (.code c) cs rfl ⟨notMark, apart⟩

end Reading

section Remains

/-- What is left of a stretch as a row of its own. -/
def remains : Stretch → List Stretch
  | lineComment _ => []
  | blockComment body _ => (body.filter (· == '\n')).map code
  | s => [s]

@[simp] theorem textOf_code (cs : List Char) : textOf (cs.map code) = cs := by
  induction cs with
  | nil => rfl
  | cons c cs ih => simp [text, ih]

theorem textOf_remains (s : Stretch) : textOf s.remains = s.kept := by
  cases s with
  | code c => rfl
  | literal mark body ending => simp [remains, kept]
  | lineComment body => rfl
  | blockComment body ending => exact textOf_code _

theorem Row.newlines {cs : List Char} (ends : ∀ c ∈ cs, c = '\n') (others : Row row) :
    Row (cs.map code ++ row) := by
  induction cs with
  | nil => exact others
  | cons c cs ih =>
    obtain ⟨rfl, later⟩ := List.forall_mem_cons.1 ends
    exact ⟨⟨rfl, fun slash => absurd slash (by decide)⟩, ih later⟩

theorem textOf_flatMap_remains (row : List Stretch) : textOf (row.flatMap remains) = row.flatMap kept := by
  induction row with
  | nil => rfl
  | cons s row ih =>
    rw [List.flatMap_cons, List.flatMap_cons, ← ih, ← textOf_remains]
    exact List.flatMap_append

-- What stands behind a slash of code opens no comment, and so it is still there.
theorem head?_textOf_remains (plain : (textOf row).head? ≠ some '/') :
    (textOf (row.flatMap remains)).head? = (textOf row).head? := by
  cases row with
  | nil => rfl
  | cons s row =>
    cases s with
    | code c => rfl
    | literal mark body ending => rfl
    | lineComment body => exact absurd rfl plain
    | blockComment body ending => exact absurd rfl plain

theorem eq_nil_of_textOf (none : textOf row = []) : row = [] := by
  cases row with
  | nil => rfl
  | cons s row => cases s <;> simp [text] at none

/-- What is left of a row is a row, and there are no comments in it. -/
theorem row_remains (fits : Row row) : Row (row.flatMap remains) := by
  induction row with
  | nil => trivial
  | cons s row ih =>
    have others := ih fits.2
    cases s with
    | code c =>
      obtain ⟨notMark, slash⟩ := fits.1
      refine ⟨⟨notMark, fun eq => ?_⟩, others⟩
      change (textOf (row.flatMap remains)).head? ≠ _ ∧ (textOf (row.flatMap remains)).head? ≠ _
      rw [head?_textOf_remains (slash eq).1]
      exact slash eq
    | literal mark body ending =>
      obtain ⟨isMark_, inner, ends⟩ := fits.1
      refine ⟨⟨isMark_, inner, ends.imp_right (Or.imp_right (And.imp_left fun last => ?_))⟩, others⟩
      rw [eq_nil_of_textOf last]
      rfl
    | lineComment body => exact others
    | blockComment body ending => exact Row.newlines (by simp) others

theorem kept_of_remains {r : Stretch} (left : r ∈ s.remains) : r.kept = r.text := by
  cases s with
  | code c =>
    obtain rfl := List.mem_singleton.1 left
    rfl
  | literal mark body ending =>
    obtain rfl := List.mem_singleton.1 left
    rfl
  | lineComment body => cases left
  | blockComment body ending =>
    obtain ⟨c, -, rfl⟩ := List.mem_map.1 left
    rfl

theorem stripComments_kept (fits : Row row) : stripComments (row.flatMap kept) = row.flatMap kept := by
  have all : (row.flatMap remains).flatMap kept = textOf (row.flatMap remains) :=
    List.flatMap_congr fun r left => by
      obtain ⟨s, -, left⟩ := List.mem_flatMap.1 left
      exact kept_of_remains left
  rw [← textOf_flatMap_remains, stripComments_textOf (row_remains fits), all]

end Remains

section Thinning

theorem kept_sublist (s : Stretch) : s.kept.Sublist s.text := by
  cases s with
  | code c => exact .refl _
  | literal mark body ending => exact .refl _
  | lineComment body => exact List.nil_sublist _
  | blockComment body ending =>
    have inside : (body.filter (· == '\n')).Sublist (body ++ ending) :=
      List.filter_sublist.trans (List.sublist_append_left ..)
    exact .cons _ (.cons _ inside)

theorem flatMap_kept_sublist (row : List Stretch) : (row.flatMap kept).Sublist (textOf row) := by
  induction row with
  | nil => exact .slnil
  | cons s row ih => exact (kept_sublist s).append ih

theorem newlines_kept (fits : s.Fits rest) : newlines s.kept = newlines s.text := by
  cases s with
  | code c => rfl
  | literal mark body ending => rfl
  | lineComment body =>
    have none : newlines body = 0 := List.count_eq_zero.2 fits.1
    simp [kept, text, newlines] at none ⊢
    exact none.symm
  | blockComment body ending =>
    have none : newlines ending = 0 := by obtain ⟨rfl, -⟩ | ⟨-, rfl, -⟩ := fits <;> rfl
    have opening : newlines ['/', '*'] = 0 := rfl
    change newlines (body.filter (· == '\n')) = newlines (['/', '*'] ++ (body ++ ending))
    rw [newlines_append, newlines_append, none, opening, Nat.zero_add, Nat.add_zero]
    exact List.count_filter rfl

theorem newlines_flatMap_kept (fits : Row row) : newlines (row.flatMap kept) = newlines (textOf row) := by
  induction row with
  | nil => rfl
  | cons s row ih =>
    rw [List.flatMap_cons, textOf_cons, newlines_append, newlines_append, newlines_kept fits.1, ih fits.2]

end Thinning

end Stretch

section Lines

variable {a b seen seen' : List Char}

-- A text that has lost characters, but no ends of lines, has lost them line by line.
theorem ne_newline_of_lost {c : Char} (thinner : a.Sublist b) (same : newlines a = newlines (c :: b)) : c ≠ '\n' := by
  rintro rfl
  have fewer : newlines a ≤ newlines b := thinner.count_le _
  simp only [newlines, List.count_cons_self] at same fewer
  omega

theorem splitOn_ne_nil (sep : Char) (cs : List Char) : splitOn sep cs ≠ [] := by
  cases cs with
  | nil => simp [splitOn]
  | cons c cs =>
    rw [splitOn]
    split
    · simp
    · split <;> simp

theorem forall₂_splitOn (thinner : a.Sublist b) (same : newlines a = newlines b) :
    List.Forall₂ List.Sublist (splitOn '\n' a) (splitOn '\n' b) := by
  induction thinner with
  | slnil => exact .cons (.refl _) .nil
  | @cons a b c thinner ih =>
    have ne := ne_newline_of_lost thinner same
    have later := ih (by simpa [newlines, ne] using same)
    have some_ := splitOn_ne_nil '\n' b
    rw [splitOn, if_neg ne]
    generalize splitOn '\n' a = x at later
    generalize splitOn '\n' b = y at later some_
    cases later with
    | nil => exact absurd rfl some_
    | cons first others => exact .cons (.cons _ first) others
  | @cons_cons a b c thinner ih =>
    have later := ih (by simpa [newlines, List.count_cons] using same)
    rw [splitOn, splitOn]
    split
    · exact .cons (.refl _) later
    · generalize splitOn '\n' a = x at later
      generalize splitOn '\n' b = y at later
      cases later with
      | nil => exact .cons (.refl _) .nil
      | cons first others => exact .cons (.cons_cons _ first) others

theorem dropReturn_cons {c : Char} (ne : c ≠ '\r') (cs : List Char) : dropReturn (c :: cs) = c :: cs := by
  rw [dropReturn.eq_def]
  split
  · rename_i eq
    exact absurd (List.cons.inj eq).1 ne
  · rfl

theorem dropReturn_sublist (thinner : seen.Sublist seen') : (dropReturn seen).Sublist (dropReturn seen') := by
  have drops (cs : List Char) : (dropReturn cs).Sublist cs := by
    unfold dropReturn
    split
    · exact .cons _ (.refl _)
    · exact .refl _
  cases thinner with
  | slnil => exact .refl _
  | @cons _ t c thinner =>
    by_cases isReturn : c = '\r'
    · subst isReturn
      exact (drops _).trans thinner
    · rw [dropReturn_cons isReturn]
      exact .cons _ ((drops _).trans thinner)
  | @cons_cons s t c thinner =>
    by_cases isReturn : c = '\r'
    · subst isReturn
      exact thinner
    · rw [dropReturn_cons isReturn, dropReturn_cons isReturn]
      exact .cons_cons _ thinner

theorem getD_linesFrom (thinner : a.Sublist b) (same : newlines a = newlines b) (behind : seen.Sublist seen')
    (k : Nat) : ((linesFrom seen a).getD k []).Sublist ((linesFrom seen' b).getD k []) := by
  induction thinner generalizing seen seen' k with
  | slnil =>
    cases seen with
    | nil => exact List.nil_sublist _
    | cons c seen =>
      obtain ⟨d, more, rfl⟩ : ∃ d more, seen' = d :: more :=
        List.exists_cons_of_ne_nil (List.ne_nil_of_length_pos (Nat.lt_of_lt_of_le (by simp) behind.length_le))
      cases k with
      | zero => exact behind.reverse
      | succ k => exact .refl _
  | @cons a b c thinner ih =>
    have ne := ne_newline_of_lost thinner same
    have step : linesFrom seen' (c :: b) = linesFrom (c :: seen') b := by rw [linesFrom, if_neg ne]
    rw [step]
    exact ih (by simpa [newlines, ne] using same) (.cons _ behind) k
  | @cons_cons a b c thinner ih =>
    have later : newlines a = newlines b := by simpa [newlines, List.count_cons] using same
    rw [linesFrom, linesFrom]
    split
    · cases k with
      | zero => exact (dropReturn_sublist behind).reverse
      | succ k => exact ih later (.refl _) k
    · exact ih later (.cons_cons _ behind) k

end Lines

section Source

open Stretch

theorem stripComments_sublist (cs : List Char) : (stripComments cs).Sublist cs := by
  obtain ⟨row, fits, rfl⟩ := exists_row cs
  rw [stripComments_textOf fits]
  exact flatMap_kept_sublist row

/-- Removing the comments of a source text keeps its lines: there are as many ends of lines as before, and
every line, cut at the ends alone or as the program cuts it, is the old one without some of its characters.
Doing it again changes nothing. However the text is read as a row of stretches, and it is one, what is left is
its code and its literals as they stand and the ends of lines in its comments. The outline is that of the
text without its comments. -/
theorem comments_leave_lines (source : String) :
    let bare := stripComments source.toList
    newlines bare = newlines source.toList ∧
    List.Forall₂ List.Sublist (splitOn '\n' bare) (splitOn '\n' source.toList) ∧
    (∀ k, ((lines bare).getD k []).Sublist ((lines source.toList).getD k [])) ∧
    stripComments bare = bare ∧
    (∃ row, Row row ∧ textOf row = source.toList) ∧
    (∀ row, Row row → textOf row = source.toList → bare = row.flatMap kept) ∧
    Outline.ofSource (String.ofList bare) = Outline.ofSource source := by
  intro bare
  obtain ⟨row, fits, whole⟩ := exists_row source.toList
  have left : bare = row.flatMap kept := by rw [← stripComments_textOf fits, whole]
  have same : newlines bare = newlines source.toList := by rw [left, ← whole, newlines_flatMap_kept fits]
  have thinner : bare.Sublist source.toList := stripComments_sublist source.toList
  have again : stripComments bare = bare := by rw [left, stripComments_kept fits]
  refine ⟨same, forall₂_splitOn thinner same, getD_linesFrom thinner same (.refl _), again, ⟨row, fits, whole⟩, ?_, ?_⟩
  · intro row fits whole
    rw [← stripComments_textOf fits, whole]
  · simp only [Outline.ofSource, String.toList_ofList, again]
    rfl

-- A comment does not open in a literal, `/*/` does not close one, and a slash in front of a comment is still
-- followed by what it was.
example : stripComments "a / b; \"//\" /*/ x\n*/ c // d".toList = "a / b; \"//\" \n c ".toList := by decide

end Source

end Breadboard.Text
