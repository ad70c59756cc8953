import Breadboard.Screen.Source

set_option autoImplicit false

/-!
Colours change no text. Main statement: the spans of a highlighted line are pieces of the line that
follow each other without a gap, none of them empty, and a line of the source pane is its number with the
line of the source behind it.
-/
namespace Breadboard.Screen

/-- What the kind of a lexeme says about its text. A literal need not be closed. -/
def Lexeme.Proper : Lexeme → Prop
  | word cs => cs ≠ [] ∧ ∀ c ∈ cs, isWordPart c = true
  | symbol c => isWordPart c = false
  | literal cs => cs.head?.any Text.isMark = true
  | comment cs => ['/', '/'] <+: cs
  | directive cs => ['#'] <+: cs

-- The characters seen are kept backwards, so the mark that opened a literal comes last.
def Begun.Proper : Begun → Prop
  | word seen => ∀ c ∈ seen, isWordPart c = true
  | literal _ _ seen => seen.getLast?.any Text.isMark = true

theorem Lexeme.Proper.text_ne_nil {l : Lexeme} (proper : l.Proper) : l.text ≠ [] := by
  cases l with
  | word cs => exact proper.1
  | symbol c => exact List.cons_ne_nil c []
  | literal cs =>
    rintro rfl
    cases proper
  | comment cs =>
    obtain ⟨rest, rfl⟩ := proper
    exact List.cons_ne_nil _ _
  | directive cs =>
    obtain ⟨rest, rfl⟩ := proper
    exact List.cons_ne_nil _ _

theorem Begun.Proper.finish {b : Begun} (proper : b.Proper) : ∀ l ∈ b.finish, l.Proper := by
  intro l member
  cases b with
  | word seen =>
    cases seen with
    | nil => cases member
    | cons c seen =>
      obtain rfl := List.mem_singleton.1 member
      exact ⟨by simp, fun d inside => proper d (List.mem_reverse.1 inside)⟩
  | literal mark escaped seen =>
    obtain rfl := List.mem_singleton.1 member
    simpa [Lexeme.Proper, Begun.Proper] using proper

theorem Begun.Proper.push {mark : Char} {escaped : Bool} {seen : List Char}
    (proper : (Begun.literal mark escaped seen).Proper) (c : Char) :
    (c :: seen).getLast?.any Text.isMark = true := by
  cases seen with
  | nil => cases proper
  | cons d seen => simpa [Begun.Proper] using proper

/-- Every lexeme of a line is what its kind says. -/
theorem proper_of_mem_lexemesFrom {b : Begun} {cs : List Char} (begun : b.Proper) :
    ∀ l ∈ lexemesFrom b cs, l.Proper := by
  fun_induction lexemesFrom b cs with
  | case1 b => exact begun.finish
  | case2 mark seen c cs ih => exact ih (begun.push c)
  | case3 escaped seen c cs inside ih =>
    have closed : (Lexeme.literal (c :: seen).reverse).Proper := by
      rw [Lexeme.Proper, List.head?_reverse]
      exact begun.push c
    exact List.forall_mem_cons.2 ⟨closed, ih (by simp [Begun.Proper])⟩
  | case4 mark escaped seen c cs inside other ih => exact ih (begun.push c)
  | case5 seen c cs comment =>
    obtain ⟨rfl, slash⟩ := comment
    obtain ⟨rest, rfl⟩ := List.head?_eq_some_iff.1 slash
    have opened : (Lexeme.comment ('/' :: '/' :: rest)).Proper := ⟨rest, rfl⟩
    exact List.forall_mem_append.2 ⟨begun.finish, List.forall_mem_singleton.2 opened⟩
  | case6 seen c cs plain directive =>
    obtain ⟨rfl, -⟩ := directive
    have opened : (Lexeme.directive ('#' :: cs)).Proper := ⟨cs, rfl⟩
    exact List.forall_mem_singleton.2 opened
  | case7 seen c cs plain other mark ih =>
    exact List.forall_mem_append.2 ⟨begun.finish, ih (by simpa [Begun.Proper] using mark)⟩
  | case8 seen c cs plain other solid part ih =>
    exact ih (List.forall_mem_cons.2 ⟨part, begun⟩)
  | case9 seen c cs plain other solid stop ih =>
    have symbol : (Lexeme.symbol c).Proper := by simpa [Lexeme.Proper] using stop
    exact List.forall_mem_append.2 ⟨begun.finish, List.forall_mem_cons.2 ⟨symbol, ih (by simp [Begun.Proper])⟩⟩

theorem text_eq_of_styles {l m : Line} (same : l.map Span.text = m.map Span.text) : l.text = m.text := by
  simp only [Line.text, List.flatMap_def, same]

theorem map_text_styled (ls : List Lexeme) : (styled ls).map Span.text = ls.map Lexeme.text := by
  induction ls with
  | nil => rfl
  | cons l ls ih => simp [styled, ih]

/-- The spans of a highlighted line make up the line, and none of them is empty. In the pane the number
of the line stands before them, whether the line is the current one or not. -/
theorem highlighting_keeps_text (line : List Char) :
    (highlight line).text = line ∧ (∀ s ∈ highlight line, s.text ≠ []) ∧
    ∀ (p : SourcePane) (number : Nat),
      (p.line number line).text = padLeft 4 (Nat.toDigits 10 number) ++ ' ' :: line := by
  have whole : (highlight line).text = line := by
    rw [highlight, text_styled, lexemes, text_lexemesFrom]
    rfl
  refine ⟨whole, ?_, ?_⟩
  · intro s member
    have text : s.text ∈ (lexemes line).map Lexeme.text := by
      rw [← map_text_styled]
      exact List.mem_map_of_mem member
    obtain ⟨l, listed, same⟩ := List.mem_map.1 text
    have begun : (Begun.word []).Proper := by simp [Begun.Proper]
    rw [← same]
    exact (proper_of_mem_lexemesFrom begun l listed).text_ne_nil
  · intro p number
    have restyled : Line.text ((highlight line).map fun s => { s with style := p.textStyle number s.style }) =
        (highlight line).text := text_eq_of_styles (by rw [List.map_map]; rfl)
    rw [SourcePane.line, Line.text, List.flatMap_cons, ← Line.text, restyled, whole]
    simp

-- A literal that is not closed and ends in a backslash.
theorem highlighting_keeps_text_unclosed :
    let line := "s = \"x\\".toList
    let literal : Span := ⟨"\"x\\".toList, .ink Palette.literal⟩
    literal ∈ highlight line ∧ literal.text ≠ [] ∧ (highlight line).text = line := by
  intro line literal
  have member : literal ∈ highlight line := by decide
  obtain ⟨whole, filled, -⟩ := highlighting_keeps_text line
  exact ⟨member, filled literal member, whole⟩

end Breadboard.Screen
