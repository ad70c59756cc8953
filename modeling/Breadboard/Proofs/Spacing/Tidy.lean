import Breadboard.Proofs.Parentheses
import Breadboard.Proofs.Spacing.Actions

set_option autoImplicit false

/-!
Tidy texts: no literal runs over the end of its line, and none is taken for the parenthesis behind a
keyword. Main statement: the statements that a tidy block is cut into are tidy, and so are their parts.
-/
namespace Breadboard

open Text

variable {q : Quote} {a b f f' g r r' x y : List Char} {c d : Char}

section Solids

/-- The characters of a text that are not blank. -/
def solids (cs : List Char) : List Char := cs.filter (!isBlank ·)

theorem solids_append (a b : List Char) : solids (a ++ b) = solids a ++ solids b := List.filter_append ..

theorem solids_eq_nil_iff : solids a = [] ↔ ∀ c ∈ a, isBlank c = true := by
  simp [solids, List.filter_eq_nil_iff]

theorem solids_cons (solid : isBlank c = false) (cs : List Char) : solids (c :: cs) = c :: solids cs :=
  List.filter_cons_of_pos (by simp [solid])

theorem Spaced.solids_eq (same : Spaced q a b) : solids a = solids b := by
  induction same with
  | nil q => rfl
  | cons c _ ih => simp only [solids, List.filter_cons] at ih ⊢; rw [ih]
  | gap left right _ ih =>
    rw [solids_append, solids_append, solids_eq_nil_iff.2 left.blank, solids_eq_nil_iff.2 right.blank, ih]

-- A character that is not blank is found by what stands in front of it.
theorem eq_of_split (solid : isBlank c = false) (solid' : isBlank d = false)
    (text : f ++ c :: x = f' ++ d :: y) (same : solids f = solids f') : f = f' ∧ c = d ∧ x = y := by
  induction f generalizing f' with
  | nil =>
    cases f' with
    | nil => exact ⟨rfl, (List.cons.inj text).1, (List.cons.inj text).2⟩
    | cons e f' =>
      obtain ⟨rfl, -⟩ := List.cons.inj text
      rw [solids_cons solid] at same
      cases same
  | cons e f ih =>
    cases f' with
    | nil =>
      obtain ⟨rfl, -⟩ := List.cons.inj text
      rw [solids_cons solid'] at same
      cases same
    | cons e' f' =>
      obtain ⟨rfl, rest⟩ := List.cons.inj text
      have later : solids f = solids f' := by
        by_cases blank : isBlank e = true
        · simpa [solids, blank] using same
        · rw [solids_cons (by simpa using blank), solids_cons (by simpa using blank)] at same
          exact (List.cons.inj same).2
      obtain ⟨rfl, eq, behind⟩ := ih rest later
      exact ⟨rfl, eq, behind⟩

-- A text is cut at a character that is not blank where the other one is.
theorem Spaced.split (same : Spaced q (f ++ c :: x) b) (solid : isBlank c = false) :
    ∃ f' y, b = f' ++ c :: y ∧ Spaced q f f' ∧ Spaced ((q.after f).next c) x y := by
  generalize text : f ++ c :: x = t at same
  induction same generalizing f with
  | nil q => cases f <;> cases text
  | @cons q a b d rest ih =>
    cases f with
    | nil =>
      obtain ⟨rfl, rfl⟩ := List.cons.inj text
      exact ⟨[], b, rfl, .nil q, rest⟩
    | cons e f =>
      obtain ⟨rfl, later⟩ := List.cons.inj text
      obtain ⟨f', y, rfl, front, behind⟩ := ih later
      exact ⟨e :: f', y, rfl, .cons e front, behind⟩
  | @gap g g' a b left right rest ih =>
    obtain ⟨more, rfl, later⟩ | ⟨more, rfl, later⟩ := List.append_eq_append_iff.1 text
    · cases more with
      | nil =>
        obtain ⟨f', y, rfl, front, behind⟩ := ih (f := []) later
        refine ⟨g' ++ f', y, by simp, ?_, ?_⟩
        · simpa using Spaced.gap left right front
        · rw [List.append_nil] at left
          rwa [left.closed.after_eq]
      | cons e more =>
        obtain ⟨rfl, -⟩ := List.cons.inj later
        rw [left.blank _ (by simp)] at solid
        cases solid
    · obtain ⟨f', y, rfl, front, behind⟩ := ih later.symm
      refine ⟨g' ++ f', y, by simp, .gap left right front, ?_⟩
      rwa [Quote.after_append, left.closed.after_eq]

theorem behind_blank (blank : ∀ c ∈ g, isBlank c = true) (solid : isBlank c = false)
    (text : g ++ x = f ++ c :: y) : ∃ f', f = g ++ f' ∧ x = f' ++ c :: y := by
  obtain ⟨more, eq, later⟩ | ⟨more, eq, later⟩ := List.append_eq_append_iff.1 text
  · exact ⟨more, eq, later⟩
  · cases more with
    | nil => exact ⟨[], by simp [eq], by simpa using later.symm⟩
    | cons e more =>
      obtain ⟨rfl, -⟩ := List.cons.inj later
      rw [blank c (by simp [eq])] at solid
      cases solid

theorem before_blank (blank : ∀ c ∈ g, isBlank c = true) (solid : isBlank c = false)
    (text : x ++ g = f ++ c :: y) : ∃ y', y = y' ++ g ∧ x = f ++ c :: y' := by
  obtain ⟨more, eq, later⟩ | ⟨more, eq, later⟩ := List.append_eq_append_iff.1 text
  · rw [later] at blank
    rw [blank c (by simp)] at solid
    cases solid
  · cases more with
    | nil =>
      rw [List.nil_append] at later
      rw [blank c (by simp [← later])] at solid
      cases solid
    | cons e more =>
      obtain ⟨rfl, rest⟩ := List.cons.inj later
      exact ⟨more, rest, eq⟩

theorem Spaced.append_solid (same : Spaced q (a ++ x) b) (solid : ∀ c ∈ a, isBlank c = false) :
    ∃ y, b = a ++ y ∧ Spaced (q.after a) x y := by
  induction a generalizing q b with
  | nil => exact ⟨b, rfl, same⟩
  | cons c a ih =>
    rw [List.forall_mem_cons] at solid
    obtain ⟨b', rfl, rest⟩ := same.uncons solid.1
    obtain ⟨y, rfl, behind⟩ := ih rest solid.2
    exact ⟨y, rfl, behind⟩

-- What holds of no blank holds of both last characters or of neither.
theorem Spaced.getLast?_any {p : Char → Bool} (none : ∀ c, isBlank c = true → p c = false)
    (same : Spaced q a b) : a.getLast?.any p = b.getLast?.any p := by
  have default (o : Option Char) : o.any p = p (o.getD ' ') := by
    cases o with
    | none => exact (none ' ' (by decide)).symm
    | some c => rfl
  rw [default, default]
  obtain eq | ⟨left, right⟩ := same.getLast?_getD
  · rw [eq]
  · rw [none _ left, none _ right]

end Solids

theorem trimEnd_blank (blank : ∀ c ∈ g, isBlank c = true) : trimEnd g = [] := by
  cases g with
  | nil => rfl
  | cons c g => exact Spaced.trimEnd_space ⟨List.cons_ne_nil c g, blank⟩

section Lines

/-- Whether every literal of a text is closed on the line on which it is opened. -/
def linesClosed : Quote → List Char → Bool
  | q, [] => q == .code
  | q, c :: cs => (c != '\n' || q == .code) && linesClosed (q.next c) cs

theorem linesClosed_append (code : q.after a = .code) (b : List Char) :
    linesClosed q (a ++ b) = (linesClosed q a && linesClosed .code b) := by
  induction a generalizing q with
  | nil =>
    subst code
    simp [linesClosed]
  | cons c a ih => simp only [List.cons_append, linesClosed, ih code, Bool.and_assoc]

-- A literal is opened by a quote mark.
theorem isMark_of_after {mark : Char} (inside : Quote.code.after a = .inside mark ∨
    Quote.code.after a = .escaped mark) : isMark mark = true := by
  induction a using List.reverseRecOn with
  | nil => rcases inside with inside | inside <;> cases inside
  | append_singleton a c ih =>
    rw [Quote.after_append, Quote.after_cons, Quote.after_nil] at inside
    cases from_ : Quote.code.after a with
    | code =>
      rw [from_] at inside
      by_cases opens : isMark c = true
      · rw [Quote.next, if_pos opens] at inside
        rcases inside with inside | inside <;> cases inside
        exact opens
      · rw [Quote.next, if_neg opens] at inside
        rcases inside with inside | inside <;> cases inside
    | inside mark' =>
      rw [from_] at inside ih
      have opened : mark' = mark := by
        simp only [Quote.next] at inside
        grind
      exact ih (.inl (by rw [opened]))
    | escaped mark' =>
      rw [from_] at inside ih
      have opened : mark' = mark := by
        rcases inside with inside | inside <;> cases inside
        rfl
      exact ih (.inr (by rw [opened]))

-- So blanks do not close one.
theorem code_of_after_blank (blank : ∀ c ∈ g, isBlank c = true)
    (code : Quote.code.after (a ++ g) = .code) : Quote.code.after a = .code := by
  induction g using List.reverseRecOn with
  | nil => simpa using code
  | append_singleton g c ih =>
    rw [List.forall_mem_append] at blank
    refine ih blank.1 ?_
    rw [← List.append_assoc, Quote.after_append] at code
    have blank := blank.2 c (by simp)
    cases from_ : Quote.code.after (a ++ g) with
    | code => rfl
    | inside mark =>
      have other : c ≠ mark := by
        rintro rfl
        have opens := isMark_of_after (.inl from_)
        rw [(plain_of_isBlank blank).1] at opens
        cases opens
      rw [from_, Quote.after_cons, Quote.next, if_neg other] at code
      split at code <;> cases code
    | escaped mark =>
      rw [from_] at code
      cases code

theorem after_of_unmarked (plain : ∀ c ∈ a, isMark c = false) : Quote.code.after a = .code := by
  induction a with
  | nil => rfl
  | cons c a ih =>
    rw [List.forall_mem_cons] at plain
    rw [Quote.after_cons, Canonical.next_of_not_isMark plain.1, ih plain.2]

theorem linesClosed_unmarked (plain : ∀ c ∈ a, isMark c = false) : linesClosed .code a = true := by
  induction a with
  | nil => rfl
  | cons c a ih =>
    rw [List.forall_mem_cons] at plain
    rw [linesClosed, Canonical.next_of_not_isMark plain.1, ih plain.2]
    simp

theorem linesClosed_blank (blank : ∀ c ∈ g, isBlank c = true) : linesClosed .code g = true :=
  linesClosed_unmarked fun c member => (plain_of_isBlank (blank c member)).1

theorem after_of_linesClosed (closed : linesClosed q a = true) : q.after a = .code := by
  induction a generalizing q with
  | nil => simpa [linesClosed] using closed
  | cons c a ih =>
    rw [linesClosed, Bool.and_eq_true] at closed
    exact ih closed.2

-- So lines end in code.
theorem after_of_newline (closed : linesClosed q (a ++ '\n' :: b) = true) : q.after a = .code := by
  induction a generalizing q with
  | nil =>
    rw [List.nil_append, linesClosed, Bool.and_eq_true] at closed
    simpa using closed.1
  | cons c a ih =>
    rw [List.cons_append, linesClosed, Bool.and_eq_true] at closed
    exact ih closed.2

theorem Spaced.linesClosed_eq (same : Spaced q a b) : linesClosed q a = linesClosed q b := by
  induction same with
  | nil q => rfl
  | cons c _ ih => rw [linesClosed, linesClosed, ih]
  | gap left right _ ih =>
    rw [linesClosed_append left.closed.after_eq, linesClosed_append right.closed.after_eq,
      linesClosed_blank left.blank, linesClosed_blank right.blank, ih]

end Lines

section Heads

/-- The words behind which a statement has its parentheses. -/
def headWords : List (List Char) := ["if".toList, "for".toList, "while".toList]

/-- Whether a word ends where another one begins. -/
def joins (front behind : List Char) : Bool :=
  front.getLast?.any isWordChar && behind.head?.any isWordChar

theorem joins_concat (other : isWordChar c = false) (f x : List Char) : joins (f ++ [c]) x = false := by
  simp [joins, other]

/-- Whether the parentheses of a statement are looked for behind a word: behind the words that have some,
and behind an `else` that stands where the body of a statement begins. -/
def SeeksParens (front word : List Char) : Prop :=
  joins front word = false ∧ (word ∈ headWords ∨ word = "else".toList ∧
    (trimEnd front).getLast?.any (fun c => c == ')' || isWordChar c) = true)

/-- A text in which every literal is closed on its line, and no parenthesis in a literal is the first one
behind a keyword that has parentheses. -/
structure Tidy (a : List Char) : Prop where
  lines : linesClosed .code a = true
  heads (front word rest : List Char) (text : a = front ++ (word ++ rest))
    (code : Quote.code.after front = .code) (seeks : SeeksParens front word)
    (ends : joins word rest = false) : Quote.code.after (rest.takeWhile (· != '(')) = .code

namespace Tidy

theorem after_eq (tidy : Tidy a) : Quote.code.after a = .code := after_of_linesClosed tidy.lines

/-- A text without literals is tidy. -/
theorem of_unmarked (plain : ∀ c ∈ a, isMark c = false) : Tidy a where
  lines := linesClosed_unmarked plain
  heads front word rest text code seeks ends := by
    refine after_of_unmarked fun c member => plain c ?_
    have found := (List.takeWhile_sublist _).mem member
    simp [text, found]

theorem isWordChar_of_seeks {front word : List Char} (seeks : SeeksParens front word) :
    word ≠ [] ∧ ∀ c ∈ word, isWordChar c = true := by
  have known : word ∈ headWords ++ ["else".toList] := by
    obtain ⟨-, head | ⟨rfl, -⟩⟩ := seeks
    · exact List.mem_append_left _ head
    · simp
  clear seeks
  revert known word
  decide

theorem after_word {word : List Char} (letters : ∀ c ∈ word, isWordChar c = true) :
    Quote.code.after word = .code :=
  (Closed.plain fun c member =>
    have plain := Canonical.isPlain_of_isWordChar (letters c member)
    ⟨Canonical.isMark_of_isPlain plain, Canonical.depthStep_of_isPlain plain⟩).after_eq

/-- What stands between two places of the code of a tidy text is tidy, if no word is cut in two. -/
theorem part (tidy : Tidy (f ++ (x ++ r))) (front : Quote.code.after f = .code)
    (whole : Quote.code.after x = .code) (apart : joins f x = false) : Tidy x where
  lines := by
    have lines := tidy.lines
    rw [linesClosed_append front, linesClosed_append whole, Bool.and_eq_true, Bool.and_eq_true] at lines
    exact lines.2.1
  heads := by
    rintro before word rest rfl code seeks ends
    obtain ⟨some_, letters⟩ := isWordChar_of_seeks seeks
    by_cases inside : ∀ c ∈ rest, (c != '(') = true
    · rw [List.takeWhile_eq_self_iff.2 inside]
      rwa [Quote.after_append, code, Quote.after_append, after_word letters] at whole
    have more (t : List Char) : (rest ++ t).takeWhile (· != '(') = rest.takeWhile (· != '(') := by
      rw [List.takeWhile_append, if_neg fun long => inside ?_]
      exact List.takeWhile_eq_self_iff.1 ((List.takeWhile_prefix _).eq_of_length long)
    have head (t : List Char) : (rest ++ t).head? = rest.head? := by
      obtain ⟨e, rest', rfl⟩ : ∃ e rest', rest = e :: rest' := by
        cases rest with
        | nil => simp at inside
        | cons e rest' => exact ⟨e, rest', rfl⟩
      rfl
    rw [← more r]
    refine tidy.heads (f ++ before) word (rest ++ r) (by simp) (by simp [front, code]) ⟨?_, ?_⟩ ?_
    · obtain rfl | ⟨before', e, rfl⟩ := List.eq_nil_or_concat before
      · obtain ⟨e, word, rfl⟩ := List.exists_cons_of_ne_nil some_
        simpa [joins] using apart
      · simpa [joins] using seeks.1
    · refine seeks.2.imp_right fun ⟨else_, last⟩ => ⟨else_, ?_⟩
      rw [Spaced.trimEnd_append, if_neg fun none => by simp [none] at last]
      obtain eq | ⟨before', e, eq⟩ := List.eq_nil_or_concat (trimEnd before)
      · simp [eq] at last
      · rw [eq] at last ⊢
        simpa using last
    · simpa [joins, head] using ends

end Tidy

theorem SeeksParens.of_spaced {word : List Char} (same : Spaced q f f') (seeks : SeeksParens f word) :
    SeeksParens f' word := by
  have word_ (c : Char) (blank : isBlank c = true) := isWordChar_of_isBlank blank
  have last (c : Char) (blank : isBlank c = true) : (c == ')' || isWordChar c) = false := by
    have other : c ≠ ')' := Canonical.ne_of_class blank (by decide)
    simp [other, word_ c blank]
  rwa [SeeksParens, joins, ← same.getLast?_any word_, ← same.trimEnd.getLast?_any last]

theorem Spaced.tidy (same : Spaced .code a b) (tidy : Tidy a) : Tidy b where
  lines := by rw [← same.linesClosed_eq, tidy.lines]
  heads := by
    rintro front word rest rfl code seeks ends
    obtain ⟨some_, letters⟩ := Tidy.isWordChar_of_seeks seeks
    have closed := Tidy.after_word letters
    obtain ⟨e, word, rfl⟩ := List.exists_cons_of_ne_nil some_
    have solid := List.forall_mem_cons.1 fun c member => Canonical.isBlank_of_isWordChar (letters c member)
    obtain ⟨front', y, rfl, before, behind⟩ := same.symm.split solid.1
    obtain ⟨rest', rfl, more⟩ := behind.append_solid solid.2
    rw [code, ← Quote.after_cons, closed] at more
    have opens (c : Char) (blank : isBlank c = true) : (c != '(') = true := by
      simpa using Canonical.ne_of_class blank (by decide)
    rw [(more.takeWhile_dropWhile opens).1.after_eq]
    refine tidy.heads front' (e :: word) rest' rfl (by rw [← before.after_eq, code])
      (.of_spaced before seeks) ?_
    rwa [joins, ← more.head?_any_eq fun c blank => isWordChar_of_isBlank blank]

namespace Tidy

theorem trim (tidy : Tidy a) : Tidy (trim a) := by
  obtain ⟨before, behind, text, left, right⟩ := exists_blanks a
  have start : Quote.code.after before = .code := (Closed.blanks left).after_eq
  rw [text] at tidy
  have whole := tidy.after_eq
  rw [Quote.after_append, start] at whole
  refine tidy.part start (code_of_after_blank right whole) ?_
  · obtain rfl | ⟨before, c, rfl⟩ := List.eq_nil_or_concat before
    · rfl
    · rw [List.concat_eq_append]
      exact joins_concat (isWordChar_of_isBlank (left c (by simp))) _ _

-- What follows a semicolon is tidy.
theorem after_semicolon (tidy : Tidy (f ++ ([';'] ++ x))) (code : Quote.code.after f = .code) : Tidy x := by
  have start : Quote.code.after (f ++ [';']) = .code := by
    rw [Quote.after_append, code]
    rfl
  have whole := tidy.after_eq
  rw [← List.append_assoc, Quote.after_append, start] at whole
  rw [← List.append_assoc, ← List.append_nil x] at tidy
  exact tidy.part start whole (joins_concat (by decide) f x)

theorem splitTop (tidy : Tidy a) : ∀ part ∈ splitTop [';'] a, Tidy part := by
  generalize found : Text.splitTop [';'] a = parts
  induction parts generalizing a with
  | nil => exact absurd found (splitTop_ne_nil _ _)
  | cons first others ih =>
    rw [List.forall_mem_cons]
    by_cases last : others = []
    · subst last
      rw [← eq_of_splitTop found]
      exact ⟨tidy, by simp⟩
    · obtain ⟨rest, rfl, behind, -⟩ := exists_of_splitTop found last
      obtain ⟨one, more⟩ := List.cons.inj found
      have code := (ends_of_splitTopFrom (by decide) (Prod.ext one more) last).1
      refine ⟨tidy.part (f := []) rfl code rfl, ih (tidy.after_semicolon code) behind⟩

-- Blanks around a text make no difference.
theorem pad (tidy : Tidy a) (left : ∀ c ∈ g, isBlank c = true) (right : ∀ c ∈ r, isBlank c = true) :
    Tidy (g ++ (a ++ r)) where
  lines := by
    rw [linesClosed_append (Closed.blanks left).after_eq, linesClosed_append tidy.after_eq, tidy.lines,
      linesClosed_blank left, linesClosed_blank right]
    rfl
  heads := by
    intro front word rest text code seeks ends
    obtain ⟨some_, letters⟩ := isWordChar_of_seeks seeks
    have solid (c : Char) (member : c ∈ word) : isBlank c = false :=
      Canonical.isBlank_of_isWordChar (letters c member)
    obtain ⟨e, tail, first⟩ := List.exists_cons_of_ne_nil some_
    obtain ⟨init, last, final⟩ := (List.eq_nil_or_concat word).resolve_left some_
    rw [List.concat_eq_append] at final
    rw [first] at text
    obtain ⟨front, rfl, inner⟩ := behind_blank left (solid e (by simp [first])) text
    have shape : a ++ r = (front ++ init) ++ last :: rest := by
      rw [inner, List.append_eq, ← List.cons_append, ← first, final]
      simp
    obtain ⟨rest, rfl, rfl⟩ := before_blank right (solid last (by simp [final])) shape
    have opens : ∀ c ∈ r, (c != '(') = true := fun c member => by
      simpa using Canonical.ne_of_class (right c member) (by decide)
    have inside : Quote.code.after (rest.takeWhile (· != '(')) = .code := by
      refine tidy.heads front word rest (by simp [final]) ?_ ⟨?_, ?_⟩ ?_
      · rwa [Quote.after_append, (Closed.blanks left).after_eq] at code
      · obtain rfl | ⟨before, d, rfl⟩ := List.eq_nil_or_concat front
        · rfl
        · simpa [joins] using seeks.1
      · refine seeks.2.imp_right fun ⟨else_, body⟩ => ⟨else_, ?_⟩
        rw [Spaced.trimEnd_append, trimEnd_blank left] at body
        split at body
        · cases body
        · obtain none | ⟨before, d, eq⟩ := List.eq_nil_or_concat (trimEnd front)
          · contradiction
          · rw [eq] at body ⊢
            simpa using body
      · cases rest with
        | nil => simp [joins]
        | cons d rest => simpa [joins] using ends
    rw [List.takeWhile_append]
    split
    · rename_i whole
      rw [(List.takeWhile_prefix _).eq_of_length whole] at inside
      rw [List.takeWhile_eq_self_iff.2 opens, Quote.after_append, inside]
      exact (Closed.blanks right).after_eq
    · exact inside

end Tidy

end Heads

section Pieces

variable {ls rest : List (List Char)} {raw text : List Char} {loc : Location}

/-- Lines behind another one. -/
def trail (ls : List (List Char)) : List Char := ls.flatMap ('\n' :: ·)

@[simp] theorem trail_nil : trail [] = [] := rfl

@[simp] theorem trail_cons (line : List Char) (ls : List (List Char)) :
    trail (line :: ls) = '\n' :: (line ++ trail ls) := by simp [trail]

@[simp] theorem trail_append (ls more : List (List Char)) : trail (ls ++ more) = trail ls ++ trail more := by
  simp [trail]

theorem intercalate_cons (line : List Char) (ls : List (List Char)) :
    ['\n'].intercalate (line :: ls) = line ++ trail ls := by
  induction ls generalizing line with
  | nil => simp [List.intercalate]
  | cons next ls ih =>
    rw [trail_cons, ← ih next]
    simp [List.intercalate]

theorem Compound.piece_add (c : Compound) (some_ : c.lines ≠ []) (line : List Char) :
    (c.add line).piece.text = c.piece.text ++ '\n' :: line := by
  obtain ⟨first, others, eq⟩ : ∃ first others, c.lines.reverse = first :: others :=
    List.exists_cons_of_ne_nil (by simpa using some_)
  simp only [piece, add, List.reverse_cons, eq, List.cons_append, intercalate_cons, trail_append,
    trail_cons, trail_nil, List.append_nil, List.append_assoc]

-- Blanks in front of a gap belong to it.
theorem Spaced.widen (same : Spaced .code (c :: a) b) (blank : isBlank c = true)
    (more : ∀ c ∈ g, isBlank c = true) : Spaced .code (g ++ c :: a) b := by
  have space {t : List Char} (space : Space t) : Space (g ++ t) :=
    ⟨by simp [space.some_], List.forall_mem_append.2 ⟨more, space.blank⟩⟩
  generalize text : c :: a = t at same
  generalize from_ : Quote.code = q at same
  cases same with
  | nil q => cases text
  | cons d rest =>
    obtain ⟨rfl, rfl⟩ := List.cons.inj text
    subst from_
    rw [Canonical.next_of_not_isMark (plain_of_isBlank blank).1] at rest
    simpa using Spaced.gap (space (.singleton blank)) (.singleton blank) rest
  | gap left right rest =>
    rw [← List.append_assoc]
    exact .gap (space left) right rest

-- What is dropped at the end of a line is blank.
theorem exists_dropReturn (seen : List Char) :
    ∃ g, seen.reverse = (dropReturn seen).reverse ++ g ∧ ∀ c ∈ g, isBlank c = true := by
  unfold dropReturn
  split
  · exact ⟨['\r'], by simp, by decide⟩
  · exact ⟨[], by simp, by simp⟩

theorem spaced_linesFrom (seen : List Char) (closed : linesClosed (Quote.code.after seen.reverse) a = true) :
    Spaced .code ('\n' :: (seen.reverse ++ (a ++ ['\n']))) (trail (linesFrom seen a) ++ ['\n']) := by
  have newline : Space ['\n'] := .singleton (by decide)
  induction a generalizing seen with
  | nil =>
    rw [linesFrom]
    split
    · rename_i none
      rw [List.isEmpty_iff] at none
      subst none
      have wide : Space ['\n', '\n'] := newline.append newline.blank
      simpa using Spaced.gap wide newline (.nil .code)
    · simpa using Spaced.refl .code _
  | cons c a ih =>
    rw [linesClosed, Bool.and_eq_true] at closed
    by_cases ends : c = '\n'
    · subst ends
      have code : Quote.code.after seen.reverse = .code := by simpa using closed.1
      rw [code] at closed
      have later := ih [] closed.2
      have shape (t : List Char) : '\n' :: (t ++ trail (linesFrom [] a)) ++ ['\n'] =
          '\n' :: (t ++ (trail (linesFrom [] a) ++ ['\n'])) := by simp
      rw [linesFrom, if_pos rfl, trail_cons, shape]
      refine .cons '\n' ?_
      obtain ⟨g, eq, blank⟩ := exists_dropReturn seen
      rw [eq, List.append_assoc]
      refine (Spaced.refl _ _).append ?_
      rw [eq] at code
      have start : Quote.next .code '\n' = .code := rfl
      rw [start, code_of_after_blank blank code]
      exact Spaced.widen later (by decide) blank
    · rw [linesFrom, if_neg ends]
      simpa using ih (c :: seen) (by simpa using closed.2)

/-- What a line starts with behind closing braces and blanks. -/
def bareLine (raw : List Char) : List Char := trimStart ((trim raw).dropWhile (· == '\x7d'))

-- A line starts a statement, if there is text on it: a compound one behind a keyword, else a simple one.
theorem startLine_bareLine (number : Nat) (raw : List Char) (rest : List (List Char)) :
    CutState.startLine number raw rest =
      if Piece.isFiller (bareLine raw) then ([], .idle)
      else match leadingKeyword (bareLine raw) with
        | some k => CutState.absorb ⟨⟨number, byteSize raw - byteSize (trimStart raw) + 1⟩, [], 0, false,
            CutState.isChainWord k⟩ (bareLine raw) rest
        | none => CutState.join ⟨number, byteSize raw - byteSize (trimStart raw) + 1⟩ (bareLine raw)
            (Bracket.round.balance .code (bareLine raw)) := rfl

theorem startLine_filler (filler : Piece.isFiller (bareLine raw) = true) (number : Nat)
    (rest : List (List Char)) : CutState.startLine number raw rest = ([], .idle) := if_pos filler

theorem startLine_compound {k : Keyword} (solid : Piece.isFiller (bareLine raw) = false)
    (word : leadingKeyword (bareLine raw) = some k) (number : Nat) (rest : List (List Char)) :
    CutState.startLine number raw rest =
      CutState.absorb ⟨⟨number, byteSize raw - byteSize (trimStart raw) + 1⟩, [], 0, false,
        CutState.isChainWord k⟩ (bareLine raw) rest := by
  rw [startLine_bareLine, solid, word]
  rfl

theorem startLine_simple (solid : Piece.isFiller (bareLine raw) = false)
    (word : leadingKeyword (bareLine raw) = none) (number : Nat) (rest : List (List Char)) :
    CutState.startLine number raw rest =
      CutState.join ⟨number, byteSize raw - byteSize (trimStart raw) + 1⟩ (bareLine raw)
        (Bracket.round.balance .code (bareLine raw)) := by
  rw [startLine_bareLine, solid, word]
  rfl

theorem exists_bareLine (raw : List Char) : ∃ before behind, raw = before ++ (bareLine raw ++ behind) ∧
    (∀ c ∈ before, isBlank c = true ∨ c = '\x7d') ∧ ∀ c ∈ behind, isBlank c = true := by
  obtain ⟨left, right, text, leftBlank, rightBlank⟩ := exists_blanks raw
  have closers := List.takeWhile_append_dropWhile (p := (· == '\x7d')) (l := trim raw)
  have blanks := List.takeWhile_append_dropWhile (p := isBlank) (l := (trim raw).dropWhile (· == '\x7d'))
  refine ⟨left ++ ((trim raw).takeWhile (· == '\x7d') ++
    ((trim raw).dropWhile (· == '\x7d')).takeWhile isBlank), right, ?_, ?_, rightBlank⟩
  · have shape : trim raw = (trim raw).takeWhile (· == '\x7d') ++
        (((trim raw).dropWhile (· == '\x7d')).takeWhile isBlank ++ bareLine raw) := by
      rw [bareLine, trimStart, blanks, closers]
    calc raw = left ++ (trim raw ++ right) := text
      _ = _ := by
        conv_lhs => rw [shape]
        simp only [List.append_assoc]
  · simp only [List.forall_mem_append]
    refine ⟨fun c member => .inl (leftBlank c member), fun c member => .inr ?_,
      fun c member => .inl (List.mem_takeWhile_imp member)⟩
    simpa using List.mem_takeWhile_imp member

namespace Tidy

theorem before_trail (tidy : Tidy (text ++ trail ls)) : Tidy text := by
  cases ls with
  | nil => simpa using tidy
  | cons line ls =>
    have code : Quote.code.after text = .code := after_of_newline (by simpa using tidy.lines)
    exact tidy.part (f := []) rfl code rfl

theorem after_before_trail (tidy : Tidy (text ++ trail ls)) : Quote.code.after text = .code :=
  tidy.before_trail.after_eq

theorem trail_behind (tidy : Tidy (text ++ trail ls)) : Tidy (trail ls) := by
  have code := tidy.after_before_trail
  have whole := tidy.after_eq
  rw [Quote.after_append, code] at whole
  rw [← List.append_nil (trail ls)] at tidy
  refine tidy.part code whole ?_
  cases ls with
  | nil => simp [joins]
  | cons line ls => simp [joins, isWordChar]

-- Blanks at the end of a line make no difference.
theorem drop_blank (tidy : Tidy (text ++ (g ++ trail ls))) (blank : ∀ c ∈ g, isBlank c = true) :
    Tidy (text ++ trail ls) := by
  rw [← List.append_assoc] at tidy
  have code := code_of_after_blank blank tidy.after_before_trail
  cases ls with
  | nil =>
    rw [trail_nil, List.append_nil] at tidy ⊢
    exact tidy.part (f := []) rfl code rfl
  | cons line ls =>
    have newline : isBlank '\n' = true := by decide
    refine Spaced.tidy ?_ tidy
    rw [List.append_assoc, trail_cons]
    exact (Spaced.refl .code text).append (by
      rw [code]
      exact Spaced.widen (.refl .code _) newline blank)

theorem ofLine (tidy : Tidy text) : ∀ p ∈ Piece.ofLine loc text, Tidy p.text := by
  intro p member
  obtain ⟨part, inside, made⟩ := List.mem_filterMap.1 member
  obtain ⟨raw, parts, rfl⟩ := List.mem_map.1 inside
  split at made
  · cases made
  · cases made
    exact (tidy.splitTop raw parts).trim

end Tidy

/-- The text that the cutting has taken in so far. -/
def CutState.taken : CutState → List Char
  | idle => []
  | joining _ text _ => text
  | absorbing c => c.piece.text

/-- Whether what the cutting has taken in so far and the lines to come are tidy. -/
structure CutState.Coming (s : CutState) (ls : List (List Char)) : Prop where
  tidy : Tidy (s.taken ++ trail ls)
  some_ (c : Compound) (absorbs : s = .absorbing c) : c.lines ≠ []

-- What a step of the cutting gives and what it leaves.
def Leaves (taken : List Piece × CutState) (ls : List (List Char)) : Prop :=
  (∀ p ∈ taken.1, Tidy p.text) ∧ taken.2.Coming ls

section Steps

theorem leaves_join (parens : Int) (tidy : Tidy (text ++ trail rest)) :
    Leaves (CutState.join loc text parens) rest := by
  unfold CutState.join
  split
  · exact ⟨by simp, tidy, by simp⟩
  · exact ⟨tidy.before_trail.ofLine, tidy.trail_behind, by simp⟩

theorem leaves_absorb {c : Compound} {line : List Char}
    (tidy : Tidy ((c.add line).piece.text ++ trail rest)) : Leaves (CutState.absorb c line rest) rest := by
  unfold CutState.absorb
  dsimp only
  split
  · split
    · exact ⟨by simp, tidy, fun d absorbs => by cases absorbs; simp [Compound.add]⟩
    · exact ⟨by simpa using tidy.before_trail, tidy.trail_behind, by simp⟩
  · exact ⟨by simp, tidy, fun d absorbs => by cases absorbs; simp [Compound.add]⟩

theorem leaves_startLine (number : Nat) (tidy : Tidy (trail (raw :: rest))) :
    Leaves (CutState.startLine number raw rest) rest := by
  obtain ⟨before, behind, text, left, right⟩ := exists_bareLine raw
  have bare : Tidy (bareLine raw ++ trail rest) := by
    have plain : ∀ c ∈ '\n' :: before, isMark c = false := by
      rw [List.forall_mem_cons]
      refine ⟨rfl, fun c member => ?_⟩
      obtain blank | rfl := left c member
      · exact (plain_of_isBlank blank).1
      · rfl
    have start := after_of_unmarked plain
    have apart (t : List Char) : joins ('\n' :: before) t = false := by
      obtain none | ⟨front, c, eq⟩ := List.eq_nil_or_concat before
      · simp [none, joins, isWordChar]
      · have other : isWordChar c = false := by
          obtain blank | rfl := left c (by simp [eq])
          · exact isWordChar_of_isBlank blank
          · decide
        rw [eq, List.concat_eq_append, ← List.cons_append]
        exact joins_concat other _ _
    have shape : trail (raw :: rest) = ('\n' :: before) ++ ((bareLine raw ++ (behind ++ trail rest)) ++ []) := by
      rw [trail_cons]
      conv_lhs => rw [text]
      simp
    have whole := tidy.after_eq
    rw [shape, List.append_nil, Quote.after_append, start] at whole
    rw [shape] at tidy
    exact (tidy.part start whole (apart _)).drop_blank right
  have rest_ := bare.trail_behind
  rw [startLine_bareLine]
  split
  · exact ⟨by simp, rest_, by simp⟩
  · split
    · refine leaves_absorb ?_
      change Tidy (['\n'].intercalate [bareLine raw] ++ trail rest)
      rwa [intercalate_cons, trail_nil, List.append_nil]
    · exact leaves_join _ bare

theorem CutState.Coming.next {s : CutState} (coming : s.Coming (raw :: rest)) (number : Nat) :
    Leaves (s.next number raw rest) rest := by
  cases s with
  | idle => exact leaves_startLine number coming.tidy
  | joining loc text parens =>
    refine leaves_join _ ?_
    have tidy : Tidy (text ++ trail (raw :: rest)) := coming.tidy
    obtain ⟨left, right, shape, leftBlank, rightBlank⟩ := exists_blanks raw
    have code := tidy.after_before_trail
    -- The end of the line and the blanks around it are one gap.
    have newline : Space ('\n' :: left) := ⟨by simp, List.forall_mem_cons.2 ⟨by decide, leftBlank⟩⟩
    have blank : Space [' '] := .singleton (by decide)
    have same := Spaced.insert code newline blank (trim raw ++ (right ++ trail rest))
    have text_ : trail (raw :: rest) = ('\n' :: left) ++ (trim raw ++ (right ++ trail rest)) := by
      rw [trail_cons]
      conv_lhs => rw [shape]
      simp
    rw [text_] at tidy
    have joined := same.tidy tidy
    rw [← List.append_assoc text, ← List.append_assoc] at joined
    simpa using joined.drop_blank rightBlank
  | absorbing c =>
    refine leaves_absorb ?_
    have tidy := coming.tidy
    rw [c.piece_add (coming.some_ c rfl)]
    change Tidy (c.piece.text ++ trail (raw :: rest)) at tidy
    simpa using tidy

end Steps

theorem tidy_cutLines {s : CutState} (coming : s.Coming ls) (number : Nat) :
    ∀ p ∈ cutLines s number ls, Tidy p.text := by
  induction ls generalizing s number with
  | nil =>
    have tidy := coming.tidy.before_trail
    cases s with
    | idle => simp [cutLines, CutState.finish]
    | joining loc text parens => exact tidy.ofLine
    | absorbing c =>
      change Tidy c.piece.text at tidy
      simpa [cutLines, CutState.finish] using tidy
  | cons line ls ih =>
    obtain ⟨now, later⟩ := coming.next number
    rw [cutLines, List.forall_mem_append]
    exact ⟨now, ih later _⟩

/-- The statements that a tidy block is cut into are tidy. -/
theorem tidy_cutBlock (tidy : Tidy a) (number : Nat) : ∀ p ∈ cutBlock number a, Tidy p.text := by
  refine tidy_cutLines ⟨?_, by simp⟩ number
  have newline : ∀ c ∈ ['\n'], isBlank c = true := by decide
  have same := (spaced_linesFrom [] tidy.lines).tidy (tidy.pad newline newline)
  refine @Tidy.before_trail [[]] _ ?_
  simpa [CutState.taken, lines] using same

end Pieces

end Breadboard
