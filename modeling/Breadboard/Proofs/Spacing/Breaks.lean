import Breadboard.Proofs.Spacing.LeftOpen

set_option autoImplicit false

/-!
Breaks in the lines of a block. Main statement: a break within a statement makes no difference to what is
read; where the cutting takes a statement for complete, a break cuts it off.
-/
namespace Breadboard

open Text
open Canonical (Starts Ends Tight within?)

variable {q : Quote} {depth : Nat} {a b f g g' l m m' r r' t t' u w x y z z' : List Char} {c : Char}

section Merging

variable {rest : List (List Char)} {s : CutState} {c c' : Compound} {line : List Char} {loc : Location} {parens : Int}

/-- Two texts with a break behind the same front in the first one, and a blank in its place in the other one. -/
def Broken (w a b : List Char) : Prop :=
  ∃ z z', a = w ++ '\n' :: z ∧ b = w ++ ' ' :: z' ∧ Starts (isBlank · = false) z ∧
    Starts (isBlank · = false) z' ∧ Aligned z z'

/-- Two texts whose lines break in the same gaps, but behind one front at most. -/
def AlignedBut (w a b : List Char) : Prop := Aligned a b ∨ Broken w a b

theorem carries_alignedBut (w : List Char) : Carries (AlignedBut w) where
  start := .inl
  line {a b l l'} texts same := by
    obtain aligned | ⟨z, z', rfl, rfl, starts, starts', more⟩ := texts
    · exact .inl (aligned.newline same)
    · exact .inr ⟨z ++ '\n' :: l, z' ++ '\n' :: l', by simp, by simp, starts.append _, starts'.append _,
        more.newline same⟩
  left {a b l} texts blank := by
    obtain aligned | ⟨z, z', rfl, rfl, starts, starts', more⟩ := texts
    · exact .inl (carries_aligned.left aligned blank)
    · exact .inr ⟨z ++ '\n' :: l, z', by simp, rfl, starts.append _, starts', carries_aligned.left more blank⟩
  right {a b l} texts blank := by
    obtain aligned | ⟨z, z', rfl, rfl, starts, starts', more⟩ := texts
    · exact .inl (carries_aligned.right aligned blank)
    · exact .inr ⟨z, z' ++ '\n' :: l, rfl, by simp, starts, starts'.append _, carries_aligned.right more blank⟩

theorem absorb_of_waits (waits : (CutState.absorb c line []).2.isIdle = false) (rest : List (List Char)) :
    CutState.absorb c line rest = ([], .absorbing (c.add line)) := by
  have last : Compound.continuesIn [] = false := rfl
  unfold CutState.absorb at waits ⊢
  dsimp only at waits ⊢
  split at waits
  · rw [last, Bool.and_false] at waits
    cases waits
  · rename_i incomplete
    rw [if_neg incomplete]

theorem join_of_waits (waits : (CutState.join loc a parens).2.isIdle = false) :
    CutState.join loc a parens = ([], .joining loc a parens) := by
  unfold CutState.join at waits ⊢
  split at waits
  · rename_i open_
    exact if_pos open_
  · cases waits

theorem piece_extend (c : Compound) (line x : List Char) :
    (c.add (line ++ x)).piece.text = (c.add line).piece.text ++ x := by
  simp only [Compound.piece, Compound.add, List.reverse_cons]
  cases c.lines.reverse with
  | nil => simp [List.intercalate]
  | cons first others => simp [intercalate_cons]

-- Two lines of a compound statement, or one with a blank between them.
theorem merge_absorb (lines : c.lines = c'.lines) (depth : c.depth = c'.depth) (opened : c.opened = c'.opened)
    (chain : c.isChain = c'.isChain) (code : Quote.code.after line = .code) (same : Aligned m m')
    (starts : Starts (isBlank · = false) m) (starts' : Starts (isBlank · = false) m') :
    AbreastTaken (AlignedBut (c.add line).piece.text) (CutState.absorb (c.add line) m rest)
      (CutState.absorb c' (line ++ ' ' :: m') rest) := by
  have flat := balance_blank .curly (c := ' ') (by decide) m'
  have plain : containsCode 0x7b .code (' ' :: m') = containsCode 0x7b .code m' := by
    simp [containsCode]
    rfl
  refine abreast_absorb ?_ ?_ chain ?_ ?_ rfl
  · simp only [Compound.add, Bracket.balance_append, code, flat, depth, same.balance_eq .curly, Int.add_assoc]
  · simp only [Compound.add, Canonical.containsCode_append, code, plain, opened, same.containsCode_eq,
      Bool.or_assoc]
  · rw [← List.singleton_append, ← List.append_assoc, endsStatement_append starts', same.endsStatement_eq]
  · have text : (c'.add line).piece.text = (c.add line).piece.text := by
      rw [Compound.piece, Compound.piece, Compound.add, Compound.add, lines]
    refine .inr ⟨m, m', (c.add line).piece_add (List.cons_ne_nil _ _) m, ?_, starts, starts', same⟩
    rw [piece_extend, text]

theorem starts_trim (starts : Starts (isBlank · = false) m) :
    Starts (isBlank · = false) (trim m) ∧ ∃ g, m = trim m ++ g ∧ ∀ c ∈ g, isBlank c = true := by
  obtain ⟨left, right, text, blank, blank'⟩ := exists_blanks m
  obtain ⟨c, rest, first, solid⟩ := starts
  have none : left = [] := by
    cases left with
    | nil => rfl
    | cons d left =>
      rw [text] at first
      obtain ⟨rfl, -⟩ := List.cons.inj first
      rw [blank d List.mem_cons_self] at solid
      cases solid
  subst none
  have some_ : trim m ≠ [] := fun none => by
    have bare := trim_eq_nil_iff.1 none c (by simp [first])
    rw [solid] at bare
    cases bare
  exact ⟨(tight_trim some_).starts, right, text, blank'⟩

theorem ends_trim (ends : Ends l) : Ends (trim l) ∧ ∃ g, l = g ++ trim l ∧ ∀ c ∈ g, isBlank c = true := by
  obtain ⟨left, right, text, blank, blank'⟩ := exists_blanks l
  obtain ⟨front, c, last, solid⟩ := ends
  have none : right = [] := by
    obtain none | ⟨right, d, rfl⟩ := List.eq_nil_or_concat right
    · exact none
    · rw [last, List.concat_eq_append, ← List.append_assoc, ← List.append_assoc] at text
      obtain ⟨-, same⟩ := List.append_inj' text rfl
      obtain rfl := (List.cons.inj same).1
      rw [blank' c (by simp)] at solid
      cases solid
  subst none
  have some_ : trim l ≠ [] := fun none => by
    have bare := trim_eq_nil_iff.1 none c (by simp [last])
    rw [solid] at bare
    cases bare
  exact ⟨(tight_trim some_).ends, left, by simpa using text, blank⟩

theorem trim_joined (ends : Ends l) (starts : Starts (isBlank · = false) m) :
    trim (l ++ ' ' :: m) = trim l ++ ' ' :: trim m := by
  obtain ⟨ends', g, text, blank⟩ := ends_trim ends
  obtain ⟨starts', g', text', blank'⟩ := starts_trim starts
  have some_ : trim l ≠ [] := by
    obtain ⟨front, c, eq, -⟩ := ends'
    simp [eq]
  have some_' : trim m ≠ [] := by
    obtain ⟨c, rest, eq, -⟩ := starts'
    simp [eq]
  have tight : Tight (trim l ++ ' ' :: trim m) :=
    ⟨(tight_trim some_).starts.append _, (((tight_trim some_').ends.cons ' ').append _)⟩
  have whole : l ++ ' ' :: m = g ++ ((trim l ++ ' ' :: trim m) ++ g') := by
    conv_lhs => rw [text, text']
    simp
  rw [whole, tight.trim_between blank blank']

theorem bareLine_joined (ends : Ends l) (starts : Starts (isBlank · = false) m)
    (solid : Piece.isFiller (bareLine l) = false) : bareLine (l ++ ' ' :: m) = bareLine l ++ ' ' :: trim m := by
  have some_ : bareLine l ≠ [] := by
    intro none
    rw [none] at solid
    cases solid
  have rest : (trim l).dropWhile (· == '\x7d') ≠ [] := by
    intro none
    rw [bareLine, none] at some_
    exact some_ rfl
  rw [bareLine, trim_joined ends starts, List.dropWhile_append, if_neg (by simpa using rest), trimStart,
    List.dropWhile_append, if_neg]
  · rfl
  · rw [List.isEmpty_iff]
    exact some_

theorem isFiller_append (a b : List Char) :
    Piece.isFiller (a ++ b) = (Piece.isFiller a && Piece.isFiller b) := List.all_append

-- A line with text goes on being one, and starts with the keyword it started with, unless an `else` gets
-- its `if`.
theorem front_joined (ends : Ends l) (starts : Starts (isBlank · = false) m)
    (filler : Piece.isFiller (bareLine l) = false) :
    Piece.isFiller (bareLine (l ++ ' ' :: m)) = false ∧
      (leadingKeyword (bareLine (l ++ ' ' :: m)) = leadingKeyword (bareLine l) ∨
        leadingKeyword (bareLine l) = some .elseWord ∧
          leadingKeyword (bareLine (l ++ ' ' :: m)) = some .elseIf) := by
  have some_ : ¬∀ c ∈ bareLine l, isBlank c = true := by
    intro blank
    rw [Piece.isFiller, List.all_eq_false] at filler
    obtain ⟨d, member, other⟩ := filler
    simp [blank d member] at other
  rw [bareLine_joined ends starts filler, isFiller_append, filler, Bool.false_and]
  exact ⟨rfl, leadingKeyword_append some_ (c := ' ') (by decide) (trim m)⟩

-- The same text of a simple statement on both sides.
theorem join_alike (single : '\n' ∉ t) (code : Quote.code.after t = .code) (loc loc' : Location)
    (parens : Int) :
    AbreastTaken (AlignedBut w) (CutState.join loc t parens) (CutState.join loc' t parens) := by
  refine abreast_join (carries_alignedBut w) (.refl ?_) single single parens
  rw [linesClosed_inLine single, code]
  rfl

-- Two more lines of a simple statement, or one with a blank between them.
theorem merge_join (ends : Ends l) (starts : Starts (isBlank · = false) m) (code : Quote.code.after t = .code)
    (codeLast : Quote.code.after l = .code) (codeNext : Quote.code.after m = .code) (single : '\n' ∉ t)
    (inLine : '\n' ∉ l) (inLine' : '\n' ∉ m) (loc : Location) (parens : Int) :
    AbreastTaken (AlignedBut w)
      (CutState.join loc (t ++ ' ' :: trim l ++ ' ' :: trim m)
        (parens + Bracket.round.balance .code l + Bracket.round.balance .code m))
      (CutState.join loc (t ++ ' ' :: trim (l ++ ' ' :: m))
        (parens + Bracket.round.balance .code (l ++ ' ' :: m))) := by
  have level : parens + Bracket.round.balance .code (l ++ ' ' :: m) =
      parens + Bracket.round.balance .code l + Bracket.round.balance .code m := by
    rw [Bracket.balance_append, codeLast, balance_blank .round (by decide), Int.add_assoc]
  have text : t ++ ' ' :: trim l ++ ' ' :: trim m = t ++ ' ' :: trim (l ++ ' ' :: m) := by
    rw [trim_joined ends starts]
    simp
  rw [level, text]
  refine join_alike ?_ ?_ loc loc _
  · have part : '\n' ∉ trim (l ++ ' ' :: m) := fun found => by
      have found := (trim_sublist _).mem found
      simp [inLine, inLine'] at found
    simp [single, part]
  · rw [Quote.after_append, code]
    refine after_trim (a := l ++ ' ' :: m) ?_
    rw [Quote.after_append, codeLast]
    exact codeNext

-- The first two lines of a compound statement, or one with a blank between them.
theorem merge_compound {k : Keyword} (number number' : Nat) (rest : List (List Char))
    (waits : (CutState.startLine number l []).2.isIdle = false) (ends : Ends l)
    (starts : Starts (isBlank · = false) m) (code : Quote.code.after l = .code)
    (closed' : linesClosed .code m = true) (filler : Piece.isFiller (bareLine l) = false)
    (word : leadingKeyword (bareLine l) = some k) :
    (CutState.startLine number l (m :: rest)).1 = [] ∧
      AbreastTaken (AlignedBut (CutState.startLine number l []).2.compound)
        ((CutState.startLine number l (m :: rest)).2.next number' m rest)
        (CutState.startLine number (l ++ ' ' :: m) rest) := by
  obtain ⟨solid, keyword⟩ := front_joined ends starts filler
  obtain ⟨k', word', chain⟩ : ∃ k', leadingKeyword (bareLine (l ++ ' ' :: m)) = some k' ∧
      CutState.isChainWord k = CutState.isChainWord k' := by
    rw [word] at keyword
    obtain same | ⟨else_, elseIf⟩ := keyword
    · exact ⟨k, same, rfl⟩
    · cases else_
      exact ⟨_, elseIf, rfl⟩
  have same : Aligned m (trim m) := by
    obtain ⟨-, g, text, blank⟩ := starts_trim starts
    have aligned := (Aligned.refl (a := trim m) (by rw [linesClosed_trim, closed'])).behind blank
    rwa [← text] at aligned
  rw [startLine_compound filler word] at waits ⊢
  rw [startLine_compound filler word, startLine_compound solid word', bareLine_joined ends starts filler]
  simp only [absorb_of_waits waits]
  exact ⟨trivial, merge_absorb rfl rfl rfl chain (after_bareLine code) same starts (starts_trim starts).1⟩

-- The first two lines of a simple statement, or one with a blank between them.
theorem merge_simple (number number' : Nat) (rest : List (List Char))
    (waits : (CutState.startLine number l []).2.isIdle = false) (ends : Ends l)
    (starts : Starts (isBlank · = false) m) (code : Quote.code.after l = .code)
    (closed' : linesClosed .code m = true) (inLine : '\n' ∉ l) (inLine' : '\n' ∉ m)
    (filler : Piece.isFiller (bareLine l) = false) (word : leadingKeyword (bareLine l) = none) :
    (CutState.startLine number l (m :: rest)).1 = [] ∧
      AbreastTaken (AlignedBut (CutState.startLine number l []).2.compound)
        ((CutState.startLine number l (m :: rest)).2.next number' m rest)
        (CutState.startLine number (l ++ ' ' :: m) rest) := by
  obtain ⟨solid, keyword⟩ := front_joined ends starts filler
  have word' : leadingKeyword (bareLine (l ++ ' ' :: m)) = none := by
    rw [word] at keyword
    exact keyword.resolve_right fun other => by cases other.1
  have startCode := after_bareLine code
  have code' := after_of_linesClosed closed'
  have level : Bracket.round.balance .code (bareLine l ++ ' ' :: trim m) =
      Bracket.round.balance .code (bareLine l) + Bracket.round.balance .code m := by
    rw [Bracket.balance_append, startCode, balance_blank .round (by decide), balance_trim _ code']
  rw [startLine_simple filler word] at waits ⊢
  rw [startLine_simple filler word, startLine_simple solid word', bareLine_joined ends starts filler]
  simp only [join_of_waits waits]
  rw [level]
  refine ⟨trivial, join_alike ?_ ?_ _ _ _⟩
  · have left : '\n' ∉ bareLine l := fun found => inLine (mem_of_mem_bareLine found)
    have right : '\n' ∉ trim m := fun found => inLine' ((trim_sublist m).mem found)
    simp [left, right]
  · rw [Quote.after_append, startCode]
    exact after_trim code'

-- A line that takes the cutting into a statement and the next one, or one line with a blank between them.
theorem abreast_merge (steady : Abreast Aligned s s) (number : Nat) (rest : List (List Char))
    (waits : (s.next number l []).2.isIdle = false) (ends : Ends l) (starts : Starts (isBlank · = false) m)
    (closed : linesClosed .code l = true) (closed' : linesClosed .code m = true) (inLine : '\n' ∉ l)
    (inLine' : '\n' ∉ m) :
    (s.next number l (m :: rest)).1 = [] ∧ AbreastTaken (AlignedBut (s.next number l []).2.compound)
      ((s.next number l (m :: rest)).2.next (number + 1) m rest) (s.next number (l ++ ' ' :: m) rest) := by
  have code := after_of_linesClosed closed
  cases s with
  | absorbing c =>
    simp only [CutState.next, absorb_of_waits waits]
    exact ⟨trivial, merge_absorb rfl rfl rfl rfl code (.refl closed') starts starts⟩
  | joining loc text open_ =>
    cases steady with
    | joining _ same single _ =>
    simp only [CutState.next, join_of_waits waits]
    exact ⟨trivial, merge_join ends starts same.after_eq code (after_of_linesClosed closed') single inLine
      inLine' loc open_⟩
  | idle =>
    change (CutState.startLine number l []).2.isIdle = false at waits
    cases filler : Piece.isFiller (bareLine l) with
    | true =>
      rw [startLine_filler filler] at waits
      cases waits
    | false =>
      cases word : leadingKeyword (bareLine l) with
      | some k => exact merge_compound number (number + 1) rest waits ends starts code closed' filler word
      | none =>
        exact merge_simple number (number + 1) rest waits ends starts code closed' inLine inLine' filler word

end Merging

section Cutting

variable {s : CutState} {ls ms rest rest' : List (List Char)}

-- A text ends with a line that is not ended yet.
theorem exists_lastLine (x : List Char) : ∃ front l, x = front ++ l ∧ '\n' ∉ l ∧
    ∀ y, lines (front ++ y) = lines front ++ lines y := by
  by_cases broken : '\n' ∈ x
  · obtain ⟨behind, front, text, inLine⟩ := List.eq_append_cons_of_mem (List.mem_reverse.2 broken)
    refine ⟨front.reverse ++ ['\n'], behind.reverse, ?_, by simpa using inLine, fun y => ?_⟩
    · rw [← List.reverse_reverse x, text]
      simp
    · rw [List.append_assoc]
      exact lines_newline _ y
  · exact ⟨[], x, rfl, broken, fun y => rfl⟩

-- A text that starts with a character that is not blank goes on with the line in front of it.
theorem exists_firstLine (starts : Starts (isBlank · = false) y) : ∃ m rest, Starts (isBlank · = false) m ∧
    ∀ seen, linesFrom seen y = (seen.reverse ++ m) :: rest := by
  obtain ⟨c, y, rfl, solid⟩ := starts
  have other {d : Char} (blank : isBlank d = true) : c ≠ d := by
    rintro rfl
    rw [solid] at blank
    cases blank
  have from_ (y sofar : List Char) : ∃ m rest, ∀ seen,
      linesFrom (sofar ++ c :: seen) y = (seen.reverse ++ c :: m) :: rest := by
    induction y generalizing sofar with
    | nil =>
      refine ⟨sofar.reverse, [], fun seen => ?_⟩
      rw [linesFrom, if_neg (by simp)]
      simp
    | cons d y ih =>
      by_cases newline : d = '\n'
      · refine ⟨(dropReturn sofar).reverse, linesFrom [] y, fun seen => ?_⟩
        have kept : dropReturn (sofar ++ c :: seen) = dropReturn sofar ++ c :: seen := by
          unfold dropReturn
          split
          · rename_i rest eq
            cases sofar with
            | nil =>
              obtain ⟨rfl, -⟩ := List.cons.inj eq
              exact absurd rfl (other (by decide))
            | cons e sofar =>
              obtain ⟨rfl, rfl⟩ := List.cons.inj eq
              rfl
          · rename_i different
            cases sofar with
            | nil => rfl
            | cons e sofar =>
              split
              · rename_i rest eq
                obtain ⟨rfl, rfl⟩ := List.cons.inj eq
                exact absurd rfl (different _)
              · rfl
        rw [linesFrom, if_pos newline, kept]
        simp
      · obtain ⟨m, rest, eq⟩ := ih (d :: sofar)
        refine ⟨m, rest, fun seen => ?_⟩
        rw [linesFrom, if_neg newline]
        exact eq seen
  obtain ⟨m, rest, eq⟩ := from_ y []
  refine ⟨c :: m, rest, ⟨c, m, rfl, solid⟩, fun seen => ?_⟩
  rw [linesFrom, if_neg (other (by decide))]
  exact eq seen

theorem linesClosed_of_mem_linesFrom {seen : List Char}
    (closed : linesClosed (Quote.code.after seen.reverse) x = true) (inLine : '\n' ∉ seen) :
    ∀ l ∈ linesFrom seen x, linesClosed .code l = true := by
  induction x generalizing seen with
  | nil =>
    unfold linesFrom
    split
    · simp
    · have code := after_of_linesClosed closed
      rw [Quote.after_nil] at code
      simp [linesClosed_inLine (q := .code) (a := seen.reverse) (by simpa using inLine), code]
  | cons c x ih =>
    rw [linesClosed, Bool.and_eq_true] at closed
    unfold linesFrom
    split
    · rename_i newline
      subst newline
      have code : Quote.code.after seen.reverse = .code := by simpa using closed.1
      rw [code] at closed
      have later : ∀ l ∈ linesFrom [] x, linesClosed .code l = true := ih closed.2 (by simp)
      refine List.forall_mem_cons.2 ⟨?_, later⟩
      have single : '\n' ∉ (dropReturn seen).reverse := fun found =>
        inLine (mem_of_mem_dropReturn (List.mem_reverse.1 found))
      rw [← linesClosed_trim, trim_dropReturn, linesClosed_trim, linesClosed_inLine (by simpa using inLine), code]
      rfl
    · rename_i other
      exact ih (by simpa using closed.2) (by simp [Ne.symm other, inLine])

theorem linesClosed_of_mem_lines (closed : linesClosed .code x = true) :
    ∀ l ∈ lines x, linesClosed .code l = true := by
  rw [lines]
  exact linesClosed_of_mem_linesFrom closed (by simp)

-- The lines of a text with a break, and with a blank in its place.
theorem lines_break (ends : Ends x) (starts : Starts (isBlank · = false) y) :
    ∃ front l m others, x = front ++ l ∧ Ends l ∧ '\n' ∉ l ∧ Starts (isBlank · = false) m ∧
      lines x = lines front ++ [l] ∧ lines (x ++ '\n' :: y) = lines front ++ l :: m :: others ∧
      lines (x ++ ' ' :: y) = lines front ++ (l ++ ' ' :: m) :: others := by
  obtain ⟨before, c, rfl, solid⟩ := ends
  obtain ⟨front, l, rfl, single, split⟩ := exists_lastLine before
  obtain ⟨m, others, starts', behind⟩ := exists_firstLine starts
  have ends : Ends (l ++ [c]) := ⟨l, c, rfl, solid⟩
  have newline : c ≠ '\n' := by
    rintro rfl
    exact absurd solid (by decide)
  replace single : '\n' ∉ l ++ [c] := by simp [single, Ne.symm newline]
  rw [List.append_assoc front]
  refine ⟨front, l ++ [c], m, others, rfl, ends, single, starts', ?_, ?_, ?_⟩
  · rw [split, lines_single single (by simp)]
  · have rest : lines y = m :: others := behind []
    rw [List.append_assoc, split, lines_ended single ends, rest]
  · have shape : (l ++ [c]) ++ ' ' :: y = (l ++ [c] ++ [' ']) ++ y := by simp
    have whole : lines ((l ++ [c]) ++ ' ' :: y) = (l ++ [c] ++ ' ' :: m) :: others := by
      rw [shape, lines, linesFrom_inLine [] y (by simpa using single), behind]
      simp
    rw [List.append_assoc, split, whole]

-- The statements of a block with a break within one of them, or with a blank in its place.
theorem cutBlock_break (closed : linesClosed .code (x ++ '\n' :: y) = true) (ends : Ends x)
    (starts : Starts (isBlank · = false) y) (going : goesOn x = true) (inside : Inside x) :
    ∃ w, Inside w ∧ List.Forall₂ (fun p p' => AlignedBut w p.text p'.text) (cutBlock 0 (x ++ '\n' :: y))
      (cutBlock 0 (x ++ ' ' :: y)) := by
  obtain ⟨front, l, m, others, rfl, ends, single, starts', last, text, text'⟩ := lines_break ends starts
  have alone : ¬∀ d ∈ l, isBlank d = true := by
    obtain ⟨before, c, rfl, solid⟩ := ends
    intro blank
    rw [blank c (by simp)] at solid
    cases solid
  have each := linesClosed_of_mem_lines closed
  have inLine := not_mem_lines (front ++ l ++ '\n' :: y)
  rw [text] at each inLine
  simp only [List.forall_mem_append, List.forall_mem_cons] at each inLine
  obtain ⟨closedFront, closedLast, closedNext, closedOthers⟩ := each
  obtain ⟨inLineFront, -, inLineNext, inLineOthers⟩ := inLine
  -- How the line goes on changes nothing in front of it.
  have bare {l : List Char} (alone : ¬∀ d ∈ l, isBlank d = true) (rest : List (List Char)) :
      Compound.continuesIn (l :: rest) = opensElse l := by
    rw [continuesIn_cons, if_neg (by rwa [isBlankText_iff])]
  have context : Compound.continuesIn (l :: m :: others) = Compound.continuesIn [l] := by
    rw [bare alone, bare alone]
  have context' : Compound.continuesIn ((l ++ ' ' :: m) :: others) = Compound.continuesIn [l] := by
    rw [bare alone, bare, opensElse_append alone (by decide)]
    exact fun blank => alone fun d member => blank d (by simp [member])
  have same : LinesAlike [l] [l] := .refl (by simpa using closedLast)
  obtain ⟨pieces, steady⟩ := abreast_run carries_aligned .idle (.refl closedFront) same inLineFront inLineFront 0 0
  have within : (CutState.idle.run [l] 0 (lines front)).2.Within [l] := by
    have aligned := aligned_trail_lines (linesClosed_front closed)
    rw [last] at aligned
    refine CutState.Within.run ⟨?_, ?_, by simp⟩ 0 [l]
    · exact inside.of_aligned aligned
    · exact aligned.symm.closed
  have waits : (((CutState.idle.run [l] 0 (lines front)).2.next (0 + (lines front).length) l []).2).isIdle = false := by
    rw [goesOn, last, run_append, Bool.not_eq_true'] at going
    exact going
  rw [cutBlock, cutBlock, text, text', cutLines_append, cutLines_append, run_congr context, run_congr context']
  generalize (CutState.idle.run [l] 0 (lines front)).2 = s at steady within waits
  have ending := within.next (0 + (lines front).length) []
  obtain ⟨nothing, taken, state⟩ := abreast_merge steady _ others waits ends starts' closedLast closedNext single
    inLineNext
  refine ⟨(s.next (0 + (lines front).length) l []).2.compound, by simpa using ending.inside, ?_⟩
  refine List.rel_append (pieces.imp fun _ _ => .inl) ?_
  rw [cutLines, cutLines, cutLines, nothing, List.nil_append]
  refine List.rel_append taken ?_
  exact cutLines_alike (carries_alignedBut _) state (.refl closedOthers) inLineOthers inLineOthers _ _

end Cutting

section Reading

theorem ReadAlike.trans {a b d : List Char} (first : ReadAlike a b) (then_ : ReadAlike b d) : ReadAlike a d :=
  fun n n' => (first n 0).trans (then_ 0 n')

theorem spaced_break (code : Quote.code.after x = .code) (y : List Char) :
    Spaced .code (x ++ '\n' :: y) (x ++ ' ' :: y) := by
  have newline : Space ['\n'] := .singleton (by decide)
  have blank : Space [' '] := .singleton (by decide)
  exact Spaced.insert code newline blank y

-- What two fronts of a text hold is the same if they have the same code.
theorem aligned_front (text : t ++ r = t' ++ r') (closed : linesClosed .code (t ++ r) = true)
    (code : Quote.code.after t = .code) (same : solids t = solids t') : Aligned t t' := by
  rw [linesClosed_append code, Bool.and_eq_true] at closed
  obtain ⟨more, rfl, -⟩ | ⟨more, rfl, -⟩ := List.append_eq_append_iff.1 text
  · have bare := solids_eq_nil_iff.1 (by simpa [solids_append] using same)
    exact ((Aligned.refl closed.1).behind bare).symm
  · have bare := solids_eq_nil_iff.1 (by simpa [solids_append] using same)
    have code' := code_of_after_blank bare code
    rw [linesClosed_append code', Bool.and_eq_true] at closed
    exact (Aligned.refl closed.1.1).behind bare

-- So are the blocks behind two fronts with the same code.
theorem aligned_block (closed : linesClosed .code (x ++ '\x7b' :: (t ++ r)) = true)
    (text : x ++ '\x7b' :: (t ++ r) = y ++ '\x7b' :: (t' ++ r')) (front : solids x = solids y)
    (code : Quote.code.after x = .code) (code' : Quote.code.after t = .code) (same : solids t = solids t') :
    Aligned t t' := by
  have solid : isBlank '\x7b' = false := by decide
  obtain ⟨-, -, rest⟩ := eq_of_split solid solid text front
  have shape : x ++ '\x7b' :: (t ++ r) = (x ++ ['\x7b']) ++ (t ++ r) := by simp
  rw [shape] at closed
  have behind := linesClosed_behind closed
  rw [Quote.after_append, code] at behind
  exact aligned_front rest behind code' same

-- A break stands in front of a brace or behind it.
theorem break_cases (text : w ++ '\n' :: z = x ++ '\x7b' :: t) :
    (∃ m, x = w ++ '\n' :: m ∧ z = m ++ '\x7b' :: t) ∨ ∃ m, w = x ++ '\x7b' :: m ∧ t = m ++ '\n' :: z := by
  obtain ⟨more, rfl, later⟩ | ⟨more, rfl, later⟩ := List.append_eq_append_iff.1 text
  · cases more with
    | nil => cases later
    | cons c more =>
      obtain ⟨rfl, rest⟩ := List.cons.inj later
      exact .inl ⟨more, rfl, rest⟩
  · cases more with
    | nil => cases later
    | cons c more =>
      obtain ⟨rfl, rest⟩ := List.cons.inj later
      exact .inr ⟨more, rfl, rest⟩

-- A break stands behind a text or within it.
theorem behind_or_within (text : t ++ r = x ++ '\n' :: z) :
    (∃ m, x = t ++ m) ∨ ∃ y, t = x ++ '\n' :: y ∧ z = y ++ r := by
  obtain ⟨more, rfl, -⟩ | ⟨more, rfl, later⟩ := List.append_eq_append_iff.1 text
  · exact .inl ⟨more, rfl⟩
  · cases more with
    | nil => exact .inl ⟨[], by simp⟩
    | cons c more =>
      obtain ⟨rfl, rest⟩ := List.cons.inj later
      exact .inr ⟨more, rfl, rest⟩

-- What reading needs of two texts with a break in one and a blank in its place in the other one.
theorem kin_break (tidy : Tidy (w ++ '\n' :: z)) (inside : Inside w)
    (blocks : ∀ x y, (x ++ '\n' :: y).length < (w ++ '\n' :: z).length → Tidy (x ++ '\n' :: y) →
      Unfinished x → ReadAlike (x ++ '\n' :: y) (x ++ ' ' :: y)) :
    Kin (w ++ '\n' :: z) (w ++ ' ' :: z) where
  same := spaced_break (after_of_newline tidy.lines) z
  tidy := tidy
  blocks := by
    intro f t r f' t' r' text text' front code block whole open_
    have shape (m : List Char) : f ++ '\x7b' :: m = (f ++ ['\x7b']) ++ m := by simp
    have start : Quote.code.after (f ++ ['\x7b']) = .code := by
      rw [Quote.after_append, code]
      rfl
    have tidy_ : Tidy t := by
      rw [text, shape] at tidy
      exact tidy.part start whole (joins_concat (by decide) f t)
    have closed : linesClosed .code (w ++ ' ' :: z) = true := by
      rw [← (spaced_break (after_of_newline tidy.lines) z).linesClosed_eq, tidy.lines]
    obtain ⟨m, rfl, rfl⟩ | ⟨x, rfl, inner⟩ := break_cases text
    · have same := spaced_break (after_of_newline tidy.lines) m
      have later : w ++ ' ' :: (m ++ '\x7b' :: (t ++ r)) = (w ++ ' ' :: m) ++ '\x7b' :: (t ++ r) := by simp
      rw [later] at closed text'
      refine (aligned_block closed text' ?_ ?_ whole block.solids_eq).readAlike tidy_
      · rw [← same.solids_eq, front.solids_eq]
      · rw [← same.after_eq, code]
    rw [List.append_assoc, List.cons_append] at closed text'
    obtain ⟨m, rfl⟩ | ⟨y, rfl, rfl⟩ := behind_or_within inner
    · rw [List.append_assoc] at closed text'
      exact (aligned_block closed text' front.solids_eq code whole block.solids_eq).readAlike tidy_
    -- The break stands within the block, which is shorter than the text that it stands in.
    · have between := spaced_break (after_of_newline tidy_.lines) y
      have unfinished : Unfinished x := by
        refine List.forall_mem_cons.2 ⟨inside x (mem_openBlocks.2 ⟨f, rfl, code, close_front open_⟩), ?_⟩
        rw [shape] at inside
        exact inside.behind start
      have first : ReadAlike (x ++ '\n' :: y) (x ++ ' ' :: y) := by
        refine blocks x y ?_ tidy_ unfinished
        simp only [List.length_append, List.length_cons]
        omega
      have later : x ++ ' ' :: (y ++ r) = (x ++ ' ' :: y) ++ r := by simp
      rw [later] at closed text'
      refine first.trans ((aligned_block closed text' front.solids_eq code ?_ ?_).readAlike (between.tidy tidy_))
      · rw [← between.after_eq, whole]
      · rw [← between.solids_eq, block.solids_eq]

-- Behind a blank a text stands where it would stand behind another one.
theorem aligned_behind (code : Quote.code.after w = .code) (closed : linesClosed .code w = true)
    (starts : Starts (isBlank · = false) z) (starts' : Starts (isBlank · = false) z') (more : Aligned z z') :
    Aligned (w ++ ' ' :: z) (w ++ ' ' :: z') where
  same := by
    have space : Space [' '] := .singleton (by decide)
    exact spaced_joined (.refl _ _) (after_trim code) more.same space space
  breaks := by
    have first (fresh : Bool) (rest : List Char) {c : Char} (solid : isBlank c = false) :
        placedFrom fresh (c :: rest) = (c, fresh) :: placedFrom false rest := by
      rw [placedFrom, if_neg (by simp [solid])]
    obtain ⟨c, rest, rfl, solid⟩ := starts
    obtain ⟨c', rest', rfl, solid'⟩ := starts'
    have same := more.breaks
    rw [placed, placed, first true rest solid, first true rest' solid'] at same
    obtain ⟨char, later⟩ := List.cons.inj same
    have blank : isBlank ' ' = true := by decide
    simp only [placed, placedFrom_append, placedFrom, blank, solid', if_true, Bool.false_eq_true, if_false,
      (Prod.mk.inj char).1, later]
  closed := by
    rw [linesClosed_append code, closed, linesClosed]
    exact more.closed

-- The break stands right behind the text in front of it and right in front of the text behind it.
theorem readAlike_tight (tidy : Tidy (x ++ '\n' :: y)) (unfinished : Unfinished x) (ends : Ends x)
    (starts : Starts (isBlank · = false) y)
    (blocks : ∀ x' y', (x' ++ '\n' :: y').length < (x ++ '\n' :: y).length → Tidy (x' ++ '\n' :: y') →
      Unfinished x' → ReadAlike (x' ++ '\n' :: y') (x' ++ ' ' :: y')) :
    ReadAlike (x ++ '\n' :: y) (x ++ ' ' :: y) := by
  obtain ⟨midway_, inside⟩ := List.forall_mem_cons.1 unfinished
  have going : goesOn x = true := by
    obtain ⟨front, c, rfl, solid⟩ := ends
    have some_ : isBlankText (front ++ [c]) = false := by simp [isBlankText, solid]
    rwa [midway, some_, Bool.false_or] at midway_
  have same := spaced_break (after_of_newline tidy.lines) y
  have tidy' := same.tidy tidy
  obtain ⟨w, inner, pieces⟩ := cutBlock_break tidy.lines ends starts going inside
  have known := (List.forall₂_and_left _ _).2 ⟨fun p member => And.intro (tidy_cutBlock tidy 0 p member)
    (length_cutBlock p member), pieces⟩
  intro n n'
  have first := (Aligned.refl tidy.lines).readAlike tidy n 0
  have last := (Aligned.refl tidy'.lines).readAlike tidy' 0 n'
  refine first.trans ((map_gist_readAll (known.imp ?_)).trans last)
  rintro p p' ⟨⟨tidyPiece, short⟩, aligned | ⟨z, z', text, text', starts, starts', more⟩⟩ loc loc'
  · exact aligned.gist_read tidyPiece loc loc'
  · rw [text] at tidyPiece short ⊢
    rw [text']
    have kin := kin_break tidyPiece inner fun x' y' shorter => blocks x' y' (by omega)
    have code := after_of_newline tidyPiece.lines
    have front := (linesClosed_front tidyPiece.lines)
    exact (Stmt.gist_read kin loc loc).trans
      ((aligned_behind code front starts starts' more).gist_read (kin.same.tidy tidyPiece) loc loc')

-- Gaps between which a line breaks in both or in none, or that stand at an end of the text.
theorem aligned_gap (closed : linesClosed .code (x ++ (g ++ y)) = true) (code : Quote.code.after x = .code)
    (gap : Space g) (gap' : Space g')
    (alike : (∀ c ∈ x, isBlank c = true) ∨ (∀ c ∈ y, isBlank c = true) ∨ ('\n' ∈ g ↔ '\n' ∈ g')) :
    Aligned (x ++ (g ++ y)) (x ++ (g' ++ y)) where
  same := (Spaced.insert code gap gap' y).trim
  breaks := by
    obtain blank | blank | alike := alike
    · rw [placed_front blank, placed_front blank, placed_front gap.blank, placed_front gap'.blank]
    · rw [placed_behind (List.forall_mem_append.2 ⟨gap.blank, blank⟩),
        placed_behind (List.forall_mem_append.2 ⟨gap'.blank, blank⟩)]
    · have same : g.contains '\n' = g'.contains '\n' := by
        rw [Bool.eq_iff_iff, List.contains_iff_mem, List.contains_iff_mem, alike]
      simp only [placed, placedFrom_append, placedFrom_blank gap.blank, placedFrom_blank gap'.blank,
        freshAfter_blank gap.blank, freshAfter_blank gap'.blank, same]
  closed := closed

/-- A break within a statement is read as a blank. -/
theorem readAlike_break (tidy : Tidy (x ++ '\n' :: y)) (unfinished : Unfinished x) :
    ReadAlike (x ++ '\n' :: y) (x ++ ' ' :: y) := by
  induction length : (x ++ '\n' :: y).length using Nat.strongRecOn generalizing x y with
  | _ n ih =>
  have newline : Space ['\n'] := .singleton (by decide)
  have blank : Space [' '] := .singleton (by decide)
  by_cases edge : (∀ c ∈ x, isBlank c = true) ∨ ∀ c ∈ y, isBlank c = true
  · exact (aligned_gap tidy.lines (after_of_newline tidy.lines) newline blank
      (edge.imp id .inl)).readAlike tidy
  rw [not_or] at edge
  obtain ⟨x₁, g, rfl, blanks, ends⟩ : ∃ x₁ g, x = x₁ ++ g ∧ (∀ c ∈ g, isBlank c = true) ∧ Ends x₁ := by
    obtain ⟨left, right, text, -, blanks⟩ := exists_blanks x
    have tight := tight_trim fun none => edge.1 (trim_eq_nil_iff.1 none)
    exact ⟨left ++ trim x, right, by rwa [List.append_assoc], blanks, tight.ends.append _⟩
  obtain ⟨g', y₁, rfl, blanks', starts⟩ : ∃ g' y₁, y = g' ++ y₁ ∧ (∀ c ∈ g', isBlank c = true) ∧
      Starts (isBlank · = false) y₁ := by
    obtain ⟨left, right, text, blanks, -⟩ := exists_blanks y
    have tight := tight_trim fun none => edge.2 (trim_eq_nil_iff.1 none)
    exact ⟨left, trim y ++ right, text, blanks, tight.starts.append _⟩
  have gap (c : Char) (blank : isBlank c = true) : Space (g ++ c :: g') :=
    ⟨by simp, List.forall_mem_append.2 ⟨blanks, List.forall_mem_cons.2 ⟨blank, blanks'⟩⟩⟩
  have shape (c : Char) : (x₁ ++ g) ++ c :: (g' ++ y₁) = x₁ ++ ((g ++ c :: g') ++ y₁) := by simp
  have wide := gap '\n' (by decide)
  have wide' := gap ' ' (by decide)
  rw [shape] at tidy length
  rw [shape, shape]
  have closed := tidy.lines
  have code : Quote.code.after x₁ = .code := by
    refine code_of_after_blank blanks (after_of_newline (b := g' ++ y₁) ?_)
    rwa [shape]
  by_cases broken : '\n' ∈ g ++ g'
  · refine (aligned_gap closed code wide wide' (.inr (.inr ?_))).readAlike tidy
    rw [List.mem_append] at broken
    simp [broken]
  · rw [List.mem_append, not_or] at broken
    have first : Aligned (x₁ ++ ((g ++ '\n' :: g') ++ y₁)) (x₁ ++ '\n' :: y₁) :=
      aligned_gap closed code wide newline (.inr (.inr (by simp)))
    have same : Spaced .code (x₁ ++ ((g ++ '\n' :: g') ++ y₁)) (x₁ ++ ' ' :: y₁) := .insert code wide blank y₁
    have tidy' := same.tidy tidy
    have last : Aligned (x₁ ++ ' ' :: y₁) (x₁ ++ ((g ++ ' ' :: g') ++ y₁)) :=
      aligned_gap tidy'.lines code blank wide' (.inr (.inr (by simp [broken])))
    have tight : Tidy (x₁ ++ '\n' :: y₁) := (Spaced.insert code wide newline y₁).tidy tidy
    have start : Unfinished x₁ := by
      have closed' := linesClosed_front tight.lines
      exact unfinished.of_aligned ((Aligned.refl closed').behind blanks)
    refine (first.readAlike tidy).trans (.trans ?_ (last.readAlike tidy'))
    refine readAlike_tight tight start ends starts fun x' y' shorter tidy unfinished => ?_
    refine ih _ ?_ tidy unfinished rfl
    simp only [List.length_append, List.length_cons] at shorter length ⊢
    omega

/-- A break in the lines of a block. Within a statement it is read as a blank. The cutting is within a
statement where one is left open, such as between the parentheses of a call or of a head no line of which ends
with a `;`. Where it takes the statement for complete, what follows the break is cut off. -/
theorem breaks_within_statements (tidy : Tidy (x ++ '\n' :: y)) :
    (Unfinished x → ReadAlike (x ++ '\n' :: y) (x ++ ' ' :: y)) ∧
      (∀ f a, x = f ++ a → (f = [] ∨ ∃ others, f = others ++ ['\n']) → goesOn f = false →
        Compound.continuesIn (lines a) = false → LeftOpen a → goesOn x = true) ∧
      (goesOn x = false → Compound.continuesIn (lines y) = false → ∀ n,
        cutBlock n (x ++ '\n' :: y) = cutBlock n (x ++ ['\n']) ++ cutBlock (n + newlines x + 1) y) := by
  have closed := linesClosed_front tidy.lines
  refine ⟨readAlike_break tidy, ?_, cutBlock_ended closed⟩
  rintro f a rfl start ended apart leftOpen
  exact leftOpen.goesOn_append start closed ended apart

-- A call over two lines in the body of a loop is one call; the header `for (int i = 0; i < 5; i++)` falls apart
-- behind its first `;`.
theorem breaks_within_statements_header :
    ReadAlike "while (true) \x7b\n  tone(8,\n       440);\n\x7d".toList
        "while (true) \x7b\n  tone(8,        440);\n\x7d".toList ∧
      goesOn "x = 1;\ntone(8,".toList = true ∧
      cutBlock 2 "for (int i = 0;\n     i < 5; i++) \x7b x(); \x7d".toList =
        cutBlock 2 "for (int i = 0;\n".toList ++ cutBlock 3 "     i < 5; i++) \x7b x(); \x7d".toList ∧
      ¬ReadAlike "for (int i = 0;\n     i < 5; i++) \x7b x(); \x7d".toList
        "for (int i = 0;      i < 5; i++) \x7b x(); \x7d".toList := by
  have nested := breaks_within_statements (x := "while (true) \x7b\n  tone(8,".toList)
    (y := "       440);\n\x7d".toList) (.of_unmarked (by decide))
  have call := breaks_within_statements (x := "x = 1;\ntone(8,".toList) (y := "440);".toList)
    (.of_unmarked (by decide))
  have header := breaks_within_statements (x := "for (int i = 0;".toList)
    (y := "     i < 5; i++) \x7b x(); \x7d".toList) (.of_unmarked (by decide))
  refine ⟨nested.1 (by decide), ?_, header.2.2 (by decide) (by decide) 2, fun alike => ?_⟩
  · exact call.2.1 "x = 1;\n".toList "tone(8,".toList rfl (.inr ⟨"x = 1;".toList, rfl⟩) (by decide) (by decide)
      (show LeftOpen ("tone".toList ++ '(' :: "8,".toList) from .parens (by decide) (by decide) (by decide)
        (by decide) (by decide))
  · have lengths := congrArg List.length (alike 0 0)
    simp only [Stmt.readAll, List.length_map] at lengths
    exact absurd lengths (by decide)

end Reading

end Breadboard
