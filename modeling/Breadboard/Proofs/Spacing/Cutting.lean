import Breadboard.Proofs.Bytes
import Breadboard.Proofs.Spacing.Alignment

set_option autoImplicit false

/-!
Cutting blocks that are spaced differently. Main statements: from lines that are the same but for how they
are spaced the same statements are cut, and blocks whose lines break in the same gaps are read alike.
-/
namespace Breadboard

open Text

variable {q : Quote} {a b g l l' t x text text' : List Char} {c : Char}

section Scans

theorem balance_trim (bracket : Bracket) (code : Quote.code.after l = .code) :
    bracket.balance .code (trim l) = bracket.balance .code l := by
  obtain ⟨left, right, text, blank, blank'⟩ := exists_blanks l
  conv_rhs => rw [text]
  rw [Bracket.balance_append, Bracket.balance_append, (Closed.blanks blank).balance_eq,
    (Closed.blanks blank).after_eq, after_trim code, (Closed.blanks blank').balance_eq]
  simp

theorem balance_blank (bracket : Bracket) (blank : isBlank c = true) (l : List Char) :
    bracket.balance .code (c :: l) = bracket.balance .code l := by
  have one : Closed [c] := .blanks (by simpa using blank)
  rw [← List.singleton_append, Bracket.balance_append, one.balance_eq, one.after_eq, Int.zero_add]

theorem Aligned.balance_eq (aligned : Aligned l l') (bracket : Bracket) :
    bracket.balance .code l = bracket.balance .code l' := by
  rw [← balance_trim bracket aligned.after_eq, ← balance_trim bracket aligned.symm.after_eq,
    aligned.same.balance]

theorem utf8EncodeChar_of_isBlank (blank : isBlank c = true) :
    (String.utf8EncodeChar c).contains 0x7b = false := by
  rw [← Bool.not_eq_true, contains_brace_iff]
  rintro rfl
  exact absurd blank (by decide)

theorem containsCode_blank (blank : ∀ c ∈ g, isBlank c = true) (q : Quote) :
    containsCode 0x7b q g = false := by
  induction g generalizing q with
  | nil => rfl
  | cons c g ih =>
    rw [List.forall_mem_cons] at blank
    rw [containsCode, utf8EncodeChar_of_isBlank blank.1, ih blank.2, Bool.and_false, Bool.or_false]

theorem Spaced.containsCode_eq (same : Spaced q a b) : containsCode 0x7b q a = containsCode 0x7b q b := by
  induction same with
  | nil q => rfl
  | cons c _ ih => rw [containsCode, containsCode, ih]
  | gap left right _ ih =>
    rw [Canonical.containsCode_append, Canonical.containsCode_append, containsCode_blank left.blank,
      containsCode_blank right.blank, left.closed.after_eq, right.closed.after_eq, ih]

theorem containsCode_trim (l : List Char) : containsCode 0x7b .code (trim l) = containsCode 0x7b .code l := by
  obtain ⟨left, right, text, blank, blank'⟩ := exists_blanks l
  conv_rhs => rw [text]
  rw [Canonical.containsCode_append, Canonical.containsCode_append, containsCode_blank blank,
    containsCode_blank blank', (Closed.blanks blank).after_eq, Bool.or_false, Bool.false_or]

theorem Aligned.containsCode_eq (aligned : Aligned l l') :
    containsCode 0x7b .code l = containsCode 0x7b .code l' := by
  rw [← containsCode_trim, ← containsCode_trim l', aligned.same.containsCode_eq]

theorem endsStatement_trim (l : List Char) :
    Compound.endsStatement (trim l) = Compound.endsStatement l := by
  obtain ⟨left, right, text, blank, blank'⟩ := exists_blanks l
  have ended : trimEnd l = trimEnd (left ++ trim l) := by
    conv_lhs => rw [text, ← List.append_assoc, Spaced.trimEnd_append, trimEnd_blank blank', if_pos rfl]
  rw [Compound.endsStatement, Compound.endsStatement, ended, Spaced.trimEnd_append]
  split
  · rename_i none
    rw [none, trimEnd_blank blank]
  · rename_i some_
    rw [List.getLast?_append_of_ne_nil _ some_]

theorem endsStatement_append (starts : Canonical.Starts (isBlank · = false) b) (a : List Char) :
    Compound.endsStatement (a ++ b) = Compound.endsStatement b := by
  obtain ⟨c, rest, rfl, solid⟩ := starts
  have some_ : trimEnd (c :: rest) ≠ [] := by
    have one : trimEnd [c] = [c] := by simp [trimEnd, dropEndWhile, solid]
    rw [← List.singleton_append, Spaced.trimEnd_append, one]
    split <;> simp
  rw [Compound.endsStatement, Compound.endsStatement, Spaced.trimEnd_append, if_neg some_,
    List.getLast?_append_of_ne_nil _ some_]

theorem Aligned.endsStatement_eq (aligned : Aligned l l') :
    Compound.endsStatement l = Compound.endsStatement l' := by
  have found (t : List Char) : Compound.endsStatement t = (trimEnd t).getLast?.any (· == ';') := by
    rw [Compound.endsStatement]
    cases (trimEnd t).getLast? <;> rfl
  have other (c : Char) (blank : isBlank c = true) : (c == ';') = false := by
    simpa using Canonical.ne_of_class blank (by decide)
  rw [← endsStatement_trim, ← endsStatement_trim l', found, found, aligned.same.trimEnd.getLast?_any other]

-- Blanks and what follows them change no keyword, but for an `else` with an `if` behind it.
theorem leadingKeyword_append (some_ : ¬∀ c ∈ t, isBlank c = true) (blank : isBlank c = true) (x : List Char) :
    leadingKeyword (t ++ c :: x) = leadingKeyword t ∨
      leadingKeyword t = some .elseWord ∧ leadingKeyword (t ++ c :: x) = some .elseIf := by
  have start {t : List Char} (some_ : ¬∀ c ∈ t, isBlank c = true) :
      trimStart (t ++ c :: x) = trimStart t ++ c :: x := by
    rw [trimStart, List.dropWhile_append, if_neg]
    · rfl
    · rwa [List.isEmpty_iff, List.dropWhile_eq_nil_iff]
  have word (word cs : List Char) (letters : ∀ d ∈ word, isWordChar d = true) :
      dropWord? word (cs ++ c :: x) = (dropWord? word cs).map (· ++ c :: x) := by
    refine dropWord?_stop (fun member => ?_) (isWordChar_of_isBlank blank) cs x
    rw [Canonical.isBlank_of_isWordChar (letters c member)] at blank
    cases blank
  simp only [leadingKeyword, start some_]
  rw [word "else".toList _ (by decide), word "if".toList _ (by decide), word "for".toList _ (by decide),
    word "while".toList _ (by decide)]
  cases dropWord? "else".toList (trimStart t) with
  | none => exact .inl (by simp)
  | some rest =>
    simp only [Option.map_some]
    by_cases bare : ∀ d ∈ rest, isBlank d = true
    · rw [trimStart_eq_nil_iff.2 bare]
      have none : (dropWord? "if".toList []).isSome = false := rfl
      simp only [none, Bool.false_eq_true, if_false]
      split
      · exact .inr (by simp)
      · exact .inl rfl
    · rw [start bare, word "if".toList _ (by decide), Option.isSome_map]
      exact .inl rfl

theorem opensElse_append (some_ : ¬∀ c ∈ t, isBlank c = true) (blank : isBlank c = true) (x : List Char) :
    opensElse (t ++ c :: x) = opensElse t := by
  unfold opensElse
  obtain same | ⟨else_, elseIf⟩ := leadingKeyword_append some_ blank x
  · rw [same]
  · rw [else_, elseIf]
    rfl

theorem opensElse_blank (blank : ∀ c ∈ l, isBlank c = true) : opensElse l = false := by
  rw [opensElse, ← leadingKeyword_trimStart, trimStart_eq_nil_iff.2 blank]
  rfl

theorem opensElse_trim (l : List Char) : opensElse (trim l) = opensElse l := by
  by_cases bare : ∀ c ∈ l, isBlank c = true
  · rw [trim_eq_nil_iff.2 bare, opensElse_blank bare]
    rfl
  · obtain ⟨left, right, text, blank, blank'⟩ := exists_blanks l
    have some_ : ¬∀ c ∈ trim l, isBlank c = true := by rwa [← trim_eq_nil_iff, trim_trim, trim_eq_nil_iff]
    have start : opensElse l = opensElse (trim l ++ right) := by
      have tight := tight_trim fun none => bare (trim_eq_nil_iff.1 none)
      rw [opensElse, ← leadingKeyword_trimStart]
      conv_lhs => rw [text, Canonical.trimStart_blanks blank (tight.starts.append right)]
      rfl
    rw [start]
    cases right with
    | nil => rw [List.append_nil]
    | cons c right => rw [opensElse_append some_ (blank' c List.mem_cons_self)]

theorem Aligned.opensElse_eq (aligned : Aligned l l') : opensElse l = opensElse l' := by
  rw [← opensElse_trim, ← opensElse_trim l', opensElse, opensElse, aligned.same.leadingKeyword]

theorem continuesIn_cons (l : List Char) (ls : List (List Char)) :
    Compound.continuesIn (l :: ls) = if isBlankText l then Compound.continuesIn ls else opensElse l := by
  unfold Compound.continuesIn
  by_cases blank : isBlankText l = true
  · rw [List.find?_cons_of_neg (by simp [blank]), if_pos blank]
  · rw [List.find?_cons_of_pos (by simpa using blank), if_neg blank]
    rfl

theorem isBlankText_iff : isBlankText l = true ↔ ∀ c ∈ l, isBlank c = true := List.all_eq_true

theorem Aligned.isBlankText_eq (aligned : Aligned l l') : isBlankText l = isBlankText l' := by
  rw [Bool.eq_iff_iff, isBlankText_iff, isBlankText_iff, ← Breadboard.trim_eq_nil_iff,
    ← Breadboard.trim_eq_nil_iff, aligned.trim_eq_nil_iff]

theorem LinesAlike.continuesIn_eq {ls ls' : List (List Char)} (alike : LinesAlike ls ls') :
    Compound.continuesIn ls = Compound.continuesIn ls' := by
  induction alike with
  | nil => rfl
  | cons same _ ih => rw [continuesIn_cons, continuesIn_cons, same.isBlankText_eq, same.opensElse_eq, ih]
  | left blank _ ih => rw [continuesIn_cons, if_pos (isBlankText_iff.2 blank), ih]
  | right blank _ ih => rw [continuesIn_cons, if_pos (isBlankText_iff.2 blank), ih]

theorem Spaced.dropBraces (same : Spaced .code a b) :
    Spaced .code (a.dropWhile (· == '\x7d')) (b.dropWhile (· == '\x7d')) := by
  generalize from_ : Quote.code = q at same
  induction same with
  | nil q =>
    subst from_
    exact .nil _
  | @cons q a b c rest ih =>
    subst from_
    by_cases brace : c = '\x7d'
    · subst brace
      exact ih rfl
    · rw [List.dropWhile_cons_of_neg (by simpa using brace), List.dropWhile_cons_of_neg (by simpa using brace)]
      exact .cons c rest
  | @gap g g' a b left right rest _ =>
    have stays {g : List Char} (space : Space g) (t : List Char) :
        (g ++ t).dropWhile (· == '\x7d') = g ++ t := by
      obtain ⟨c, more, rfl, blank⟩ := space.exists_cons
      have other : c ≠ '\x7d' := Canonical.ne_of_class blank (by decide)
      rw [List.cons_append, List.dropWhile_cons_of_neg (by simpa using other)]
    rw [stays left, stays right]
    exact .gap left right rest

theorem mem_of_mem_bareLine (member : c ∈ bareLine l) : c ∈ l := by
  have sub : (bareLine l).Sublist l :=
    (trimStart_sublist _).trans ((List.dropWhile_sublist _).trans (trim_sublist l))
  exact sub.mem member

theorem after_bareLine (code : Quote.code.after l = .code) : Quote.code.after (bareLine l) = .code := by
  obtain ⟨before, behind, text, left, right⟩ := exists_bareLine l
  have start : Quote.code.after before = .code := after_of_unmarked fun c member => by
    obtain blank | rfl := left c member
    · exact (plain_of_isBlank blank).1
    · rfl
  rw [text, Quote.after_append, start] at code
  exact code_of_after_blank right code

theorem Aligned.spaced_bareLine (aligned : Aligned l l') : Spaced .code (bareLine l) (bareLine l') :=
  aligned.same.dropBraces.trimStart

theorem Aligned.bareLine (aligned : Aligned l l') (inLine : '\n' ∉ l) (inLine' : '\n' ∉ l') :
    Aligned (bareLine l) (bareLine l') := by
  have single : '\n' ∉ Breadboard.bareLine l := fun found => inLine (mem_of_mem_bareLine found)
  refine .inLine aligned.spaced_bareLine.trim ?_ single fun found => inLine' (mem_of_mem_bareLine found)
  rw [linesClosed_inLine single, after_bareLine aligned.after_eq]
  rfl

theorem Spaced.isFiller_eq (same : Spaced q a b) : Piece.isFiller a = Piece.isFiller b :=
  same.all_eq (r := true) fun c blank => by simp [blank]

end Scans

section Statements

variable {loc loc' : Location}

theorem after_of_mem_splitTop {part : List Char} (code : Quote.code.after text = .code)
    (member : part ∈ splitTop [';'] text) : Quote.code.after part = .code := by
  generalize found : splitTop [';'] text = parts at member
  induction parts generalizing text with
  | nil => cases member
  | cons first others ih =>
    by_cases last : others = []
    · subst last
      obtain rfl := List.mem_singleton.1 member
      rwa [← eq_of_splitTop found]
    · obtain ⟨rest, rfl, behind, -⟩ := exists_of_splitTop found last
      obtain ⟨one, more⟩ := List.cons.inj found
      have front := (ends_of_splitTopFrom (by decide) (Prod.ext one more) last).1
      obtain rfl | later := List.mem_cons.1 member
      · exact front
      · refine ih ?_ behind later
        rw [Quote.after_append, front] at code
        exact code

-- Blanks behind a text only stand behind its last part.
theorem splitTopFrom_blank (blank : ∀ c ∈ g, isBlank c = true) (q : Quote) (depth : Int)
    (code : q.after t = .code) :
    (∃ g', (∀ c ∈ g', isBlank c = true) ∧
      (splitTopFrom [';'] q depth 0 (t ++ g)).1 = (splitTopFrom [';'] q depth 0 t).1 ++ g') ∧
    (splitTopFrom [';'] q depth 0 (t ++ g)).2.map trim = (splitTopFrom [';'] q depth 0 t).2.map trim := by
  induction t generalizing q depth with
  | nil =>
    rw [Quote.after_nil] at code
    subst code
    have flat : splitTopFrom [';'] .code depth 0 (g ++ []) =
        Canonical.onFirst g (splitTopFrom [';'] .code depth 0 []) := Canonical.splitTopFrom_flat
      fun c member => ⟨(plain_of_isBlank (blank c member)).1, (plain_of_isBlank (blank c member)).2.1,
        (Canonical.ne_of_class (blank c member) (by decide)).symm⟩
    rw [List.append_nil] at flat
    rw [List.nil_append, flat]
    exact ⟨⟨g, blank, List.append_nil g⟩, rfl⟩
  | cons c t ih =>
    have same : CutsAt [';'] q depth c (t ++ g) ↔ CutsAt [';'] q depth c t := cutsAt_append_iff (by simp) g
    by_cases cuts : CutsAt [';'] q depth c t
    · have isCode := cuts.1
      obtain ⟨rfl, mark⟩ := code_of_isCode isCode
      rw [Quote.after_cons, Canonical.next_of_not_isMark mark] at code
      obtain ⟨⟨g', blank', first⟩, others⟩ := ih .code 0 code
      have parts (t : List Char) : splitTop [';'] t =
          (splitTopFrom [';'] .code 0 0 t).1 :: (splitTopFrom [';'] .code 0 0 t).2 := rfl
      rw [List.cons_append, splitTopFrom_cut cuts, splitTopFrom_cut (same.2 cuts)]
      refine ⟨⟨[], by simp, rfl⟩, ?_⟩
      simp only [List.length_singleton, List.drop_succ_cons, List.drop_zero, parts, List.map_cons, others, first,
        trim_behind blank']
    · rw [List.cons_append, splitTopFrom_pass cuts, splitTopFrom_pass fun cuts' => cuts (same.1 cuts')]
      obtain ⟨⟨g', blank', first⟩, others⟩ := ih (q.next c) _ code
      exact ⟨⟨g', blank', by simp only [Canonical.onFirst, first, List.append_assoc]⟩, others⟩

theorem map_trim_splitTop (code : Quote.code.after text = .code) :
    (splitTop [';'] text).map trim = (splitTop [';'] (trim text)).map trim := by
  obtain ⟨left, right, eq, blank, blank'⟩ := exists_blanks text
  obtain ⟨⟨g', blankEnd, first⟩, others⟩ := splitTopFrom_blank blank' .code 0 (after_trim code)
  have flat : splitTopFrom [';'] .code 0 0 (left ++ (trim text ++ right)) =
      Canonical.onFirst left (splitTopFrom [';'] .code 0 0 (trim text ++ right)) := Canonical.splitTopFrom_flat
    fun c member => ⟨(plain_of_isBlank (blank c member)).1, (plain_of_isBlank (blank c member)).2.1,
      (Canonical.ne_of_class (blank c member) (by decide)).symm⟩
  rw [← eq] at flat
  have parts (t : List Char) : splitTop [';'] t =
      (splitTopFrom [';'] .code 0 0 t).1 :: (splitTopFrom [';'] .code 0 0 t).2 := rfl
  rw [parts, parts, flat]
  simp only [Canonical.onFirst, List.map_cons, others, first, trim_front blank, trim_behind blankEnd]

theorem ofLine_alike (same : Aligned text text') (inLine : '\n' ∉ text) (inLine' : '\n' ∉ text') :
    List.Forall₂ (fun p p' => Aligned p.text p'.text) (Piece.ofLine loc text) (Piece.ofLine loc' text') := by
  have within {t part : List Char} (inLine : '\n' ∉ t) (member : part ∈ splitTop [';'] (trim t)) :
      '\n' ∉ part := fun found =>
    inLine (((sublist_of_mem_splitTop member).trans (trim_sublist t)).mem found)
  have closed (part : List Char) (member : part ∈ splitTop [';'] (trim text)) :
      linesClosed .code part = true := by
    rw [linesClosed_inLine (within inLine member), after_of_mem_splitTop (after_trim same.after_eq) member]
    rfl
  have parts := same.same.splitTop separates_semicolon
  rw [Piece.ofLine, Piece.ofLine, map_trim_splitTop same.after_eq, map_trim_splitTop same.symm.after_eq]
  have single := fun part => @within text part inLine
  have single' := fun part => @within text' part inLine'
  generalize splitTop [';'] (trim text) = cut at parts closed single
  generalize splitTop [';'] (trim text') = cut' at parts single'
  induction parts with
  | nil => exact .nil
  | @cons part part' rest rest' first _ ih =>
    rw [List.forall_mem_cons] at closed single single'
    have aligned : Aligned (trim part) (trim part') :=
      (Aligned.inLine first.trim closed.1 single.1 single'.1).trim
    have later := ih closed.2 single.2 single'.2
    have alike : Piece.isFiller (trim part) = Piece.isFiller (trim part') := first.trim.isFiller_eq
    cases filler : Piece.isFiller (trim part') with
    | true =>
      simp only [List.map_cons, List.filterMap_cons, alike, filler, if_true]
      exact later
    | false =>
      simp only [List.map_cons, List.filterMap_cons, alike, filler, Bool.false_eq_true, if_false]
      exact List.forall₂_cons.2 ⟨aligned, later⟩

end Statements

section States

variable {T : List Char → List Char → Prop} {c c' : Compound} {s s' : CutState} {raw raw' : List Char}
  {rest rest' ls ls' : List (List Char)} {loc loc' : Location}

/-- A relation between the texts of two statements that is kept when lines are taken in. -/
structure Carries (T : List Char → List Char → Prop) : Prop where
  start {a b : List Char} : Aligned a b → T a b
  line {a b l l' : List Char} : T a b → Aligned l l' → T (a ++ '\n' :: l) (b ++ '\n' :: l')
  left {a b l : List Char} : T a b → (∀ c ∈ l, isBlank c = true) → T (a ++ '\n' :: l) b
  right {a b l : List Char} : T a b → (∀ c ∈ l, isBlank c = true) → T a (b ++ '\n' :: l)

theorem carries_aligned : Carries Aligned where
  start := id
  line := Aligned.newline
  left aligned blank := aligned.behind (List.forall_mem_cons.2 ⟨by decide, blank⟩)
  right aligned blank := (aligned.symm.behind (List.forall_mem_cons.2 ⟨by decide, blank⟩)).symm

theorem Carries.swap (carries : Carries T) : Carries fun a b => T b a where
  start aligned := carries.start aligned.symm
  line texts aligned := carries.line texts aligned.symm
  left := carries.right
  right := carries.left

/-- Two states of the cutting that take in the same lines from here on. A compound statement that waits for
lines has not got all of its braces closed. -/
inductive Abreast (T : List Char → List Char → Prop) : CutState → CutState → Prop
  | idle : Abreast T .idle .idle
  | joining {loc loc' : Location} {text text' : List Char} {parens : Int} (open_ : parens > 0)
    (same : Aligned text text') (inLine : '\n' ∉ text) (inLine' : '\n' ∉ text') :
    Abreast T (.joining loc text parens) (.joining loc' text' parens)
  | absorbing {c c' : Compound} (depth : c.depth = c'.depth) (opened : c.opened = c'.opened)
    (chain : c.isChain = c'.isChain) (waits : c.opened = true → 0 < c.depth) (some_ : c.lines ≠ [])
    (some_' : c'.lines ≠ []) (texts : T c.piece.text c'.piece.text) : Abreast T (.absorbing c) (.absorbing c')

/-- What two steps of the cutting give: statements with such texts, and such states. -/
def AbreastTaken (T : List Char → List Char → Prop) (taken taken' : List Piece × CutState) : Prop :=
  List.Forall₂ (fun p p' => T p.text p'.text) taken.1 taken'.1 ∧ Abreast T taken.2 taken'.2

theorem Abreast.swap (abreast : Abreast T s s') : Abreast (fun a b => T b a) s' s := by
  cases abreast with
  | idle => exact .idle
  | joining open_ same inLine inLine' => exact .joining open_ same.symm inLine' inLine
  | absorbing depth opened chain waits some_ some_' texts =>
    exact .absorbing depth.symm opened.symm chain.symm (by rwa [← opened, ← depth]) some_' some_ texts

theorem abreast_join (carries : Carries T) (same : Aligned text text') (inLine : '\n' ∉ text)
    (inLine' : '\n' ∉ text') (parens : Int) :
    AbreastTaken T (CutState.join loc text parens) (CutState.join loc' text' parens) := by
  unfold CutState.join
  split
  · rename_i open_
    exact ⟨.nil, .joining open_ same inLine inLine'⟩
  · exact ⟨(ofLine_alike same inLine inLine').imp fun _ _ => carries.start, .idle⟩

theorem abreast_absorb (depth : (c.add raw).depth = (c'.add raw').depth)
    (opened : (c.add raw).opened = (c'.add raw').opened) (chain : c.isChain = c'.isChain)
    (ends : Compound.endsStatement raw = Compound.endsStatement raw')
    (texts : T (c.add raw).piece.text (c'.add raw').piece.text)
    (goesOn : Compound.continuesIn rest = Compound.continuesIn rest') :
    AbreastTaken T (CutState.absorb c raw rest) (CutState.absorb c' raw' rest') := by
  have complete : (c.add raw).isComplete raw = (c'.add raw').isComplete raw' := by
    simp only [Compound.isComplete, depth, opened, ends]
  have chain_ : (c.add raw).isChain = (c'.add raw').isChain := chain
  have lines {c : Compound} {raw : List Char} : (c.add raw).lines ≠ [] := List.cons_ne_nil _ _
  unfold CutState.absorb
  simp only [complete, chain_, goesOn]
  split
  · split
    · exact ⟨.nil, .absorbing rfl rfl rfl (by simp) lines lines texts⟩
    · exact ⟨.cons texts .nil, .idle⟩
  · rename_i incomplete
    refine ⟨.nil, .absorbing depth opened chain_ (fun has => ?_) lines lines texts⟩
    rw [← complete, Compound.isComplete, has] at incomplete
    simpa using incomplete

theorem piece_first (c : Compound) (none : c.lines = []) (line : List Char) : (c.add line).piece.text = line := by
  simp [Compound.piece, Compound.add, none, List.intercalate]

theorem abreast_startLine (carries : Carries T) (aligned : Aligned raw raw') (inLine : '\n' ∉ raw)
    (inLine' : '\n' ∉ raw') (number number' : Nat)
    (goesOn : Compound.continuesIn rest = Compound.continuesIn rest') :
    AbreastTaken T (CutState.startLine number raw rest) (CutState.startLine number' raw' rest') := by
  have bare := aligned.bareLine inLine inLine'
  have same := aligned.spaced_bareLine
  have single {raw : List Char} (inLine : '\n' ∉ raw) : '\n' ∉ bareLine raw := fun found =>
    inLine (mem_of_mem_bareLine found)
  simp only [startLine_bareLine, same.isFiller_eq, same.leadingKeyword, same.balance .round]
  split
  · exact ⟨.nil, .idle⟩
  · split
    · refine abreast_absorb ?_ ?_ rfl bare.endsStatement_eq ?_ goesOn
      · simp only [Compound.add, same.balance .curly]
      · simp only [Compound.add, same.containsCode_eq]
      rw [piece_first _ rfl, piece_first _ rfl]
      exact carries.start bare
    · exact abreast_join carries bare (single inLine) (single inLine') _

theorem abreast_next (carries : Carries T) (abreast : Abreast T s s') (aligned : Aligned raw raw')
    (inLine : '\n' ∉ raw) (inLine' : '\n' ∉ raw') (number number' : Nat)
    (goesOn : Compound.continuesIn rest = Compound.continuesIn rest') :
    AbreastTaken T (s.next number raw rest) (s'.next number' raw' rest') := by
  cases abreast with
  | idle => exact abreast_startLine carries aligned inLine inLine' number number' goesOn
  | joining open_ same single single' =>
    have within {t raw : List Char} (single : '\n' ∉ t) (inLine : '\n' ∉ raw) : '\n' ∉ t ++ ' ' :: trim raw := by
      have part : '\n' ∉ trim raw := fun found => inLine ((trim_sublist raw).mem found)
      simp [single, part]
    have space : Space [' '] := .singleton (by decide)
    have trimmed : Spaced .code (trim (trim raw)) (trim (trim raw')) := by
      rw [trim_trim, trim_trim]
      exact aligned.same
    simp only [CutState.next, aligned.balance_eq .round]
    refine abreast_join carries ?_ (within single inLine) (within single' inLine') _
    refine .inLine ?_ ?_ (within single inLine) (within single' inLine')
    · exact spaced_joined same.same (after_trim same.after_eq) trimmed space space
    · rw [linesClosed_inLine (within single inLine), Quote.after_append, same.after_eq]
      exact beq_iff_eq.2 (after_trim aligned.after_eq)
  | @absorbing c c' depth opened chain waits some_ some_' texts =>
    refine abreast_absorb ?_ ?_ chain aligned.endsStatement_eq ?_ goesOn
    · simp only [Compound.add, depth, aligned.balance_eq .curly]
    · simp only [Compound.add, opened, aligned.containsCode_eq]
    rw [c.piece_add some_, c'.piece_add some_']
    exact carries.line texts aligned

-- A line without text changes nothing.
theorem abreast_blank (carries : Carries T) (abreast : Abreast T s s') (blank : ∀ c ∈ raw, isBlank c = true)
    (number : Nat) (rest : List (List Char)) :
    (s.next number raw rest).1 = [] ∧ Abreast T (s.next number raw rest).2 s' := by
  have none := trim_eq_nil_iff.2 blank
  have flat (bracket : Bracket) := (Closed.blanks blank).balance_eq (b := bracket)
  cases abreast with
  | idle =>
    have filler : CutState.startLine number raw rest = ([], .idle) := by
      refine startLine_filler ?_ number rest
      rw [bareLine, none]
      rfl
    rw [CutState.next, filler]
    exact ⟨rfl, .idle⟩
  | @joining loc loc' text text' parens open_ same single single' =>
    have text_ : text ++ ' ' :: trim raw = text ++ [' '] := by rw [none]
    have stays : CutState.join loc (text ++ [' ']) parens = ([], .joining loc (text ++ [' ']) parens) := if_pos open_
    rw [CutState.next, flat, Int.add_zero, text_, stays]
    exact ⟨rfl, .joining open_ (same.behind (by decide)) (by simp [single]) single'⟩
  | @absorbing c c' depth opened chain waits some_ some_' texts =>
    have ends : Compound.endsStatement raw = false := by
      rw [← endsStatement_trim, none]
      rfl
    have depth_ : (c.add raw).depth = c.depth := by simp [Compound.add, flat]
    have opened_ : (c.add raw).opened = c.opened := by simp [Compound.add, containsCode_blank blank]
    have incomplete : (c.add raw).isComplete raw = false := by
      rw [Compound.isComplete, depth_, opened_, ends, Bool.or_false]
      cases has : c.opened with
      | false => rw [Bool.and_false]
      | true => simpa using waits has
    have stays : CutState.absorb c raw rest = ([], .absorbing (c.add raw)) := by
      unfold CutState.absorb
      simp only [incomplete, Bool.false_eq_true, if_false]
    rw [CutState.next, stays]
    refine ⟨rfl, .absorbing (depth_.trans depth) (opened_.trans opened) chain (by rwa [opened_, depth_])
      (List.cons_ne_nil _ _) some_' ?_⟩
    rw [c.piece_add some_]
    exact carries.left texts blank

end States

section Runs

variable {T : List Char → List Char → Prop} {s s' : CutState} {ls ls' rest rest' : List (List Char)}

/-- What taking in lines gives, of which `rest` are the lines to come, and where the cutting then stands. -/
def CutState.run (rest : List (List Char)) : CutState → Nat → List (List Char) → List Piece × CutState
  | s, _, [] => ([], s)
  | s, number, line :: ls =>
    let taken := s.next number line (ls ++ rest)
    let later := CutState.run rest taken.2 (number + 1) ls
    (taken.1 ++ later.1, later.2)

theorem cutLines_append (s : CutState) (number : Nat) (ls rest : List (List Char)) :
    cutLines s number (ls ++ rest) =
      (s.run rest number ls).1 ++ cutLines (s.run rest number ls).2 (number + ls.length) rest := by
  induction ls generalizing s number with
  | nil => rfl
  | cons line ls ih =>
    simp only [List.cons_append, cutLines, CutState.run, ih, List.append_assoc, List.length_cons]
    rw [Nat.add_right_comm, Nat.add_assoc number]

theorem cutLines_run (s : CutState) (number : Nat) (ls : List (List Char)) :
    cutLines s number ls = (s.run [] number ls).1 ++ (s.run [] number ls).2.finish := by
  have whole := cutLines_append s number ls []
  rwa [List.append_nil] at whole

theorem abreast_finish (carries : Carries T) (abreast : Abreast T s s') :
    List.Forall₂ (fun p p' => T p.text p'.text) s.finish s'.finish := by
  cases abreast with
  | idle => exact .nil
  | joining _ same single single' => exact (ofLine_alike same single single').imp fun _ _ => carries.start
  | absorbing _ _ _ _ _ _ texts => exact .cons texts .nil

theorem abreast_run {ms ms' : List (List Char)} (carries : Carries T) (abreast : Abreast T s s')
    (alike : LinesAlike ls ls') (context : LinesAlike ms ms') (inLine : ∀ l ∈ ls, '\n' ∉ l)
    (inLine' : ∀ l ∈ ls', '\n' ∉ l) (number number' : Nat) :
    AbreastTaken T (s.run ms number ls) (s'.run ms' number' ls') := by
  induction alike generalizing s s' number number' with
  | nil => exact ⟨.nil, abreast⟩
  | @cons l l' ls ls' same alike ih =>
    rw [List.forall_mem_cons] at inLine inLine'
    obtain ⟨now, state⟩ := abreast_next carries abreast same inLine.1 inLine'.1 number number'
      (alike.append context).continuesIn_eq
    obtain ⟨later, last⟩ := ih state inLine.2 inLine'.2 (number + 1) (number' + 1)
    exact ⟨List.rel_append now later, last⟩
  | @left l ls ls' blank _ ih =>
    rw [List.forall_mem_cons] at inLine
    obtain ⟨nothing, state⟩ := abreast_blank carries abreast blank number (ls ++ ms)
    obtain ⟨later, last⟩ := ih state inLine.2 inLine' (number + 1) number'
    rw [CutState.run, nothing]
    exact ⟨later, last⟩
  | @right l ls ls' blank _ ih =>
    rw [List.forall_mem_cons] at inLine'
    obtain ⟨nothing, state⟩ := abreast_blank carries.swap abreast.swap blank number' (ls' ++ ms')
    obtain ⟨later, last⟩ := ih state.swap inLine inLine'.2 number (number' + 1)
    refine ⟨?_, last⟩
    rw [CutState.run, nothing]
    exact later

-- The statements that are cut from such lines.
theorem cutLines_alike (carries : Carries T) (abreast : Abreast T s s') (alike : LinesAlike ls ls')
    (inLine : ∀ l ∈ ls, '\n' ∉ l) (inLine' : ∀ l ∈ ls', '\n' ∉ l) (number number' : Nat) :
    List.Forall₂ (fun p p' => T p.text p'.text) (cutLines s number ls) (cutLines s' number' ls') := by
  obtain ⟨pieces, state⟩ := abreast_run carries abreast alike .nil inLine inLine' number number'
  rw [cutLines_run, cutLines_run]
  exact List.rel_append pieces (abreast_finish carries state)

theorem not_mem_lines (cs : List Char) : ∀ l ∈ lines cs, '\n' ∉ l := fun l member =>
  List.count_eq_zero.1 (newlines_lines l member)

theorem linesFrom_newline (seen x y : List Char) :
    linesFrom seen (x ++ '\n' :: y) = linesFrom seen (x ++ ['\n']) ++ lines y := by
  induction x generalizing seen with
  | nil => rfl
  | cons c x ih =>
    simp only [List.cons_append, linesFrom]
    split
    · rw [ih]
      rfl
    · rw [ih]

theorem length_linesFrom_newline (seen x : List Char) :
    (linesFrom seen (x ++ ['\n'])).length = newlines x + 1 := by
  induction x generalizing seen with
  | nil => rfl
  | cons c x ih =>
    rw [List.cons_append, linesFrom]
    split
    · rename_i newline
      simp [ih, newline, newlines]
    · rename_i other
      rw [ih, newlines, newlines, List.count_cons_of_ne other]

theorem length_lines_newline (x : List Char) : (lines (x ++ ['\n'])).length = newlines x + 1 :=
  length_linesFrom_newline [] x

theorem lines_newline (x y : List Char) : lines (x ++ '\n' :: y) = lines (x ++ ['\n']) ++ lines y :=
  linesFrom_newline [] x y

theorem continuesIn_append (same : Compound.continuesIn rest = Compound.continuesIn rest') (ls : List (List Char)) :
    Compound.continuesIn (ls ++ rest) = Compound.continuesIn (ls ++ rest') := by
  induction ls with
  | nil => exact same
  | cons l ls ih => rw [List.cons_append, List.cons_append, continuesIn_cons, continuesIn_cons, ih]

-- Of the lines to come only counts whether they go on with an `else`.
theorem run_congr (same : Compound.continuesIn rest = Compound.continuesIn rest') (s : CutState) (number : Nat)
    (ls : List (List Char)) : s.run rest number ls = s.run rest' number ls := by
  have step (s : CutState) (number : Nat) (l : List Char) {rest rest' : List (List Char)}
      (same : Compound.continuesIn rest = Compound.continuesIn rest') :
      s.next number l rest = s.next number l rest' := by
    have absorb (c : Compound) (line : List Char) : CutState.absorb c line rest = CutState.absorb c line rest' := by
      simp only [CutState.absorb, same]
    cases s with
    | idle => simp only [CutState.next, CutState.startLine, absorb]
    | joining loc text parens => rfl
    | absorbing c => exact absorb c l
  induction ls generalizing s number with
  | nil => rfl
  | cons l ls ih => simp only [CutState.run, step s number l (continuesIn_append same ls), ih]

theorem run_append (s : CutState) (number : Nat) (ls ms : List (List Char)) :
    (s.run rest number (ls ++ ms)).2 =
      ((s.run (ms ++ rest) number ls).2.run rest (number + ls.length) ms).2 := by
  induction ls generalizing s number with
  | nil => rfl
  | cons l ls ih =>
    simp only [List.cons_append, CutState.run, ih, List.append_assoc, List.length_cons]
    rw [Nat.add_right_comm, Nat.add_assoc number]

theorem Aligned.cutBlock (aligned : Aligned a b) (number number' : Nat) :
    List.Forall₂ (fun p p' => Aligned p.text p'.text) (cutBlock number a) (cutBlock number' b) :=
  cutLines_alike carries_aligned .idle aligned.lines (not_mem_lines a) (not_mem_lines b) number number'

end Runs

-- Statements that are read alike, one by one.
theorem map_gist_readAll {pieces pieces' : List Piece}
    (alike : List.Forall₂ (fun p p' => ∀ loc loc', (Stmt.read loc p.text).gist = (Stmt.read loc' p'.text).gist)
      pieces pieces') : (Stmt.readAll pieces).map Stmt.gist = (Stmt.readAll pieces').map Stmt.gist := by
  induction alike with
  | nil => rfl
  | cons first _ ih =>
    simp only [Stmt.readAll, List.map_cons, List.map_map] at ih ⊢
    rw [first, ih]

-- A block in a statement is shorter than the statement, and its lines break in the same gaps as well.
theorem Aligned.gist_read_of (aligned : Aligned a b) (tidy : Tidy a)
    (blocks : ∀ t t', t.length < a.length → Aligned t t' → Tidy t → ReadAlike t t') (loc loc' : Location) :
    (Stmt.read loc a).gist = (Stmt.read loc' b).gist := by
  rw [← Stmt.read_trim, ← Stmt.read_trim loc']
  refine Stmt.gist_read ⟨aligned.same, tidy.trim, ?_⟩ loc loc'
  intro f t r f' t' r' text text' front code block whole open_
  have trimmed := aligned.trim
  have tidy_ := tidy.trim
  have shorter := length_trim_le a
  rw [text] at trimmed tidy_ shorter
  rw [text'] at trimmed
  have shape (f t r : List Char) : f ++ '\x7b' :: (t ++ r) = (f ++ ['\x7b']) ++ (t ++ r) := by simp
  have start : Quote.code.after (f ++ ['\x7b']) = .code := by
    rw [Quote.after_append, code]
    rfl
  have before : solids (f ++ ['\x7b']) = solids (f' ++ ['\x7b']) := by
    rw [solids_append, solids_append, front.solids_eq]
  rw [shape, shape] at trimmed
  rw [shape] at tidy_
  have inner : Tidy t := tidy_.part start whole (joins_concat (by decide) f t)
  simp only [List.length_append, List.length_cons] at shorter
  exact blocks t t' (by omega) (trimmed.part before start block.trim whole) inner

/-- Blocks whose lines break in the same gaps are read alike. -/
theorem Aligned.readAlike (aligned : Aligned a b) (tidy : Tidy a) : ReadAlike a b := by
  induction length : a.length using Nat.strongRecOn generalizing a b with
  | _ n ih =>
  intro number number'
  have pieces := (List.forall₂_and_left _ _).2 ⟨fun p member => And.intro (tidy_cutBlock tidy number p member)
    (length_cutBlock p member), aligned.cutBlock number number'⟩
  refine map_gist_readAll (pieces.imp ?_)
  rintro p p' ⟨⟨tidy_, short⟩, same⟩
  exact same.gist_read_of tidy_ fun t t' shorter aligned tidy =>
    ih t.length (by omega) aligned tidy rfl

/-- So are statements whose lines break in the same gaps. -/
theorem Aligned.gist_read (aligned : Aligned a b) (tidy : Tidy a) (loc loc' : Location) :
    (Stmt.read loc a).gist = (Stmt.read loc' b).gist :=
  aligned.gist_read_of tidy (fun _ _ _ aligned tidy => aligned.readAlike tidy) loc loc'

end Breadboard
