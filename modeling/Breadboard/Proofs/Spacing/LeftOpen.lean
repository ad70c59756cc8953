import Breadboard.Proofs.Spacing.Unfinished

set_option autoImplicit false

/-!
Statements that are left open at the end of a text. Main statements: between the parentheses of a statement
the cutting is within it, unless a line of a head ends with a `;`, and where the cutting is not within a
statement a break ends the last one.
-/
namespace Breadboard

open Text
open Canonical (Starts)

variable {q : Quote} {depth : Nat} {a f x y : List Char}

/-- The keyword that a statement starts with, behind closing braces. -/
def firstWord (s : List Char) : Option Keyword := (lines s).head?.bind fun l => leadingKeyword (bareLine l)

/-- Beginnings of statements: of a simple one within its parentheses, and of a compound one in front of its
braces, as long as no line of it ends with a `;`. -/
inductive LeftOpen : List Char → Prop
  | parens {head inside : List Char} (single : '\n' ∉ head) (simple : firstWord (head ++ '(' :: inside) = none)
    (code : Quote.code.after head = .code) (level : 0 ≤ Bracket.round.balance .code head)
    (open_ : Bracket.round.close .code 0 inside = none) : LeftOpen (head ++ '(' :: inside)
  | header {s : List Char} (compound : (firstWord s).isSome = true)
    (open_ : ∀ l ∈ lines s, containsCode 0x7b .code l = false ∧ Compound.endsStatement l = false) : LeftOpen s

section Open

variable {context : List (List Char)} {ls : List (List Char)} {seen v : List Char} {loc : Location} {p : Int}

-- As long as a bracket is not closed there are no more closing ones than opening ones.
theorem low_of_close {bracket : Bracket} (open_ : bracket.close q depth v = none) (begins : f <+: v) :
    ∀ front, front <+: f → 0 ≤ (depth : Int) + bracket.balance q front := by
  induction f generalizing q depth v with
  | nil =>
    intro front inside
    rw [List.prefix_nil.1 inside, Bracket.balance_nil]
    omega
  | cons c f ih =>
    obtain ⟨rest, rfl⟩ := begins
    obtain ⟨rfl, rfl, rfl⟩ | ⟨depth', moved⟩ := closes_or_moves bracket q depth c
    · rw [List.cons_append, Canonical.close_closer_zero] at open_
      cases open_
    · rw [List.cons_append, close_step bracket moved] at open_
      have low := ih (Option.map_eq_none_iff.1 open_) (List.prefix_append f rest)
      intro front inside
      obtain rfl | ⟨more, rfl, within⟩ := prefix_cons_cases inside
      · simp
      · have bound := low more within
        rw [Bracket.balance]
        omega

theorem after_dropReturn (code : Quote.code.after seen.reverse = .code) :
    Quote.code.after (dropReturn seen).reverse = .code := by
  obtain ⟨g, text, blank⟩ := exists_dropReturn seen
  rw [text] at code
  exact code_of_after_blank blank code

theorem balance_dropReturn (code : Quote.code.after seen.reverse = .code) :
    Bracket.round.balance .code (dropReturn seen).reverse = Bracket.round.balance .code seen.reverse := by
  rw [← balance_trim _ code, ← trim_dropReturn, balance_trim _ (after_dropReturn code)]

-- The lines of a simple statement, of which the first one has been taken in.
theorem run_parens (low : ∀ front, front <+: v → 0 < p + Bracket.round.balance .code (seen.reverse ++ front))
    (closed : linesClosed (Quote.code.after seen.reverse) v = true) (text : List Char) (number : Nat) :
    ((CutState.joining loc text p).run context number (linesFrom seen v)).2.isIdle = false := by
  induction v generalizing seen p text number with
  | nil =>
    rw [linesFrom]
    split
    · rfl
    · have level := low [] (List.prefix_refl [])
      rw [List.append_nil] at level
      simp only [CutState.run, CutState.next, CutState.join, if_pos level]
      rfl
  | cons c v ih =>
    rw [linesClosed, Bool.and_eq_true] at closed
    rw [linesFrom]
    split
    · rename_i newline
      subst newline
      have code : Quote.code.after seen.reverse = .code := by simpa using closed.1
      have same := balance_dropReturn code
      have level := low [] List.nil_prefix
      rw [List.append_nil, ← same] at level
      simp only [CutState.run, CutState.next, CutState.join, if_pos level]
      refine ih (fun front inside => ?_) ?_ _ _
      · have later := low ('\n' :: front) (List.cons_prefix_cons.2 ⟨rfl, inside⟩)
        rw [Bracket.balance_append, code, balance_blank .round (by decide)] at later
        rw [same, List.reverse_nil, List.nil_append]
        omega
      · rw [code] at closed
        exact closed.2
    · refine ih (fun front inside => ?_) (by simpa using closed.2) text number
      have later := low (c :: front) (List.cons_prefix_cons.2 ⟨rfl, inside⟩)
      simpa using later

-- Behind a line what stands in front of its statement is skipped.
theorem parts_bareLine (raw : List Char) : ∃ before behind, raw = before ++ (bareLine raw ++ behind) ∧
    Quote.code.after before = .code ∧ Bracket.round.balance .code before = 0 ∧ '(' ∉ before ∧
    ∀ c ∈ behind, isBlank c = true := by
  obtain ⟨before, behind, text, skipped, blank⟩ := exists_bareLine raw
  have each (c : Char) (member : c ∈ before) : isMark c = false ∧ Bracket.round.weight c = 0 ∧ c ≠ '(' := by
    obtain blank | rfl := skipped c member
    · obtain ⟨mark, flat, -⟩ := plain_of_isBlank blank
      exact ⟨mark, Canonical.weight_of_depthStep flat .round, Canonical.ne_of_class blank (by decide)⟩
    · decide
  have flat : Bracket.round.balance .code before = 0 := by
    clear text skipped
    induction before with
    | nil => rfl
    | cons c before ih =>
      rw [List.forall_mem_cons] at each
      rw [Canonical.balance_cons_code _ each.1.1, each.1.2.1, ih each.2, Int.add_zero]
  exact ⟨before, behind, text, after_of_unmarked fun c member => (each c member).1, flat,
    fun found => (each _ found).2.2 rfl, blank⟩

theorem startLine_parens {raw : List Char} (simple : leadingKeyword (bareLine raw) = none)
    (code : Quote.code.after raw = .code) (paren : '(' ∈ raw) (level : 0 < Bracket.round.balance .code raw)
    (number : Nat) (context : List (List Char)) : ∃ loc, CutState.startLine number raw context =
      ([], .joining loc (bareLine raw) (Bracket.round.balance .code raw)) := by
  obtain ⟨before, behind, text, start, flat, apart, blank⟩ := parts_bareLine raw
  have same : Bracket.round.balance .code (bareLine raw) = Bracket.round.balance .code raw := by
    conv_rhs => rw [text]
    rw [Bracket.balance_append, start, flat, Bracket.balance_append, after_bareLine code,
      (Closed.blanks blank).balance_eq]
    omega
  have member : '(' ∈ bareLine raw := by
    rw [text, List.mem_append, List.mem_append] at paren
    exact (paren.resolve_left apart).resolve_right fun found => absurd (blank _ found) (by decide)
  have solid : Piece.isFiller (bareLine raw) = false :=
    List.all_eq_false.2 ⟨_, member, by decide⟩
  rw [startLine_simple solid simple, same]
  exact ⟨_, if_pos level⟩

-- A simple statement within its parentheses.
theorem run_call {head inside : List Char} (single : '\n' ∉ head) (simple : firstWord (head ++ '(' :: inside) = none)
    (code : Quote.code.after head = .code) (level : 0 ≤ Bracket.round.balance .code head)
    (open_ : Bracket.round.close .code 0 inside = none) (closed : linesClosed .code (head ++ '(' :: inside) = true)
    (number : Nat) : (CutState.idle.run context number (lines (head ++ '(' :: inside))).2.isIdle = false := by
  have low := low_of_close open_ (List.prefix_refl inside)
  have inner (t : List Char) : Bracket.round.balance .code (head ++ '(' :: t) =
      Bracket.round.balance .code head + (1 + Bracket.round.balance .code t) := by
    rw [Bracket.balance_append, code, Canonical.balance_cons_code _ rfl]
    rfl
  by_cases broken : '\n' ∈ inside
  · obtain ⟨v, others, rfl, single'⟩ := List.eq_append_cons_of_mem broken
    have shape : head ++ '(' :: (v ++ '\n' :: others) = (head ++ '(' :: v) ++ '\n' :: others := by simp
    have inLine : '\n' ∉ head ++ '(' :: v := by simp [single, single']
    have text : lines ((head ++ '(' :: v) ++ '\n' :: others) =
        (dropReturn (head ++ '(' :: v).reverse).reverse :: lines others := by
      rw [lines, linesFrom_inLine [] _ inLine, List.append_nil, linesFrom, if_pos rfl]
      rfl
    rw [shape] at simple closed ⊢
    rw [firstWord, text] at simple
    have whole : Quote.code.after (head ++ '(' :: v).reverse.reverse = .code := by
      rw [List.reverse_reverse]
      exact after_of_newline closed
    have same := balance_dropReturn whole
    have member : '(' ∈ (dropReturn (head ++ '(' :: v).reverse).reverse := by
      obtain ⟨g, kept, blank⟩ := exists_dropReturn (head ++ '(' :: v).reverse
      have found : '(' ∈ (head ++ '(' :: v).reverse.reverse := by simp
      rw [kept, List.mem_append] at found
      exact found.resolve_right fun skipped => absurd (blank _ skipped) (by decide)
    rw [List.reverse_reverse, inner] at same
    have first := low v ⟨_, rfl⟩
    obtain ⟨loc, now⟩ := startLine_parens simple (after_dropReturn whole) member (by omega) number
      (lines others ++ context)
    have behind : Quote.code.after v = .code := by
      rw [List.reverse_reverse, Quote.after_append, code] at whole
      exact whole
    rw [text]
    simp only [CutState.run, CutState.next, now]
    refine run_parens (fun front begins => ?_) ?_ _ _
    · have later := low (v ++ '\n' :: front) ((List.prefix_append_right_inj v).2
        (List.cons_prefix_cons.2 ⟨rfl, begins⟩))
      rw [Bracket.balance_append, behind, balance_blank .round (by decide)] at later
      rw [same, List.reverse_nil, List.nil_append]
      omega
    · rw [linesClosed_append (after_of_newline closed), Bool.and_eq_true, linesClosed, Bool.and_eq_true] at closed
      exact closed.2.2
  · have inLine : '\n' ∉ head ++ '(' :: inside := by simp [single, broken]
    have text := lines_single inLine (by simp)
    have first := low inside (List.prefix_refl inside)
    rw [firstWord, text] at simple
    obtain ⟨loc, now⟩ := startLine_parens simple (after_of_linesClosed closed) (by simp)
      (by rw [inner]; omega) number context
    rw [text]
    simp only [CutState.run, CutState.next, List.nil_append, now]
    rfl

-- A compound statement in front of its braces.
theorem run_header {c : Compound} (open_ : ∀ l ∈ ls, containsCode 0x7b .code l = false ∧
    Compound.endsStatement l = false) (bare : c.opened = false) (number : Nat) :
    ((CutState.absorbing c).run context number ls).2.isIdle = false := by
  induction ls generalizing c number with
  | nil => rfl
  | cons l ls ih =>
    rw [List.forall_mem_cons] at open_
    obtain ⟨⟨plain, goes⟩, later⟩ := open_
    have opened : (c.add l).opened = false := by rw [Compound.add, bare, plain]; rfl
    have now : CutState.absorb c l (ls ++ context) = ([], .absorbing (c.add l)) := by
      simp only [CutState.absorb, Compound.isComplete, opened, goes, Bool.or_self, Bool.and_false, Bool.false_eq_true,
        if_false]
    simp only [CutState.run, CutState.next, now]
    exact ih later opened (number + 1)

theorem startLine_header {raw : List Char} {k : Keyword} (compound : leadingKeyword (bareLine raw) = some k)
    (plain : containsCode 0x7b .code raw = false) (goes : Compound.endsStatement raw = false) (number : Nat)
    (context : List (List Char)) : ∃ c : Compound, CutState.startLine number raw context = ([], .absorbing c) ∧ c.opened = false := by
  obtain ⟨before, behind, text, start, -, -, blank⟩ := parts_bareLine raw
  have starts : Starts Canonical.IsWord (bareLine raw) := by
    obtain ⟨rest, opens, -⟩ := exists_of_leadingKeyword compound
    have whole : trimStart (bareLine raw) = bareLine raw := trimStart_trimStart _
    rw [whole] at opens
    rw [opens]
    have word : Starts Canonical.IsWord k.opening := by cases k <;> exact ⟨_, _, rfl, by decide⟩
    exact word.append rest
  have bare : containsCode 0x7b .code (bareLine raw) = false := by
    rw [text, Canonical.containsCode_append, start, Canonical.containsCode_append, Bool.or_eq_false_iff,
      Bool.or_eq_false_iff] at plain
    exact plain.2.1
  have same : Compound.endsStatement (bareLine raw) = false := by
    have solid : Starts (isBlank · = false) (bareLine raw ++ behind) :=
      (starts.mono fun _ => Canonical.isBlank_of_isWordChar).append behind
    rw [text, endsStatement_append solid, ← endsStatement_trim, trim_behind blank, endsStatement_trim] at goes
    exact goes
  rw [startLine_compound (Canonical.isFiller_of_starts starts) compound]
  simp only [CutState.absorb, Compound.isComplete, Compound.add, bare, same, Bool.or_self, Bool.and_false,
    Bool.false_eq_true, if_false]
  exact ⟨_, rfl, rfl⟩

/-- The cutting is within a statement that is left open. -/
theorem LeftOpen.goesOn_append (leftOpen : LeftOpen a) (start : f = [] ∨ ∃ others, f = others ++ ['\n'])
    (closed : linesClosed .code (f ++ a) = true) (ended : goesOn f = false)
    (apart : Compound.continuesIn (lines a) = false) : goesOn (f ++ a) = true := by
  have split : lines (f ++ a) = lines f ++ lines a := by
    obtain rfl | ⟨others, rfl⟩ := start
    · rfl
    · rw [List.append_assoc]
      exact lines_newline others a
  have code : Quote.code.after f = .code := by
    obtain rfl | ⟨others, rfl⟩ := start
    · rfl
    · rw [List.append_assoc] at closed
      rw [Quote.after_append, after_of_newline closed]
      rfl
  rw [linesClosed_append code, Bool.and_eq_true] at closed
  have context : Compound.continuesIn (lines a ++ []) = Compound.continuesIn [] := by
    rw [List.append_nil, apart]
    rfl
  have state : (CutState.idle.run (lines a ++ []) 0 (lines f)).2 = .idle := by
    rw [run_congr context]
    exact run_of_ended ended
  rw [goesOn, split, run_append, state, Bool.not_eq_true']
  cases leftOpen with
  | parens single simple code level open_ => exact run_call single simple code level open_ closed.2 _
  | header compound open_ =>
    obtain ⟨k, compound⟩ := Option.isSome_iff_exists.1 compound
    rw [firstWord] at compound
    cases text : lines a with
    | nil =>
      rw [text] at compound
      cases compound
    | cons raw ls =>
      rw [text] at compound open_
      rw [List.forall_mem_cons] at open_
      obtain ⟨c, now, bare⟩ := startLine_header compound open_.1.1 open_.1.2 (0 + (lines f).length)
        (ls ++ [])
      simp only [CutState.run, CutState.next, now]
      exact run_header open_.2 bare _

end Open

-- Where no statement goes on, a break ends the last one.
theorem cutBlock_ended (closed : linesClosed .code x = true) (ended : goesOn x = false)
    (apart : Compound.continuesIn (lines y) = false) (n : Nat) :
    cutBlock n (x ++ '\n' :: y) = cutBlock n (x ++ ['\n']) ++ cutBlock (n + newlines x + 1) y := by
  have context : Compound.continuesIn (lines y) = Compound.continuesIn [] := apart
  have state : (CutState.idle.run [] n (lines (x ++ ['\n']))).2 = .idle := by
    refine CutState.eq_idle_of_isIdle ?_
    rw [((Aligned.refl closed).behind (g := ['\n']) (by decide)).isIdle_run_eq n 0, run_of_ended ended]
    rfl
  have front : cutBlock n (x ++ ['\n']) = (CutState.idle.run [] n (lines (x ++ ['\n']))).1 := by
    rw [cutBlock, cutLines_run, state]
    exact List.append_nil _
  rw [front, cutBlock, lines_newline, cutLines_append, run_congr context, state, length_lines_newline, cutBlock,
    Nat.add_assoc]

end Breadboard
