import Breadboard.Proofs.Canonical.Layout
import Breadboard.Proofs.Compound.Closed
import Breadboard.Proofs.Compound.Rereading

set_option autoImplicit false

/-!
What opens a compound statement, and how the text behind it is read. Main statements: the statement is
read from its head and the body that follows it, whatever the parts of the head hold.
-/
namespace Breadboard

open Text
open Canonical (Starts Ends Tight)

/-- What a compound statement opens with: `if (cond)`, `for (init; cond; step)` or `while (cond)`. -/
inductive Head where
  | choice (cond : List Char)
  | counted (init cond step : List Char)
  | repeated (cond : List Char)

namespace Head

def keyword : Head → Keyword
  | choice _ => .ifWord
  | counted .. => .forWord
  | repeated _ => .whileWord

def word : Head → List Char
  | choice _ => ['i', 'f']
  | counted .. => ['f', 'o', 'r']
  | repeated _ => ['w', 'h', 'i', 'l', 'e']

def inner : Head → List Char
  | choice cond | repeated cond => cond
  | counted init cond step => init ++ ';' :: (cond ++ ';' :: step)

/-- The text of a head, with `gap` between its word and its parentheses. -/
def text (gap : List Char) (h : Head) : List Char := h.word ++ gap ++ ('(' :: h.inner ++ [')'])

/-- Whether all parts of a head are closed code, and those of a `for` have no semicolon of their own. -/
def Proper : Head → Prop
  | choice cond | repeated cond => Closed cond
  | counted init cond step =>
    (Closed init ∧ Closed cond ∧ Closed step) ∧ Whole init ∧ Whole cond ∧ Whole step

instance : DecidablePred Proper
  | choice cond | repeated cond => inferInstanceAs (Decidable (Closed cond))
  | counted init cond step => inferInstanceAs (Decidable
      ((Closed init ∧ Closed cond ∧ Closed step) ∧ Whole init ∧ Whole cond ∧ Whole step))

def isChoice : Head → Bool
  | choice _ => true
  | _ => false

/-- The statement of a head with a body; the branches of an `if` go on with `others`. -/
def statement (loc : Location) (body : List Stmt) (others : Chain) : Head → Stmt
  | choice cond => .choose loc (.branch (.read cond) body others)
  | counted init cond step =>
    .forLoop loc (Stmt.readClause Stmt.read loc.line init)
      (if isBlankText cond then .truth (.number 1.0) else .read cond)
      (Stmt.readClause Stmt.read loc.line step) body
  | repeated cond => .whileLoop loc (.read cond) body

end Head

section Keywords

variable {gap cs : List Char}

theorem isWordChar_of_isBlank {c : Char} (blank : isBlank c = true) : isWordChar c = false := by
  cases word : isWordChar c with
  | false => rfl
  | true =>
    rw [Canonical.isBlank_of_isWordChar word] at blank
    cases blank

-- A blank is no mark, no bracket and no semicolon.
theorem plain_of_isBlank {c : Char} (blank : isBlank c = true) :
    isMark c = false ∧ depthStep c = 0 ∧ ';' ≠ c := by
  have special : ∀ d ∈ ['"', '\'', '(', ')', '[', ']', '\x7b', '\x7d', ';'], isBlank d = false := by
    decide
  have other : ∀ d ∈ ['"', '\'', '(', ')', '[', ']', '\x7b', '\x7d', ';'], c ≠ d := fun d known =>
    Canonical.ne_of_class blank (special d known)
  simp only [List.forall_mem_cons, List.not_mem_nil, false_implies, implies_true, and_true] at other
  simp [isMark, depthStep, other, Ne.symm other.2.2.2.2.2.2.2.2]

-- Behind a word and a gap the parentheses open.
theorem not_wordChar_gap (blank : ∀ c ∈ gap, isBlank c = true) (rest : List Char) :
    ((gap ++ '(' :: rest).head?.any isWordChar) = false := by
  cases gap with
  | nil => rfl
  | cons c gap =>
    have first := isWordChar_of_isBlank (blank c List.mem_cons_self)
    simp [first]

/-- Whether a text opens with an `else`. -/
def opensElse (cs : List Char) : Bool :=
  (leadingKeyword cs).any fun k => k == .elseWord || k == .elseIf

theorem trimStart_trimStart (cs : List Char) : trimStart (trimStart cs) = trimStart cs := by
  induction cs with
  | nil => rfl
  | cons c cs ih =>
    by_cases blank : isBlank c = true
    · have skip : trimStart (c :: cs) = trimStart cs := List.dropWhile_cons_of_pos blank
      rw [skip, ih]
    · simp [trimStart, blank]

theorem leadingKeyword_trimStart (cs : List Char) :
    leadingKeyword (trimStart cs) = leadingKeyword cs := by
  rw [leadingKeyword, leadingKeyword, trimStart_trimStart]

-- A character that no word holds ends every word.
theorem dropWord?_stop {stop : Char} {word : List Char} (other : stop ∉ word) (ends : isWordChar stop = false)
    (cs more : List Char) : dropWord? word (cs ++ stop :: more) = (dropWord? word cs).map (· ++ stop :: more) := by
  have dropped : dropPrefix? word (cs ++ stop :: more) =
      (dropPrefix? word cs).map (· ++ stop :: more) := by
    induction word generalizing cs with
    | nil => rfl
    | cons w word ih =>
      simp only [List.mem_cons, not_or] at other
      cases cs with
      | nil => simp [dropPrefix?, Ne.symm other.1]
      | cons c cs =>
        by_cases same : w = c
        · simp [dropPrefix?, same, ih other.2]
        · simp [dropPrefix?, same]
  rw [dropWord?, dropped, dropWord?]
  cases dropPrefix? word cs with
  | none => rfl
  | some rest =>
    have next : (rest ++ stop :: more).head?.any isWordChar = rest.head?.any isWordChar := by
      cases rest <;> simp [ends]
    simp only [Option.map_some, Option.bind_eq_bind, Option.bind_some, next]
    cases rest.head?.any isWordChar <;> rfl

theorem trimStart_semicolon (cs more : List Char) :
    trimStart (cs ++ ';' :: more) = trimStart cs ++ ';' :: more := by
  induction cs with
  | nil => rfl
  | cons c cs ih =>
    by_cases blank : isBlank c = true
    · simpa [trimStart, blank] using ih
    · simp [trimStart, blank]

theorem leadingKeyword_semicolon (cs more : List Char) :
    leadingKeyword (cs ++ ';' :: more) = leadingKeyword cs := by
  have plain (word : List Char) (known : word ∈ ["else".toList, "if".toList, "for".toList, "while".toList]) :
      ';' ∉ word := by
    revert word
    decide
  have word (word cs : List Char)
      (known : word ∈ ["else".toList, "if".toList, "for".toList, "while".toList]) :=
    dropWord?_stop (plain word known) (by decide) cs more
  simp only [leadingKeyword, trimStart_semicolon]
  rw [word "else".toList _ (by simp), word "if".toList _ (by simp), word "for".toList _ (by simp),
    word "while".toList _ (by simp)]
  cases dropWord? "else".toList (trimStart cs) with
  | none => simp
  | some rest =>
    simp only [Option.map_some, trimStart_semicolon]
    rw [word "if".toList _ (by simp)]
    simp

end Keywords

namespace Head

variable {gap : List Char} (h : Head) (rest : List Char)

theorem starts_text (gap : List Char) : Starts Canonical.IsWord (h.text gap) := by
  cases h <;> exact ⟨_, _, rfl, by decide⟩

theorem isWordChar_word : ∀ c ∈ h.word, isWordChar c = true := by
  cases h <;> simp only [word] <;> decide

theorem closed_inner (proper : h.Proper) : Closed h.inner := by
  have semicolon : Closed [';'] := .plain (by decide)
  cases h with
  | choice cond | repeated cond => exact proper
  | counted init cond step =>
    obtain ⟨⟨first, second, third⟩, -⟩ := proper
    have all := first.append (semicolon.append (second.append (semicolon.append third)))
    simpa [inner] using all

theorem leadingKeyword_text (blank : ∀ c ∈ gap, isBlank c = true) :
    leadingKeyword (h.text gap ++ rest) = some h.keyword := by
  have next := not_wordChar_gap blank (h.inner ++ [')'] ++ rest)
  have shape : h.text gap ++ rest = h.word ++ (gap ++ '(' :: (h.inner ++ [')'] ++ rest)) := by simp [text]
  rw [shape]
  generalize gap ++ '(' :: (h.inner ++ [')'] ++ rest) = tail at next
  cases h <;> simp [leadingKeyword, word, keyword, trimStart, isBlank, dropWord?, dropPrefix?, next, guard]

theorem header?_text (proper : h.Proper) (blank : ∀ c ∈ gap, isBlank c = true) :
    Stmt.header? (h.text gap ++ rest) = some (h.inner, rest) := by
  have skip : ∀ c ∈ h.word ++ gap, (c != '(') = true := by
    refine List.forall_mem_append.2 ⟨fun c member => ?_, fun c member => ?_⟩
    · exact bne_iff_ne.2 (Canonical.ne_of_class (h.isWordChar_word c member) (by decide))
    · exact bne_iff_ne.2 (Canonical.ne_of_class (blank c member) (by decide))
  have opens : Bracket.round.enclosed? ('(' :: (h.inner ++ ')' :: rest)) = some (h.inner, rest) :=
    (h.closed_inner proper).enclosed? .round
  have shape : h.text gap ++ rest = (h.word ++ gap) ++ '(' :: (h.inner ++ ')' :: rest) := by simp [text]
  rw [Stmt.header?, shape, List.dropWhile_append_of_pos skip, List.dropWhile_cons_of_neg (by simp)]
  exact opens

-- In front of the parentheses there is nothing that a scan takes notice of.
theorem plain_front (blank : ∀ c ∈ gap, isBlank c = true) :
    ∀ c ∈ h.word ++ gap, isMark c = false ∧ depthStep c = 0 ∧ ';' ≠ c := by
  refine List.forall_mem_append.2 ⟨fun c member => ?_, fun c member => plain_of_isBlank (blank c member)⟩
  have word := h.isWordChar_word c member
  have plain := Canonical.isPlain_of_isWordChar word
  exact ⟨Canonical.isMark_of_isPlain plain, Canonical.depthStep_of_isPlain plain,
    (Canonical.ne_of_class word (by decide)).symm⟩

theorem closed_front (blank : ∀ c ∈ gap, isBlank c = true) : Closed (h.word ++ gap) :=
  .plain fun c member => ⟨(h.plain_front blank c member).1, (h.plain_front blank c member).2.1⟩

theorem closed_text (proper : h.Proper) (blank : ∀ c ∈ gap, isBlank c = true) : Closed (h.text gap) :=
  (h.closed_front blank).append ((h.closed_inner proper).group .round)

theorem whole_text (proper : h.Proper) (blank : ∀ c ∈ gap, isBlank c = true) : Whole (h.text gap) :=
  (Whole.plain (h.plain_front blank)).append (h.closed_front blank)
    (Whole.group .round (h.closed_inner proper))

theorem splitTop_inner {init cond step : List Char} (proper : (counted init cond step).Proper) :
    splitTop [';'] (counted init cond step).inner = [init, cond, step] := by
  obtain ⟨⟨first, second, -⟩, whole, whole', whole''⟩ := proper
  rw [inner, whole.splitTop_append first, whole'.splitTop_append second, whole''.splitTop_eq]

end Head

namespace Stmt

/-- Reads what follows the first branch of an `if`, from behind its body. -/
def readOthers (read : Location → List Char → Stmt) (branches : Nat) (c : Cursor) : Option Chain :=
  let c := c.moveTo (trimStart c.rest)
  match leadingKeyword c.rest with
  | some .elseIf => readChain read branches (c.moveTo (trimStart (c.rest.drop 4)))
  | some .elseWord => some (.otherwise (readBody read (c.moveTo (c.rest.drop 4))).1)
  | _ => some .done

theorem readChain_succ (read : Location → List Char → Stmt) (branches : Nat) (c : Cursor)
    {cond after : List Char} (header : header? c.rest = some (cond, after)) :
    readChain read (branches + 1) c =
      (readOthers read branches (readBody read (c.moveTo after)).2).map
        (.branch (.read cond) (readBody read (c.moveTo after)).1) := by
  rw [readChain, header]
  simp only [Option.bind_eq_bind, Option.bind_some, readOthers]
  generalize readBody read (c.moveTo after) = result
  cases leadingKeyword (result.2.moveTo (trimStart result.2.rest)).rest with
  | none => rfl
  | some k =>
    cases k with
    | elseIf => dsimp only; cases readChain read branches _ <;> rfl
    | elseWord | ifWord | forWord | whileWord => rfl

theorem readOthers_eq (read : Location → List Char → Stmt) (branches : Nat) {c : Cursor}
    (none : opensElse c.rest = false) : readOthers read branches c = some .done := by
  rw [opensElse, ← leadingKeyword_trimStart] at none
  simp only [readOthers, Cursor.moveTo]
  split <;> rename_i keyword
  · simp [keyword] at none
  · simp [keyword] at none
  · rfl

-- An `else` that follows is taken for one of this `if`.
theorem ne_done_of_readOthers {read : Location → List Char → Stmt} {branches : Nat} {c : Cursor}
    {others : Chain} (else_ : opensElse c.rest = true)
    (read_ : readOthers read branches c = some others) : others.unlocated ≠ .done := by
  rw [opensElse, ← leadingKeyword_trimStart] at else_
  simp only [readOthers, Cursor.moveTo] at read_
  split at read_
  · cases branches with
    | zero => cases read_
    | succ branches =>
      unfold readChain at read_
      simp only [Option.bind_eq_bind, Option.bind_eq_some_iff] at read_
      obtain ⟨⟨cond, after⟩, -, read_⟩ := read_
      split at read_
      · obtain ⟨rest, -, made⟩ := Option.bind_eq_some_iff.1 read_
        cases made
        simp [Chain.unlocated]
      · cases read_
        simp [Chain.unlocated]
      · cases read_
        simp [Chain.unlocated]
  · cases read_
    simp [Chain.unlocated]
  · rename_i notIf notElse
    cases keyword : leadingKeyword (trimStart c.rest) with
    | none => simp [keyword] at else_
    | some k => cases k <;> simp_all

section Statements

variable {gap rest : List Char} {h : Head} (proper : h.Proper) (blank : ∀ c ∈ gap, isBlank c = true)

/-- Where the body of a statement starts that stands at `loc` and opens with a head. -/
def behindHead (loc : Location) (gap : List Char) (h : Head) (rest : List Char) : Cursor :=
  ⟨loc.line + newlines (h.text gap), rest⟩

theorem moveTo_behindHead (loc : Location) :
    (Cursor.mk loc.line (h.text gap ++ rest)).moveTo rest = behindHead loc gap h rest := by
  rw [Cursor.moveTo, newlines_append, Nat.add_sub_cancel]
  rfl

theorem tight_text (ends : Ends rest) : Tight (h.text gap ++ rest) where
  starts := ((h.starts_text gap).append rest).mono fun _ => Canonical.isBlank_of_isWordChar
  ends := ends.append _

include proper blank

-- A loop is read from its head and its body; what follows the body is not read at all.
theorem read_loop (loop : h.isChoice = false) (ends : Ends rest) (loc : Location) :
    read loc (h.text gap ++ rest) =
      h.statement loc (readBody read (behindHead loc gap h rest)).1 .done := by
  have header := h.header?_text rest proper blank
  have keyword := h.leadingKeyword_text rest blank
  rw [read_eq, readLevel, (tight_text ends).trim_eq]
  cases h with
  | choice cond => cases loop
  | counted init cond step =>
    simp only [keyword, Head.keyword, readFor?, header, Option.bind_eq_bind, Option.bind_some,
      Head.splitTop_inner proper, moveTo_behindHead, Option.getD_some]
    rfl
  | repeated cond =>
    simp only [keyword, Head.keyword, readWhile?, header, Option.bind_eq_bind, Option.bind_some,
      moveTo_behindHead, Option.getD_some]
    rfl

-- An `if` is read from its head and its body, and from the branches that follow the body.
theorem read_choice (choice : h.isChoice = true) (ends : Ends rest) (loc : Location) :
    ∃ branches, read loc (h.text gap ++ rest) =
      ((readOthers read branches (readBody read (behindHead loc gap h rest)).2).map
        (h.statement loc (readBody read (behindHead loc gap h rest)).1)).getD
          (.act loc (.ignored (String.ofList (h.text gap ++ rest)))) := by
  have header := h.header?_text rest proper blank
  have keyword := h.leadingKeyword_text rest blank
  obtain ⟨c, tail, eq, -⟩ := (h.starts_text gap).append rest
  refine ⟨tail.length, ?_⟩
  rw [read_eq, readLevel, (tight_text ends).trim_eq]
  cases h with
  | counted init cond step | repeated cond => cases choice
  | choice cond =>
    have length : ((Head.choice cond).text gap ++ rest).length = tail.length + 1 := by rw [eq]; rfl
    have chain := readChain_succ read tail.length
      ⟨loc.line, (Head.choice cond).text gap ++ rest⟩ header
    simp only [keyword, Head.keyword, length, chain, moveTo_behindHead, Option.map_map]
    rfl

-- So a statement whose body no `else` follows is read from its head and its body.
theorem read_head (ends : Ends rest) (loc : Location)
    (none : h.isChoice = true → opensElse (readBody read (behindHead loc gap h rest)).2.rest = false) :
    read loc (h.text gap ++ rest) =
      h.statement loc (readBody read (behindHead loc gap h rest)).1 .done := by
  cases choice : h.isChoice with
  | false => exact read_loop proper blank choice ends loc
  | true =>
    obtain ⟨branches, made⟩ := read_choice proper blank choice ends loc
    rw [made, readOthers_eq read branches (none choice)]
    rfl

end Statements

section Bodies

variable {gap inside : List Char} (line : Nat)

-- A body in braces ends at its closing brace.
theorem readBody_braces (blank : ∀ c ∈ gap, isBlank c = true) (closed : Closed inside)
    (after : List Char) :
    readBody read ⟨line, gap ++ '\x7b' :: (inside ++ '\x7d' :: after)⟩ =
      (readAll (cutBlock (line + newlines gap) inside),
        ⟨line + newlines gap + newlines inside, after⟩) := by
  have starts : Starts (isBlank · = false) ('\x7b' :: (inside ++ '\x7d' :: after)) :=
    ⟨_, _, rfl, by decide⟩
  let c : Cursor := ⟨line, gap ++ '\x7b' :: (inside ++ '\x7d' :: after)⟩
  have trimmed : trimStart c.rest = '\x7b' :: (inside ++ '\x7d' :: after) :=
    Canonical.trimStart_blanks blank starts
  have brace : (trimStart c.rest).head? = some '\x7b' := by rw [trimmed]; rfl
  have parts : (Bracket.curly.enclosed? (trimStart c.rest)).getD ((trimStart c.rest).tail, []) =
      (inside, after) := by
    have enclosed : Bracket.curly.enclosed? ('\x7b' :: (inside ++ '\x7d' :: after)) =
        some (inside, after) := closed.enclosed? .curly
    rw [trimmed, enclosed]
    rfl
  have count (d : Char) (other : d ≠ '\n') (cs : List Char) : newlines (d :: cs) = newlines cs := by
    simp [newlines, List.count_cons_of_ne other]
  have place : (c.moveTo (trimStart c.rest)).line = line + newlines gap := by
    simp only [Cursor.moveTo, trimmed, c, newlines_append, Nat.add_sub_cancel]
  have behind : (c.moveTo (trimStart c.rest)).moveTo after =
      ⟨line + newlines gap + newlines inside, after⟩ := by
    have braces : newlines ('\x7b' :: (inside ++ '\x7d' :: after)) =
        newlines inside + newlines after := by
      rw [count _ (by decide), newlines_append, count _ (by decide)]
    simp only [Cursor.moveTo, trimmed, braces, c, newlines_append, Nat.add_sub_cancel]
  rw [readBody_block read brace parts, place, behind]
  rfl

end Bodies

end Stmt

end Breadboard
