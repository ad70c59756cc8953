import Breadboard.Proofs.Compound.Lines

set_option autoImplicit false

/-!
Bodies as they are written, in braces or without. Main statements: without braces a body is read up to
where the scan for its end stops, which is at its end or in front of an `else`, and at its end if there
is no `else` in it.
-/
namespace Breadboard

open Text
open Canonical (Starts Ends Tight)

/-- A body as it is written: a block, a simple statement, or a compound statement with a body of its
own; behind the body of an `if` there may be an `else` with another. -/
inductive Body where
  | block (inside : List Char)
  | simple (text : List Char)
  | headed (h : Head) (gap space : List Char) (body : Body)
  | branched (cond gap space : List Char) (body : Body) (before behind : List Char) (other : Body)

/-- The word between the branches of an `if`, with the blanks around it and what follows. -/
def elseText (before behind rest : List Char) : List Char :=
  before ++ (['e', 'l', 's', 'e'] ++ (behind ++ rest))

namespace Body

def text : Body → List Char
  | block inside => '\x7b' :: (inside ++ ['\x7d'])
  | simple text => text ++ [';']
  | headed h gap space body => h.text gap ++ (space ++ body.text)
  | branched cond gap space body before behind other =>
    (Head.choice cond).text gap ++ (space ++ (body.text ++ elseText before behind other.text))

/-- Whether all parts of a body are code of their kind, and an `else` is a word of its own. -/
def Proper : Body → Prop
  | block inside => Closed inside
  | simple text => IsSimple text
  | headed h gap space body => h.Proper ∧ (∀ c ∈ gap ++ space, isBlank c = true) ∧ body.Proper
  | branched cond gap space body before behind other =>
    (Head.choice cond).Proper ∧ (∀ c ∈ gap ++ space, isBlank c = true) ∧ body.Proper ∧
      (∀ c ∈ before ++ behind, isBlank c = true) ∧
      (behind ++ other.text).head?.any isWordChar = false ∧ other.Proper

instance decidableProper : (s : Body) → Decidable s.Proper
  | block inside => inferInstanceAs (Decidable (Closed inside))
  | simple text => inferInstanceAs (Decidable (IsSimple text))
  | headed h gap space body =>
    have := decidableProper body
    inferInstanceAs (Decidable (h.Proper ∧ (∀ c ∈ gap ++ space, isBlank c = true) ∧ body.Proper))
  | branched cond gap space body before behind other =>
    have := decidableProper body
    have := decidableProper other
    inferInstanceAs (Decidable ((Head.choice cond).Proper ∧ (∀ c ∈ gap ++ space, isBlank c = true) ∧
      body.Proper ∧ (∀ c ∈ before ++ behind, isBlank c = true) ∧
        (behind ++ other.text).head?.any isWordChar = false ∧ other.Proper))

def isBlock : Body → Bool
  | block _ => true
  | _ => false

/-- Whether a body is a compound statement without braces around it. -/
def isNested : Body → Bool
  | headed .. | branched .. => true
  | _ => false

/-- Whether there is an `else` in a body, outside of its blocks. -/
def hasElse : Body → Bool
  | block _ | simple _ => false
  | headed _ _ _ body => body.hasElse
  | branched .. => true

/-- Whether a body is an `if` with an `else` whose first branch is not nested. -/
def hasBranches : Body → Bool
  | branched _ _ _ body _ _ _ => !body.isNested
  | _ => false

/-- What the scan for the end of a body leaves of it. -/
def left (s : Body) : List Char := if s.isNested then Stmt.afterCompound s.text else []

/-- The text of a body, less the semicolon of a simple statement. -/
def code : Body → List Char
  | simple text => text
  | s => s.text

/-- What is read as the statement of a body without braces. -/
def reach (s : Body) : List Char := s.code.take (s.code.length - s.left.length)

theorem text_block_append (inside rest : List Char) :
    (block inside).text ++ rest = '\x7b' :: (inside ++ '\x7d' :: rest) :=
  congrArg _ (List.append_assoc inside _ rest)

theorem text_simple_append (t rest : List Char) : (simple t).text ++ rest = t ++ ';' :: rest :=
  List.append_assoc t _ rest

theorem text_headed (h : Head) (gap space : List Char) (body : Body) :
    (headed h gap space body).text = h.text gap ++ (space ++ body.text) := rfl

theorem text_branched (cond gap space : List Char) (body : Body) (before behind : List Char) (other : Body) :
    (branched cond gap space body before behind other).text =
      (Head.choice cond).text gap ++ (space ++ (body.text ++ elseText before behind other.text)) := rfl

end Body

section Else

variable {before behind rest : List Char} (blank : ∀ c ∈ before ++ behind, isBlank c = true)
  (apart : (behind ++ rest).head?.any isWordChar = false)

include blank in
theorem whole_else : Closed (elseText before behind []) ∧ Whole (elseText before behind []) := by
  have chars : ∀ c ∈ elseText before behind [], isMark c = false ∧ depthStep c = 0 ∧ ';' ≠ c := by
    rw [List.forall_mem_append] at blank
    refine List.forall_mem_append.2 ⟨fun c h => plain_of_isBlank (blank.1 c h), ?_⟩
    refine List.forall_mem_append.2 ⟨by decide, fun c h => plain_of_isBlank (blank.2 c ?_)⟩
    simpa using h
  exact ⟨.plain fun c h => ⟨(chars c h).1, (chars c h).2.1⟩, .plain chars⟩

theorem elseText_eq (before behind rest : List Char) :
    elseText before behind rest = elseText before behind [] ++ rest := by
  simp [elseText]

include blank apart in
theorem opensElse_else : opensElse (elseText before behind rest) = true := by
  have starts : Starts (isBlank · = false) (['e', 'l', 's', 'e'] ++ (behind ++ rest)) :=
    ⟨'e', _, rfl, by decide⟩
  have trimmed := Canonical.trimStart_blanks (fun c h => blank c (List.mem_append_left behind h)) starts
  have dropped : dropWord? "else".toList (['e', 'l', 's', 'e'] ++ (behind ++ rest)) =
      some (behind ++ rest) := by
    have front : dropPrefix? "else".toList (['e', 'l', 's', 'e'] ++ (behind ++ rest)) =
        some (behind ++ rest) := rfl
    rw [dropWord?, front]
    simp only [Option.bind_eq_bind, Option.bind_some, apart]
    rfl
  rw [opensElse, leadingKeyword, elseText, trimmed]
  simp only [dropped]
  split <;> rfl

include blank in
theorem afterStatement_else (rest : List Char) :
    Stmt.afterStatement (elseText before behind rest) = Stmt.afterStatement rest := by
  obtain ⟨closed, whole⟩ := whole_else blank
  rw [elseText_eq, whole.afterStatement_append closed]

end Else

namespace Body

theorem ends_text (s : Body) : Ends s.text := by
  induction s with
  | block inside => exact ⟨'\x7b' :: inside, '\x7d', rfl, by decide⟩
  | simple text => exact ⟨text, ';', rfl, by decide⟩
  | headed h gap space body ih => exact (ih.append _).append _
  | branched cond gap space body before behind other _ ih =>
    exact ((((ih.append _).append _).append _).append _).append _ |>.append _

theorem closed_text {s : Body} (fine : s.Proper) : Closed s.text := by
  have blanks {a : List Char} (blank : ∀ c ∈ a, isBlank c = true) : Closed a := .plain fun c h =>
    ⟨(plain_of_isBlank (blank c h)).1, (plain_of_isBlank (blank c h)).2.1⟩
  induction s with
  | block inside => exact fine.group .curly
  | simple text => exact fine.closed.append (.plain (by decide))
  | headed h gap space body ih =>
    obtain ⟨proper, blank, fine⟩ := fine
    rw [List.forall_mem_append] at blank
    exact (h.closed_text proper blank.1).append ((blanks blank.2).append (ih fine))
  | branched cond gap space body before behind other ih ih' =>
    obtain ⟨proper, blank, fine, word, -, fine'⟩ := fine
    rw [List.forall_mem_append] at blank
    rw [text_branched, elseText_eq]
    exact ((Head.choice cond).closed_text proper blank.1).append
      ((blanks blank.2).append ((ih fine).append ((whole_else word).1.append (ih' fine'))))

theorem not_wordChar_append {behind cs more : List Char} (some_ : cs ≠ [])
    (apart : (behind ++ cs).head?.any isWordChar = false) :
    (behind ++ (cs ++ more)).head?.any isWordChar = false := by
  cases behind with
  | nil =>
    obtain ⟨c, rest, rfl⟩ := List.exists_cons_of_ne_nil some_
    exact apart
  | cons c behind => exact apart

theorem text_ne_nil (s : Body) : s.text ≠ [] := by
  obtain ⟨front, c, eq, -⟩ := s.ends_text
  simp [eq]

end Body

section Scan

/-- Whether a text is empty or goes on with an `else`. -/
def Settled (cs : List Char) : Prop := cs = [] ∨ opensElse cs = true

variable {gap space : List Char} {h : Head}

-- The scan for the end of a statement passes over a head and the blanks behind it.
theorem afterStatement_head (proper : h.Proper) (blank : ∀ c ∈ gap ++ space, isBlank c = true)
    (rest : List Char) :
    Stmt.afterStatement (h.text gap ++ (space ++ rest)) = Stmt.afterStatement rest := by
  rw [List.forall_mem_append] at blank
  have space_ (c : Char) (member : c ∈ space) := plain_of_isBlank (blank.2 c member)
  rw [(h.whole_text proper blank.1).afterStatement_append (h.closed_text proper blank.1),
    (Whole.plain space_).afterStatement_append (.plain fun c h => ⟨(space_ c h).1, (space_ c h).2.1⟩)]

theorem afterStatement_block {inside : List Char} (closed : Closed inside) (rest : List Char) :
    Stmt.afterStatement ((Body.block inside).text ++ rest) = Stmt.afterStatement rest :=
  (Whole.group .curly closed).afterStatement_append (closed.group .curly) rest

/-- The scan for the end of a statement stops at the end of a body or in front of an `else`, if what
follows the body is of that kind itself. -/
theorem settled_afterStatement {s : Body} (fine : s.Proper) {more : List Char} (here : Settled more)
    (later : Settled (Stmt.afterStatement more)) : Settled (Stmt.afterStatement (s.text ++ more)) := by
  induction s generalizing more with
  | block inside =>
    rw [afterStatement_block fine]
    exact later
  | simple text =>
    have cut := fine.whole.afterStatement_semicolon fine.closed more
    rw [Body.text_simple_append, cut]
    exact here
  | headed h gap space body ih =>
    obtain ⟨proper, blank, fine⟩ := fine
    rw [Body.text_headed, List.append_assoc, List.append_assoc, afterStatement_head proper blank]
    exact ih fine here later
  | branched cond gap space body before behind other ih ih' =>
    obtain ⟨proper, blank, fine, word, apart, fine'⟩ := fine
    have shape : (Body.branched cond gap space body before behind other).text ++ more =
        (Head.choice cond).text gap ++ (space ++
          (body.text ++ elseText before behind (other.text ++ more))) := by
      simp [Body.text_branched, elseText]
    rw [shape, afterStatement_head proper blank]
    refine ih fine (.inr (opensElse_else word (Body.not_wordChar_append other.text_ne_nil apart))) ?_
    rw [afterStatement_else word]
    exact ih' fine' here later

-- Without an `else` in the way it stops at the end.
theorem afterStatement_of_not_hasElse {s : Body} (fine : s.Proper) (none : s.hasElse = false) :
    Stmt.afterStatement s.text = [] := by
  induction s with
  | block inside =>
    have scanned := afterStatement_block fine []
    rw [List.append_nil] at scanned
    rw [scanned]
    rfl
  | simple text => exact fine.whole.afterStatement_semicolon fine.closed []
  | headed h gap space body ih =>
    obtain ⟨proper, blank, fine⟩ := fine
    rw [Body.text_headed, afterStatement_head proper blank]
    exact ih fine none
  | branched => cases none

end Scan

namespace Body

variable {s : Body}

theorem starts_text (fine : s.Proper) :
    Starts (fun c => isBlank c = false ∧ (c = '\x7b' ↔ s.isBlock = true)) s.text := by
  have head (h : Head) (gap rest : List Char) :
      Starts (fun c => isBlank c = false ∧ (c = '\x7b' ↔ false = true)) (h.text gap ++ rest) := by
    refine ((h.starts_text gap).append rest).mono fun c word => ⟨Canonical.isBlank_of_isWordChar word, ?_⟩
    simpa using Canonical.ne_of_class word (by decide)
  cases s with
  | block inside => exact ⟨'\x7b', inside ++ ['\x7d'], rfl, by decide, by simp [isBlock]⟩
  | simple text =>
    exact (fine.starts.append _).mono fun c first => ⟨first.1, by simpa [isBlock] using first.2⟩
  | headed h gap space body => exact head h gap _
  | branched cond gap space body before behind other => exact head _ gap _

theorem starts_solid (fine : s.Proper) : Starts (isBlank · = false) s.text :=
  (starts_text fine).mono fun _ => And.left

theorem head?_text (fine : s.Proper) (rest : List Char) :
    (s.text ++ rest).head? = some '\x7b' ↔ s.isBlock = true := by
  obtain ⟨c, more, eq, -, brace⟩ := starts_text fine
  rw [eq, ← brace]
  simp

theorem tight_text (fine : s.Proper) : Tight s.text := ⟨starts_solid fine, s.ends_text⟩

/-- What a compound statement consists of: a head, a body, and nothing or an `else` behind the body. -/
structure Opens (s : Body) (h : Head) (gap space : List Char) (body : Body) (tail : List Char) : Prop where
  text_eq : s.text = h.text gap ++ (space ++ (body.text ++ tail))
  proper : h.Proper
  blank : ∀ c ∈ gap ++ space, isBlank c = true
  fine : body.Proper
  settled : Settled tail
  settled_behind : Settled (Stmt.afterStatement tail)
  plain : s.hasElse = false → tail = [] ∧ body.hasElse = false

theorem opens_branched {cond gap space before behind : List Char} {body other : Body}
    (fine : (branched cond gap space body before behind other).Proper) :
    Opens (branched cond gap space body before behind other) (.choice cond) gap space body
      (elseText before behind other.text) := by
  obtain ⟨proper, blank, fine, word, apart, fine'⟩ := fine
  have settled := settled_afterStatement fine' (.inl rfl) (.inl rfl)
  rw [List.append_nil] at settled
  exact ⟨rfl, proper, blank, fine, .inr (opensElse_else word apart),
    by rwa [afterStatement_else word], fun none => by cases none⟩

theorem exists_opens (fine : s.Proper) (nested : s.isNested = true) :
    ∃ h gap space body tail, Opens s h gap space body tail := by
  cases s with
  | block inside => cases nested
  | simple text => cases nested
  | headed h gap space body =>
    obtain ⟨proper, blank, fine⟩ := fine
    exact ⟨h, gap, space, body, [], by simp [text_headed], proper, blank, fine, .inl rfl, .inl rfl,
      fun none => ⟨rfl, none⟩⟩
  | branched cond gap space body before behind other =>
    exact ⟨.choice cond, gap, space, body, elseText before behind other.text, opens_branched fine⟩

section Ends

variable {gap space : List Char} {h : Head}

-- The end of a compound statement is looked for behind its block, or else where a statement ends.
theorem afterCompound_text (proper : h.Proper) (blank : ∀ c ∈ gap ++ space, isBlank c = true)
    (fine : s.Proper) (tail : List Char) :
    Stmt.afterCompound (h.text gap ++ (space ++ (s.text ++ tail))) =
      if s.isBlock then tail else Stmt.afterStatement (s.text ++ tail) := by
  rw [List.forall_mem_append] at blank
  have start : trimStart (space ++ (s.text ++ tail)) = s.text ++ tail :=
    Canonical.trimStart_blanks blank.2 ((starts_solid fine).append tail)
  rw [Stmt.afterCompound, h.header?_text _ proper blank.1]
  simp only [start, head?_text fine]
  split
  · rename_i block
    cases s with
    | block inside =>
      have enclosed : Bracket.curly.enclosed? ('\x7b' :: (inside ++ '\x7d' :: tail)) =
        some (inside, tail) := Closed.enclosed? fine .curly
      rw [text_block_append, enclosed]
      rfl
    | simple | headed | branched => cases block
  · rfl

/-- What the scan for the end of a body leaves is nothing or goes on with an `else`. -/
theorem settled_left (fine : s.Proper) : Settled s.left := by
  cases nested : s.isNested with
  | false =>
    rw [left, nested]
    exact .inl rfl
  | true =>
    obtain ⟨h, gap, space, body, tail, opens⟩ := exists_opens fine nested
    rw [left, nested, if_pos rfl, opens.text_eq, afterCompound_text opens.proper opens.blank opens.fine]
    split
    · exact opens.settled
    · exact settled_afterStatement opens.fine opens.settled opens.settled_behind

-- Behind a first branch that is not nested it leaves the others.
theorem Opens.left_eq {body : Body} {tail : List Char} (opens : Opens s h gap space body tail)
    (nested : s.isNested = true) (flat : body.isNested = false) : s.left = tail := by
  rw [left, nested, if_pos rfl, opens.text_eq, afterCompound_text opens.proper opens.blank opens.fine]
  have fine := opens.fine
  cases body with
  | block => rfl
  | simple t =>
    have cut := fine.whole.afterStatement_semicolon fine.closed tail
    rw [text_simple_append, cut, ite_self]
  | headed | branched => cases flat

/-- It leaves nothing of a body without an `else`. -/
theorem left_eq_nil (fine : s.Proper) (none : s.hasElse = false) : s.left = [] := by
  cases nested : s.isNested with
  | false => rw [left, nested]; rfl
  | true =>
    obtain ⟨h, gap, space, body, tail, opens⟩ := exists_opens fine nested
    obtain ⟨rfl, none⟩ := opens.plain none
    rw [left, nested, if_pos rfl, opens.text_eq, afterCompound_text opens.proper opens.blank opens.fine,
      List.append_nil, afterStatement_of_not_hasElse opens.fine none, ite_self]

end Ends

section Reading

open Stmt

variable {space : List Char} (line : Nat) (blank : ∀ c ∈ space, isBlank c = true)

include blank in
theorem moveTo_space {rest : List Char} (starts : Starts (isBlank · = false) rest) :
    trimStart (space ++ rest) = rest ∧
      ((Cursor.mk line (space ++ rest)).moveTo rest).line = line + newlines space :=
  ⟨Canonical.trimStart_blanks blank starts, by simp [Cursor.moveTo, newlines_append]⟩

-- A simple body is read up to its semicolon.
include blank in
theorem readBody_simple {t : List Char} (simple : IsSimple t) (tail : List Char) :
    (readBody read ⟨line, space ++ (t ++ ';' :: tail)⟩).1 = [read ⟨line + newlines space, 1⟩ t] ∧
      (readBody read ⟨line, space ++ (t ++ ';' :: tail)⟩).2.rest = tail := by
  let c : Cursor := ⟨line, space ++ (t ++ ';' :: tail)⟩
  obtain ⟨trimmed, place⟩ := moveTo_space line blank (simple.starts_solid.append (';' :: tail))
  have bare : (trimStart c.rest).head? ≠ some '\x7b' := by
    obtain ⟨d, rest, rfl, -, other⟩ := simple.starts
    rw [trimmed]
    simpa using other
  have plain : leadingKeyword (trimStart c.rest) = none := by
    rw [trimmed, leadingKeyword_semicolon, simple.plain]
  have solid : isBlankText t = false := by
    simpa using simple.starts_solid.isBlankText_append []
  rw [Stmt.readBody_simple read bare plain, trimmed, place, simple.whole.beforeTop_append simple.closed,
    simple.whole.afterStatement_semicolon simple.closed]
  exact ⟨by rw [single, solid]; rfl, rfl⟩

-- Behind a block, or a simple statement, a body ends.
include blank in
theorem rest_readBody (fine : s.Proper) (flat : s.isNested = false) (tail : List Char) :
    (readBody read ⟨line, space ++ (s.text ++ tail)⟩).2.rest = tail := by
  cases s with
  | block inside =>
    rw [text_block_append, Stmt.readBody_braces line blank fine]
  | simple t =>
    rw [text_simple_append]
    exact (readBody_simple line blank fine tail).2
  | headed | branched => cases flat

theorem isSome_leadingKeyword (fine : s.Proper) (nested : s.isNested = true) :
    (leadingKeyword s.text).isSome = true := by
  obtain ⟨h, gap, space, body, tail, opens⟩ := exists_opens fine nested
  have blank := List.forall_mem_append.1 opens.blank
  rw [opens.text_eq, h.leadingKeyword_text _ blank.1]
  rfl

theorem code_of_isNested (nested : s.isNested = true) : s.code = s.text := by
  cases s with
  | block | simple => cases nested
  | headed | branched => rfl

theorem isBlankText_reach (fine : s.Proper) (nested : s.isNested = true) :
    isBlankText s.reach = false := by
  obtain ⟨h, gap, space, body, tail, opens⟩ := exists_opens fine nested
  obtain ⟨c, rest, eq, solid⟩ := starts_solid fine
  have shorter : s.left.length < s.text.length := by
    have header := h.header?_text (space ++ (body.text ++ tail)) opens.proper
      (List.forall_mem_append.1 opens.blank).1
    rw [← opens.text_eq] at header
    rw [left, nested, if_pos rfl]
    exact length_afterCompound_lt header
  obtain ⟨n, many⟩ := Nat.exists_eq_succ_of_ne_zero (Nat.sub_ne_zero_of_lt shorter)
  rw [reach, code_of_isNested nested, many, eq]
  simp [isBlankText, solid]

/-- Without braces a body is read as one statement, and what the scan for its end leaves is not read. -/
theorem readBody_bare (fine : s.Proper) (bare : s.isBlock = false)
    (blank : ∀ c ∈ space, isBlank c = true) :
    (readBody read ⟨line, space ++ s.text⟩).1 = [read ⟨line + newlines space, 1⟩ s.reach] ∧
      (readBody read ⟨line, space ++ s.text⟩).2.rest = s.left := by
  cases nested : s.isNested with
  | false =>
    cases s with
    | simple t =>
      have all : (simple t).reach = t := List.take_of_length_le (Nat.le_refl t.length)
      rw [all]
      exact readBody_simple line blank fine []
    | block => cases bare
    | headed | branched => cases nested
  | true =>
    let c : Cursor := ⟨line, space ++ s.text⟩
    obtain ⟨trimmed, place⟩ := moveTo_space line blank (starts_solid fine)
    have brace : (trimStart c.rest).head? ≠ some '\x7b' := by
      have first := head?_text fine []
      rw [List.append_nil, bare] at first
      rw [trimmed]
      simp [first]
    have keyword : (leadingKeyword (trimStart c.rest)).isSome = true := by
      rw [trimmed]
      exact isSome_leadingKeyword fine nested
    have left_ : s.left = afterCompound s.text := by rw [left, nested, if_pos rfl]
    have solid := isBlankText_reach fine nested
    rw [Stmt.readBody_compound read brace keyword, trimmed, place, ← left_, ← code_of_isNested nested]
    exact ⟨by rw [single, ← reach, solid]; rfl, rfl⟩

end Reading

end Body

end Breadboard
