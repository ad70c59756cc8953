import Breadboard.Proofs.Compound.Bodies
import Breadboard.Proofs.Compound.SharedLine

set_option autoImplicit false

/-!
Statements with one statement as their body. Main statement: braces around it make no difference just if
the scan for its end stops at its end; where it stops in front of an `else`, the statement loses the
branch, and an `if` around it takes it.
-/
namespace Breadboard

open Text
open Canonical (Starts Ends Tight)

-- The column of a statement makes no difference to what it is.
theorem Stmt.unlocated_read_column (line a b : Nat) (cs : List Char) :
    (read ⟨line, a⟩ cs).unlocated = (read ⟨line, b⟩ cs).unlocated := by
  rw [read_eq, read_eq ⟨line, b⟩, readLevel, readLevel]
  dsimp only
  split
  · cases readChain read (trim cs).length ⟨line, trim cs⟩ <;> simp [unlocated]
  · unfold readFor?
    cases header? (trim cs) with
    | none => simp [unlocated]
    | some parts =>
      simp only [Option.bind_eq_bind, Option.bind_some]
      split <;> simp [unlocated]
  · unfold readWhile?
    cases header? (trim cs) <;> simp [unlocated]
  · rfl
  · simp only [Option.getD_some, readSimple]
    split
    · rfl
    · rfl
    · split
      · rfl
      · split <;> rfl

namespace Head

variable (h : Head) (loc : Location)

-- What a statement is besides where it stands: its head, its body, and the branches of an `if`.
theorem unlocated_statement_eq_iff {body body' : List Stmt} {others others' : Chain} :
    (h.statement loc body others).unlocated = (h.statement loc body' others').unlocated ↔
      (h.isChoice = true → others.unlocated = others'.unlocated) ∧
        Stmt.unlocatedAll body = Stmt.unlocatedAll body' := by
  cases h <;> simp [statement, isChoice, Stmt.unlocated, Chain.unlocated, and_comm]

variable {h loc} {gap rest : List Char} (proper : h.Proper) (blank : ∀ c ∈ gap, isBlank c = true)

include proper blank

-- An `if` whose body an `else` follows has another branch.
theorem unlocated_ne_of_else (choice : h.isChoice = true) (ends : Ends rest)
    (else_ : opensElse (Stmt.readBody Stmt.read (Stmt.behindHead loc gap h rest)).2.rest = true)
    (loc' : Location) (body : List Stmt) :
    (Stmt.read loc (h.text gap ++ rest)).unlocated ≠ (h.statement loc' body .done).unlocated := by
  obtain ⟨branches, made⟩ := Stmt.read_choice proper blank choice ends loc
  rw [made]
  cases h with
  | counted | repeated => cases choice
  | choice cond =>
    cases next : Stmt.readOthers Stmt.read branches
        (Stmt.readBody Stmt.read (Stmt.behindHead loc gap (.choice cond) rest)).2 with
    | none => simp [statement, Stmt.unlocated]
    | some others =>
      have more := Stmt.ne_done_of_readOthers else_ next
      simp [statement, Stmt.unlocated, Chain.unlocated, more]

end Head

namespace Body

variable {s : Body}

theorem starts_word (fine : s.Proper) (nested : s.isNested = true) : Starts Canonical.IsWord s.text := by
  obtain ⟨h, gap, space, body, tail, opens⟩ := exists_opens fine nested
  rw [opens.text_eq]
  exact (h.starts_text gap).append _

-- In braces, and on one line, a statement is read to its end.
theorem unlocatedAll_inside (fine : s.Proper) (bare : s.isBlock = false) {a b : List Char}
    (blank : ∀ c ∈ a ++ b, isBlank c = true) (inLine : '\n' ∉ a ++ (s.text ++ b)) (line : Nat) :
    Stmt.unlocatedAll (Stmt.readAll (cutBlock line (a ++ (s.text ++ b)))) =
      Stmt.unlocatedAll [Stmt.read ⟨line, 1⟩ s.code] := by
  rw [List.forall_mem_append] at blank
  have column (cs : List Char) : Stmt.unlocatedAll [Stmt.read ⟨line, byteSize a + 1⟩ cs] =
      Stmt.unlocatedAll [Stmt.read ⟨line, 1⟩ cs] :=
    congrArg (fun st => [st]) (Stmt.unlocated_read_column line _ _ cs)
  cases nested : s.isNested with
  | false =>
    cases s with
    | simple t =>
      have cut : cutBlock line (a ++ ((simple t).text ++ b)) = [⟨trim t, ⟨line, byteSize a + 1⟩⟩] :=
        IsSimple.cutBlock_eq fine blank.1 blank.2 inLine line
      rw [cut, Stmt.readAll, List.map_singleton, Stmt.read_trim]
      exact column t
    | block => cases bare
    | headed | branched => cases nested
  | true =>
    obtain ⟨k, keyword⟩ := Option.isSome_iff_exists.1 (isSome_leadingKeyword fine nested)
    rw [cutBlock_compound blank.1 blank.2 (tight_text fine) (starts_word fine nested) inLine keyword line,
      code_of_isNested nested]
    exact column s.text

-- An `if` whose first branch is not nested loses the others with what the scan for its end leaves.
theorem unlocated_reach_ne (fine : s.Proper) (branches : s.hasBranches = true) (loc : Location) :
    (Stmt.read loc s.reach).unlocated ≠ (Stmt.read loc s.code).unlocated := by
  cases s with
  | block | simple | headed => cases branches
  | branched cond gap space body before behind other =>
    have flat : body.isNested = false := by simpa [hasBranches] using branches
    have opens := opens_branched fine
    have left := opens.left_eq rfl flat
    have blank := List.forall_mem_append.1 opens.blank
    have reach_ : (branched cond gap space body before behind other).reach =
        (Head.choice cond).text gap ++ (space ++ body.text) := by
      have whole : (branched cond gap space body before behind other).text =
          (Head.choice cond).text gap ++ (space ++ body.text) ++ elseText before behind other.text := by
        simp [text_branched]
      rw [reach, code_of_isNested rfl, left, whole, List.length_append, Nat.add_sub_cancel,
        List.take_left]
    have first : Stmt.read loc ((Head.choice cond).text gap ++ (space ++ body.text)) =
        (Head.choice cond).statement loc (Stmt.readBody Stmt.read
          (Stmt.behindHead loc gap (.choice cond) (space ++ body.text))).1 .done := by
      have ends := rest_readBody (loc.line + newlines ((Head.choice cond).text gap)) blank.2 opens.fine
        flat []
      rw [List.append_nil] at ends
      refine Stmt.read_head opens.proper blank.1 (body.ends_text.append space) loc fun _ => ?_
      rw [Stmt.behindHead, ends]
      rfl
    rw [reach_, first, code_of_isNested rfl, opens.text_eq]
    refine (Head.unlocated_ne_of_else opens.proper blank.1 rfl ?_ ?_ loc _).symm
    · exact (other.ends_text.append _ |>.append _ |>.append _ |>.append _).append _
    · rw [Stmt.behindHead, rest_readBody _ blank.2 opens.fine flat]
      obtain ⟨-, -, -, word, apart, -⟩ := fine
      exact opensElse_else word apart

end Body

section Reading

variable {h : Head} {s : Body} {gap space : List Char} {loc : Location}
  (proper : h.Proper) (fine : s.Proper) (bare : s.isBlock = false)
  (blank : ∀ c ∈ gap ++ space, isBlank c = true)

include proper fine bare blank

-- A body without braces is read as one statement, up to where the scan for its end stops.
theorem read_bare (all : h.isChoice = true → s.left = []) :
    Stmt.read loc (h.text gap ++ (space ++ s.text)) =
      h.statement loc [Stmt.read ⟨loc.line + newlines (h.text gap) + newlines space, 1⟩ s.reach] .done := by
  rw [List.forall_mem_append] at blank
  obtain ⟨body, rest⟩ := Body.readBody_bare (loc.line + newlines (h.text gap)) fine bare blank.2
  rw [Stmt.read_head proper blank.1 (s.ends_text.append space), Stmt.behindHead, body]
  intro choice
  rw [Stmt.behindHead, rest, all choice]
  rfl

-- The `else` in front of which the scan stops goes to the `if` around the body.
theorem read_bare_else (choice : h.isChoice = true) (else_ : leadingKeyword s.left = some .elseWord) :
    ∃ other, Stmt.read loc (h.text gap ++ (space ++ s.text)) =
      h.statement loc [Stmt.read ⟨loc.line + newlines (h.text gap) + newlines space, 1⟩ s.reach]
        (.otherwise other) := by
  rw [List.forall_mem_append] at blank
  obtain ⟨body, rest⟩ := Body.readBody_bare (loc.line + newlines (h.text gap)) fine bare blank.2
  obtain ⟨branches, made⟩ := Stmt.read_choice proper blank.1 choice (s.ends_text.append space) loc
  rw [made, Stmt.behindHead, body, Stmt.readOthers]
  simp only [Stmt.Cursor.moveTo, rest, leadingKeyword_trimStart, else_]
  exact ⟨_, rfl⟩

theorem unlocated_bare_eq_iff (body : List Stmt) :
    (Stmt.read loc (h.text gap ++ (space ++ s.text))).unlocated = (h.statement loc body .done).unlocated ↔
      (h.isChoice = true → s.left = []) ∧
        Stmt.unlocatedAll [Stmt.read ⟨loc.line + newlines (h.text gap) + newlines space, 1⟩ s.reach] =
          Stmt.unlocatedAll body := by
  by_cases all : h.isChoice = true → s.left = []
  · rw [read_bare proper fine bare blank all, h.unlocated_statement_eq_iff]
    exact and_congr_left fun _ => iff_of_true (fun _ => rfl) all
  · obtain ⟨choice, some_⟩ := Classical.not_imp.1 all
    have else_ := (Body.settled_left fine).resolve_left some_
    have ends := s.ends_text.append space
    rw [List.forall_mem_append] at blank
    have rest := (Body.readBody_bare (loc.line + newlines (h.text gap)) fine bare blank.2).2
    refine iff_of_false (h.unlocated_ne_of_else proper blank.1 choice ends ?_ loc body) ?_
    · rw [Stmt.behindHead, rest]
      exact else_
    · exact fun both => all both.1

end Reading

/-- Without braces the one statement in a compound statement is read up to where the scan for its end
stops: at its end, or in front of an `else`, which goes to the `if` around it or is lost. Braces make no
difference just if this reads as what stands in them, with nothing left for an `if`. On a line they make
none where the scan stops at the end, as it does without an `else`, and always one around an `if` with an
`else` behind a simple branch or a block. -/
theorem braces_alike_iff (h : Head) (s : Body) (gap space a b : List Char) (loc : Location)
    (proper : h.Proper) (fine : s.Proper) (bare : s.isBlock = false)
    (blank : ∀ c ∈ gap ++ space ++ (a ++ b), isBlank c = true) :
    let line := loc.line + newlines (h.text gap)
    let inside := Stmt.readAll (cutBlock line (a ++ (s.text ++ b)))
    let reached := Stmt.read ⟨line + newlines space, 1⟩ s.reach
    let unbraced := Stmt.read loc (h.text gap ++ (space ++ s.text))
    let braced := Stmt.read loc (h.block gap (a ++ (s.text ++ b)))
    braced = h.statement loc inside .done ∧
    ((h.isChoice = true → s.left = []) → unbraced = h.statement loc [reached] .done) ∧
    (h.isChoice = true → leadingKeyword s.left = some .elseWord →
      ∃ other, unbraced = h.statement loc [reached] (.otherwise other)) ∧
    ((s.left = [] ∨ opensElse s.left = true) ∧ (s.hasElse = false → s.left = [])) ∧
    (unbraced.unlocated = braced.unlocated ↔
      (h.isChoice = true → s.left = []) ∧ Stmt.unlocatedAll [reached] = Stmt.unlocatedAll inside) ∧
    ('\n' ∉ space ++ (a ++ (s.text ++ b)) →
      (s.left = [] → unbraced.unlocated = braced.unlocated) ∧
      (s.hasBranches = true → unbraced.unlocated ≠ braced.unlocated)) := by
  intro line inside reached unbraced braced
  obtain ⟨before, blanks⟩ := List.forall_mem_append.1 blank
  obtain ⟨inGap, -⟩ := List.forall_mem_append.1 before
  have closed : Closed (a ++ (s.text ++ b)) := by
    have flat {cs : List Char} (chars : ∀ c ∈ cs, isBlank c = true) : Closed cs := .plain fun c h =>
      ⟨(plain_of_isBlank (chars c h)).1, (plain_of_isBlank (chars c h)).2.1⟩
    obtain ⟨front, back⟩ := List.forall_mem_append.1 blanks
    exact (flat front).append ((Body.closed_text fine).append (flat back))
  have read_ : braced = h.statement loc inside .done := h.read_block_alone proper inGap closed loc
  have alike : unbraced.unlocated = braced.unlocated ↔ (h.isChoice = true → s.left = []) ∧
      Stmt.unlocatedAll [reached] = Stmt.unlocatedAll inside := by
    rw [read_]
    exact unlocated_bare_eq_iff proper fine bare before inside
  refine ⟨read_, read_bare proper fine bare before, read_bare_else proper fine bare before,
    ⟨Body.settled_left fine, Body.left_eq_nil fine⟩, alike, fun inLine => ?_⟩
  rw [List.mem_append, not_or] at inLine
  have place : newlines space = 0 := List.count_eq_zero.2 inLine.1
  have inside_ : Stmt.unlocatedAll inside = Stmt.unlocatedAll [Stmt.read ⟨line, 1⟩ s.code] :=
    Body.unlocatedAll_inside fine bare blanks inLine.2 line
  have reached_ : reached = Stmt.read ⟨line, 1⟩ s.reach := by
    change Stmt.read ⟨line + newlines space, 1⟩ s.reach = _
    rw [place, Nat.add_zero]
  constructor
  · intro none
    have all : s.reach = s.code := by simp [Body.reach, none]
    rw [alike, inside_, reached_, all]
    exact ⟨fun _ => none, rfl⟩
  · intro branches same
    have equal := (alike.1 same).2
    rw [inside_, reached_] at equal
    exact Body.unlocated_reach_ne fine branches ⟨line, 1⟩ (List.cons.inj equal).1

-- In `if (a) if (b) x(); else y();` the `else` goes to the first `if`.
theorem braces_alike_iff_dangling :
    let unbraced := Stmt.read ⟨1, 1⟩ "if (a) if (b) x(); else y();".toList
    let braced := Stmt.read ⟨1, 1⟩ "if (a) \x7b if (b) x(); else y(); \x7d".toList
    unbraced.unlocated ≠ braced.unlocated ∧
      (∃ other, unbraced = .choose ⟨1, 1⟩ (.branch (.read ['a'])
        [Stmt.read ⟨1, 1⟩ "if (b) x();".toList] (.otherwise other))) ∧
      ∃ body, braced = .choose ⟨1, 1⟩ (.branch (.read ['a']) body .done) := by
  let s : Body := .branched ['b'] [' '] [' '] (.simple "x()".toList) [' '] [' '] (.simple "y()".toList)
  obtain ⟨read, -, goes, -, -, line⟩ := braces_alike_iff (.choice ['a']) s [' '] [' '] [' '] [' '] ⟨1, 1⟩
    (by decide) (by decide) rfl (by decide)
  have bareText : (Head.choice ['a']).text [' '] ++ ([' '] ++ s.text) =
      "if (a) if (b) x(); else y();".toList := by decide
  have bracedText : (Head.choice ['a']).block [' '] ([' '] ++ (s.text ++ [' '])) =
      "if (a) \x7b if (b) x(); else y(); \x7d".toList := by decide
  have reached : s.reach = "if (b) x();".toList := by decide
  have place : (Location.mk 1 1).line + newlines ((Head.choice ['a']).text [' ']) + newlines [' '] = 1 := by
    decide
  have differ := (line (by decide)).2 rfl
  have taken := goes rfl (by decide)
  rw [bareText, bracedText] at differ
  rw [bareText, reached, place] at taken
  rw [bracedText] at read
  exact ⟨differ, taken, _, read⟩

end Breadboard
