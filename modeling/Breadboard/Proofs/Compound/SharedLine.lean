import Breadboard.Proofs.Compound.Lines

set_option autoImplicit false

/-!
What shares its line with a compound statement. Main statement: what follows the block that ends the
statement is taken in with it and then left unread, so that a statement there is lost; on the next line
it is read.
-/
namespace Breadboard

open Text
open Canonical (Starts Ends Tight)

theorem tight_trim {cs : List Char} (some_ : trim cs ≠ []) : Tight (trim cs) := by
  obtain ⟨c, rest, text⟩ := List.exists_cons_of_ne_nil some_
  rw [text]
  constructor
  · have front : c :: rest <+: trimStart cs := text ▸ Canonical.dropEndWhile_front isBlank (trimStart cs)
    obtain ⟨more, whole⟩ := front
    have solid := List.head?_dropWhile_not isBlank cs
    have first : (cs.dropWhile isBlank).head? = some c := by
      change (trimStart cs).head? = some c
      rw [← whole]
      rfl
    rw [first] at solid
    exact ⟨c, rest, rfl, by simpa using solid⟩
  · have solid := List.head?_dropWhile_not isBlank (trimStart cs).reverse
    cases back : (trimStart cs).reverse.dropWhile isBlank with
    | nil =>
      have none : trim cs = [] := by rw [trim, trimEnd, dropEndWhile, back]; rfl
      exact absurd none some_
    | cons d front =>
      rw [back] at solid
      refine ⟨front.reverse, d, ?_, by simpa using solid⟩
      rw [← text, trim, trimEnd, dropEndWhile, back, List.reverse_cons]

theorem trim_trim (cs : List Char) : trim (trim cs) = trim cs := by
  by_cases none : trim cs = []
  · rw [none]
    rfl
  · exact (tight_trim none).trim_eq

theorem Stmt.read_trim (loc : Location) (cs : List Char) : read loc (trim cs) = read loc cs := by
  rw [read_eq, read_eq loc cs, readLevel, readLevel, trim_trim]

namespace Head

variable (h : Head) (gap inside : List Char)

/-- The text of a statement with one body in braces. -/
def block : List Char := h.text gap ++ ' ' :: '\x7b' :: (inside ++ ['\x7d'])

variable {gap inside}

theorem tight_block : Tight (h.block gap inside) :=
  Stmt.tight_text ⟨' ' :: '\x7b' :: inside, '\x7d', rfl, by decide⟩

theorem closed_block (proper : h.Proper) (blank : ∀ c ∈ gap, isBlank c = true) (closed : Closed inside) :
    Closed (h.block gap inside) := by
  have space : Closed [' '] := .plain (by decide)
  exact (h.closed_text proper blank).append (space.append (closed.group .curly))

theorem containsCode_block (proper : h.Proper) (blank : ∀ c ∈ gap, isBlank c = true) :
    containsCode 0x7b .code (h.block gap inside) = true := by
  have opens : containsCode 0x7b .code [' ', '\x7b'] = true := by decide
  have shape : h.block gap inside = h.text gap ++ ([' ', '\x7b'] ++ (inside ++ ['\x7d'])) := rfl
  rw [shape, Canonical.containsCode_append, (h.closed_text proper blank).after_eq,
    Canonical.containsCode_append, opens, Bool.true_or, Bool.or_true]

theorem isChainWord_keyword : CutState.isChainWord h.keyword = h.isChoice := by
  cases h <;> rfl

-- Reading a statement stops behind its block, unless it is an `if` that goes on.
theorem read_block (proper : h.Proper) (blank : ∀ c ∈ gap, isBlank c = true) (closed : Closed inside)
    {rest : List Char} (ends : rest = [] ∨ Ends rest) (apart : h.isChoice = true → opensElse rest = false)
    (loc : Location) :
    Stmt.read loc (h.block gap inside ++ rest) =
      h.statement loc (Stmt.readAll (cutBlock (loc.line + newlines (h.text gap)) inside)) .done := by
  have shape : h.block gap inside ++ rest =
      h.text gap ++ ([' '] ++ '\x7b' :: (inside ++ '\x7d' :: rest)) := by simp [block]
  have solid : Ends ([' '] ++ '\x7b' :: (inside ++ '\x7d' :: rest)) := by
    obtain rfl | ends := ends
    · exact ⟨' ' :: '\x7b' :: inside, '\x7d', by simp, by decide⟩
    · exact ((ends.cons '\x7d').append inside).cons '\x7b' |>.append [' ']
  have space : ∀ c ∈ [' '], isBlank c = true := by decide
  have body := Stmt.readBody_braces (loc.line + newlines (h.text gap)) space closed rest
  rw [shape, Stmt.read_head proper blank solid loc, Stmt.behindHead, body]
  · rfl
  · intro choice
    rw [Stmt.behindHead, body]
    exact apart choice

theorem read_block_alone (proper : h.Proper) (blank : ∀ c ∈ gap, isBlank c = true) (closed : Closed inside)
    (loc : Location) : Stmt.read loc (h.block gap inside) =
      h.statement loc (Stmt.readAll (cutBlock (loc.line + newlines (h.text gap)) inside)) .done := by
  have whole := h.read_block proper blank closed (.inl rfl) (fun _ => rfl) loc
  rwa [List.append_nil] at whole

theorem inLine_block (head : '\n' ∉ h.text gap) (block : '\n' ∉ inside) : '\n' ∉ h.block gap inside := by
  simp [Head.block, head, block]

theorem starts_block (more : List Char) : Starts Canonical.IsWord (h.block gap inside ++ more) :=
  ((h.starts_text gap).append _).append more

theorem leadingKeyword_block (blank : ∀ c ∈ gap, isBlank c = true) (more : List Char) :
    leadingKeyword (h.block gap inside ++ more) = some h.keyword := by
  rw [Head.block, List.append_assoc]
  exact h.leadingKeyword_text _ blank

section Layout

variable {rest : List Char} (proper : h.Proper) (blank : ∀ c ∈ gap, isBlank c = true) (closed : Closed inside)
  (ends : Ends rest) (inHead : '\n' ∉ h.text gap) (inBlock : '\n' ∉ inside) (inRest : '\n' ∉ rest)
  (apart : h.isChoice = true → opensElse rest = false) (number : Nat)

include proper blank closed ends inHead inBlock inRest apart

-- On one line all of it is one piece, of which the statement is read.
theorem readAll_shared : Stmt.readAll (cutBlock number (h.block gap inside ++ ' ' :: rest)) =
    [h.statement ⟨number, 1⟩ (Stmt.readAll (cutBlock number inside)) .done] := by
  have line : newlines (h.text gap) = 0 := List.count_eq_zero.2 inHead
  have tight : Tight (h.block gap inside ++ ' ' :: rest) :=
    ⟨h.tight_block.starts.append _, (ends.cons ' ').append _⟩
  have cut := cutBlock_compound (a := []) (b := []) (by simp) (by simp) tight (h.starts_block _)
    (by simp [h.inLine_block inHead inBlock, inRest]) (h.leadingKeyword_block blank _) number
  rw [List.nil_append, List.append_nil] at cut
  have read := h.read_block proper blank closed (.inr (ends.cons ' ')) (fun choice => apart choice)
    ⟨number, 1⟩
  rw [line, Nat.add_zero] at read
  rw [cut]
  exact congrArg (fun st => [st]) read

-- On two lines the statement is a piece of its own, and what follows is read from the next line on.
theorem readAll_apart : Stmt.readAll (cutBlock number (h.block gap inside ++ '\n' :: rest)) =
    h.statement ⟨number, 1⟩ (Stmt.readAll (cutBlock number inside)) .done ::
      Stmt.readAll (cutBlock (number + 1) rest) := by
  have line : newlines (h.text gap) = 0 := List.count_eq_zero.2 inHead
  have starts : Starts Canonical.IsWord (h.block gap inside) := by
    simpa using h.starts_block []
  have keyword : leadingKeyword (h.block gap inside) = some h.keyword := by
    simpa using h.leadingKeyword_block blank []
  have goesOn : Compound.continuesIn (lines rest) = opensElse rest := by
    obtain ⟨front, c, rfl, solid⟩ := ends
    have text : isBlankText (front ++ [c]) = false := by simp [isBlankText, solid]
    rw [lines_single inRest (by simp)]
    simp [Compound.continuesIn, text, opensElse]
  have ending : (CutState.isChainWord h.keyword && Compound.continuesIn (lines rest)) = false := by
    rw [h.isChainWord_keyword, goesOn]
    cases choice : h.isChoice with
    | false => rfl
    | true => exact apart choice
  have cut := cutBlock_block h.tight_block starts (h.inLine_block inHead inBlock) keyword
    ((h.closed_block proper blank closed).balance_eq .curly) (h.containsCode_block proper blank) ending number
  have read := h.read_block_alone proper blank closed ⟨number, 1⟩
  rw [line, Nat.add_zero] at read
  rw [cut]
  exact congrArg (· :: Stmt.readAll (cutBlock (number + 1) rest)) read

end Layout

end Head

theorem cutBlock_eq_nil_iff {number : Nat} {text : List Char} (inLine : '\n' ∉ text) :
    cutBlock number text = [] ↔ Piece.isFiller text = true := by
  rw [← essence_eq_nil_iff]
  constructor
  · intro none
    rw [← essence_cutBlock number text, none]
    rfl
  · intro none
    cases text with
    | nil => rfl
    | cons c text =>
      have bare : Piece.isFiller (trimStart ((trim (c :: text)).dropWhile (· == '\x7d'))) = true := by
        rw [← essence_eq_nil_iff, essence_bare, none]
      rw [cutBlock, lines_single inLine (by simp), cutLines_last, CutState.startLine]
      simp only [bare, if_true]
      rfl

theorem Stmt.unlocatedAll_cons_eq_singleton {st : Stmt} {body : List Stmt} :
    unlocatedAll [st] = unlocatedAll (st :: body) ↔ body = [] := by
  cases body <;> simp [unlocatedAll]

/-- What follows the block of a statement on its line is taken in with the statement and lost, where on
the next line it is read; the two layouts have the same meaning just if there is no code in it. A simple
statement is code, so that it is lost always. -/
theorem shared_line_is_lost (h : Head) (gap inside rest : List Char) (number : Nat) (proper : h.Proper)
    (blank : ∀ c ∈ gap, isBlank c = true) (closed : Closed inside) (ends : Ends rest)
    (oneLine : '\n' ∉ h.text gap ++ inside ++ rest) (apart : h.isChoice = true → opensElse rest = false) :
    let st := h.statement ⟨number, 1⟩ (Stmt.readAll (cutBlock number inside)) .done
    Stmt.readAll (cutBlock number (h.block gap inside ++ ' ' :: rest)) = [st] ∧
    Stmt.readAll (cutBlock number (h.block gap inside ++ '\n' :: rest)) =
      st :: Stmt.readAll (cutBlock (number + 1) rest) ∧
    (Stmt.unlocatedAll (Stmt.readAll (cutBlock number (h.block gap inside ++ ' ' :: rest))) =
        Stmt.unlocatedAll (Stmt.readAll (cutBlock number (h.block gap inside ++ '\n' :: rest))) ↔
      Piece.isFiller rest = true) ∧
    ∀ t, IsSimple t → rest = t ++ [';'] → Piece.isFiller rest = false ∧
      Stmt.readAll (cutBlock (number + 1) rest) = [Stmt.read ⟨number + 1, 1⟩ t] := by
  intro st
  simp only [List.mem_append, not_or] at oneLine
  obtain ⟨⟨inHead, inBlock⟩, inRest⟩ := oneLine
  have one := h.readAll_shared proper blank closed ends inHead inBlock inRest apart number
  have two := h.readAll_apart proper blank closed ends inHead inBlock inRest apart number
  refine ⟨one, two, ?_, ?_⟩
  · rw [one, two, Stmt.unlocatedAll_cons_eq_singleton, ← cutBlock_eq_nil_iff inRest]
    exact List.map_eq_nil_iff
  · rintro t simple rfl
    have cut := simple.cutBlock_eq (a := []) (b := []) (by simp) (by simp)
      (by simpa using inRest) (number + 1)
    rw [List.nil_append, List.append_nil] at cut
    refine ⟨(simple.first_solid [';']).1, ?_⟩
    rw [cut]
    exact congrArg (fun st => [st]) (Stmt.read_trim _ t)

-- For the line `if (x > 1) { a(); } b();`, the call of `b` is lost.
theorem shared_line_is_lost_call :
    let shared := Stmt.readAll (cutBlock 2 "if (x > 1) \x7b a(); \x7d b();".toList)
    let apart := Stmt.readAll (cutBlock 2 "if (x > 1) \x7b a(); \x7d\nb();".toList)
    shared.length = 1 ∧ apart = shared ++ [Stmt.read ⟨3, 1⟩ "b()".toList] ∧
      Stmt.unlocatedAll shared ≠ Stmt.unlocatedAll apart := by
  obtain ⟨one, two, alike, lost⟩ := shared_line_is_lost (.choice "x > 1".toList) [' '] " a(); ".toList
    "b();".toList 2 (by decide) (by decide) (by decide) ⟨"b()".toList, ';', rfl, by decide⟩ (by decide)
    (fun _ => by decide)
  obtain ⟨code, call⟩ := lost "b()".toList (by decide) rfl
  intro shared apart
  have first : shared = _ := one
  have second : apart = _ := two
  refine ⟨by rw [first]; rfl, ?_, fun same => ?_⟩
  · rw [second, first, call]
    rfl
  · rw [alike.1 same] at code
    cases code

end Breadboard
