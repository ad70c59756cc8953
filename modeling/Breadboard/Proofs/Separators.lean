import Breadboard.Proofs.Splitting

set_option autoImplicit false

/-!
Splitting code at its separators. Main statement: the parts with the separators between them are the
text, no part is split again, and a text has more than one part if and only if a separator stands in it
outside of literals and brackets.
-/
namespace Breadboard

open Text
open Canonical (onFirst)

/-- Whether a separator that follows a text stands outside of literals and brackets. A separator that
begins with a bracket is taken to stand behind it. -/
def SeparatesAt (sep front : List Char) : Prop :=
  ∃ c rest, sep = c :: rest ∧ (Quote.code.after front).isCode c = true ∧
    net .code front + depthStep c = 0

section Uncut

variable {sep cs part : List Char} {parts : List (List Char)} {q : Quote} {depth : Int}

-- The scan for separators cuts at the first place where one begins.
theorem splitTopFrom_uncut_iff : (splitTopFrom sep q depth 0 cs).2 = [] ↔
    ∀ front c rest, cs = front ++ c :: rest → ¬CutsAt sep (q.after front) (depth + net q front) c rest := by
  induction cs generalizing q depth with
  | nil => simp [splitTopFrom]
  | cons c cs ih =>
    by_cases cuts : CutsAt sep q depth c cs
    · rw [splitTopFrom_cut cuts]
      constructor
      · intro none_
        exact absurd none_ (splitTop_ne_nil _ _)
      · intro uncut
        exact absurd (by simpa [net] using cuts) (uncut [] c cs rfl)
    · rw [splitTopFrom_pass cuts]
      refine Iff.trans ih ⟨?_, ?_⟩
      · intro later front d rest text
        cases front with
        | nil =>
          obtain ⟨rfl, rfl⟩ := List.cons.inj text
          simpa [net] using cuts
        | cons e front =>
          obtain ⟨rfl, behind⟩ := List.cons.inj text
          have uncut := later front d rest behind
          rwa [Int.add_assoc, ← net_cons] at uncut
      · intro uncut front d rest text
        have later := uncut (c :: front) d rest (by rw [text]; rfl)
        rwa [net_cons, ← Int.add_assoc] at later

theorem prefix_of_splitTopFrom (found : splitTopFrom sep q depth 0 cs = (part, parts)) : part <+: cs := by
  by_cases more : parts = []
  · subst more
    obtain rfl := eq_of_splitTopFrom found
    exact List.prefix_refl cs
  · obtain ⟨rest, rfl, -⟩ := exists_of_splitTopFrom found more
    exact List.prefix_append part _

-- A part read alone is not cut: what the scan sees ahead of it only becomes less.
theorem splitTopFrom_part (found : splitTopFrom sep q depth 0 cs = (part, parts)) :
    splitTopFrom sep q depth 0 part = (part, []) := by
  induction cs generalizing q depth part with
  | nil =>
    obtain ⟨rfl, -⟩ := Prod.mk.inj found
    rfl
  | cons c cs ih =>
    by_cases cuts : CutsAt sep q depth c cs
    · rw [splitTopFrom_cut cuts] at found
      obtain ⟨rfl, -⟩ := Prod.mk.inj found
      rfl
    · rw [splitTopFrom_pass cuts] at found
      generalize split : splitTopFrom sep (q.next c) _ 0 cs = later at found
      obtain ⟨tail, others⟩ := later
      obtain ⟨rfl, rfl⟩ := Prod.mk.inj found
      have front := prefix_of_splitTopFrom split
      have passes : ¬CutsAt sep q depth c tail := by
        rintro ⟨code, level, some_, opens⟩
        exact cuts ⟨code, level, some_, opens.trans (List.cons_prefix_cons.2 ⟨rfl, front⟩)⟩
      rw [List.singleton_append, splitTopFrom_pass passes, ih split]
      rfl

end Uncut

section Parts

variable {sep cs part first : List Char} {others : List (List Char)}

theorem splitTop_part (member : part ∈ splitTop sep cs) : splitTop sep part = [part] := by
  obtain ⟨before, after, found⟩ := List.append_of_mem member
  obtain ⟨rest, -, ending, -⟩ := exists_of_splitTop_append found
  obtain ⟨one, others⟩ := List.cons.inj ending
  rw [splitTop, splitTopFrom_part (Prod.ext one others)]

theorem intercalate_splitTop (sep cs : List Char) : sep.intercalate (splitTop sep cs) = cs := by
  generalize found : splitTop sep cs = parts
  induction parts generalizing cs with
  | nil => exact absurd found (splitTop_ne_nil sep cs)
  | cons part parts ih =>
    cases parts with
    | nil =>
      rw [eq_of_splitTop found]
      simp [List.intercalate]
    | cons next parts =>
      obtain ⟨rest, rfl, behind, -⟩ := exists_of_splitTop found (List.cons_ne_nil next parts)
      have later := ih rest behind
      simp only [List.intercalate, List.intersperse_cons_cons, List.flatten_cons] at later ⊢
      rw [later]

theorem findTop?_eq_some_iff {place : Nat} : findTop? sep cs = some place ↔
    ∃ first others, splitTop sep cs = first :: others ∧ others ≠ [] ∧ byteSize first = place := by
  rw [findTop?, cutTop?, splitTop]
  obtain ⟨first, others⟩ := splitTopFrom sep .code 0 0 cs
  cases others with
  | nil => simp
  | cons next others =>
    constructor
    · intro found
      exact ⟨first, next :: others, rfl, List.cons_ne_nil _ _, Option.some.inj found⟩
    · rintro ⟨_, _, same, -, rfl⟩
      obtain ⟨rfl, -⟩ := List.cons.inj same
      rfl

theorem cutsAt_code_iff {front rest : List Char} {c : Char} :
    CutsAt sep (Quote.code.after front) (0 + net .code front) c rest ↔
      ∃ behind, c :: rest = sep ++ behind ∧ SeparatesAt sep front := by
  rw [Int.zero_add]
  constructor
  · rintro ⟨code, level, some_, behind, opens⟩
    obtain ⟨h, tail, rfl⟩ := List.exists_cons_of_ne_nil some_
    obtain ⟨rfl, -⟩ := List.cons.inj opens
    exact ⟨behind, opens.symm, h, tail, rfl, code, level⟩
  · rintro ⟨behind, opens, h, tail, rfl, code, level⟩
    obtain ⟨rfl, -⟩ := List.cons.inj opens
    exact ⟨code, level, List.cons_ne_nil _ _, behind, opens.symm⟩

theorem exists_separator_iff : 1 < (splitTop sep cs).length ↔
    ∃ front behind, cs = front ++ (sep ++ behind) ∧ SeparatesAt sep front := by
  have more : 1 < (splitTop sep cs).length ↔ ¬(splitTopFrom sep .code 0 0 cs).2 = [] := by
    rw [splitTop, List.length_cons, ← List.length_eq_zero_iff]
    omega
  rw [more, splitTopFrom_uncut_iff]
  constructor
  · intro cut
    refine Classical.byContradiction fun alone => cut fun front c rest text cuts => alone ?_
    obtain ⟨behind, opens, separates⟩ := cutsAt_code_iff.1 cuts
    exact ⟨front, behind, by rw [text, opens], separates⟩
  · rintro ⟨front, behind, text, separates⟩ uncut
    obtain ⟨c, rest, rfl, -⟩ := id separates
    exact uncut front c (rest ++ behind) text (cutsAt_code_iff.2 ⟨behind, rfl, separates⟩)

end Parts

/-- Splitting loses nothing and is complete: the parts with the separators between them are the text, a
part is its own only part, the first separator is found where the first part ends, and there is one if
and only if a separator stands outside of literals and brackets. -/
theorem splitting_is_complete (sep cs : List Char) :
    sep.intercalate (splitTop sep cs) = cs ∧
    (∀ part ∈ splitTop sep cs, splitTop sep part = [part]) ∧
    (∀ place, findTop? sep cs = some place ↔
      ∃ first others, splitTop sep cs = first :: others ∧ others ≠ [] ∧ byteSize first = place) ∧
    (1 < (splitTop sep cs).length ↔
      ∃ front behind, cs = front ++ (sep ++ behind) ∧ SeparatesAt sep front) :=
  ⟨intercalate_splitTop sep cs, fun _ => splitTop_part, fun _ => findTop?_eq_some_iff,
    exists_separator_iff⟩

-- A separator that opens a bracket, behind one that closes it: the bracket of the separator is passed over.
theorem splitting_is_complete_brackets :
    let sep := ",(".toList
    let text := "f(1,(2)),(b,(c)".toList
    let part := "f(1,(2))".toList
    part ∈ splitTop sep text ∧ splitTop sep part = [part] ∧ findTop? sep text = some 8 ∧
      sep.intercalate (splitTop sep text) = text := by
  intro sep text part
  have parts : splitTop sep text = [part, "b".toList, "c)".toList] := by decide +kernel
  obtain ⟨joined, alone, found, -⟩ := splitting_is_complete sep text
  have member : part ∈ splitTop sep text := by
    rw [parts]
    exact List.mem_cons_self
  exact ⟨member, alone part member, (found 8).2 ⟨part, _, parts, List.cons_ne_nil _ _, by decide +kernel⟩, joined⟩

end Breadboard
