import Breadboard.Proofs.Compound.Closed

set_option autoImplicit false

/-!
Splitting code at separators of any kind. Main statements: a text is its parts with the separators
between them, a part does not depend on what follows the separator behind it, and what stands in
parentheses is passed over.
-/
namespace Breadboard

open Text
open Canonical (onFirst onFirst_onFirst parens)

variable {sep a cs : List Char} {q : Quote} {depth : Int} {c : Char}

/-- Whether a separator begins at the first character of a text. -/
def CutsAt (sep : List Char) (q : Quote) (depth : Int) (c : Char) (cs : List Char) : Prop :=
  q.isCode c = true ∧ depth + depthStep c = 0 ∧ sep ≠ [] ∧ sep <+: c :: cs

instance : Decidable (CutsAt sep q depth c cs) :=
  inferInstanceAs (Decidable (q.isCode c = true ∧ depth + depthStep c = 0 ∧ sep ≠ [] ∧ sep <+: c :: cs))

theorem splitTopFrom_cut (cuts : CutsAt sep q depth c cs) :
    splitTopFrom sep q depth 0 (c :: cs) = ([], splitTop sep ((c :: cs).drop sep.length)) := by
  obtain ⟨code, level, some_, rest, opens⟩ := cuts
  obtain ⟨h, sep, rfl⟩ := List.exists_cons_of_ne_nil some_
  rw [List.cons_append] at opens
  obtain ⟨rfl, rfl⟩ := List.cons.inj opens
  have found : depth + depthStep h = 0 ∧ h :: sep ≠ [] ∧
      (h :: sep).isPrefixOf (h :: (sep ++ rest)) = true :=
    ⟨level, some_, by simp [List.isPrefixOf_iff_prefix]⟩
  have skipped : splitTopFrom (h :: sep) .code 0 sep.length (sep ++ rest) =
      splitTopFrom (h :: sep) .code 0 0 rest := Canonical.splitTopFrom_skip .code sep rest
  rw [splitTopFrom, if_pos code]
  simp only [level, List.length_cons, Nat.add_sub_cancel] at found ⊢
  rw [if_pos found, skipped]
  simp [splitTop]

theorem splitTopFrom_pass (passes : ¬CutsAt sep q depth c cs) :
    splitTopFrom sep q depth 0 (c :: cs) = onFirst [c]
      (splitTopFrom sep (q.next c) (depth + if q.isCode c then depthStep c else 0) 0 cs) := by
  by_cases code : q.isCode c = true
  · obtain ⟨rfl, mark⟩ := code_of_isCode code
    rw [if_pos code, Canonical.next_of_not_isMark mark]
    refine Canonical.splitTopFrom_cons mark fun cuts => passes ⟨code, cuts.1, cuts.2.1, ?_⟩
    exact List.isPrefixOf_iff_prefix.1 cuts.2.2
  · rw [if_neg code, Int.add_zero]
    exact Canonical.splitTopFrom_of_hides (a := [c]) (by simp [Canonical.hides_nil, Canonical.hides_cons, code])

-- Whether a separator begins at a character is decided by as many characters as it has.
theorem cutsAt_append_iff (long : sep.length ≤ (c :: a).length) (cs : List Char) :
    CutsAt sep q depth c (a ++ cs) ↔ CutsAt sep q depth c a := by
  have same : sep <+: c :: (a ++ cs) ↔ sep <+: c :: a := by
    rw [← List.cons_append]
    exact ⟨fun opens => List.prefix_of_prefix_length_le opens (List.prefix_append _ _) long,
      fun opens => opens.trans (List.prefix_append _ _)⟩
  simp only [CutsAt, same]

-- Between brackets nothing is cut.
theorem splitTopFrom_deeper (deep : ∀ front, front <+: a → 0 < depth + net q front) (cs : List Char) :
    splitTopFrom sep q depth 0 (a ++ cs) =
      onFirst a (splitTopFrom sep (q.after a) (depth + net q a) 0 cs) := by
  induction a generalizing q depth with
  | nil => simp [net, onFirst]
  | cons c a ih =>
    have level := deep [c] (List.cons_prefix_cons.2 ⟨rfl, List.nil_prefix⟩)
    have passes : ¬CutsAt sep q depth c (a ++ cs) := by
      rintro ⟨code, zero, -⟩
      have empty : net (q.next c) [] = 0 := rfl
      rw [net_cons, if_pos code, empty] at level
      omega
    have later : ∀ front, front <+: a →
        0 < (depth + if q.isCode c then depthStep c else 0) + net (q.next c) front := by
      intro front inside
      have more := deep (c :: front) (List.cons_prefix_cons.2 ⟨rfl, inside⟩)
      rw [net_cons] at more
      omega
    rw [List.cons_append, splitTopFrom_pass passes, ih later, onFirst_onFirst, net_cons, Int.add_assoc]
    rfl

-- Parentheses around closed code are passed over as a whole.
theorem splitTopFrom_parens (closed : Closed a) (apart : sep.head? ≠ some ')') (cs : List Char) :
    splitTopFrom sep .code 0 0 (parens a ++ cs) =
      onFirst (parens a) (splitTopFrom sep .code 0 0 cs) := by
  have enters : ¬CutsAt sep .code 0 '(' (a ++ (')' :: cs)) := by
    rintro ⟨-, level, -⟩
    cases level
  have leaves : ¬CutsAt sep .code (1 + net .code a) ')' cs := by
    rintro ⟨-, -, some_, opens⟩
    obtain ⟨h, sep, rfl⟩ := List.exists_cons_of_ne_nil some_
    obtain ⟨rfl, -⟩ := List.cons_prefix_cons.1 opens
    exact apart rfl
  have inner : ∀ front, front <+: a → 0 < 1 + net .code front := fun front inside => by
    have low := closed.net_nonneg inside
    omega
  have text : parens a ++ cs = '(' :: (a ++ (')' :: cs)) := by simp [parens]
  have opened : (0 : Int) + (if Quote.code.isCode '(' = true then depthStep '(' else 0) = 1 := rfl
  have ends : (1 + net .code a : Int) +
      (if Quote.code.isCode ')' = true then depthStep ')' else 0) = 0 := by
    rw [closed.net_eq]
    rfl
  rw [text, splitTopFrom_pass enters, opened]
  change onFirst ['('] (splitTopFrom sep .code 1 0 (a ++ (')' :: cs))) = _
  rw [splitTopFrom_deeper inner, closed.after_eq, splitTopFrom_pass leaves, ends, onFirst_onFirst,
    onFirst_onFirst]
  simp [parens, Quote.next, isMark]

section Parts

variable {part : List Char} {parts before after : List (List Char)}

-- The first part of a text, the separator behind it, and the text behind that; the part is cut off alike in
-- front of any other text.
theorem exists_of_splitTopFrom (found : splitTopFrom sep q depth 0 cs = (part, parts)) (more : parts ≠ []) :
    ∃ rest, cs = part ++ (sep ++ rest) ∧ splitTop sep rest = parts ∧
      ∀ rest', splitTopFrom sep q depth 0 (part ++ (sep ++ rest')) = (part, splitTop sep rest') := by
  induction cs generalizing q depth part with
  | nil =>
    obtain ⟨-, rfl⟩ := Prod.mk.inj found
    exact absurd rfl more
  | cons c cs ih =>
    by_cases cuts : CutsAt sep q depth c cs
    · rw [splitTopFrom_cut cuts] at found
      obtain ⟨rfl, rfl⟩ := Prod.mk.inj found
      obtain ⟨code, level, some_, rest, opens⟩ := cuts
      obtain ⟨h, sep, rfl⟩ := List.exists_cons_of_ne_nil some_
      rw [List.cons_append] at opens
      obtain ⟨rfl, rfl⟩ := List.cons.inj opens
      refine ⟨rest, rfl, by simp, fun rest' => ?_⟩
      have again : CutsAt (h :: sep) q depth h (sep ++ rest') :=
        ⟨code, level, some_, by simp⟩
      rw [List.nil_append, List.cons_append, splitTopFrom_cut again]
      simp
    · rw [splitTopFrom_pass cuts] at found
      generalize split : splitTopFrom sep (q.next c) _ 0 cs = later at found
      obtain ⟨tail, others⟩ := later
      obtain ⟨rfl, rfl⟩ := Prod.mk.inj found
      obtain ⟨rest, rfl, behind, alike⟩ := ih split
      refine ⟨rest, by simp, behind, fun rest' => ?_⟩
      -- The separator that ends the part is as long as any that would begin in it.
      have long : sep.length ≤ (c :: (tail ++ sep)).length := by
        simp only [List.length_cons, List.length_append]
        omega
      rw [← List.append_assoc, cutsAt_append_iff long] at cuts
      have passes := (not_congr (cutsAt_append_iff long rest')).2 cuts
      rw [List.append_assoc] at passes
      simp only [List.cons_append, List.nil_append]
      rw [splitTopFrom_pass passes, alike]
      rfl

theorem exists_of_splitTop (found : splitTop sep cs = part :: parts) (more : parts ≠ []) :
    ∃ rest, cs = part ++ (sep ++ rest) ∧ splitTop sep rest = parts ∧
      ∀ rest', splitTop sep (part ++ (sep ++ rest')) = part :: splitTop sep rest' := by
  obtain ⟨first, others⟩ := List.cons.inj found
  obtain ⟨rest, text, behind, alike⟩ := exists_of_splitTopFrom (Prod.ext first others) more
  exact ⟨rest, text, behind, fun rest' => by rw [splitTop, alike]⟩

theorem eq_of_splitTopFrom (found : splitTopFrom sep q depth 0 cs = (part, [])) : cs = part := by
  induction cs generalizing q depth part with
  | nil => exact (Prod.mk.inj found).1
  | cons c cs ih =>
    by_cases cuts : CutsAt sep q depth c cs
    · rw [splitTopFrom_cut cuts] at found
      exact absurd (Prod.mk.inj found).2 (splitTop_ne_nil _ _)
    · rw [splitTopFrom_pass cuts] at found
      generalize split : splitTopFrom sep (q.next c) _ 0 cs = later at found
      obtain ⟨tail, others⟩ := later
      obtain ⟨rfl, rfl⟩ := Prod.mk.inj found
      rw [ih split]
      rfl

theorem eq_of_splitTop (found : splitTop sep cs = [part]) : cs = part := by
  obtain ⟨first, others⟩ := List.cons.inj found
  exact eq_of_splitTopFrom (Prod.ext first others)

-- The text in front of a part.
def frontOf (sep : List Char) (before : List (List Char)) : List Char := (before.map (· ++ sep)).flatten

-- The text behind a part.
def behindOf (sep : List Char) (after : List (List Char)) : List Char := (after.map (sep ++ ·)).flatten

theorem exists_of_splitTop_append (found : splitTop sep cs = before ++ part :: after) :
    ∃ rest, cs = frontOf sep before ++ rest ∧ splitTop sep rest = part :: after ∧
      ∀ rest', splitTop sep (frontOf sep before ++ rest') = before ++ splitTop sep rest' := by
  induction before generalizing cs with
  | nil => exact ⟨cs, rfl, found, fun _ => rfl⟩
  | cons first before ih =>
    obtain ⟨rest, rfl, behind, alike⟩ := exists_of_splitTop found (by simp)
    obtain ⟨last, rfl, ending, same⟩ := ih behind
    refine ⟨last, by simp [frontOf], ending, fun rest' => ?_⟩
    have text : frontOf sep (first :: before) ++ rest' = first ++ (sep ++ (frontOf sep before ++ rest')) := by
      simp [frontOf]
    rw [text, alike, same]
    rfl

theorem exists_of_splitTop_cons (found : splitTop sep cs = part :: after) :
    cs = part ++ behindOf sep after ∧ (after = [] ∨ ∃ rest, behindOf sep after = sep ++ rest ∧
      splitTop sep rest = after) := by
  induction after generalizing cs part with
  | nil => exact ⟨by rw [eq_of_splitTop found]; simp [behindOf], .inl rfl⟩
  | cons next after ih =>
    obtain ⟨rest, rfl, behind, -⟩ := exists_of_splitTop found (by simp)
    have text := (ih behind).1
    have shape : behindOf sep (next :: after) = sep ++ rest := by simp [behindOf, text]
    exact ⟨by rw [shape], .inr ⟨rest, shape, behind⟩⟩

section Plain

variable (plain : ∀ c ∈ sep, isMark c = false ∧ depthStep c = 0)

include plain

theorem after_plain (cs : List Char) : Quote.code.after (sep ++ cs) = Quote.code.after cs := by
  rw [Quote.after_append, (Closed.plain plain).after_eq]

-- A part ends in code, outside of all brackets.
theorem ends_of_splitTopFrom (found : splitTopFrom sep q depth 0 cs = (part, parts)) (more : parts ≠ []) :
    q.after part = .code ∧ depth + net q part = 0 := by
  induction cs generalizing q depth part with
  | nil =>
    obtain ⟨-, rfl⟩ := Prod.mk.inj found
    exact absurd rfl more
  | cons c cs ih =>
    by_cases cuts : CutsAt sep q depth c cs
    · rw [splitTopFrom_cut cuts] at found
      obtain ⟨rfl, -⟩ := Prod.mk.inj found
      obtain ⟨code, level, some_, rest, opens⟩ := cuts
      obtain ⟨h, sep, rfl⟩ := List.exists_cons_of_ne_nil some_
      rw [List.cons_append] at opens
      obtain ⟨rfl, -⟩ := List.cons.inj opens
      rw [(plain h List.mem_cons_self).2] at level
      exact ⟨(code_of_isCode code).1, level⟩
    · rw [splitTopFrom_pass cuts] at found
      generalize split : splitTopFrom sep (q.next c) _ 0 cs = later at found
      obtain ⟨tail, others⟩ := later
      obtain ⟨rfl, rfl⟩ := Prod.mk.inj found
      obtain ⟨code, level⟩ := ih split
      refine ⟨code, ?_⟩
      rw [List.singleton_append, net_cons, ← Int.add_assoc]
      exact level

theorem ends_frontOf (found : splitTop sep cs = before ++ part :: after) :
    Quote.code.after (frontOf sep before) = .code ∧ net .code (frontOf sep before) = 0 := by
  induction before generalizing cs with
  | nil => exact ⟨rfl, rfl⟩
  | cons first before ih =>
    obtain ⟨rest, -, behind, -⟩ := exists_of_splitTop found (by simp)
    obtain ⟨one, others⟩ := List.cons.inj found
    obtain ⟨code, level⟩ := ends_of_splitTopFrom plain (Prod.ext one others) (by simp)
    obtain ⟨codes, levels⟩ := ih behind
    have text : frontOf sep (first :: before) = first ++ (sep ++ frontOf sep before) := by simp [frontOf]
    rw [Int.zero_add] at level
    rw [text, Quote.after_append, net_append, code, level, after_plain plain, net_append,
      (Closed.plain plain).net_eq, (Closed.plain plain).after_eq, codes, levels]
    exact ⟨rfl, rfl⟩

end Plain

/-- A text is its parts with the separators between them. -/
theorem eq_of_splitTop_append (found : splitTop sep cs = before ++ part :: after) :
    cs = frontOf sep before ++ (part ++ behindOf sep after) := by
  obtain ⟨rest, rfl, ending, -⟩ := exists_of_splitTop_append found
  rw [← (exists_of_splitTop_cons ending).1]

end Parts

section Uncut

variable {b : List Char}

-- What follows a text in which nothing is cut is not cut either.
theorem uncut_behind (uncut : splitTopFrom sep q depth 0 (a ++ b) = (a ++ b, [])) :
    splitTopFrom sep (q.after a) (depth + net q a) 0 b = (b, []) := by
  induction a generalizing q depth with
  | nil => simpa [net] using uncut
  | cons c a ih =>
    by_cases cuts : CutsAt sep q depth c (a ++ b)
    · rw [List.cons_append, splitTopFrom_cut cuts] at uncut
      cases uncut
    · rw [List.cons_append, splitTopFrom_pass cuts] at uncut
      obtain ⟨first, others⟩ := Prod.mk.inj uncut
      have rest := ih (Prod.ext (List.cons.inj first).2 others)
      rw [net_cons, ← Int.add_assoc]
      exact rest

-- If no separator can begin in a text and end behind it, then what follows the text makes no difference.
theorem splitTopFrom_of_uncut (uncut : splitTopFrom sep q depth 0 (a ++ b) = (a ++ b, []))
    (apart : ∀ front c, a = front ++ [c] → c ∉ sep) (cs : List Char) :
    splitTopFrom sep q depth 0 (a ++ cs) =
      onFirst a (splitTopFrom sep (q.after a) (depth + net q a) 0 cs) := by
  induction a generalizing q depth with
  | nil => simp [net, onFirst]
  | cons c a ih =>
    by_cases cuts : CutsAt sep q depth c (a ++ b)
    · rw [List.cons_append, splitTopFrom_cut cuts] at uncut
      cases uncut
    · have passes : ¬CutsAt sep q depth c (a ++ cs) := by
        by_cases long : sep.length ≤ (c :: a).length
        · rwa [cutsAt_append_iff long, ← cutsAt_append_iff long b]
        · rintro ⟨-, -, -, opens⟩
          have inside : c :: a <+: sep :=
            List.prefix_of_prefix_length_le (by simp) opens (Nat.le_of_not_le long)
          have last := List.dropLast_concat_getLast (List.cons_ne_nil c a)
          exact apart _ _ last.symm (inside.subset (List.getLast_mem _))
      rw [List.cons_append, splitTopFrom_pass cuts] at uncut
      obtain ⟨first, others⟩ := Prod.mk.inj uncut
      have rest := ih (Prod.ext (List.cons.inj first).2 others) fun front d eq =>
        apart (c :: front) d (by rw [eq]; rfl)
      rw [List.cons_append, splitTopFrom_pass passes, rest, onFirst_onFirst, net_cons, ← Int.add_assoc]
      rfl

end Uncut

end Breadboard
