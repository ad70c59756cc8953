import Mathlib.Data.List.Forall2
import Breadboard.Proofs.Compound.Heads
import Breadboard.Proofs.Splitting

set_option autoImplicit false

/-!
Texts with the same code, spaced differently. Main statements: what is scanned for in such texts is
found in both of them or in neither, and what is cut out of them is the same code again.
-/
namespace Breadboard

open Text
open Canonical (within? within?_append onFirst onFirst_onFirst)

/-- A gap in code: blanks, and at least one. -/
structure Space (g : List Char) : Prop where
  some_ : g ≠ []
  blank : ∀ c ∈ g, isBlank c = true

/-- The same text but for the gaps in its code, from a place on where a scan stands: where there is a gap
in one text there is one in the other. What literals hold is the same to the letter. -/
inductive Spaced : Quote → List Char → List Char → Prop
  | nil (q : Quote) : Spaced q [] []
  | cons {q : Quote} {a b : List Char} (c : Char) : Spaced (q.next c) a b → Spaced q (c :: a) (c :: b)
  | gap {g g' a b : List Char} : Space g → Space g' → Spaced .code a b → Spaced .code (g ++ a) (g' ++ b)

variable {q : Quote} {g a b a' b' : List Char} {c : Char}

namespace Space

theorem closed (space : Space g) : Closed g :=
  .plain fun c member => ⟨(plain_of_isBlank (space.blank c member)).1,
    (plain_of_isBlank (space.blank c member)).2.1⟩

theorem exists_cons (space : Space g) : ∃ c rest, g = c :: rest ∧ isBlank c = true := by
  obtain ⟨c, rest, rfl⟩ := List.exists_cons_of_ne_nil space.some_
  exact ⟨c, rest, rfl, space.blank c List.mem_cons_self⟩

theorem append (space : Space g) (blank : ∀ c ∈ a, isBlank c = true) : Space (g ++ a) where
  some_ := by simp [space.some_]
  blank := List.forall_mem_append.2 ⟨space.blank, blank⟩

theorem singleton (blank : isBlank c = true) : Space [c] := ⟨by simp, by simpa using blank⟩

end Space

namespace Spaced

theorem refl (q : Quote) (a : List Char) : Spaced q a a := by
  induction a generalizing q with
  | nil => exact .nil q
  | cons c a ih => exact .cons c (ih _)

theorem symm (same : Spaced q a b) : Spaced q b a := by
  induction same with
  | nil q => exact .nil q
  | cons c _ ih => exact .cons c ih
  | gap left right _ ih => exact .gap right left ih

theorem after_eq (same : Spaced q a b) : q.after a = q.after b := by
  induction same with
  | nil q => rfl
  | cons c _ ih => exact ih
  | gap left right _ ih =>
    rw [Quote.after_append, Quote.after_append, left.closed.after_eq, right.closed.after_eq, ih]

theorem append (same : Spaced q a b) (more : Spaced (q.after a) a' b') :
    Spaced q (a ++ a') (b ++ b') := by
  induction same with
  | nil q => exact more
  | cons c _ ih => exact .cons c (ih more)
  | gap left right _ ih =>
    rw [Quote.after_append, left.closed.after_eq] at more
    rw [List.append_assoc, List.append_assoc]
    exact .gap left right (ih more)

theorem single (c : Char) (same : Spaced (q.next c) a b) : Spaced q ([c] ++ a) ([c] ++ b) := .cons c same

-- Two texts that differ in one gap.
theorem insert (code : q.after a = .code) {g g' : List Char} (left : Space g) (right : Space g')
    (b : List Char) : Spaced q (a ++ (g ++ b)) (a ++ (g' ++ b)) :=
  (refl q a).append (by rw [code]; exact .gap left right (refl .code b))

theorem eq_nil_iff (same : Spaced q a b) : a = [] ↔ b = [] := by
  cases same with
  | nil q => rfl
  | cons c _ => simp
  | gap left right _ => simp [left.some_, right.some_]

-- A character that is not blank is the same in both texts.
theorem uncons (same : Spaced q (c :: a) b) (solid : isBlank c = false) :
    ∃ b', b = c :: b' ∧ Spaced (q.next c) a b' := by
  generalize text : c :: a = cs at same
  cases same with
  | nil q => cases text
  | cons d rest =>
    obtain ⟨rfl, rfl⟩ := List.cons.inj text
    exact ⟨_, rfl, rest⟩
  | gap left _ _ =>
    obtain ⟨d, more, rfl, blank⟩ := left.exists_cons
    obtain ⟨rfl, -⟩ := List.cons.inj text
    rw [solid] at blank
    cases blank

theorem eq_of_solid (same : Spaced q a b) (solid : ∀ c ∈ a, isBlank c = false) : a = b := by
  induction a generalizing q b with
  | nil => exact (same.eq_nil_iff.1 rfl).symm
  | cons c a ih =>
    obtain ⟨b', rfl, rest⟩ := same.uncons (solid c List.mem_cons_self)
    rw [ih rest fun d member => solid d (List.mem_cons_of_mem _ member)]

-- So a property of texts without blanks is one of both texts or of neither.
theorem holds_eq {p : List Char → Bool} (solid : ∀ text, p text = true → ∀ c ∈ text, isBlank c = false)
    (same : Spaced q a b) : p a = p b := by
  cases left : p a with
  | true => rw [← left, same.eq_of_solid (solid a left)]
  | false =>
    cases right : p b with
    | false => rfl
    | true =>
      rw [same.symm.eq_of_solid (solid b right), left] at right
      cases right

-- A property of characters that is alike for all blanks holds of all of both texts or of neither.
theorem all_eq {p : Char → Bool} {r : Bool} (alike : ∀ c, isBlank c = true → p c = r)
    (same : Spaced q a b) : a.all p = b.all p := by
  have whole {g : List Char} (space : Space g) : g.all p = r := by
    obtain ⟨c, rest, rfl, blank⟩ := space.exists_cons
    cases r with
    | true => exact List.all_eq_true.2 fun d member => alike d (space.blank d member)
    | false => simp [alike c blank]
  induction same with
  | nil q => rfl
  | cons c _ ih => simp [ih]
  | gap left right _ ih => simp [whole left, whole right, ih]

theorem any_eq {p : Char → Bool} {r : Bool} (alike : ∀ c, isBlank c = true → p c = r)
    (same : Spaced q a b) : a.any p = b.any p := by
  have negated := same.all_eq (p := fun c => !p c) (r := !r) fun c blank => by simp [alike c blank]
  rw [List.any_eq_not_all_not, List.any_eq_not_all_not, negated]

theorem head?_any_eq {p : Char → Bool} {r : Bool} (alike : ∀ c, isBlank c = true → p c = r)
    (same : Spaced q a b) : a.head?.any p = b.head?.any p := by
  cases same with
  | nil q => rfl
  | cons c _ => rfl
  | gap left right _ =>
    obtain ⟨c, rest, rfl, blank⟩ := left.exists_cons
    obtain ⟨d, rest', rfl, blank'⟩ := right.exists_cons
    simp [alike c blank, alike d blank']

theorem head?_eq_some_iff (same : Spaced q a b) (solid : isBlank c = false) :
    a.head? = some c ↔ b.head? = some c := by
  have other (d : Char) (blank : isBlank d = true) : (d == c) = false := by
    simpa using Canonical.ne_of_class blank solid
  have first := same.head?_any_eq other
  have found (t : List Char) : t.head? = some c ↔ t.head?.any (· == c) = true := by
    cases t <;> simp
  rw [found, found, first]

theorem isBlankText_eq (same : Spaced q a b) : isBlankText a = isBlankText b :=
  same.all_eq fun _ blank => blank

section Trimming

theorem trimEnd_append (a b : List Char) :
    trimEnd (a ++ b) = if trimEnd b = [] then trimEnd a else a ++ trimEnd b := by
  simp only [trimEnd, dropEndWhile, List.reverse_append, List.dropWhile_append, List.isEmpty_iff,
    List.reverse_eq_nil_iff]
  split <;> simp

theorem trimEnd_space (space : Space g) : trimEnd g = [] := by
  have blanks : ∀ c ∈ g.reverse, isBlank c = true := by simpa using space.blank
  have none : (g.reverse ++ []).dropWhile isBlank = [].dropWhile isBlank :=
    List.dropWhile_append_of_pos blanks
  rw [List.append_nil] at none
  rw [trimEnd, dropEndWhile, none]
  rfl

protected theorem trimStart (same : Spaced .code a b) : Spaced .code (trimStart a) (trimStart b) := by
  generalize from_ : Quote.code = q at same
  induction same with
  | nil q => exact .nil _
  | @cons q a b c rest ih =>
    subst from_
    by_cases blank : isBlank c = true
    · have skip (t : List Char) : trimStart (c :: t) = trimStart t := List.dropWhile_cons_of_pos blank
      rw [skip, skip]
      have code := Canonical.next_of_not_isMark (plain_of_isBlank blank).1
      rw [code] at ih
      exact ih rfl
    · have stay (t : List Char) : trimStart (c :: t) = c :: t := List.dropWhile_cons_of_neg blank
      rw [stay, stay]
      exact .cons c rest
  | gap left right _ ih =>
    have skip {g : List Char} (space : Space g) (t : List Char) : trimStart (g ++ t) = trimStart t :=
      List.dropWhile_append_of_pos space.blank
    rw [skip left, skip right]
    exact ih rfl

protected theorem trimEnd (same : Spaced q a b) : Spaced q (trimEnd a) (trimEnd b) := by
  induction same with
  | nil q => exact .nil q
  | @cons q a b c _ ih =>
    have text (t : List Char) : trimEnd (c :: t) = if trimEnd t = [] then trimEnd [c] else c :: trimEnd t :=
      trimEnd_append [c] t
    rw [text a, text b]
    by_cases none : trimEnd a = []
    · rw [if_pos none, if_pos (ih.eq_nil_iff.1 none)]
      exact refl q _
    · rw [if_neg none, if_neg fun none' => none (ih.eq_nil_iff.2 none')]
      exact .cons c ih
  | @gap g g' a b left right _ ih =>
    rw [trimEnd_append, trimEnd_append, trimEnd_space left, trimEnd_space right]
    by_cases none : trimEnd a = []
    · rw [if_pos none, if_pos (ih.eq_nil_iff.1 none)]
      exact .nil _
    · rw [if_neg none, if_neg fun none' => none (ih.eq_nil_iff.2 none')]
      exact .gap left right ih

protected theorem trim (same : Spaced .code a b) : Spaced .code (trim a) (trim b) :=
  same.trimStart.trimEnd

end Trimming

section Words

theorem wordsFrom_space (space : Space g) (seen t : List Char) :
    wordsFrom seen (g ++ t) = (if seen.isEmpty then [] else [seen.reverse]) ++ wordsFrom [] t := by
  obtain ⟨c, rest, rfl, blank⟩ := space.exists_cons
  have skip (blanks : ∀ c ∈ rest, isBlank c = true) : wordsFrom [] (rest ++ t) = wordsFrom [] t := by
    clear space
    induction rest with
    | nil => rfl
    | cons d rest ih =>
      rw [List.forall_mem_cons] at blanks
      simp only [List.cons_append, wordsFrom, blanks.1, if_true, List.isEmpty_nil]
      exact ih blanks.2
  rw [List.cons_append, wordsFrom, if_pos blank, skip fun d member => space.blank d (List.mem_cons_of_mem _ member)]
  cases seen <;> rfl

protected theorem words (same : Spaced q a b) : words a = words b := by
  have every (seen : List Char) : wordsFrom seen a = wordsFrom seen b := by
    induction same generalizing seen with
    | nil q => rfl
    | cons c _ ih => simp only [wordsFrom, ih]
    | gap left right _ ih => rw [wordsFrom_space left, wordsFrom_space right, ih]
  exact every []

end Words

section Prefixes

protected theorem dropPrefix? (pre : List Char) (solid : ∀ c ∈ pre, isBlank c = false)
    (same : Spaced q a b) :
    Option.Rel (Spaced (q.after pre)) (dropPrefix? pre a) (dropPrefix? pre b) := by
  induction pre generalizing q a b with
  | nil => exact .some same
  | cons p pre ih =>
    rw [List.forall_mem_cons] at solid
    have shift (t : List Char) : dropPrefix? (p :: pre) t =
        if t.head? = some p then dropPrefix? pre t.tail else none := by
      cases t with
      | nil => rfl
      | cons c t => simp [dropPrefix?, eq_comm]
    rw [shift, shift]
    by_cases first : a.head? = some p
    · rw [if_pos first, if_pos ((same.head?_eq_some_iff solid.1).1 first)]
      obtain ⟨rest, rfl⟩ : ∃ rest, a = p :: rest := by
        cases a with
        | nil => cases first
        | cons d a => exact ⟨a, by simpa using first⟩
      obtain ⟨b', rfl, more⟩ := same.uncons solid.1
      exact ih solid.2 more
    · rw [if_neg first, if_neg fun found => first ((same.head?_eq_some_iff solid.1).2 found)]
      exact .none

theorem takeWhile_dropWhile {p : Char → Bool} (blanks : ∀ c, isBlank c = true → p c = true)
    (same : Spaced q a b) : Spaced q (a.takeWhile p) (b.takeWhile p) ∧
      Spaced (q.after (a.takeWhile p)) (a.dropWhile p) (b.dropWhile p) := by
  induction same with
  | nil q => exact ⟨.nil q, .nil q⟩
  | @cons q a b c rest ih =>
    by_cases holds : p c = true
    · simp only [List.takeWhile_cons_of_pos holds, List.dropWhile_cons_of_pos holds]
      exact ⟨.cons c ih.1, ih.2⟩
    · simp only [List.takeWhile_cons_of_neg holds, List.dropWhile_cons_of_neg holds]
      exact ⟨.nil q, .cons c rest⟩
  | gap left right _ ih =>
    have skip {g : List Char} (space : Space g) : ∀ c ∈ g, p c = true :=
      fun c member => blanks c (space.blank c member)
    rw [List.takeWhile_append_of_pos (skip left), List.takeWhile_append_of_pos (skip right),
      List.dropWhile_append_of_pos (skip left), List.dropWhile_append_of_pos (skip right),
      Quote.after_append, left.closed.after_eq]
    exact ⟨.gap left right ih.1, ih.2⟩

end Prefixes

section Brackets

theorem close_space (bracket : Bracket) (space : Space g) (depth : Nat) (t : List Char) :
    bracket.close .code depth (g ++ t) = within? g (bracket.close .code depth t) := by
  have level : ∀ front, front <+: g → 0 ≤ (depth : Int) + bracket.balance .code front :=
    fun front inside => by
      have low := space.closed.nonneg bracket front inside
      omega
  rw [close_append bracket level, space.closed.after_eq, space.closed.balance_eq]
  simp

protected theorem close (bracket : Bracket) (depth : Nat) (same : Spaced q a b) :
    Option.Rel (fun x y => Spaced q x.1 y.1 ∧ Spaced .code x.2 y.2) (bracket.close q depth a)
      (bracket.close q depth b) := by
  have onto {q q' : Quote} {t t' : List Char} {found found' : Option (List Char × List Char)}
      (wrap : ∀ {a b}, Spaced q' a b → Spaced q (t ++ a) (t' ++ b))
      (rel : Option.Rel (fun x y => Spaced q' x.1 y.1 ∧ Spaced .code x.2 y.2) found found') :
      Option.Rel (fun x y => Spaced q x.1 y.1 ∧ Spaced .code x.2 y.2) (within? t found)
        (within? t' found') := by
    cases rel with
    | none => exact .none
    | some both => exact .some ⟨wrap both.1, both.2⟩
  induction same generalizing depth with
  | nil q => exact .none
  | @cons q a b c rest ih =>
    by_cases closes : q.isCode c = true ∧ c = bracket.closer ∧ depth = 0
    · obtain ⟨code, rfl, rfl⟩ := closes
      obtain ⟨rfl, mark⟩ := code_of_isCode code
      rw [Canonical.next_of_not_isMark mark] at rest
      rw [Canonical.close_closer_zero, Canonical.close_closer_zero]
      exact .some ⟨.nil .code, rest⟩
    · have level : 0 ≤ (depth : Int) + if q.isCode c then bracket.weight c else 0 := by
        by_cases code : q.isCode c = true
        · rw [if_pos code]
          simp only [code, true_and, not_and] at closes
          by_cases closer : c = bracket.closer
          · have open_ := closes closer
            simp only [Bracket.weight, if_pos closer]
            split <;> omega
          · simp only [Bracket.weight, if_neg closer]
            split <;> omega
        · rw [if_neg code]
          omega
      obtain ⟨depth', moved⟩ := Int.eq_ofNat_of_zero_le level
      rw [close_step bracket moved.symm, close_step bracket moved.symm]
      exact onto (.single c) (ih depth')
  | gap left right _ ih =>
    rw [close_space bracket left, close_space bracket right]
    exact onto (.gap left right) (ih depth)

protected theorem enclosed? (bracket : Bracket) (same : Spaced .code a b) :
    Option.Rel (fun x y => Spaced .code x.1 y.1 ∧ Spaced .code x.2 y.2) (bracket.enclosed? a)
      (bracket.enclosed? b) := by
  have solid : isBlank bracket.opener = false := by cases bracket <;> decide
  have other {c : Char} (blank : isBlank c = true) : c ≠ bracket.opener :=
    Canonical.ne_of_class blank solid
  generalize from_ : Quote.code = q at same
  cases same with
  | nil q => exact .none
  | @cons q a b c rest =>
    subst from_
    by_cases opens : c = bracket.opener
    · subst opens
      rw [Canonical.next_of_not_isMark (Canonical.isMark_opener bracket)] at rest
      rw [Bracket.enclosed?, if_pos rfl, Bracket.enclosed?, if_pos rfl]
      exact rest.close bracket 0
    · rw [Bracket.enclosed?, if_neg opens, Bracket.enclosed?, if_neg opens]
      exact .none
  | gap left right _ =>
    obtain ⟨c, t, rfl, blank⟩ := left.exists_cons
    obtain ⟨d, t', rfl, blank'⟩ := right.exists_cons
    rw [List.cons_append, List.cons_append, Bracket.enclosed?, if_neg (other blank), Bracket.enclosed?,
      if_neg (other blank')]
    exact .none

protected theorem balance (bracket : Bracket) (same : Spaced q a b) :
    bracket.balance q a = bracket.balance q b := by
  induction same with
  | nil q => rfl
  | cons c _ ih => simp only [Bracket.balance, ih]
  | gap left right _ ih =>
    rw [Bracket.balance_append, Bracket.balance_append, left.closed.balance_eq, right.closed.balance_eq,
      left.closed.after_eq, right.closed.after_eq, ih]

end Brackets

section Splitting

variable {sep : List Char} {depth : Int}

/-- A separator of code: no quote marks, brackets or blanks. -/
structure Separates (sep : List Char) : Prop where
  some_ : sep ≠ []
  plain : ∀ c ∈ sep, isMark c = false ∧ depthStep c = 0
  solid : ∀ c ∈ sep, isBlank c = false

theorem splitTopFrom_space (separates : Separates sep) (space : Space g) (t : List Char) :
    splitTopFrom sep .code depth 0 (g ++ t) = onFirst g (splitTopFrom sep .code depth 0 t) := by
  obtain ⟨h, rest, rfl⟩ := List.exists_cons_of_ne_nil separates.some_
  have solid := separates.solid h List.mem_cons_self
  refine Canonical.splitTopFrom_flat fun c member => ?_
  have blank := space.blank c member
  exact ⟨(plain_of_isBlank blank).1, (plain_of_isBlank blank).2.1, (Canonical.ne_of_class blank solid).symm⟩

/-- What the scan for the first separator gives in two texts: no separator in either, or one in both, with
the same code in front of them and behind them. -/
inductive CutAlike (sep : List Char) (q : Quote) : List Char × List (List Char) →
    List Char × List (List Char) → List Char → List Char → Prop
  | none {a b : List Char} : Spaced q a b → CutAlike sep q (a, []) (b, []) a b
  | some {p p' r r' : List Char} : Spaced q p p' → Spaced .code r r' →
    CutAlike sep q (p, splitTop sep r) (p', splitTop sep r') (p ++ (sep ++ r)) (p' ++ (sep ++ r'))

theorem CutAlike.onto {q q' : Quote} {t t' a b : List Char} {x y : List Char × List (List Char)}
    (wrap : ∀ {a b}, Spaced q' a b → Spaced q (t ++ a) (t' ++ b)) (alike : CutAlike sep q' x y a b) :
    CutAlike sep q (onFirst t x) (onFirst t' y) (t ++ a) (t' ++ b) := by
  cases alike with
  | none same => exact .none (wrap same)
  | some front behind =>
    rw [← List.append_assoc t, ← List.append_assoc t']
    exact .some (wrap front) behind

-- The first separators of two texts stand in the same place.
theorem cutAlike (depth : Int) (separates : Separates sep) (same : Spaced q a b) :
    CutAlike sep q (splitTopFrom sep q depth 0 a) (splitTopFrom sep q depth 0 b) a b := by
  induction same generalizing depth with
  | nil q => exact .none (.nil q)
  | @cons q a b c rest ih =>
    obtain ⟨h, tail, rfl⟩ := List.exists_cons_of_ne_nil separates.some_
    have plain := List.forall_mem_cons.1 separates.plain
    have solid := List.forall_mem_cons.1 separates.solid
    by_cases code : q.isCode c = true ∧ depth + depthStep c = 0 ∧ h = c
    · obtain ⟨code, level, rfl⟩ := code
      obtain ⟨rfl, mark⟩ := code_of_isCode code
      rw [Canonical.next_of_not_isMark mark] at rest ih
      have behind := rest.dropPrefix? tail solid.2
      have closed : Quote.code.after tail = .code := (Closed.plain plain.2).after_eq
      rw [closed] at behind
      -- The rest of the separator stands behind its first character in both texts or in neither.
      generalize left : Text.dropPrefix? tail a = found at behind
      generalize right : Text.dropPrefix? tail b = found' at behind
      cases behind with
      | some more =>
        obtain rfl := eq_append_of_dropPrefix? left
        obtain rfl := eq_append_of_dropPrefix? right
        have cuts (r : List Char) : CutsAt (h :: tail) .code depth h (tail ++ r) :=
          ⟨code, level, by simp, by simp⟩
        rw [splitTopFrom_cut (cuts _), splitTopFrom_cut (cuts _)]
        simpa using (CutAlike.some (.nil .code) more : CutAlike (h :: tail) _ _ _ _ _)
      | none =>
        have passes {t : List Char} (missing : Text.dropPrefix? tail t = Option.none) :
            ¬CutsAt (h :: tail) .code depth h t := by
          rintro ⟨-, -, -, r, opens⟩
          have tail_ : t = tail ++ r := (List.cons.inj opens).2.symm
          rw [tail_, dropPrefix?_append] at missing
          cases missing
        rw [splitTopFrom_pass (passes left), splitTopFrom_pass (passes right),
          Canonical.next_of_not_isMark mark]
        exact CutAlike.onto (fun same => .single h (by rwa [Canonical.next_of_not_isMark mark])) (ih _)
    · have passes (t : List Char) : ¬CutsAt (h :: tail) q depth c t := by
        rintro ⟨isCode, level, -, opens⟩
        exact code ⟨isCode, level, (List.cons_prefix_cons.1 opens).1⟩
      rw [splitTopFrom_pass (passes _), splitTopFrom_pass (passes _)]
      exact CutAlike.onto (.single c) (ih _)
  | gap left right _ ih =>
    rw [splitTopFrom_space separates left, splitTopFrom_space separates right]
    exact CutAlike.onto (.gap left right) (ih _)

-- The parts of two texts are the same code.
protected theorem splitTop (separates : Separates sep) (same : Spaced .code a b) :
    List.Forall₂ (Spaced .code) (splitTop sep a) (splitTop sep b) := by
  induction length : a.length using Nat.strongRecOn generalizing a b with
  | _ n ih =>
    have first := same.cutAlike 0 separates
    simp only [splitTop]
    generalize splitTopFrom sep .code 0 0 a = x at first
    generalize splitTopFrom sep .code 0 0 b = y at first
    cases first with
    | none same => exact .cons same .nil
    | @some p p' r r' front behind =>
      refine .cons front (ih r.length ?_ behind rfl)
      have long := List.length_pos_of_ne_nil separates.some_
      simp only [List.length_append] at length
      omega

protected theorem cutTop? (separates : Separates sep) (same : Spaced .code a b) :
    Option.Rel (fun x y => Spaced .code x.1 y.1 ∧ Spaced .code x.2 y.2) (cutTop? sep a) (cutTop? sep b) := by
  have first := same.cutAlike 0 separates
  simp only [cutTop?]
  generalize splitTopFrom sep .code 0 0 a = x at first
  generalize splitTopFrom sep .code 0 0 b = y at first
  cases first with
  | none same => exact .none
  | @some p p' r r' front behind =>
    have parts (t : List Char) : ∃ part parts, splitTop sep t = part :: parts :=
      List.exists_cons_of_ne_nil (splitTop_ne_nil sep t)
    have rest (p r : List Char) : (p ++ (sep ++ r)).drop (p.length + sep.length) = r := by
      rw [← List.append_assoc, ← List.length_append, List.drop_left]
    obtain ⟨_, _, left⟩ := parts r
    obtain ⟨_, _, right⟩ := parts r'
    simp only [left, right, rest]
    exact .some ⟨front, behind⟩

protected theorem splitArgs (same : Spaced .code a b) :
    List.Forall₂ (Spaced .code) (splitArgs a) (splitArgs b) := by
  rw [splitArgs, splitArgs, same.isBlankText_eq]
  split
  · exact .nil
  · rw [List.forall₂_map_left_iff, List.forall₂_map_right_iff]
    exact (same.splitTop ⟨by simp, by decide, by decide⟩).imp fun _ _ same => same.trim

end Splitting

section Calls

-- The name of a call: no quote marks or blanks.
protected theorem stripCall (name : List Char) (mark : ∀ c ∈ name, isMark c = false)
    (solid : ∀ c ∈ name, isBlank c = false) (same : Spaced .code a b) :
    Option.Rel (Spaced .code) (stripCall name a) (stripCall name b) := by
  have code : Quote.code.after name = .code := by
    clear solid
    induction name with
    | nil => rfl
    | cons c name ih =>
      rw [List.forall_mem_cons] at mark
      rw [Quote.after_cons, Canonical.next_of_not_isMark mark.1, ih mark.2]
  have rest := same.trim.dropPrefix? name solid
  rw [code] at rest
  simp only [Text.stripCall]
  generalize Text.dropPrefix? name (trim a) = x at rest
  generalize Text.dropPrefix? name (trim b) = y at rest
  cases rest with
  | none => exact .none
  | some more =>
    have inside := more.trimStart.enclosed? .round
    simp only [Option.bind_eq_bind, Option.bind_some]
    generalize Bracket.round.enclosed? (trimStart _) = x at inside
    generalize Bracket.round.enclosed? (trimStart _) = y at inside
    cases inside with
    | none => exact .none
    | @some x y both =>
      obtain ⟨args, after⟩ := x
      obtain ⟨args', after'⟩ := y
      obtain ⟨args_, after_⟩ := both
      simp only [Option.bind_some]
      cases after with
      | nil =>
        obtain rfl := after_.eq_nil_iff.1 rfl
        exact .some args_
      | cons c after =>
        cases after' with
        | nil => cases after_.eq_nil_iff.2 rfl
        | cons => exact .none

theorem solid_of_isIdentifier {t : List Char} (identifier : isIdentifier t = true) :
    ∀ c ∈ t, isBlank c = false := fun c member =>
  Canonical.isBlank_of_isWordChar (Canonical.isWordChar_of_isIdentifier identifier c member)

protected theorem splitCall (same : Spaced .code a b) :
    Option.Rel (fun x y => x.1 = y.1 ∧ Spaced .code x.2 y.2) (splitCall a) (splitCall b) := by
  have opens : (trim a).contains '(' = (trim b).contains '(' := by
    have other (c : Char) (blank : isBlank c = true) : ('(' == c) = false := by
      simpa using (Canonical.ne_of_class blank (by decide)).symm
    rw [List.contains_eq_any_beq, List.contains_eq_any_beq, same.trim.any_eq other]
  have blanks (c : Char) (blank : isBlank c = true) : (c != '(') = true := by
    simpa using Canonical.ne_of_class blank (by decide)
  have name := (same.trim.takeWhile_dropWhile blanks).1.trim
  simp only [Text.splitCall, opens]
  by_cases identifier : isIdentifier (trim ((trim a).takeWhile (· != '('))) = true
  · have solid := solid_of_isIdentifier identifier
    have word := Canonical.isWordChar_of_isIdentifier identifier
    rw [← name.eq_of_solid solid]
    have args := same.trim.stripCall _
      (fun c member => Canonical.isMark_of_isPlain (Canonical.isPlain_of_isWordChar (word c member))) solid
    generalize trim ((trim a).takeWhile (· != '(')) = called at args
    generalize Text.stripCall called (trim a) = x at args
    generalize Text.stripCall called (trim b) = y at args
    cases (trim b).contains '(' with
    | false => exact .none
    | true =>
      cases isIdentifier called with
      | false => exact .none
      | true =>
        cases args with
        | none => exact .none
        | some args => exact .some ⟨rfl, args⟩
  · have other := name.holds_eq (p := isIdentifier) fun t => solid_of_isIdentifier
    rw [← other, Bool.eq_false_iff.2 identifier]
    cases (trim b).contains '(' <;> exact .none

-- A word that opens a statement.
protected theorem dropWord? (word : List Char) (letters : ∀ c ∈ word, isWordChar c = true)
    (same : Spaced .code a b) : Option.Rel (Spaced .code) (dropWord? word a) (dropWord? word b) := by
  have mark : ∀ c ∈ word, isMark c = false ∧ depthStep c = 0 := fun c member =>
    have plain := Canonical.isPlain_of_isWordChar (letters c member)
    ⟨Canonical.isMark_of_isPlain plain, Canonical.depthStep_of_isPlain plain⟩
  have rest := same.dropPrefix? word fun c member => Canonical.isBlank_of_isWordChar (letters c member)
  rw [(Closed.plain mark).after_eq] at rest
  simp only [Text.dropWord?]
  generalize Text.dropPrefix? word a = x at rest
  generalize Text.dropPrefix? word b = y at rest
  cases rest with
  | none => exact .none
  | @some r r' more =>
    have ends := more.head?_any_eq (p := isWordChar) fun _ blank => isWordChar_of_isBlank blank
    simp only [Option.bind_eq_bind, Option.bind_some, ends]
    cases r'.head?.any isWordChar with
    | true => exact .none
    | false => exact .some more

protected theorem leadingKeyword (same : Spaced .code a b) : leadingKeyword a = leadingKeyword b := by
  have isSome {x y : Option (List Char)} (rel : Option.Rel (Spaced .code) x y) : x.isSome = y.isSome := by
    cases rel <;> rfl
  have word (w : List Char) (letters : ∀ c ∈ w, isWordChar c = true) {t t' : List Char}
      (alike : Spaced .code t t') := isSome (alike.trimStart.dropWord? w letters)
  have else_ := same.trimStart.dropWord? "else".toList (by decide)
  simp only [Text.leadingKeyword]
  generalize Text.dropWord? "else".toList (trimStart a) = x at else_
  generalize Text.dropWord? "else".toList (trimStart b) = y at else_
  cases else_ with
  | none => simp only [word "if".toList (by decide) same, word "for".toList (by decide) same,
      word "while".toList (by decide) same]
  | some more => simp only [word "if".toList (by decide) more]

end Calls

end Spaced

end Breadboard
