import Mathlib.Data.List.Induction
import Breadboard.Proofs.Spacing.Reading

set_option autoImplicit false

/-!
Simple statements in texts that are spaced differently. Main statement: a simple statement is read alike
from texts with the same code.
-/
namespace Breadboard

open Text

variable {a b front front' : List Char} {q : Quote} {c : Char}

namespace Spaced

-- A last character that is not blank is the same in both texts.
theorem unconcat (same : Spaced q (front ++ [c]) b) (solid : isBlank c = false) :
    ∃ b', b = b' ++ [c] ∧ Spaced q front b' := by
  generalize text : front ++ [c] = t at same
  induction same generalizing front with
  | nil q => simp at text
  | @cons q a b d rest ih =>
    cases front with
    | nil =>
      obtain ⟨rfl, rfl⟩ := List.cons.inj text
      obtain rfl := rest.eq_nil_iff.1 rfl
      exact ⟨[], rfl, .nil q⟩
    | cons e front =>
      rw [List.cons_append] at text
      obtain ⟨rfl, tail⟩ := List.cons.inj text
      obtain ⟨b', rfl, more⟩ := ih tail
      exact ⟨e :: b', rfl, .cons e more⟩
  | @gap g g' a b left right rest ih =>
    obtain rfl | ⟨a', d, rfl⟩ := List.eq_nil_or_concat a
    · -- The last character would be in the gap.
      have blank := left.blank c (by rw [List.append_nil] at text; simp [← text])
      rw [solid] at blank
      cases blank
    · rw [List.concat_eq_append, ← List.append_assoc] at text
      obtain ⟨rfl, rfl⟩ := List.append_inj' text rfl |>.imp_right fun last => (List.cons.inj last).1
      obtain ⟨b', rfl, more⟩ := ih (List.concat_eq_append ..).symm
      exact ⟨g' ++ b', by simp, .gap left right more⟩

-- So the last characters are the same or both blank; where there is none, a blank stands in for it.
theorem getLast?_getD (same : Spaced q a b) : a.getLast?.getD ' ' = b.getLast?.getD ' ' ∨
    isBlank (a.getLast?.getD ' ') = true ∧ isBlank (b.getLast?.getD ' ') = true := by
  have solid {a b : List Char} (same : Spaced q a b) (some_ : isBlank (a.getLast?.getD ' ') = false) :
      a.getLast?.getD ' ' = b.getLast?.getD ' ' := by
    obtain rfl | ⟨front, c, rfl⟩ := List.eq_nil_or_concat a
    · cases some_
    · rw [List.concat_eq_append] at same some_ ⊢
      simp only [List.getLast?_append, List.getLast?_singleton, Option.some_or, Option.getD_some]
        at some_ ⊢
      obtain ⟨b', rfl, -⟩ := same.unconcat some_
      simp
  cases left : isBlank (a.getLast?.getD ' ') with
  | false => exact .inl (solid same left)
  | true =>
    cases right : isBlank (b.getLast?.getD ' ') with
    | false => exact .inl (solid same.symm right).symm
    | true => exact .inr ⟨rfl, rfl⟩

theorem head?_getD (same : Spaced q a b) : a.head?.getD ' ' = b.head?.getD ' ' ∨
    isBlank (a.head?.getD ' ') = true ∧ isBlank (b.head?.getD ' ') = true := by
  cases same with
  | nil q => exact .inl rfl
  | cons c _ => exact .inl rfl
  | gap left right _ =>
    obtain ⟨c, rest, rfl, blank⟩ := left.exists_cons
    obtain ⟨d, rest', rfl, blank'⟩ := right.exists_cons
    exact .inr ⟨blank, blank'⟩

theorem dropSuffix?_eq_some_iff {tail cs rest : List Char} :
    Text.dropSuffix? tail cs = some rest ↔ cs = rest ++ tail := by
  rw [Text.dropSuffix?, Option.map_eq_some_iff]
  constructor
  · rintro ⟨back, found, rfl⟩
    have text := congrArg List.reverse (eq_append_of_dropPrefix? found)
    simpa using text
  · rintro rfl
    exact ⟨rest.reverse, by rw [List.reverse_append, dropPrefix?_append], by simp⟩

protected theorem dropSuffix? (tail : List Char) (solid : ∀ c ∈ tail, isBlank c = false)
    (same : Spaced q a b) : Option.Rel (Spaced q) (dropSuffix? tail a) (dropSuffix? tail b) := by
  have some_ {a b front : List Char} (same : Spaced q a b) (found : Text.dropSuffix? tail a = some front) :
      ∃ front', Text.dropSuffix? tail b = some front' ∧ Spaced q front front' := by
    rw [dropSuffix?_eq_some_iff] at found
    subst found
    induction tail using List.reverseRecOn generalizing b with
    | nil => exact ⟨b, dropSuffix?_eq_some_iff.2 (by simp), by simpa using same⟩
    | append_singleton tail c ih =>
      rw [List.forall_mem_append] at solid
      rw [← List.append_assoc] at same
      obtain ⟨b', rfl, more⟩ := same.unconcat (solid.2 c (by simp))
      obtain ⟨front', found, alike⟩ := ih solid.1 more
      rw [dropSuffix?_eq_some_iff] at found
      exact ⟨front', dropSuffix?_eq_some_iff.2 (by simp [found]), alike⟩
  cases left : Text.dropSuffix? tail a with
  | some front =>
    obtain ⟨front', right, alike⟩ := some_ same left
    rw [right]
    exact .some alike
  | none =>
    cases right : Text.dropSuffix? tail b with
    | none => exact .none
    | some front' =>
      obtain ⟨front, found, -⟩ := some_ same.symm right
      rw [left] at found
      cases found

end Spaced

namespace Action

section Assignments

variable {rest rest' : List Char}

theorem take_getD (front rest : List Char) :
    (if front.length = 0 then ' ' else (front ++ '=' :: rest).getD (front.length - 1) ' ') =
      front.getLast?.getD ' ' := by
  obtain rfl | ⟨front, c, rfl⟩ := List.eq_nil_or_concat front
  · rfl
  · rw [List.concat_eq_append, if_neg (by simp)]
    simp [List.getD_eq_getElem?_getD]

theorem drop_getD (front rest : List Char) :
    (front ++ '=' :: rest).getD (front.length + 1) ' ' = rest.head?.getD ' ' := by
  rw [List.getD_eq_getElem?_getD, List.getElem?_append_right (by omega)]
  simp [List.head?_eq_getElem?]

-- An equals sign that assigns: what stands in front of the operator, the operator, and what follows.
def assignsAt (front rest : List Char) : Option (List Char × AssignOp × List Char) :=
  if rest.head?.getD ' ' = '=' ∨ front.getLast?.getD ' ' ∈ ['=', '!', '<', '>'] then none
  else some ((assignOp? (front.getLast?.getD ' ')).elim (front, .set, rest) fun op => (front.dropLast, op, rest))

-- The search stops at the first equals sign that assigns.
theorem findAssign_cons (front part rest : List Char) (parts : List (List Char)) :
    findAssign (front ++ (part ++ '=' :: rest)) front.length (part :: parts) =
      (assignsAt (front ++ part) rest).or
        (findAssign (front ++ (part ++ '=' :: rest)) (front ++ (part ++ ['='])).length parts) := by
  have text : front ++ (part ++ '=' :: rest) = (front ++ part) ++ '=' :: rest := by simp
  have pos : front.length + part.length = (front ++ part).length := by simp
  have next : (front ++ (part ++ ['='])).length = (front ++ part).length + 1 := by simp [Nat.add_assoc]
  rw [findAssign, text, pos, next]
  generalize front ++ part = whole
  have inside : ¬(whole ++ '=' :: rest).length ≤ whole.length := by simp
  have front_ : (whole ++ '=' :: rest).take (whole.length - 1) = whole.dropLast := by
    rw [List.take_append_of_le_length (Nat.sub_le _ _), List.dropLast_eq_take]
  have behind : (whole ++ '=' :: rest).drop (whole.length + 1) = rest := by simp [List.drop_append]
  have all : (whole ++ '=' :: rest).take whole.length = whole := by simp
  simp only [if_neg inside, take_getD, drop_getD, front_, behind, all, assignsAt]
  by_cases compares : rest.head?.getD ' ' = '=' ∨ whole.getLast?.getD ' ' ∈ ['=', '!', '<', '>']
  · have compares' := compares
    simp only [List.mem_cons, List.not_mem_nil, or_false, ← or_assoc] at compares'
    simp only [Bool.or_eq_true, decide_eq_true_eq, if_pos compares, if_pos compares', Option.none_or]
  · have compares' := compares
    simp only [List.mem_cons, List.not_mem_nil, or_false, ← or_assoc] at compares'
    simp only [Bool.or_eq_true, decide_eq_true_eq, if_neg compares, if_neg compares', Option.some_or]
    cases assignOp? (whole.getLast?.getD ' ') <;> rfl

-- The same assignment in two texts.
def AssignAlike (x y : List Char × AssignOp × List Char) : Prop :=
  Spaced .code x.1 y.1 ∧ x.2.1 = y.2.1 ∧ Spaced .code x.2.2 y.2.2

theorem assignOp?_eq_none (blank : isBlank c = true) : assignOp? c = none := by
  have other (d : Char) (solid : isBlank d = false) : c ≠ d := Canonical.ne_of_class blank solid
  unfold assignOp?
  split
  · exact absurd rfl (other '+' (by decide))
  · exact absurd rfl (other '-' (by decide))
  · exact absurd rfl (other '*' (by decide))
  · exact absurd rfl (other '/' (by decide))
  · rfl

theorem assignsAt_alike (same : Spaced .code front front') (more : Spaced .code rest rest') :
    Option.Rel AssignAlike (assignsAt front rest) (assignsAt front' rest') := by
  have other {c d : Char} (blank : isBlank c = true) (solid : isBlank d = false) : c ≠ d :=
    Canonical.ne_of_class blank solid
  have class_ {x y d : Char} (alike : x = y ∨ isBlank x = true ∧ isBlank y = true)
      (solid : isBlank d = false) : x = d ↔ y = d := by
    obtain rfl | ⟨left, right⟩ := alike
    · rfl
    · exact iff_of_false (other left solid) (other right solid)
  have compares : (rest.head?.getD ' ' = '=' ∨ front.getLast?.getD ' ' ∈ ['=', '!', '<', '>']) ↔
      (rest'.head?.getD ' ' = '=' ∨ front'.getLast?.getD ' ' ∈ ['=', '!', '<', '>']) := by
    simp only [List.mem_cons, List.not_mem_nil, or_false]
    rw [class_ more.head?_getD (by decide), class_ same.getLast?_getD (by decide),
      class_ same.getLast?_getD (by decide), class_ same.getLast?_getD (by decide),
      class_ same.getLast?_getD (by decide)]
  unfold assignsAt
  by_cases holds : rest.head?.getD ' ' = '=' ∨ front.getLast?.getD ' ' ∈ ['=', '!', '<', '>']
  · rw [if_pos holds, if_pos (compares.1 holds)]
    exact .none
  · rw [if_neg holds, if_neg fun holds' => holds (compares.2 holds')]
    obtain eq | ⟨left, right⟩ := same.getLast?_getD
    · rw [← eq]
      cases found : assignOp? (front.getLast?.getD ' ') with
      | none => exact .some ⟨same, rfl, more⟩
      | some op =>
        -- The operator is one character of its own in front of the equals sign.
        have solid : isBlank (front.getLast?.getD ' ') = false := by
          cases blank : isBlank (front.getLast?.getD ' ') with
          | false => rfl
          | true => rw [assignOp?_eq_none blank] at found; cases found
        obtain rfl | ⟨x, c, rfl⟩ := List.eq_nil_or_concat front
        · cases solid
        · rw [List.concat_eq_append] at same solid ⊢
          obtain ⟨y, rfl, alike⟩ := same.unconcat (by simpa using solid)
          exact .some ⟨by simpa using alike, rfl, more⟩
    · rw [assignOp?_eq_none left, assignOp?_eq_none right]
      exact .some ⟨same, rfl, more⟩

theorem findAssign_alike (same : Spaced .code front front') (code : Quote.code.after front = .code)
    (more : Spaced .code rest rest') :
    Option.Rel AssignAlike (findAssign (front ++ rest) front.length (splitTop ['='] rest))
      (findAssign (front' ++ rest') front'.length (splitTop ['='] rest')) := by
  induction length : rest.length using Nat.strongRecOn generalizing front front' rest rest' with
  | _ n ih =>
    have cut := more.cutAlike 0 (⟨by simp, by decide, by decide⟩ : Spaced.Separates ['='])
    have ends (t : List Char) (parts : (splitTopFrom ['='] .code 0 0 t).2 ≠ []) :=
      @ends_of_splitTopFrom ['='] t .code 0 _ _ (by decide) rfl parts
    have code_ := ends rest
    simp only [splitTop] at ih ⊢
    generalize splitTopFrom ['='] .code 0 0 rest = x at cut code_
    generalize splitTopFrom ['='] .code 0 0 rest' = y at cut
    cases cut with
    | none => simp only [findAssign, List.length_append, Nat.le_refl, if_true]; exact .none
    | @some p p' r r' first behind =>
      have last := (code_ (splitTop_ne_nil _ _)).1
      have whole : Quote.code.after (front ++ (p ++ ['='])) = .code := by
        rw [Quote.after_append, code, Quote.after_append, last]
        rfl
      have here := assignsAt_alike (same.append (by rw [code]; exact first)) behind
      have later := ih r.length (by simp only [List.length_append, List.length_cons] at length; omega)
        (same.append (by rw [code]; exact first.append (.refl _ ['=']))) whole behind rfl
      simp only [List.cons_append, List.nil_append]
      rw [findAssign_cons, findAssign_cons]
      have text (front p r : List Char) : front ++ (p ++ '=' :: r) = (front ++ (p ++ ['='])) ++ r := by simp
      rw [text front p, text front' p']
      generalize assignsAt (front ++ p) r = x at here
      generalize assignsAt (front' ++ p') r' = y at here
      cases here with
      | some both => exact .some both
      | none => exact later

end Assignments

section Calls

variable {name : List Char}

theorem readAssign?_alike (same : Spaced .code a b) :
    (readAssign? a).map gist = (readAssign? b).map gist := by
  have found := findAssign_alike (.nil .code) rfl same
  unfold readAssign?
  simp only [List.nil_append, List.length_nil] at found
  generalize findAssign a 0 (splitTop ['='] a) = x at found
  generalize findAssign b 0 (splitTop ['='] b) = y at found
  cases found with
  | none => rfl
  | @some x y both =>
    obtain ⟨lhs, op, rhs⟩ := x
    obtain ⟨lhs', op', rhs'⟩ := y
    obtain ⟨left, rfl, right⟩ := both
    simp only [Option.bind_eq_bind, Option.bind_some, left.words]
    cases (words lhs').getLast? with
    | none => rfl
    | some last =>
      simp only [Option.bind_some, guard]
      split
      · exact congrArg some (by simp only [gist, Expr.gist_read right])
      · rfl

theorem readStep?_eq (same : Spaced .code a b) : readStep? a = readStep? b := by
  have named {x y : List Char} (alike : Spaced .code x y) (delta : Float) :
      (do guard (isIdentifier (trim x)); some (Action.step (String.ofList (trim x)) delta)) =
        (do guard (isIdentifier (trim y)); some (Action.step (String.ofList (trim y)) delta)) := by
    by_cases identifier : isIdentifier (trim x) = true
    · rw [alike.trim.eq_of_solid (Spaced.solid_of_isIdentifier identifier)]
    · have other := alike.trim.holds_eq (p := isIdentifier) fun t => Spaced.solid_of_isIdentifier
      rw [← other, Bool.eq_false_iff.2 identifier]
      rfl
  have plusAfter := same.dropSuffix? ['+', '+'] (by decide)
  have minusAfter := same.dropSuffix? ['-', '-'] (by decide)
  have plusBefore := same.dropPrefix? ['+', '+'] (by decide)
  have minusBefore := same.dropPrefix? ['-', '-'] (by decide)
  unfold readStep?
  generalize dropSuffix? ['+', '+'] a = x at plusAfter
  generalize dropSuffix? ['+', '+'] b = y at plusAfter
  cases plusAfter with
  | some alike => exact named alike 1.0
  | none =>
    generalize dropSuffix? ['-', '-'] a = x at minusAfter
    generalize dropSuffix? ['-', '-'] b = y at minusAfter
    cases minusAfter with
    | some alike => exact named alike (-1.0)
    | none =>
      generalize dropPrefix? ['+', '+'] a = x at plusBefore
      generalize dropPrefix? ['+', '+'] b = y at plusBefore
      cases plusBefore with
      | some alike => exact named alike 1.0
      | none =>
        generalize dropPrefix? ['-', '-'] a = x at minusBefore
        generalize dropPrefix? ['-', '-'] b = y at minusBefore
        cases minusBefore with
        | some alike => exact named alike (-1.0)
        | none => rfl

-- Whether a reader of arguments reads the same from texts with the same code.
def Steady (read : List Char → Option Action) : Prop :=
  ∀ a b, Spaced .code a b → (read a).map gist = (read b).map gist

theorem printArg_alike (same : Spaced .code a b) : (printArg a).gist = (printArg b).gist := by
  have args := same.splitArgs
  unfold printArg
  generalize splitArgs a = xs at args
  generalize splitArgs b = ys at args
  cases args with
  | nil => rfl
  | @cons x y _ _ first _ =>
    have wrapped := first.stripCall ['F'] (by decide) (by decide)
    have inner : Spaced .code ((stripCall ['F'] x).getD x) ((stripCall ['F'] y).getD y) := by
      generalize stripCall ['F'] x = s at wrapped
      generalize stripCall ['F'] y = t at wrapped
      cases wrapped with
      | none => exact first
      | some alike => exact alike
    simp only [inner.unquote]
    cases unquote ((stripCall ['F'] y).getD y) with
    | none => simp only [PrintArg.gist, Expr.gist_read inner]
    | some body => rfl

theorem twoArgs?_alike (f : Expr → Expr → Action)
    (congr : ∀ x y x' y', x.gist = x'.gist → y.gist = y'.gist → (f x y).gist = (f x' y').gist) :
    Steady fun args => (twoArgs? args).map fun (x, y) => f x y := by
  intro a b same
  have args := same.splitArgs
  simp only [twoArgs?]
  generalize splitArgs a = xs at args
  generalize splitArgs b = ys at args
  cases args with
  | nil => rfl
  | cons first rest =>
    cases rest with
    | nil => rfl
    | cons second rest =>
      cases rest with
      | nil => exact congrArg some (congr _ _ _ _ (Expr.gist_read first) (Expr.gist_read second))
      | cons => rfl

theorem readPrintf?_steady : Steady readPrintf? := by
  intro a b same
  have args := same.splitArgs
  unfold readPrintf?
  generalize splitArgs a = xs at args
  generalize splitArgs b = ys at args
  cases args with
  | nil => rfl
  | @cons x y _ _ first rest =>
    have quoted := first.head?_eq_some_iff (c := '"') (by decide)
    dsimp only
    by_cases literal : x.head? = some '"'
    · rw [if_pos literal, if_pos (quoted.1 literal), first.unquote]
      cases unquote y with
      | none => rfl
      | some body => exact congrArg some (by simp only [gist, Expr.map_gist_read rest])
    · rw [if_neg literal, if_neg fun found => literal (quoted.2 found)]

-- Each hardware call has a name without quote marks and blanks, and reads its arguments steadily.
theorem hardwareCalls_steady : ∀ call ∈ hardwareCalls,
    (∀ c ∈ call.1.toList, isMark c = false ∧ isBlank c = false) ∧ Steady call.2 := by
  have read (f : Expr → Action) (congr : ∀ x y, x.gist = y.gist → (f x).gist = (f y).gist) :
      Steady fun args => some (f (.read args)) :=
    fun a b same => congrArg some (congr _ _ (Expr.gist_read same))
  have pair {f : Expr → Expr → Action} := twoArgs?_alike f
  simp only [hardwareCalls, List.forall_mem_cons]
  refine ⟨⟨by decide, read .delay ?_⟩, ⟨by decide, read .delayMicros ?_⟩, ⟨by decide, ?_⟩, ⟨by decide, ?_⟩, ⟨by decide, ?_⟩,
    ⟨by decide, readPrintf?_steady⟩, ⟨by decide, pair ?_⟩, ⟨by decide, pair ?_⟩, ⟨by decide, pair ?_⟩,
    ⟨by decide, pair ?_⟩, ⟨by decide, ?_⟩, ⟨by decide, read (.analogWrite · (.number 0.0)) ?_⟩, by simp⟩
  · intro x y alike; simp only [gist, alike]
  · intro x y alike; simp only [gist, alike]
  · exact fun _ _ _ => rfl
  · exact fun a b same => congrArg some (by simp only [gist, printArg_alike same])
  · exact fun a b same => congrArg some (by simp only [gist, printArg_alike same])
  · intro x y x' y' left right; simp only [gist, left, right]
  · intro x y x' y' left right; simp only [gist, left, right]
  · intro x y x' y' left right; simp only [gist, left, right]
  · intro x y x' y' left right; simp only [gist, left, right]
  · intro a b same
    have args := same.splitArgs
    dsimp only
    generalize splitArgs a = xs at args
    generalize splitArgs b = ys at args
    cases args with
    | nil => rfl
    | cons first _ => exact congrArg some (by simp only [gist, Expr.gist_read first])
  · intro x y alike; simp only [gist, alike]

theorem hardwareCall?_alike (same : Spaced .code a b) :
    (hardwareCall? a).map (Option.map gist) = (hardwareCall? b).map (Option.map gist) := by
  have steady := hardwareCalls_steady
  unfold hardwareCall?
  generalize hardwareCalls = calls at steady
  induction calls with
  | nil => rfl
  | cons call calls ih =>
    rw [List.forall_mem_cons] at steady
    have args := same.stripCall _ (fun c member => (steady.1.1 c member).1)
      fun c member => (steady.1.1 c member).2
    obtain ⟨name, read⟩ := call
    rw [List.findSome?_cons, List.findSome?_cons]
    dsimp only at args ⊢
    generalize stripCall name.toList a = x at args
    generalize stripCall name.toList b = y at args
    cases args with
    | none => exact ih steady.2
    | some alike => exact congrArg some (steady.1.2 _ _ alike)

end Calls

end Action

/-- A simple statement is read alike from texts with the same code. -/
theorem Stmt.gist_readSimple (loc loc' : Location) (same : Spaced .code a b) :
    (readSimple loc a).gist = (readSimple loc' b).gist := by
  have hardware := Action.hardwareCall?_alike same
  have assign := Action.readAssign?_alike same
  have step := Action.readStep?_eq same
  have call := same.splitCall
  have ignored : (act loc (.ignored (String.ofList a))).gist = (act loc' (.ignored (String.ofList b))).gist := by
    simp only [gist, Action.gist, squeeze_eq same]
  unfold readSimple
  generalize Action.hardwareCall? a = x at hardware
  generalize Action.hardwareCall? b = y at hardware
  cases x with
  | some found =>
    obtain ⟨found', rfl, alike⟩ := Option.map_eq_some_iff.1 hardware.symm
    cases found with
    | none =>
      rw [Option.map_none, Option.map_eq_none_iff] at alike
      subst alike
      exact ignored
    | some action =>
      obtain ⟨action', rfl, done⟩ := Option.map_eq_some_iff.1 alike
      simp only [gist, done]
  | none =>
    obtain rfl := Option.map_eq_none_iff.1 hardware.symm
    have change : ((Action.readAssign? a).or (Action.readStep? a)).map Action.gist =
        ((Action.readAssign? b).or (Action.readStep? b)).map Action.gist := by
      rw [Option.map_or, Option.map_or, assign, step]
    generalize (Action.readAssign? a).or (Action.readStep? a) = x at change
    generalize (Action.readAssign? b).or (Action.readStep? b) = y at change
    cases x with
    | some action =>
      obtain ⟨action', rfl, alike⟩ := Option.map_eq_some_iff.1 change.symm
      simp only [gist, alike]
    | none =>
      obtain rfl := Option.map_eq_none_iff.1 change.symm
      generalize splitCall a = x at call
      generalize splitCall b = y at call
      cases call with
      | none => exact ignored
      | some both =>
        obtain ⟨name, args⟩ := both
        simp only [gist, name, Expr.map_gist_read args.splitArgs]

end Breadboard
