import Breadboard.Proofs.Arithmetic.Spelling

set_option autoImplicit false

/-!
Names in arithmetic. Main statement: an expression with names is worth its value with the names standing
for theirs, unless a minus stands directly in front of a name whose value is negative zero: the text of
that value begins with a minus too, and two of them side by side are worth zero.
-/
namespace Breadboard.Arithmetic

open Text
open Decimal (Binary.isNegative Layout.plain)
open Canonical (isNameChar isNameChar_of_isWordChar)

/-- What an expression is built from: numbers and names. -/
inductive Atom where
  | number (x : Float)
  | name (w : String)

/-- How an atom is written. -/
inductive Atom.Writes : Atom → List Char → Prop where
  | number {x : Float} {ds : List Char} (literal : IsLiteral x ds) : Writes (.number x) ds
  | name {w : List Char} (identifier : isIdentifier w = true) : Writes (.name (String.ofList w)) w

/-- The number that a name stands for. -/
def meaning? (lookup : String → Option Float) (name : String) : Option Float :=
  (constant? name).or (lookup name)

def Atom.worth (lookup : String → Option Float) : Atom → Float
  | number x => x
  | name w => (meaning? lookup w).getD 0.0

/-- A finite number that is read back from its text. -/
structure ReadsBack (x : Float) : Prop where
  finite : x.isFinite = true
  reads : Decimal.read? (Layout.plain.render x) = some x

/-- A number that has the sign of the negative ones and is not below zero. -/
def IsNegativeZero (x : Float) : Prop := Binary.isNegative x = true ∧ ¬x < 0.0

/-- A text that begins with a name whose value is negative zero. -/
def StartsNegativeZero (lookup : String → Option Float) (cs : List Char) : Prop :=
  isIdentifier (cs.takeWhile isWordChar) = true ∧
    ∃ x, meaning? lookup (String.ofList (cs.takeWhile isWordChar)) = some x ∧ IsNegativeZero x

/-- A minus stands directly in front of a name whose value is negative zero. -/
def MinusMeetsZero (lookup : String → Option Float) (text : List Char) : Prop :=
  ∃ behind, '-' :: behind <:+ text ∧ StartsNegativeZero lookup behind

namespace Tree

variable {α β : Type} {f : α → Tree β .operand} {l : Level}

/-- The expression with operands for atoms. -/
def bind (f : α → Tree β .operand) {l : Level} : Tree α l → Tree β l
  | .atom a => f a
  | .signed s u => .signed s (u.bind f)
  | .group e => .group (e.bind f)
  | .single u => .single (u.bind f)
  | .scaled p op u => .scaled (p.bind f) op (u.bind f)
  | .whole p => .whole (p.bind f)
  | .summed e s p => .summed (e.bind f) s (p.bind f)

end Tree

/-- The symbols that take the place of a symbol. -/
def Symbol.expand {α β : Type} (f : α → Tree β .operand) : Symbol α → List (Symbol β)
  | atom a => (f a).symbols
  | mark c => [.mark c]

namespace Tree

variable {α β : Type} {f : α → Tree β .operand} {l : Level}

theorem symbols_bind (t : Tree α l) : (t.bind f).symbols = t.symbols.flatMap (Symbol.expand f) := by
  induction t with
  | atom a => exact (List.append_nil _).symm
  | signed s u ih => exact congrArg (Symbol.mark s.char :: ·) ih
  | group e ih =>
    have inner : (e.bind f).symbols ++ [.mark ')'] = (e.symbols ++ [Symbol.mark ')']).flatMap (Symbol.expand f) := by
      rw [List.flatMap_append, ih]
      rfl
    exact congrArg (Symbol.mark '(' :: ·) inner
  | single u ih => exact ih
  | scaled p op u ihp ihu =>
    change (p.bind f).symbols ++ .mark op.char :: (u.bind f).symbols =
      (p.symbols ++ Symbol.mark op.char :: u.symbols).flatMap (Symbol.expand f)
    rw [List.flatMap_append, ihp, ihu]
    rfl
  | whole p ih => exact ih
  | summed e s p ihe ihp =>
    change (e.bind f).symbols ++ .mark s.char :: (p.bind f).symbols =
      (e.symbols ++ Symbol.mark s.char :: p.symbols).flatMap (Symbol.expand f)
    rw [List.flatMap_append, ihe, ihp]
    rfl

theorem depth_bind_le {k : Nat} (shallow : ∀ a, (f a).depth ≤ k) (t : Tree α l) :
    (t.bind f).depth ≤ t.depth + k := by
  induction t with
  | atom a => exact Nat.le_trans (shallow a) (Nat.le_add_left k 0)
  | signed s u ih =>
    change (u.bind f).depth + 1 ≤ u.depth + 1 + k
    omega
  | group e ih =>
    change (e.bind f).depth + 1 ≤ e.depth + 1 + k
    omega
  | single u ih => exact ih
  | scaled p op u ihp ihu =>
    change max (p.bind f).depth (u.bind f).depth ≤ max p.depth u.depth + k
    omega
  | whole p ih => exact ih
  | summed e s p ihe ihp =>
    change max (e.bind f).depth (p.bind f).depth ≤ max e.depth p.depth + k
    omega

theorem value_bind {worth : α → Float} {worth' : β → Float} {t : Tree α l}
    (same : ∀ a, .atom a ∈ t.symbols → (f a).value worth' = some (worth a)) :
    (t.bind f).value worth' = t.value worth := by
  induction t with
  | atom a => exact same a List.mem_cons_self
  | signed s u ih =>
    exact congrArg (Option.map s.apply) (ih fun a used => same a (List.mem_cons_of_mem _ used))
  | group e ih => exact ih fun a used => same a (List.mem_cons_of_mem _ (List.mem_append_left _ used))
  | single u ih => exact ih same
  | scaled p op u ihp ihu =>
    change (scaled (p.bind f) op (u.bind f)).value worth' = _
    rw [value_scaled, value_scaled, ihp fun a used => same a (List.mem_append_left _ used),
      ihu fun a used => same a (List.mem_append_right _ (List.mem_cons_of_mem _ used))]
  | whole p ih => exact ih same
  | summed e s p ihe ihp =>
    change (summed (e.bind f) s (p.bind f)).value worth' = _
    rw [value_summed, value_summed, ihe fun a used => same a (List.mem_append_left _ used),
      ihp fun a used => same a (List.mem_append_right _ (List.mem_cons_of_mem _ used))]

end Tree

section Rendering

variable {x : Float} {cs ds : List Char}

theorem size_digits (x : Float) :
    Layout.plain.size x ≠ [] ∧ ∀ c ∈ Layout.plain.size x, isNumberChar c = true := by
  have digits (n : Nat) : ∀ c ∈ Nat.toDigits 10 n, isNumberChar c = true := fun c listed => by
    simp [isNumberChar, Nat.isDigit_of_mem_toDigits (by decide) (by decide) listed]
  have zero : isNumberChar '0' = true := by decide
  have point : isNumberChar '.' = true := by decide
  have zeros (n : Nat) : ∀ c ∈ List.replicate n '0', isNumberChar c = true := fun c listed =>
    (List.mem_replicate.1 listed).2 ▸ zero
  have laid (ds : List Char) (some_ : ds ≠ []) (all : ∀ c ∈ ds, isNumberChar c = true) (n : Int) :
      Layout.plain.positional ds n ≠ [] ∧ ∀ c ∈ Layout.plain.positional ds n, isNumberChar c = true := by
    unfold Decimal.Layout.positional
    split
    · refine ⟨List.cons_ne_nil _ _, ?_⟩
      simp only [List.forall_mem_cons, List.forall_mem_append]
      exact ⟨zero, point, zeros _, all⟩
    · split
      · refine ⟨by simp [some_], ?_⟩
        simp only [Layout.plain, Bool.false_eq_true, if_false, List.append_nil, List.forall_mem_append]
        exact ⟨all, zeros _⟩
      · refine ⟨by simp, ?_⟩
        simp only [List.forall_mem_append, List.forall_mem_cons]
        exact ⟨fun c used => all c (List.mem_of_mem_take used), point,
          fun c used => all c (List.mem_of_mem_drop used)⟩
  unfold Decimal.Layout.size
  split
  · exact ⟨by simp [Layout.plain], by simp [Layout.plain, zero]⟩
  · exact laid _ Nat.toDigits_ne_nil (digits _) _

theorem render_eq (finite : x.isFinite = true) :
    Layout.plain.render x = (if Binary.isNegative x then ['-'] else []) ++ Layout.plain.size x := by
  have whole : x.isNaN = false ∧ x.isInf = false := by
    have solid : x.toModel.unpack.isFinite = true := finite
    change x.toModel.unpack.isNaN = false ∧ x.toModel.unpack.isInf = false
    revert solid
    cases x.toModel.unpack with
    | notANumber => exact fun solid => absurd solid (by decide)
    | infinity s => exact fun solid => absurd solid (by cases s <;> decide)
    | zero s => exact fun _ => ⟨rfl, rfl⟩
    | finite s mantissa exponent positive => exact fun _ => ⟨rfl, rfl⟩
  rw [Decimal.Layout.render, whole.1, whole.2]
  rfl

-- A minus in front of digits is the sign of the number.
theorem read?_minus (some_ : ds ≠ []) (digits : ∀ c ∈ ds, isNumberChar c = true)
    (reads : Decimal.read? ('-' :: ds) = some x) : ∃ y, Decimal.read? ds = some y ∧ -y = x := by
  obtain ⟨c, cs, rfl⟩ := List.exists_cons_of_ne_nil some_
  have first := digits c List.mem_cons_self
  have minus : c ≠ '-' := Canonical.ne_of_class first (by decide)
  have plus : c ≠ '+' := Canonical.ne_of_class first (by decide)
  rw [Decimal.read?, Option.map_eq_some_iff] at reads
  obtain ⟨y, size, rfl⟩ := reads
  have plainly : Decimal.read? (c :: cs) =
      ((Decimal.unsigned? (c :: cs)).orElse fun _ => Decimal.named? (c :: cs)).map fun z => z := by
    simp [Decimal.read?, minus, plus]
  exact ⟨y, by rw [plainly, size]; rfl, rfl⟩

end Rendering

section Pasting

variable {x : Float} {lookup : String → Option Float} {w cs : List Char} {ss : List (Symbol Float)}

/-- The text that takes the place of a name with the value `x`. -/
def pastedText (x : Float) : List Char :=
  if x < 0.0 then '(' :: Layout.plain.render x ++ [')'] else Layout.plain.render x

/-- The number that the digits of `x` are. -/
def magnitude (x : Float) : Float := (Decimal.read? (Layout.plain.size x)).getD 0.0

/-- The number with a minus in front of it or without. -/
def withSign (negative : Bool) (y : Float) : Tree Float .operand :=
  if negative then .signed .minus (.atom y) else .atom y

/-- What the pasted text is read as. -/
def pasted (x : Float) : Tree Float .operand :=
  let number := withSign (Binary.isNegative x) (magnitude x)
  if x < 0.0 then .group (.whole (.single number)) else number

def Atom.pasted (lookup : String → Option Float) : Atom → Tree Float .operand
  | number x => .atom x
  | name w => Arithmetic.pasted ((meaning? lookup w).getD 0.0)

theorem Atom.depth_pasted (a : Atom) : (a.pasted lookup).depth ≤ 2 := by
  have signed (negative : Bool) (y : Float) : (withSign negative y).depth ≤ 1 := by
    cases negative
    · exact Nat.zero_le _
    · exact Nat.le_refl _
  cases a with
  | number x => exact Nat.zero_le _
  | name w =>
    simp only [pasted, Arithmetic.pasted]
    split
    · exact Nat.succ_le_succ (signed _ _)
    · exact Nat.le_succ_of_le (signed _ _)

-- The digits of a number that is read back are a number, and with the sign it is the one that was printed.
theorem ReadsBack.literal (back : ReadsBack x) :
    IsLiteral (magnitude x) (Layout.plain.size x) ∧
      (withSign (Binary.isNegative x) (magnitude x)).value id = some x := by
  obtain ⟨finite, reads⟩ := back
  obtain ⟨some_, digits⟩ := size_digits x
  rw [render_eq finite] at reads
  cases negative : Binary.isNegative x with
  | true =>
    rw [negative] at reads
    obtain ⟨y, size, value⟩ := read?_minus some_ digits reads
    have same : magnitude x = y := by rw [magnitude, size, Option.getD_some]
    exact same ▸ ⟨⟨some_, digits, size⟩, congrArg some value⟩
  | false =>
    rw [negative] at reads
    have size : Decimal.read? (Layout.plain.size x) = some x := reads
    have same : magnitude x = x := by rw [magnitude, size, Option.getD_some]
    exact same.symm ▸ ⟨⟨some_, digits, size⟩, rfl⟩

theorem ReadsBack.value_pasted (back : ReadsBack x) : (pasted x).value id = some x := by
  have value := back.literal.2
  simp only [pasted]
  split
  · exact value
  · exact value

-- The pasted text spells its number, whatever follows.
theorem ReadsBack.spells (back : ReadsBack x) (apart : ∀ c, cs.head? = some c → isNameChar c = false)
    (rest : Spells IsLiteral cs ss) :
    Spells IsLiteral (pastedText x ++ cs) ((pasted x).symbols ++ ss) := by
  -- The number with its sign, in front of any text.
  have number {cs : List Char} {ss : List (Symbol Float)} (rest : Spells IsLiteral cs ss)
      (apart : ∀ c, cs.head? = some c → isNameChar c = false) :
      Spells IsLiteral ((if Binary.isNegative x then ['-'] else []) ++ Layout.plain.size x ++ cs)
        ((withSign (Binary.isNegative x) (magnitude x)).symbols ++ ss) := by
    have digits : Spells IsLiteral (Layout.plain.size x ++ cs) (.atom (magnitude x) :: ss) :=
      .atom back.literal.1 apart rest
    cases Binary.isNegative x with
    | true => exact .mark (by decide) digits
    | false => exact digits
  rw [pastedText, render_eq back.finite]
  simp only [pasted]
  split
  · have closing : Spells IsLiteral (')' :: cs) (.mark ')' :: ss) := .mark (by decide) rest
    have inner := number closing (by simp; decide)
    simp only [Tree.symbols, List.cons_append, List.append_assoc, List.nil_append] at inner ⊢
    exact .mark (by decide) inner
  · exact number rest apart

-- Where the text of a value can have signs side by side with others.
theorem head?_pastedText (back : ReadsBack x) (cs : List Char) :
    ((pastedText x ++ cs).head? = some '-' ↔ IsNegativeZero x) ∧ (pastedText x ++ cs).head? ≠ some '+' := by
  obtain ⟨some_, digits⟩ := size_digits x
  obtain ⟨c, ds, size⟩ := List.exists_cons_of_ne_nil some_
  have first : isNumberChar c = true := digits c (by simp [size])
  have minus : c ≠ '-' := Canonical.ne_of_class first (by decide)
  have plus : c ≠ '+' := Canonical.ne_of_class first (by decide)
  rw [pastedText, render_eq back.finite, size, IsNegativeZero]
  split
  · rename_i below
    simp [below]
  · rename_i above
    cases Binary.isNegative x <;> simp [minus, plus, above]

theorem hasPair_append {c : Char} (absent : ∀ d ∈ w, d ≠ c) (cs : List Char) :
    hasPair c (w ++ cs) = hasPair c cs := by
  induction w with
  | nil => rfl
  | cons d w ih =>
    rw [List.cons_append, hasPair_cons, ih fun d later => absent d (List.mem_cons_of_mem _ later)]
    simp [absent d List.mem_cons_self]

theorem hasPair_pastedText {c : Char} (sign : c = '+' ∨ c = '-') (back : ReadsBack x) (cs : List Char) :
    hasPair c (pastedText x ++ cs) = hasPair c cs := by
  obtain ⟨some_, digits⟩ := size_digits x
  have absent (d : Char) (used : d ∈ Layout.plain.size x) : d ≠ c := by
    rcases sign with rfl | rfl
    · exact Canonical.ne_of_class (digits d used) (by decide)
    · exact Canonical.ne_of_class (digits d used) (by decide)
  have number (cs : List Char) :
      hasPair c ((if Binary.isNegative x then ['-'] else []) ++ Layout.plain.size x ++ cs) = hasPair c cs := by
    have size := hasPair_append absent cs
    obtain ⟨d, ds, eq⟩ := List.exists_cons_of_ne_nil some_
    cases Binary.isNegative x with
    | false => exact size
    | true =>
      change hasPair c ('-' :: (Layout.plain.size x ++ cs)) = _
      rw [hasPair_cons, size, eq]
      simp [absent d (by simp [eq])]
  have mark (d : Char) (other : d ≠ '+' ∧ d ≠ '-') (cs : List Char) : hasPair c (d :: cs) = hasPair c cs := by
    rw [hasPair_cons]
    rcases sign with rfl | rfl <;> simp [other]
  rw [pastedText, render_eq back.finite]
  split
  · rw [List.cons_append, List.cons_append, mark '(' (by decide), List.append_assoc _ [')'], number,
      List.singleton_append, mark ')' (by decide)]
  · exact number cs

end Pasting

section Replacing

variable {x : Float} {lookup : String → Option Float} {c : Char} {w cs ds : List Char}

theorem substituteFrom_word (word : ∀ c ∈ w, isWordChar c = true) (seen cs : List Char) :
    substituteFrom lookup seen (w ++ cs) = substituteFrom lookup (w.reverse ++ seen) cs := by
  induction w generalizing seen with
  | nil => rfl
  | cons c w ih =>
    rw [List.cons_append, substituteFrom_letter (word c List.mem_cons_self),
      ih fun d later => word d (List.mem_cons_of_mem c later)]
    simp

theorem substitute_word (some_ : w ≠ []) (word : ∀ c ∈ w, isWordChar c = true)
    (apart : ∀ c, cs.head? = some c → isWordChar c = false) :
    substitute lookup (w ++ cs) = replaceWord lookup w ++ substitute lookup cs := by
  have full : w.reverse.isEmpty = false := by simpa using some_
  rw [substitute, substituteFrom_word word, List.append_nil, substituteFrom_end _ apart, full,
    if_neg Bool.false_ne_true, List.reverse_reverse]

theorem word_of_isIdentifier (identifier : isIdentifier w = true) :
    w ≠ [] ∧ (∀ c ∈ w, isWordChar c = true) ∧ w.head?.any Char.isDigit = false := by
  have word := Canonical.isWordChar_of_isIdentifier identifier
  obtain ⟨c, rest, rfl, first, -⟩ := Canonical.isIdentifier_cases identifier
  refine ⟨List.cons_ne_nil c rest, word, ?_⟩
  rcases first with letter | rfl
  · exact Canonical.isDigit_of_isAlpha letter
  · rfl

theorem replaceWord_name (identifier : isIdentifier w = true)
    (known : meaning? lookup (String.ofList w) = some x) : replaceWord lookup w = pastedText x := by
  obtain ⟨-, -, letter⟩ := word_of_isIdentifier identifier
  unfold meaning? at known
  rw [replaceWord]
  cases constant : constant? (String.ofList w) with
  | some y =>
    rw [constant] at known
    obtain rfl := Option.some.inj known
    rfl
  | none =>
    rw [constant] at known
    simp only [letter, Bool.false_eq_true, if_false]
    rw [show lookup (String.ofList w) = some x from known]
    rfl

-- A text that does not begin with a word begins with no name.
theorem not_startsNegativeZero (first : ∀ c, cs.head? = some c → isWordChar c = true → c.isDigit = true) :
    ¬StartsNegativeZero lookup cs := by
  rintro ⟨identifier, -⟩
  obtain ⟨some_, word, letter⟩ := word_of_isIdentifier identifier
  cases cs with
  | nil => exact some_ rfl
  | cons c cs =>
    cases isWord : isWordChar c with
    | false => exact some_ (by simp [isWord])
    | true => simp [isWord, first c rfl isWord] at letter

theorem startsNegativeZero_iff (identifier : isIdentifier w = true)
    (apart : ∀ c, cs.head? = some c → isWordChar c = false)
    (known : meaning? lookup (String.ofList w) = some x) :
    StartsNegativeZero lookup (w ++ cs) ↔ IsNegativeZero x := by
  obtain ⟨-, word, -⟩ := word_of_isIdentifier identifier
  have none : cs.takeWhile isWordChar = [] := by
    cases cs with
    | nil => rfl
    | cons c cs => simp [apart c rfl]
  have first : (w ++ cs).takeWhile isWordChar = w := by
    rw [List.takeWhile_append_of_pos word, none, List.append_nil]
  simp [StartsNegativeZero, first, identifier, known]

theorem minusMeetsZero_cons : MinusMeetsZero lookup (c :: cs) ↔
    (c = '-' ∧ StartsNegativeZero lookup cs) ∨ MinusMeetsZero lookup cs := by
  constructor
  · rintro ⟨behind, ends, starts⟩
    rcases List.suffix_cons_iff.1 ends with whole | later
    · obtain ⟨rfl, rfl⟩ := List.cons.inj whole
      exact .inl ⟨rfl, starts⟩
    · exact .inr ⟨behind, later, starts⟩
  · rintro (⟨rfl, starts⟩ | ⟨behind, later, starts⟩)
    · exact ⟨cs, List.suffix_refl _, starts⟩
    · exact ⟨behind, List.suffix_cons_iff.2 (.inr later), starts⟩

theorem minusMeetsZero_append (absent : ∀ d ∈ w, d ≠ '-') :
    MinusMeetsZero lookup (w ++ cs) ↔ MinusMeetsZero lookup cs := by
  induction w with
  | nil => rfl
  | cons d w ih =>
    rw [List.cons_append, minusMeetsZero_cons, ih fun c later => absent c (List.mem_cons_of_mem d later)]
    simp [absent d List.mem_cons_self]

end Replacing

section Texts

variable {lookup : String → Option Float} {text : List Char} {ss : List (Symbol Atom)} {c : Char}

/-- Every name has a value that is read back from its text. -/
def Known (lookup : String → Option Float) (ss : List (Symbol Atom)) : Prop :=
  ∀ w, .atom (.name w) ∈ ss → ∃ x, meaning? lookup w = some x ∧ ReadsBack x

theorem isWordChar_of_apart {cs : List Char} (apart : ∀ c, cs.head? = some c → isNameChar c = false) (c : Char)
    (first : cs.head? = some c) : isWordChar c = false :=
  isWordChar_of_not_isNameChar (apart c first)

-- Digits and points stay, with what follows them replaced.
theorem IsLiteral.substitute_append {x : Float} {ds cs : List Char} (literal : IsLiteral x ds)
    (apart : ∀ c, cs.head? = some c → isNameChar c = false) :
    substitute lookup (ds ++ cs) = ds ++ substitute lookup cs := by
  have whole : substituteFrom lookup [] (ds ++ cs) = [].reverse ++ (ds ++ substitute lookup cs) :=
    substituteFrom_plain
      (fun c used => isDigit_of_isAllowed (isAllowed_of_isNumberChar (literal.digits c used))) (by simp)
      (isWordChar_of_apart apart)
  exact whole

-- What is replaced spells the expression with the pasted values for names.
theorem Spells.substitute (spells : Spells Atom.Writes text ss) (known : Known lookup ss) :
    Spells IsLiteral (substitute lookup text) (ss.flatMap (Symbol.expand (Atom.pasted lookup))) := by
  have apart_ {cs : List Char} (apart : ∀ c, cs.head? = some c → isNameChar c = false) (c : Char)
      (first : (Arithmetic.substitute lookup cs).head? = some c) : isNameChar c = false := by
    cases cs with
    | nil => cases first
    | cons d cs =>
      rw [substitute_cons (isWordChar_of_apart apart d rfl)] at first
      obtain rfl := Option.some.inj first
      exact apart d rfl
  induction spells with
  | nil => exact .nil
  | blank space _ ih =>
    rw [substitute_cons (isWordChar_of_not_isNameChar (isNameChar_of_isBlank space))]
    exact .blank space (ih known)
  | mark isMark _ ih =>
    rw [substitute_cons (mark_cases isMark).2.1]
    exact .mark isMark (ih fun w used => known w (List.mem_cons_of_mem _ used))
  | @atom a ds cs ss written apart _ ih =>
    have rest := ih fun w used => known w (List.mem_cons_of_mem _ used)
    cases written with
    | number literal =>
      rw [literal.substitute_append apart]
      exact .atom literal (apart_ apart) rest
    | name identifier =>
      obtain ⟨x, meaning, back⟩ := known _ List.mem_cons_self
      obtain ⟨some_, word, -⟩ := word_of_isIdentifier identifier
      rw [substitute_word some_ word (isWordChar_of_apart apart), replaceWord_name identifier meaning]
      simp only [List.flatMap_cons, Symbol.expand, Atom.pasted, meaning, Option.getD_some]
      exact back.spells (apart_ apart) rest

-- The sign at the head of what is replaced.
theorem Spells.head?_substitute (spells : Spells Atom.Writes text ss) (known : Known lookup ss) :
    ((Arithmetic.substitute lookup text).head? = some '-' ↔
      text.head? = some '-' ∨ StartsNegativeZero lookup text) ∧
    ((Arithmetic.substitute lookup text).head? = some '+' ↔ text.head? = some '+') := by
  have other {c : Char} {cs : List Char} (other : isWordChar c = false) :
      ((Arithmetic.substitute lookup (c :: cs)).head? = some '-' ↔
        (c :: cs).head? = some '-' ∨ StartsNegativeZero lookup (c :: cs)) ∧
      ((Arithmetic.substitute lookup (c :: cs)).head? = some '+' ↔ (c :: cs).head? = some '+') := by
    have none : ¬StartsNegativeZero lookup (c :: cs) := not_startsNegativeZero fun d first word => by
      obtain rfl := Option.some.inj first
      rw [other] at word
      cases word
    simp [substitute_cons other, none]
  cases spells with
  | nil =>
    have none : ¬StartsNegativeZero lookup [] := not_startsNegativeZero (by simp)
    simp [substitute_nil, none]
  | blank space rest => exact other (isWordChar_of_not_isNameChar (isNameChar_of_isBlank space))
  | mark isMark rest => exact other (mark_cases isMark).2.1
  | @atom a ds cs ss written apart rest =>
    cases written with
    | number literal =>
      obtain ⟨d, ds, rfl⟩ := List.exists_cons_of_ne_nil literal.written
      have digit := literal.digits d List.mem_cons_self
      have none : ¬StartsNegativeZero lookup (d :: ds ++ cs) := not_startsNegativeZero fun c first word => by
        obtain rfl := Option.some.inj first
        exact isDigit_of_isAllowed (isAllowed_of_isNumberChar digit) word
      rw [literal.substitute_append apart]
      exact ⟨⟨.inl, fun either => either.resolve_right none⟩, .rfl⟩
    | @name w identifier =>
      obtain ⟨x, meaning, back⟩ := known _ List.mem_cons_self
      obtain ⟨some_, word, -⟩ := word_of_isIdentifier identifier
      have ends := isWordChar_of_apart apart
      obtain ⟨minus, plus⟩ := head?_pastedText back (Arithmetic.substitute lookup cs)
      obtain ⟨d, w, rfl⟩ := List.exists_cons_of_ne_nil some_
      have letter := word d List.mem_cons_self
      have noMinus : d ≠ '-' := Canonical.ne_of_class letter (by decide)
      have noPlus : d ≠ '+' := Canonical.ne_of_class letter (by decide)
      rw [substitute_word some_ word ends, replaceWord_name identifier meaning,
        startsNegativeZero_iff identifier ends meaning, minus]
      exact ⟨by simp [noMinus], fun first => absurd first plus, by simp [noPlus]⟩

-- Pasting values brings no signs together but a minus and the one of a negative zero.
theorem Spells.hasPair_substitute (sign : c = '+' ∨ c = '-') (spells : Spells Atom.Writes text ss)
    (known : Known lookup ss) :
    hasPair c (Arithmetic.substitute lookup text) = true ↔
      hasPair c text = true ∨ (c = '-' ∧ MinusMeetsZero lookup text) := by
  induction spells with
  | nil => simp [substitute_nil, hasPair_nil, MinusMeetsZero]
  | @blank d cs ss space rest ih =>
    have other : d ≠ '+' ∧ d ≠ '-' :=
      ⟨Canonical.ne_of_class space (by decide), Canonical.ne_of_class space (by decide)⟩
    have apart : d ≠ c := by
      rcases sign with rfl | rfl
      · exact other.1
      · exact other.2
    rw [substitute_cons (isWordChar_of_not_isNameChar (isNameChar_of_isBlank space)), hasPair_cons, hasPair_cons, minusMeetsZero_cons]
    simp [apart, other, ih known]
  | @mark d cs ss isMark rest ih =>
    have known' : Known lookup ss := fun w used => known w (List.mem_cons_of_mem _ used)
    obtain ⟨minus, plus⟩ := rest.head?_substitute known'
    rw [substitute_cons (mark_cases isMark).2.1, hasPair_cons, hasPair_cons, minusMeetsZero_cons,
      Bool.or_eq_true, Bool.or_eq_true, ih known', decide_eq_true_eq, decide_eq_true_eq]
    rcases sign with rfl | rfl
    · rw [plus]
      simp
    · rw [minus]
      grind
  | @atom a ds cs ss written apart rest ih =>
    have known' : Known lookup ss := fun w used => known w (List.mem_cons_of_mem _ used)
    have solid (d : Char) (name : isNameChar d = true) : d ≠ '-' ∧ d ≠ c := by
      have minus : d ≠ '-' := Canonical.ne_of_class name (by decide)
      rcases sign with rfl | rfl
      · exact ⟨minus, Canonical.ne_of_class name (by decide)⟩
      · exact ⟨minus, minus⟩
    cases written with
    | number literal =>
      have absent (d : Char) (used : d ∈ ds) := solid d (isNameChar_of_isNumberChar (literal.digits d used))
      rw [literal.substitute_append apart, hasPair_append fun d used => (absent d used).2,
        hasPair_append fun d used => (absent d used).2, minusMeetsZero_append fun d used => (absent d used).1]
      exact ih known'
    | name identifier =>
      obtain ⟨x, meaning, back⟩ := known _ List.mem_cons_self
      obtain ⟨some_, word, -⟩ := word_of_isIdentifier identifier
      have absent (d : Char) (used : d ∈ ds) := solid d (isNameChar_of_isWordChar (word d used))
      rw [substitute_word some_ word (isWordChar_of_apart apart), replaceWord_name identifier meaning,
        hasPair_pastedText sign back, hasPair_append fun d used => (absent d used).2,
        minusMeetsZero_append fun d used => (absent d used).1]
      exact ih known'

end Texts

/-- How deep an expression with names may be nested: a negative value takes a sign and parentheses. -/
def maxNestingWithNames : Nat := maxNesting - 2

/-- An expression with names is worth its value with the names standing for theirs, and zero if something
is divided by zero or the value is not finite. It is zero as well if a minus stands directly in front of a
name whose value is negative zero. -/
theorem evaluate_eq_value_of_names (lookup : String → Option Float) (text : List Char) (e : Tree Atom .sum)
    (spelled : Spells Atom.Writes text e.symbols) (shallow : e.depth ≤ maxNestingWithNames)
    (noIncrement : ¬['+', '+'] <:+: text) (noDecrement : ¬['-', '-'] <:+: text)
    (known : Known lookup e.symbols) :
    (¬MinusMeetsZero lookup text →
      evaluate lookup text = ((e.value (Atom.worth lookup)).filter Float.isFinite).getD 0.0) ∧
      (MinusMeetsZero lookup text → evaluate lookup text = 0.0) := by
  have pasted := spelled.substitute known
  rw [← Tree.symbols_bind] at pasted
  have deep : (e.bind (Atom.pasted lookup)).depth ≤ maxNesting := by
    have grown := Tree.depth_bind_le (k := 2) (fun a => a.depth_pasted) e (f := Atom.pasted lookup)
    have room : maxNestingWithNames + 2 = maxNesting := rfl
    omega
  have value : (e.bind (Atom.pasted lookup)).value id = e.value (Atom.worth lookup) := by
    refine Tree.value_bind fun a used => ?_
    cases a with
    | number x => rfl
    | name w =>
      obtain ⟨x, meaning, back⟩ := known w used
      simp [Atom.pasted, Atom.worth, meaning, back.value_pasted]
  have plus : hasPair '+' (substitute lookup text) = false := by
    rw [← Bool.not_eq_true, spelled.hasPair_substitute (.inl rfl) known, hasPair_iff]
    simp [noIncrement]
  have minus : hasPair '-' (substitute lookup text) = true ↔ MinusMeetsZero lookup text := by
    rw [spelled.hasPair_substitute (.inr rfl) known, hasPair_iff]
    simp [noDecrement]
  rw [evaluate_of_spells rfl pasted deep, value, plus]
  constructor
  · intro apart
    rw [← minus, Bool.not_eq_true] at apart
    simp [apart]
  · intro meets
    simp [minus.2 meets]

-- `5-z` is worth nothing if `z` is negative zero, although 5 less `z` is 5.
theorem evaluate_eq_value_of_names_zero :
    let lookup := fun name => if name = "z" then some (-0.0) else none
    let e : Tree Atom .sum := .summed (.whole (.single (.atom (.number 5.0)))) .minus (.single (.atom (.name "z")))
    e.value (Atom.worth lookup) = some 5.0 ∧ evaluate lookup ['5', '-', 'z'] = 0.0 := by
  intro lookup e
  have five : IsLiteral 5.0 ['5'] := ⟨by decide, by decide, by decide +kernel⟩
  have z : Atom.Writes (.name "z") ['z'] := Atom.Writes.name (w := ['z']) (by decide)
  have name : Spells Atom.Writes (['z'] ++ []) [.atom (.name "z")] := .atom z (by simp) .nil
  have spelled : Spells Atom.Writes (['5'] ++ ('-' :: ['z'])) e.symbols :=
    .atom (Atom.Writes.number five) (by simp; decide) (.mark (by decide) name)
  have meaning : meaning? lookup "z" = some (-0.0) := by decide +kernel
  have known : Known lookup e.symbols := by
    intro w used
    obtain rfl : w = "z" := by simpa [e, Tree.symbols] using used
    exact ⟨-0.0, meaning, by decide +kernel, by decide +kernel⟩
  have meets : MinusMeetsZero lookup ['5', '-', 'z'] :=
    ⟨['z'], ⟨['5'], rfl⟩, by decide, -0.0, meaning, by decide +kernel, by decide +kernel⟩
  have worth : e.value (Atom.worth lookup) = some 5.0 := by decide +kernel
  exact ⟨worth, (evaluate_eq_value_of_names lookup _ e spelled (by decide) (mt hasPair_iff.2 (by decide))
    (mt hasPair_iff.2 (by decide)) known).2 meets⟩

end Breadboard.Arithmetic
