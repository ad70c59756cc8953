import Breadboard.Proofs.Compound.SharedLine
import Breadboard.Proofs.Spacing.Texts

set_option autoImplicit false

/-!
Reading texts that are spaced differently. Main statements: expressions, conditions and simple
statements are read alike from texts with the same code, up to the blanks in the texts that are kept as
they are.
-/
namespace Breadboard

open Text

/-- A text that is kept as it is, with one blank in the place of each run of them. -/
def squeeze (s : String) : String := String.ofList ([' '].intercalate (words s.toList))

mutual

/-- An expression, the blanks in the code that it leaves for later aside. -/
def Expr.gist : Expr → Expr
  | .arithmetic code => .arithmetic (squeeze code)
  | .digitalRead pin => .digitalRead pin.gist
  | .analogRead pin => .analogRead pin.gist
  | .builtin f args => .builtin f (Expr.gistAll args)
  | .number n => .number n
  | .text s => .text s
  | .millis => .millis
  | .micros => .micros
  | .var name => .var name

def Expr.gistAll : List Expr → List Expr
  | [] => []
  | e :: rest => e.gist :: Expr.gistAll rest

end

mutual

def Cond.gist : Cond → Cond
  | .all parts => .all (Cond.gistAll parts)
  | .any parts => .any (Cond.gistAll parts)
  | .not inner => .not inner.gist
  | .compare lhs op rhs => .compare lhs.gist op rhs.gist
  | .truth e => .truth e.gist

def Cond.gistAll : List Cond → List Cond
  | [] => []
  | part :: rest => part.gist :: Cond.gistAll rest

end

def PrintArg.gist : PrintArg → PrintArg
  | .literal s => .literal s
  | .value e => .value e.gist
  | .empty => .empty

/-- An action, the blanks in the texts that it keeps aside. -/
def Action.gist : Action → Action
  | .delay ms => .delay ms.gist
  | .delayMicros us => .delayMicros us.gist
  | .serialBegin => .serialBegin
  | .print arg newline => .print arg.gist newline
  | .printf template args => .printf template (args.map Expr.gist)
  | .pinMode pin mode => .pinMode pin.gist mode.gist
  | .digitalWrite pin value => .digitalWrite pin.gist value.gist
  | .analogWrite pin duty => .analogWrite pin.gist duty.gist
  | .assign name op value => .assign name op value.gist
  | .step name delta => .step name delta
  | .ignored text => .ignored (squeeze text)

mutual

/-- What a statement is, its places and the blanks in the texts that it keeps aside. -/
def Stmt.gist : Stmt → Stmt
  | .act _ action => .act .start action.gist
  | .call _ name args => .call .start name (args.map Expr.gist)
  | .choose _ chain => .choose .start chain.gist
  | .forLoop _ init cond step body =>
    .forLoop .start (Stmt.gistClause init) cond.gist (Stmt.gistClause step) (Stmt.gistAll body)
  | .whileLoop _ cond body => .whileLoop .start cond.gist (Stmt.gistAll body)

def Chain.gist : Chain → Chain
  | .done => .done
  | .otherwise body => .otherwise (Stmt.gistAll body)
  | .branch cond body rest => .branch cond.gist (Stmt.gistAll body) rest.gist

def Stmt.gistAll : List Stmt → List Stmt
  | [] => []
  | st :: rest => st.gist :: Stmt.gistAll rest

def Stmt.gistClause : Option Stmt → Option Stmt
  | none => none
  | some st => some st.gist

end

@[simp] theorem Expr.gistAll_eq (es : List Expr) : gistAll es = es.map gist := by
  induction es with
  | nil => rfl
  | cons e es ih => rw [gistAll, ih, List.map_cons]

@[simp] theorem Cond.gistAll_eq (parts : List Cond) : gistAll parts = parts.map gist := by
  induction parts with
  | nil => rfl
  | cons part parts ih => rw [gistAll, ih, List.map_cons]

@[simp] theorem Stmt.gistAll_eq (body : List Stmt) : gistAll body = body.map gist := by
  induction body with
  | nil => rfl
  | cons st body ih => rw [gistAll, ih, List.map_cons]

@[simp] theorem Stmt.gistClause_eq (clause : Option Stmt) : gistClause clause = clause.map gist := by
  cases clause <;> rfl

theorem map_eq_of_forall₂ {α β γ : Type} {f : α → γ} {g : β → γ} {r : α → β → Prop} {as : List α}
    {bs : List β} (same : ∀ a b, r a b → f a = g b) (rel : List.Forall₂ r as bs) :
    as.map f = bs.map g := by
  induction rel with
  | nil => rfl
  | cons first _ ih => rw [List.map_cons, List.map_cons, same _ _ first, ih]

variable {a b : List Char} {q : Quote}

theorem squeeze_eq (same : Spaced q a b) : squeeze (String.ofList a) = squeeze (String.ofList b) := by
  simp only [squeeze, String.toList_ofList, same.words]

section Literals

theorem isBlank_eq_false {c : Char} (low : 48 ≤ c.toNat) (high : c.toNat ≤ 122) : isBlank c = false := by
  simp only [isBlank]
  grind

theorem isBlank_of_isDigit {c : Char} (digit : c.isDigit = true) : isBlank c = false :=
  Canonical.isBlank_of_isWordChar (by simp [isWordChar, Char.isAlphanum, digit])

theorem isBlank_of_hexDigit? {c : Char} {n : Nat} (digit : Decimal.hexDigit? c = some n) :
    isBlank c = false := by
  have letter (low high : Char) (least : '0' ≤ low) (most : high ≤ 'z')
      (between : (decide (low ≤ c) && decide (c ≤ high)) = true) : isBlank c = false := by
    simp only [Bool.and_eq_true, decide_eq_true_eq] at between
    exact isBlank_eq_false (Nat.le_trans least between.1) (Nat.le_trans between.2 most)
  unfold Decimal.hexDigit? at digit
  split at digit
  · exact isBlank_of_isDigit ‹_›
  · split at digit
    · exact letter 'a' 'f' (by decide) (by decide) ‹_›
    · split at digit
      · exact letter 'A' 'F' (by decide) (by decide) ‹_›
      · cases digit

theorem solid_of_readHex? {cs : List Char} {n : Int} (read : Decimal.readHex? cs = some n) :
    ∀ c ∈ cs, isBlank c = false := by
  have digits {ds : List Char} {values : List Nat} (all : ds.mapM Decimal.hexDigit? = some values) :
      ∀ c ∈ ds, isBlank c = false := by
    induction ds generalizing values with
    | nil => simp
    | cons d ds ih =>
      simp only [List.mapM_cons, Option.bind_eq_bind, Option.bind_eq_some_iff] at all
      obtain ⟨value, digit, others, rest, -⟩ := all
      exact List.forall_mem_cons.2 ⟨isBlank_of_hexDigit? digit, ih rest⟩
  unfold Decimal.readHex? at read
  split at read
  rename_i negative ds signed
  simp only [Option.bind_eq_bind, Option.bind_eq_some_iff] at read
  obtain ⟨-, -, values, all, -⟩ := read
  have solid := digits all
  split at signed
  · obtain ⟨rfl, rfl⟩ := Prod.mk.inj signed
    exact List.forall_mem_cons.2 ⟨by decide, solid⟩
  · obtain ⟨rfl, rfl⟩ := Prod.mk.inj signed
    exact List.forall_mem_cons.2 ⟨by decide, solid⟩
  · obtain ⟨rfl, rfl⟩ := Prod.mk.inj signed
    exact solid

theorem solid_of_dropEndWhile {p : Char → Bool} {cs : List Char} (ends : ∀ c, p c = true → isBlank c = false)
    (solid : ∀ c ∈ dropEndWhile p cs, isBlank c = false) : ∀ c ∈ cs, isBlank c = false := by
  intro c member
  have parts : c ∈ cs.reverse.takeWhile p ++ cs.reverse.dropWhile p := by
    rw [List.takeWhile_append_dropWhile]
    simpa using member
  rcases List.mem_append.1 parts with tail | front
  · exact ends c (List.all_eq_true.1 (List.all_takeWhile ..) c tail)
  · exact solid c (by simpa [dropEndWhile] using front)

theorem solid_of_suffix (letters : List Char) (solid : ∀ c ∈ letters, isBlank c = false) (c : Char)
    (member : letters.contains c = true) : isBlank c = false := solid c (by simpa using member)

-- A number literal has no blanks in it.
theorem solid_of_numberLiteral? {n : Float} (read : numberLiteral? a = some n) :
    ∀ c ∈ trim a, isBlank c = false := by
  unfold numberLiteral? at read
  extract_lets text at read
  change ∀ c ∈ text, isBlank c = false
  clear_value text
  split at read
  rename_i negative body signed
  have solid : ∀ c ∈ body, isBlank c = false := by
    extract_lets at read
    split at read
    · rename_i hex prefixed
      simp only [Option.bind_eq_bind, Option.bind_eq_some_iff, Option.map_eq_some_iff] at read
      obtain ⟨-, ⟨value, digits, -⟩, -⟩ := read
      have solid : ∀ c ∈ hex, isBlank c = false :=
        solid_of_dropEndWhile (solid_of_suffix "uUlL".toList (by decide))
          (solid_of_readHex? digits)
      rcases Option.or_eq_some_iff.1 prefixed with found | ⟨-, found⟩
      · rw [eq_append_of_dropPrefix? found]
        exact List.forall_mem_append.2 ⟨by decide, solid⟩
      · rw [eq_append_of_dropPrefix? found]
        exact List.forall_mem_append.2 ⟨by decide, solid⟩
    · simp only [Option.bind_eq_bind, Option.bind_eq_some_iff] at read
      obtain ⟨size, point, -⟩ := read
      refine solid_of_dropEndWhile (solid_of_suffix "uUlLfF".toList (by decide))
        fun c member => ?_
      unfold pointNumber? at point
      split at point
      · rename_i plain
        simp only [Bool.and_eq_true, List.all_eq_true, Bool.or_eq_true, beq_iff_eq] at plain
        rcases plain.1 c member with digit | rfl
        · exact isBlank_of_isDigit digit
        · decide
      · cases point
  split at signed
  · obtain ⟨rfl, rfl⟩ := Prod.mk.inj signed
    exact List.forall_mem_cons.2 ⟨by decide, solid⟩
  · obtain ⟨rfl, rfl⟩ := Prod.mk.inj signed
    exact List.forall_mem_cons.2 ⟨by decide, solid⟩
  · obtain ⟨rfl, rfl⟩ := Prod.mk.inj signed
    exact solid

end Literals

namespace Spaced

protected theorem numberLiteral? (same : Spaced .code a b) : numberLiteral? a = numberLiteral? b := by
  have shape (t : List Char) : numberLiteral? t = numberLiteral? (trim t) := by
    rw [numberLiteral?, numberLiteral?, trim_trim]
  have some_ {a b : List Char} (same : Spaced .code a b) {n : Float} (read : numberLiteral? a = some n) :
      numberLiteral? b = some n := by
    rw [shape, ← same.trim.eq_of_solid (solid_of_numberLiteral? read), ← shape, read]
  cases left : numberLiteral? a with
  | some n => exact (some_ same left).symm
  | none =>
    cases right : numberLiteral? b with
    | none => rfl
    | some n => rw [some_ same.symm right] at left; cases left

-- In a literal two texts are the same to the letter.
theorem literalBody_eq {mark : Char} (opens : isMark mark = true) (escaped : Bool)
    (same : Spaced (if escaped then .escaped mark else .inside mark) a b) :
    literalBody mark escaped a = literalBody mark escaped b := by
  have slash : mark ≠ '\\' := by
    rintro rfl
    revert opens
    decide
  induction a generalizing b escaped with
  | nil => rw [same.eq_nil_iff.1 rfl]
  | cons c a ih =>
    obtain ⟨b', rfl, rest⟩ : ∃ b', b = c :: b' ∧
        Spaced ((if escaped then Quote.escaped mark else .inside mark).next c) a b' := by
      generalize text : c :: a = t at same
      generalize from_ : (if escaped then Quote.escaped mark else .inside mark) = q at same
      cases same with
      | nil q => cases text
      | cons d rest =>
        obtain ⟨rfl, rfl⟩ := List.cons.inj text
        exact ⟨_, rfl, rest⟩
      | gap => cases escaped <;> cases from_
    cases escaped with
    | true => rw [literalBody, literalBody, ih false (by simpa [Quote.next] using rest)]
    | false =>
      by_cases closes : c = mark
      · have behind : Spaced .code a b' := by
          rw [closes] at rest
          simpa [Quote.next, slash] using rest
        have ends : a.isEmpty = b'.isEmpty := by
          rw [Bool.eq_iff_iff, List.isEmpty_iff, List.isEmpty_iff]
          exact behind.eq_nil_iff
        simp only [literalBody, if_pos closes, ends]
      · have behind : Spaced (if (c == '\\') = true then .escaped mark else .inside mark) a b' := by
          simpa [Quote.next, closes] using rest
        simp only [literalBody, if_neg closes, ih _ behind]

protected theorem unquote (same : Spaced .code a b) : unquote a = unquote b := by
  have trimmed := same.trim
  unfold Text.unquote
  generalize trim a = x at trimmed
  generalize trim b = y at trimmed
  generalize from_ : Quote.code = q at trimmed
  cases trimmed with
  | nil q => rfl
  | cons c rest =>
    subst from_
    by_cases opens : isMark c = true
    · simp only [if_pos opens]
      exact literalBody_eq opens false (by simpa [Quote.next, opens] using rest)
    · simp only [if_neg opens]
  | gap left right _ =>
    obtain ⟨c, t, rfl, blank⟩ := left.exists_cons
    obtain ⟨d, t', rfl, blank'⟩ := right.exists_cons
    simp [(plain_of_isBlank blank).1, (plain_of_isBlank blank').1]

-- A text is a word without blanks just if the other one is.
theorem ofList_eq_iff (same : Spaced q a b) {word : String} (solid : ∀ c ∈ word.toList, isBlank c = false) :
    String.ofList a = word ↔ String.ofList b = word := by
  constructor
  · rintro rfl
    rw [same.eq_of_solid (by simpa using solid)]
  · rintro rfl
    rw [same.symm.eq_of_solid (by simpa using solid)]

protected theorem isBareCall (name : String) (mark : ∀ c ∈ name.toList, isMark c = false)
    (solid : ∀ c ∈ name.toList, isBlank c = false) (same : Spaced .code a b) :
    isBareCall name a = isBareCall name b := by
  have args := same.stripCall name.toList mark solid
  unfold Breadboard.isBareCall
  generalize Text.stripCall name.toList a = x at args
  generalize Text.stripCall name.toList b = y at args
  cases args with
  | none => rfl
  | some args => exact args.isBlankText_eq

end Spaced

section Expressions

namespace Expr

theorem readLeaf?_eq (same : Spaced .code a b) : readLeaf? a = readLeaf? b := by
  have word (w : String) (solid : ∀ c ∈ w.toList, isBlank c = false) := same.ofList_eq_iff solid
  have call (name : String) (letters : ∀ c ∈ name.toList, isWordChar c = true) :
      isBareCall name a = isBareCall name b :=
    same.isBareCall name
      (fun c member => Canonical.isMark_of_isPlain (Canonical.isPlain_of_isWordChar (letters c member)))
      fun c member => Canonical.isBlank_of_isWordChar (letters c member)
  have mode : String.ofList a = "INPUT" ∨ String.ofList a = "OUTPUT" ∨ String.ofList a = "INPUT_PULLUP" →
      a = b := by
    have solid (w : String) (letters : ∀ c ∈ w.toList, isBlank c = false) (eq : String.ofList a = w) :
        a = b := by
      subst eq
      exact same.eq_of_solid (by simpa using letters)
    rintro (eq | eq | eq)
    · exact solid _ (by decide) eq
    · exact solid _ (by decide) eq
    · exact solid _ (by decide) eq
  by_cases pin : String.ofList a = "INPUT" ∨ String.ofList a = "OUTPUT" ∨ String.ofList a = "INPUT_PULLUP"
  · rw [mode pin]
  · have pin' := pin
    rw [word "INPUT" (by decide), word "OUTPUT" (by decide), word "INPUT_PULLUP" (by decide)] at pin'
    simp only [← or_assoc] at pin pin'
    simp only [readLeaf?, word "HIGH" (by decide), word "true" (by decide), word "LOW" (by decide),
      word "false" (by decide), Bool.or_eq_true, decide_eq_true_eq, if_neg pin, if_neg pin',
      same.numberLiteral?, same.unquote, call "millis" (by decide),
      call "micros" (by decide)]

theorem builtinCall?_alike (same : Spaced .code a b) :
    Option.Rel (fun x y => x.1 = y.1 ∧ List.Forall₂ (Spaced .code) x.2 y.2) (builtinCall? a)
      (builtinCall? b) := by
  have call := same.splitCall
  unfold builtinCall?
  generalize splitCall a = x at call
  generalize splitCall b = y at call
  cases call with
  | none => exact .none
  | @some x y both =>
    obtain ⟨name, args⟩ := x
    obtain ⟨name', args'⟩ := y
    obtain ⟨rfl, args_⟩ := both
    simp only [Option.bind_eq_bind, Option.bind_some]
    cases Builtin.ofName? (String.ofList name) with
    | none => exact .none
    | some f => exact .some ⟨rfl, args_.splitArgs⟩

/-- An expression is read alike from texts with the same code. -/
theorem gist_readWithin (levels : Nat) (same : Spaced .code a b) :
    (readWithin levels a).gist = (readWithin levels b).gist := by
  induction levels generalizing a b with
  | zero => rfl
  | succ levels ih =>
    have trimmed := same.trim
    have leaf := readLeaf?_eq trimmed
    have pin (name : String) (letters : ∀ c ∈ name.toList, isWordChar c = true) :=
      trimmed.stripCall _
        (fun c member => Canonical.isMark_of_isPlain (Canonical.isPlain_of_isWordChar (letters c member)))
        fun c member => Canonical.isBlank_of_isWordChar (letters c member)
    have digital := pin "digitalRead" (by decide)
    have analog := pin "analogRead" (by decide)
    have call := builtinCall?_alike trimmed
    simp only [readWithin, leaf]
    cases readLeaf? (trim b) with
    | some e => rfl
    | none =>
      generalize stripCall "digitalRead".toList (trim a) = x at digital
      generalize stripCall "digitalRead".toList (trim b) = y at digital
      cases digital with
      | some inner => simp only [gist, ih inner]
      | none =>
        generalize stripCall "analogRead".toList (trim a) = x at analog
        generalize stripCall "analogRead".toList (trim b) = y at analog
        cases analog with
        | some inner => simp only [gist, ih inner]
        | none =>
          generalize builtinCall? (trim a) = x at call
          generalize builtinCall? (trim b) = y at call
          cases call with
          | @some x y both =>
            have args := map_eq_of_forall₂ (f := gist ∘ readWithin levels) (g := gist ∘ readWithin levels)
              (fun _ _ same => ih same) both.2
            simp only [gist, both.1, gistAll_eq, List.map_map, args]
          | none =>
            by_cases identifier : isIdentifier (trim a) = true
            · rw [trimmed.eq_of_solid (Spaced.solid_of_isIdentifier identifier)]
            · have other := trimmed.holds_eq (p := isIdentifier) fun t => Spaced.solid_of_isIdentifier
              simp only [if_neg identifier, if_neg (other ▸ identifier), gist, squeeze_eq trimmed]

theorem gist_read (same : Spaced .code a b) : (read a).gist = (read b).gist :=
  gist_readWithin maxLevels same

theorem map_gist_read {as bs : List (List Char)} (same : List.Forall₂ (Spaced .code) as bs) :
    (as.map read).map gist = (bs.map read).map gist := by
  rw [List.map_map, List.map_map]
  exact map_eq_of_forall₂ (fun _ _ => gist_read) same

end Expr

namespace Cond

theorem stripParens_alike (same : Spaced .code a b) : Spaced .code (stripParens a) (stripParens b) := by
  have trimmed := same.trim
  have inside := trimmed.enclosed? .round
  simp only [stripParens]
  generalize trim a = s at trimmed inside
  generalize trim b = t at trimmed inside
  generalize Bracket.round.enclosed? s = x at inside
  generalize Bracket.round.enclosed? t = y at inside
  cases inside with
  | none => exact trimmed
  | @some x y both =>
    obtain ⟨inner, rest⟩ := x
    obtain ⟨inner', rest'⟩ := y
    cases rest with
    | nil =>
      obtain rfl := both.2.eq_nil_iff.1 rfl
      exact both.1.trim
    | cons c rest =>
      cases rest' with
      | nil => cases both.2.eq_nil_iff.2 rfl
      | cons => exact trimmed

theorem comparison?_alike (same : Spaced .code a b) :
    Option.Rel (fun x y => x.1 = y.1 ∧ Spaced .code x.2.1 y.2.1 ∧ Spaced .code x.2.2 y.2.2)
      (comparison? a) (comparison? b) := by
  have separates (op : Comparison) : Spaced.Separates op.symbol.toList := by
    cases op <;> exact ⟨by decide, by decide, by decide⟩
  unfold comparison?
  generalize Comparison.searchOrder = ops
  induction ops with
  | nil => exact .none
  | cons op ops ih =>
    have cut := same.cutTop? (separates op)
    rw [List.findSome?_cons, List.findSome?_cons]
    generalize cutTop? op.symbol.toList a = x at cut
    generalize cutTop? op.symbol.toList b = y at cut
    cases cut with
    | none => exact ih
    | some both => exact .some ⟨rfl, both⟩

theorem negated?_alike (same : Spaced .code a b) :
    Option.Rel (Spaced .code) (negated? a) (negated? b) := by
  have shape (t : List Char) : negated? t =
      if t.head? = some '!' then if t.tail.head? = some '=' then none else some t.tail else none := by
    cases t with
    | nil => rfl
    | cons c t =>
      by_cases opens : c = '!'
      · subst opens
        rfl
      · simp [negated?, opens]
  rw [shape, shape]
  by_cases opens : a.head? = some '!'
  · rw [if_pos opens, if_pos ((same.head?_eq_some_iff (by decide)).1 opens)]
    obtain ⟨rest, rfl⟩ : ∃ rest, a = '!' :: rest := by
      cases a with
      | nil => cases opens
      | cons d a => exact ⟨a, by simpa using opens⟩
    obtain ⟨b', rfl, more⟩ := same.uncons (by decide)
    have code : Quote.code.next '!' = .code := rfl
    rw [code] at more
    have next := more.head?_eq_some_iff (c := '=') (by decide)
    change Option.Rel _ (if rest.head? = some '=' then none else some rest)
      (if b'.head? = some '=' then none else some b')
    by_cases equals : rest.head? = some '='
    · rw [if_pos equals, if_pos (next.1 equals)]
      exact .none
    · rw [if_neg equals, if_neg fun found => equals (next.2 found)]
      exact .some more
  · rw [if_neg opens, if_neg fun found => opens ((same.head?_eq_some_iff (by decide)).2 found)]
    exact .none

/-- A condition is read alike from texts with the same code. -/
theorem gist_readWithin (levels : Nat) (same : Spaced .code a b) :
    (readWithin levels a).gist = (readWithin levels b).gist := by
  induction levels generalizing a b with
  | zero => rfl
  | succ levels ih =>
    have bare := stripParens_alike same
    have parts {as bs : List (List Char)} (alike : List.Forall₂ (Spaced .code) as bs) :
        (as.map (readWithin levels)).map gist = (bs.map (readWithin levels)).map gist := by
      rw [List.map_map, List.map_map]
      exact map_eq_of_forall₂ (fun _ _ same => ih same) alike
    have both := bare.splitTop (⟨by decide, by decide, by decide⟩ : Spaced.Separates "&&".toList)
    have either := bare.splitTop (⟨by decide, by decide, by decide⟩ : Spaced.Separates "||".toList)
    have negated := negated?_alike bare
    have compared := comparison?_alike bare
    have some_ (sep t : List Char) := splitTop_ne_nil sep t
    simp only [readWithin]
    generalize stripParens a = s at bare both either negated compared
    generalize stripParens b = t at bare both either negated compared
    have left := some_ "&&".toList s
    have left' := some_ "||".toList s
    generalize splitTop "&&".toList s = xs at both left
    generalize splitTop "&&".toList t = ys at both
    generalize splitTop "||".toList s = xs' at either left'
    generalize splitTop "||".toList t = ys' at either
    cases both with
    | nil => exact absurd rfl left
    | cons first rest =>
      cases rest with
      | cons second rest =>
        exact congrArg Cond.all (by simpa only [gistAll_eq] using parts (.cons first (.cons second rest)))
      | nil =>
        cases either with
        | nil => exact absurd rfl left'
        | cons first rest =>
          cases rest with
          | cons second rest =>
            exact congrArg Cond.any
              (by simpa only [gistAll_eq] using parts (.cons first (.cons second rest)))
          | nil =>
            dsimp only
            generalize negated? s = x at negated
            generalize negated? t = y at negated
            cases negated with
            | some rest => simp only [gist, ih rest]
            | none =>
              generalize comparison? s = x at compared
              generalize comparison? t = y at compared
              cases compared with
              | none => simp only [gist, Expr.gist_readWithin levels bare]
              | @some x y both =>
                obtain ⟨op, lhs, rhs⟩ := x
                obtain ⟨op', lhs', rhs'⟩ := y
                obtain ⟨rfl, first, second⟩ := both
                simp only [gist, Expr.gist_readWithin levels first, Expr.gist_readWithin levels second]

theorem gist_read (same : Spaced .code a b) : (read a).gist = (read b).gist :=
  gist_readWithin maxLevels same

end Cond

end Expressions

end Breadboard
