import Breadboard.Proofs.Spacing.Tidy

set_option autoImplicit false

/-!
Compound statements in texts that are spaced differently. Main statement: a statement is read alike from
tidy texts with the same code, if the blocks in it are.
-/
namespace Breadboard

open Text

/-- Whether two blocks are read alike, wherever they start, the places of their statements and the blanks in
the texts that they keep aside. -/
def ReadAlike (a b : List Char) : Prop :=
  ∀ n n', (Stmt.readAll (cutBlock n a)).map Stmt.gist = (Stmt.readAll (cutBlock n' b)).map Stmt.gist

/-- Whether the blocks that stand in the same place of two texts are read alike. A block reaches up to its
closing brace at most. -/
def BlocksAlike (a b : List Char) : Prop :=
  ∀ f t r f' t' r', a = f ++ '\x7b' :: (t ++ r) → b = f' ++ '\x7b' :: (t' ++ r') →
    Spaced .code f f' → Quote.code.after f = .code → Spaced .code t t' → Quote.code.after t = .code →
      Bracket.curly.close .code 0 t = none → ReadAlike t t'

/-- Two tidy texts with the same code, and with blocks that are read alike. -/
structure Kin (a b : List Char) : Prop where
  same : Spaced .code a b
  tidy : Tidy a
  blocks : BlocksAlike a b

variable {a b f f' r r' x x' y y' z z' : List Char}

/-- Two texts stand in the same place of two others, at their end and not within a word. -/
def Follows (a b x y : List Char) : Prop :=
  ∃ f f', a = f ++ x ∧ b = f' ++ y ∧ Spaced .code f f' ∧ Quote.code.after f = .code ∧
    Spaced .code x y ∧ joins f x = false

theorem joins_append (some_ : f' ≠ []) (f x : List Char) : joins (f ++ f') x = joins f' x := by
  obtain ⟨front, c, rfl⟩ := (List.eq_nil_or_concat f').resolve_left some_
  simp [joins, ← List.append_assoc]

namespace Follows

theorem trans (first : Follows a b x y) (then_ : Follows x y z z') : Follows a b z z' := by
  obtain ⟨f, f', rfl, rfl, front, code, -, apart⟩ := first
  obtain ⟨g, g', rfl, rfl, more, code', same, apart'⟩ := then_
  refine ⟨f ++ g, f' ++ g', by simp, by simp, front.append (by rwa [code]), by simp [code, code'], same, ?_⟩
  by_cases none : g = []
  · subst none
    simpa using apart
  · rw [joins_append none, apart']

theorem trimStart (same : Spaced .code a b) : Follows a b (trimStart a) (trimStart b) := by
  have parts := same.takeWhile_dropWhile (p := isBlank) fun _ blank => blank
  have blanks : ∀ c ∈ a.takeWhile isBlank, isBlank c = true := fun c member => List.mem_takeWhile_imp member
  have code : Quote.code.after (a.takeWhile isBlank) = .code := (Closed.blanks blanks).after_eq
  rw [code] at parts
  refine ⟨_, _, List.takeWhile_append_dropWhile.symm, List.takeWhile_append_dropWhile.symm, parts.1, code,
    parts.2, ?_⟩
  obtain none | ⟨front, c, eq⟩ := List.eq_nil_or_concat (a.takeWhile isBlank)
  · rw [none]
    rfl
  · have blank := blanks c (by simp [eq])
    rw [eq, List.concat_eq_append]
    exact joins_concat (isWordChar_of_isBlank blank) _ _

end Follows

namespace Kin

/-- What stands in the same place of two texts. -/
theorem part (kin : Kin (f ++ (x ++ r)) (f' ++ (x' ++ r'))) (front : Spaced .code f f')
    (code : Quote.code.after f = .code) (inner : Spaced .code x x') (code' : Quote.code.after x = .code)
    (apart : joins f x = false) : Kin x x' where
  same := inner
  tidy := kin.tidy.part code code' apart
  blocks := by
    rintro before t more before' t' more' rfl rfl front' start block whole open_
    exact kin.blocks (f ++ before) t (more ++ r) (f' ++ before') t' (more' ++ r') (by simp) (by simp)
      (front.append (by rwa [code])) (by simp [code, start]) block whole open_

theorem follow (kin : Kin a b) (follows : Follows a b x y) : Kin x y := by
  have whole := kin.tidy.after_eq
  obtain ⟨f, f', rfl, rfl, front, code, same, apart⟩ := follows
  rw [Quote.after_append, code] at whole
  rw [← List.append_nil x, ← List.append_nil y] at kin
  exact kin.part front code same whole apart

-- What stands in front of such texts.
theorem before (kin : Kin (f ++ x) (f' ++ y)) (front : Spaced .code f f')
    (code : Quote.code.after f = .code) : Kin f f' := by
  have whole : Kin ([] ++ (f ++ x)) ([] ++ (f' ++ y)) := kin
  exact whole.part (.nil _) rfl front code rfl

theorem trimStart (kin : Kin a b) : Kin (trimStart a) (trimStart b) := kin.follow (.trimStart kin.same)

theorem trim (kin : Kin a b) : Kin (trim a) (trim b) := by
  have start := kin.trimStart
  have tail (t : List Char) : ∃ g, t = trimEnd t ++ g ∧ ∀ c ∈ g, isBlank c = true := by
    refine ⟨(t.reverse.takeWhile isBlank).reverse, ?_, fun c member => List.mem_takeWhile_imp (by simpa using member)⟩
    have parts := List.takeWhile_append_dropWhile (p := isBlank) (l := t.reverse)
    rw [trimEnd, dropEndWhile, ← List.reverse_append, parts, List.reverse_reverse]
  obtain ⟨g, eq, blank⟩ := tail (Text.trimStart a)
  obtain ⟨g', eq', -⟩ := tail (Text.trimStart b)
  have same := start.same.trimEnd
  have code : Quote.code.after (trimEnd (Text.trimStart a)) = .code :=
    code_of_after_blank blank (by rw [← eq]; exact start.tidy.after_eq)
  rw [eq, eq'] at start
  exact start.before same code

end Kin

section Keywords

variable {k : Keyword} {word rest : List Char}

theorem dropWord?_eq_some (found : dropWord? word a = some rest) :
    a = word ++ rest ∧ rest.head?.any isWordChar = false := by
  simp only [dropWord?, Option.bind_eq_bind, Option.bind_eq_some_iff] at found
  obtain ⟨rest', text, _, ends, made⟩ := found
  obtain rfl := Option.some.inj made
  exact ⟨eq_append_of_dropPrefix? text, by simpa [guard] using ends⟩

/-- The word that a statement opens with. -/
def Text.Keyword.opening : Keyword → List Char
  | .ifWord => "if".toList
  | .elseIf | .elseWord => "else".toList
  | .forWord => "for".toList
  | .whileWord => "while".toList

theorem exists_of_leadingKeyword (keyword : leadingKeyword a = some k) : ∃ rest,
    trimStart a = k.opening ++ rest ∧ rest.head?.any isWordChar = false ∧
      (k = .elseIf → ∃ rest', trimStart rest = "if".toList ++ rest' ∧
        rest'.head?.any isWordChar = false) := by
  unfold leadingKeyword at keyword
  dsimp only at keyword
  split at keyword
  · rename_i rest found
    obtain ⟨text, ends⟩ := dropWord?_eq_some found
    split at keyword
    · rename_i if_
      obtain ⟨rest', inner⟩ := Option.isSome_iff_exists.1 if_
      cases keyword
      exact ⟨rest, text, ends, fun _ => ⟨rest', dropWord?_eq_some inner⟩⟩
    · cases keyword
      exact ⟨rest, text, ends, fun other => by cases other⟩
  · have single {word : List Char} (found : (dropWord? word (trimStart a)).isSome = true) :
        ∃ rest, trimStart a = word ++ rest ∧ rest.head?.any isWordChar = false := by
      obtain ⟨rest, found⟩ := Option.isSome_iff_exists.1 found
      exact ⟨rest, dropWord?_eq_some found⟩
    split at keyword
    · rename_i found
      cases keyword
      obtain ⟨rest, text, ends⟩ := single found
      exact ⟨rest, text, ends, fun other => by cases other⟩
    · split at keyword
      · rename_i found
        cases keyword
        obtain ⟨rest, text, ends⟩ := single found
        exact ⟨rest, text, ends, fun other => by cases other⟩
      · split at keyword
        · rename_i found
          cases keyword
          obtain ⟨rest, text, ends⟩ := single found
          exact ⟨rest, text, ends, fun other => by cases other⟩
        · cases keyword

/-- Whether the first parenthesis behind a text that opens with a keyword stands in its code. -/
def Ahead (a : List Char) : Prop :=
  (leadingKeyword a).isSome = true → Quote.code.after ((trimStart a).takeWhile (· != '(')) = .code

/-- Whether the body of a statement can begin behind a text: behind a parenthesis or a word. -/
def endsHead (front : List Char) : Bool := (trimEnd front).getLast?.any fun c => c == ')' || isWordChar c

theorem Tidy.paren_behind (tidy : Tidy (f ++ (word ++ rest))) (code : Quote.code.after f = .code)
    (seeks : SeeksParens f word) (ends : rest.head?.any isWordChar = false) :
    Quote.code.after ((word ++ rest).takeWhile (· != '(')) = .code := by
  obtain ⟨-, letters⟩ := Tidy.isWordChar_of_seeks seeks
  have opens : ∀ c ∈ word, (c != '(') = true := fun c member => by
    simpa using Canonical.ne_of_class (letters c member) (by decide)
  have behind := tidy.heads f word rest rfl code seeks (by simp [joins, ends])
  rwa [List.takeWhile_append_of_pos opens, Quote.after_append, Tidy.after_word letters]

theorem Tidy.first_paren (tidy : Tidy (f ++ x)) (code : Quote.code.after f = .code) (apart : joins f x = false)
    (keyword : leadingKeyword x = some k) (place : k.opening ∈ headWords ∨ endsHead f = true) :
    Quote.code.after ((Text.trimStart x).takeWhile (· != '(')) = .code := by
  obtain ⟨rest, text, ends, -⟩ := exists_of_leadingKeyword keyword
  have blanks : ∀ c ∈ x.takeWhile isBlank, isBlank c = true := fun c member => List.mem_takeWhile_imp member
  have whole : x = x.takeWhile isBlank ++ (k.opening ++ rest) := by
    rw [← text]
    exact List.takeWhile_append_dropWhile.symm
  obtain ⟨e, tail, opening⟩ : ∃ e tail, k.opening = e :: tail := by cases k <;> exact ⟨_, _, rfl⟩
  have seeks : SeeksParens (f ++ x.takeWhile isBlank) k.opening := by
    constructor
    · by_cases none : x.takeWhile isBlank = []
      · rw [none, List.append_nil]
        rw [none, List.nil_append] at whole
        rw [whole] at apart
        simpa [joins, opening] using apart
      · obtain ⟨front, c, eq⟩ := (List.eq_nil_or_concat (x.takeWhile isBlank)).resolve_left none
        have blank := blanks c (by simp [eq])
        rw [joins_append none, eq, List.concat_eq_append]
        exact joins_concat (isWordChar_of_isBlank blank) _ _
    · obtain head | body := place
      · exact .inl head
      · have else_ : k.opening ∈ headWords ∨ k.opening = "else".toList := by cases k <;> decide
        refine else_.imp_right fun word => ⟨word, ?_⟩
        rwa [Spaced.trimEnd_append, trimEnd_blank blanks, if_pos rfl]
  have code_ : Quote.code.after (f ++ x.takeWhile isBlank) = .code := by
    rw [Quote.after_append, code, (Closed.blanks blanks).after_eq]
  have text_ : f ++ x = (f ++ x.takeWhile isBlank) ++ (k.opening ++ rest) := by
    conv_lhs => rw [whole]
    simp
  rw [text_] at tidy
  rw [text]
  exact tidy.paren_behind code_ seeks ends

theorem Tidy.ahead (tidy : Tidy (f ++ x)) (code : Quote.code.after f = .code) (apart : joins f x = false)
    (body : endsHead f = true) : Ahead x := by
  intro keyword
  obtain ⟨k, keyword⟩ := Option.isSome_iff_exists.1 keyword
  exact tidy.first_paren code apart keyword (.inr body)

end Keywords

section Scans

theorem exists_of_enclosed? {b : Bracket} {inside after : List Char} (found : b.enclosed? a = some (inside, after)) :
    a = b.opener :: (inside ++ b.closer :: after) ∧ Quote.code.after inside = .code ∧
      b.close .code 0 inside = none := by
  cases a with
  | nil => cases found
  | cons c t =>
    rw [Bracket.enclosed?] at found
    split at found
    · rename_i opener
      subst opener
      obtain ⟨code, -, low⟩ := closed_of_close found
      refine ⟨congrArg _ (Bracket.close_eq found), code, ?_⟩
      rw [← List.append_nil inside]
      exact close_append b low
    · cases found

-- What the scan for the parentheses of a statement gives: what stands in them, and what follows.
theorem Kin.header? (kin : Kin a b) (code : Quote.code.after (a.takeWhile (· != '(')) = .code) :
    Option.Rel (fun p p' => Kin p.1 p'.1 ∧ Follows a b p.2 p'.2 ∧ Ahead p.2) (Stmt.header? a)
      (Stmt.header? b) := by
  have opens (c : Char) (blank : isBlank c = true) : (c != '(') = true := by
    simpa using Canonical.ne_of_class blank (by decide)
  have parts := kin.same.takeWhile_dropWhile opens
  have left := (List.takeWhile_append_dropWhile (p := (· != '(')) (l := a)).symm
  have right := (List.takeWhile_append_dropWhile (p := (· != '(')) (l := b)).symm
  rw [code] at parts
  have found := parts.2.enclosed? .round
  unfold Stmt.header?
  generalize enclosed : Bracket.round.enclosed? (a.dropWhile (· != '(')) = p at found
  generalize enclosed' : Bracket.round.enclosed? (b.dropWhile (· != '(')) = p' at found
  cases found with
  | none => exact .none
  | @some p p' both =>
    obtain ⟨inside, after⟩ := p
    obtain ⟨inside', after'⟩ := p'
    obtain ⟨inner, behind⟩ := both
    obtain ⟨text, code', -⟩ := exists_of_enclosed? enclosed
    obtain ⟨text', -, -⟩ := exists_of_enclosed? enclosed'
    rw [text] at left
    rw [text'] at right
    generalize a.takeWhile (· != '(') = front at left parts code
    generalize b.takeWhile (· != '(') = front' at right parts
    subst left right
    have start : Spaced .code (front ++ ['(']) (front' ++ ['(']) := parts.1.append (.refl _ _)
    have whole : Spaced .code (front ++ '(' :: (inside ++ [')'])) (front' ++ '(' :: (inside' ++ [')'])) :=
      parts.1.append (by rw [code]; exact .cons '(' (inner.append (.refl _ _)))
    have code_ : Quote.code.after (front ++ '(' :: (inside ++ [')'])) = .code := by
      rw [Quote.after_append, code]
      change Quote.code.after (inside ++ [')']) = .code
      rw [Quote.after_append, code']
      rfl
    have ends : joins (front ++ '(' :: (inside ++ [')'])) after = false := by
      rw [← List.cons_append, ← List.append_assoc]
      exact joins_concat (by decide) _ _
    have follows : Follows (front ++ '(' :: (inside ++ ')' :: after)) (front' ++ '(' :: (inside' ++ ')' :: after'))
        after after' := ⟨_, _, by simp, by simp, whole, code_, behind, ends⟩
    refine .some ⟨?_, follows, ?_⟩
    · have shape (f i r : List Char) : f ++ '(' :: (i ++ ')' :: r) = (f ++ ['(']) ++ (i ++ (')' :: r)) := by simp
      change Kin (front ++ '(' :: (inside ++ ')' :: after)) (front' ++ '(' :: (inside' ++ ')' :: after')) at kin
      rw [shape, shape] at kin
      exact kin.part start (by rw [Quote.after_append, code]; rfl) inner code' (joins_concat (by decide) _ _)
    · have shape : front ++ '(' :: (inside ++ ')' :: after) = (front ++ '(' :: (inside ++ [')'])) ++ after := by simp
      have tidy := kin.tidy
      change Tidy (front ++ '(' :: (inside ++ ')' :: after)) at tidy
      rw [shape] at tidy
      refine tidy.ahead code_ ends ?_
      have last : trimEnd [')'] = [')'] := by decide
      rw [endsHead, ← List.cons_append, ← List.append_assoc, Spaced.trimEnd_append, last, if_neg (by simp),
        List.getLast?_concat]
      rfl

section Semicolons

theorem separates_semicolon : Spaced.Separates [';'] := ⟨by simp, by decide, by decide⟩

/-- The first semicolons outside of brackets in two texts: none, or one in both. -/
inductive Semicolons (a b : List Char) : Prop
  | none (left : splitTopFrom [';'] .code 0 0 a = (a, [])) (right : splitTopFrom [';'] .code 0 0 b = (b, []))
  | some {p p' r r' : List Char} (text : a = p ++ ';' :: r) (text' : b = p' ++ ';' :: r')
    (left : splitTopFrom [';'] .code 0 0 a = (p, splitTop [';'] r))
    (right : splitTopFrom [';'] .code 0 0 b = (p', splitTop [';'] r')) (front : Kin p p')
    (behind : Follows a b r r')

theorem Kin.semicolons (kin : Kin a b) : Semicolons a b := by
  have cut := kin.same.cutAlike 0 separates_semicolon
  generalize left : splitTopFrom [';'] .code 0 0 a = first at cut
  generalize right : splitTopFrom [';'] .code 0 0 b = first' at cut
  cases cut with
  | none _ => exact .none left right
  | @some p p' r r' front behind =>
    have code := (ends_of_splitTopFrom (by decide) left (splitTop_ne_nil _ _)).1
    refine .some rfl rfl left right (kin.before front code) ⟨p ++ [';'], p' ++ [';'], by simp, by simp,
      front.append (.refl _ _), ?_, behind, joins_concat (by decide) _ _⟩
    rw [Quote.after_append, code]
    rfl

theorem Kin.beforeTop (kin : Kin a b) : Kin (beforeTop [';'] a) (beforeTop [';'] b) := by
  unfold Text.beforeTop
  cases kin.semicolons with
  | none left right => rwa [left, right]
  | some _ _ left right front _ => rwa [left, right]

theorem Follows.end_ (kin : Kin a b) : Follows a b [] [] :=
  ⟨a, b, by simp, by simp, kin.same, kin.tidy.after_eq, .nil _, by simp [joins]⟩

theorem Kin.afterStatement (kin : Kin a b) :
    Follows a b (Stmt.afterStatement a) (Stmt.afterStatement b) := by
  have drop (p r : List Char) : (p ++ ';' :: r).drop (p.length + 1) = r := by simp [List.drop_append]
  unfold Stmt.afterStatement Text.beforeTop
  cases kin.semicolons with
  | none left right =>
    rw [left, right, List.drop_eq_nil_of_le (Nat.le_succ _), List.drop_eq_nil_of_le (Nat.le_succ _)]
    exact .end_ kin
  | some text text' left right _ behind =>
    rw [left, right]
    subst text text'
    rwa [drop, drop]

theorem Kin.splitTop (kin : Kin a b) : List.Forall₂ Kin (splitTop [';'] a) (splitTop [';'] b) := by
  induction length : a.length using Nat.strongRecOn generalizing a b with
  | _ n ih =>
    have parts (t : List Char) : Text.splitTop [';'] t =
        (splitTopFrom [';'] .code 0 0 t).1 :: (splitTopFrom [';'] .code 0 0 t).2 := rfl
    rw [parts a, parts b]
    cases kin.semicolons with
    | none left right =>
      rw [left, right]
      exact .cons kin .nil
    | @some p p' r r' text _ left right front behind =>
      rw [left, right]
      refine .cons front (ih r.length ?_ (kin.follow behind) rfl)
      simp only [text, List.length_append, List.length_cons] at length
      omega

end Semicolons

section Braces

-- A block is read alike, and what follows it stands in the same place.
theorem Kin.enclosed? (kin : Kin a b) :
    Option.Rel (fun p p' => ReadAlike p.1 p'.1 ∧ Follows a b p.2 p'.2) (Bracket.curly.enclosed? a)
      (Bracket.curly.enclosed? b) := by
  have found := kin.same.enclosed? .curly
  generalize enclosed : Bracket.curly.enclosed? a = p at found
  generalize enclosed' : Bracket.curly.enclosed? b = p' at found
  cases found with
  | none => exact .none
  | @some p p' both =>
    obtain ⟨inside, after⟩ := p
    obtain ⟨inside', after'⟩ := p'
    obtain ⟨inner, behind⟩ := both
    obtain ⟨text, code, open_⟩ := exists_of_enclosed? enclosed
    obtain ⟨text', -, -⟩ := exists_of_enclosed? enclosed'
    change a = '\x7b' :: (inside ++ '\x7d' :: after) at text
    change b = '\x7b' :: (inside' ++ '\x7d' :: after') at text'
    have brace : Quote.code.after ('\x7b' :: (inside ++ ['\x7d'])) = .code := by
      change Quote.code.after (inside ++ ['\x7d']) = .code
      rw [Quote.after_append, code]
      rfl
    have whole : Spaced .code ('\x7b' :: (inside ++ ['\x7d'])) ('\x7b' :: (inside' ++ ['\x7d'])) :=
      .cons _ (inner.append (.refl _ _))
    refine .some ⟨?_, _, _, by simpa using text, by simpa using text', whole, brace, behind, ?_⟩
    · exact kin.blocks [] inside _ [] inside' _ text text' (.nil _) rfl inner code open_
    · rw [← List.cons_append]
      exact joins_concat (by decide) _ _

-- So is a block without an end.
theorem Kin.tail (kin : Kin a b) (brace : a.head? = some '\x7b')
    (open_ : Bracket.curly.enclosed? a = none) : ReadAlike a.tail b.tail := by
  obtain ⟨t, rfl⟩ := List.head?_eq_some_iff.1 brace
  obtain ⟨t', rfl, same⟩ := kin.same.uncons (by decide)
  exact kin.blocks [] t [] [] t' [] (by simp) (by simp) (.nil _) rfl same kin.tidy.after_eq open_

theorem Kin.head?_brace (kin : Kin a b) : a.head? = some '\x7b' ↔ b.head? = some '\x7b' :=
  kin.same.head?_eq_some_iff (by decide)

theorem Kin.afterCompound (kin : Kin a b) (code : Quote.code.after (a.takeWhile (· != '(')) = .code) :
    Follows a b (Stmt.afterCompound a) (Stmt.afterCompound b) := by
  have header := kin.header? code
  unfold Stmt.afterCompound
  generalize Stmt.header? a = p at header
  generalize Stmt.header? b = p' at header
  cases header with
  | none => exact .end_ kin
  | @some p p' both =>
    obtain ⟨_, after⟩ := p
    obtain ⟨_, after'⟩ := p'
    obtain ⟨-, follows, -⟩ := both
    have start := follows.trans (.trimStart (kin.follow follows).same)
    have body := kin.follow start
    dsimp only at body ⊢
    by_cases brace : (Text.trimStart after).head? = some '\x7b'
    · rw [if_pos brace, if_pos (body.head?_brace.1 brace)]
      have block := body.enclosed?
      generalize Bracket.curly.enclosed? (Text.trimStart after) = p at block
      generalize Bracket.curly.enclosed? (Text.trimStart after') = p' at block
      cases block with
      | none => exact .end_ kin
      | some both => exact start.trans both.2
    · rw [if_neg brace, if_neg fun brace' => brace (body.head?_brace.2 brace')]
      exact start.trans body.afterStatement

end Braces

end Scans

namespace Stmt

/-- Whether texts of less than `n` characters are read like those with the same code. -/
def AlikeBelow (n : Nat) : Prop :=
  ∀ x x', x.length < n → Kin x x' → ∀ loc loc', (read loc x).gist = (read loc' x').gist

variable {n : Nat} {c c' : Cursor}

theorem single_alike (alike : AlikeBelow n) (kin : Kin x x') (short : x.length < n) (line line' : Nat) :
    (single read line x).map gist = (single read line' x').map gist := by
  unfold single
  rw [kin.same.isBlankText_eq]
  split
  · rfl
  · exact congrArg (fun st => [st]) (alike x x' short kin _ _)

-- A body is read alike, and what follows it stands in the same place.
theorem readBody_alike (c c' : Cursor) (alike : AlikeBelow n) (kin : Kin c.rest c'.rest) (ahead : Ahead c.rest)
    (short : c.rest.length < n) : (readBody read c).1.map gist = (readBody read c').1.map gist ∧
      Follows c.rest c'.rest (readBody read c).2.rest (readBody read c').2.rest := by
  have start : Follows c.rest c'.rest (trimStart c.rest) (trimStart c'.rest) := .trimStart kin.same
  have body := kin.follow start
  have length := length_trimStart_le c.rest
  by_cases brace : (trimStart c.rest).head? = some '\x7b'
  · have brace' := body.head?_brace.1 brace
    rw [readBody_block read brace rfl, readBody_block read brace' rfl]
    have block := body.enclosed?
    have tail := body.tail brace
    generalize Bracket.curly.enclosed? (trimStart c.rest) = p at block tail
    generalize Bracket.curly.enclosed? (trimStart c'.rest) = p' at block
    cases block with
    | none => exact ⟨tail rfl _ _, .end_ kin⟩
    | some both => exact ⟨both.1 _ _, start.trans both.2⟩
  · have brace' : (trimStart c'.rest).head? ≠ some '\x7b' := fun found => brace (body.head?_brace.2 found)
    have keyword := body.same.leadingKeyword
    cases word : leadingKeyword (trimStart c.rest) with
    | none =>
      rw [readBody_simple read brace word, readBody_simple read brace' (by rw [← keyword, word])]
      have short' := length_beforeTop_le [';'] (trimStart c.rest)
      exact ⟨single_alike alike body.beforeTop (by omega) _ _, start.trans body.afterStatement⟩
    | some k =>
      have code : Quote.code.after ((trimStart c.rest).takeWhile (· != '(')) = .code :=
        ahead (by rw [← leadingKeyword_trimStart, word]; rfl)
      rw [readBody_compound read brace (by rw [word]; rfl),
        readBody_compound read brace' (by rw [← keyword, word]; rfl)]
      have behind := body.afterCompound code
      refine ⟨?_, start.trans behind⟩
      obtain ⟨f, f', eq, eq', front, start', -, -⟩ := behind
      have take (f x : List Char) : (f ++ x).take ((f ++ x).length - x.length) = f := by simp
      have front_ : Kin f f' := by
        rw [eq, eq'] at body
        exact body.before front start'
      have text := take f (afterCompound (trimStart c.rest))
      have text' := take f' (afterCompound (trimStart c'.rest))
      rw [← eq] at text
      rw [← eq'] at text'
      rw [text, text']
      refine single_alike alike front_ ?_ _ _
      have bound := congrArg List.length eq
      rw [List.length_append] at bound
      omega

-- Behind the `else` of a text.
theorem follows_else {r : List Char} (kin : Kin a b) (text : a = "else".toList ++ r)
    (ends : r.head?.any isWordChar = false) : ∃ r', b = "else".toList ++ r' ∧ Follows a b r r' := by
  subst text
  obtain ⟨r', rfl, same⟩ := kin.same.append_solid (by decide)
  exact ⟨r', rfl, _, _, rfl, rfl, .refl _ _, by decide, same, by simp [joins, ends]⟩

-- What follows the first branch is read alike, if the branches in it are.
theorem readOthers_alike (alike : AlikeBelow n) {k k' : Nat} (kin : Kin c.rest c'.rest) (short : c.rest.length < n)
    (chain : ∀ line line' x x', Kin x x' → Quote.code.after (x.takeWhile (· != '(')) = .code →
      x.length ≤ c.rest.length → x'.length ≤ c'.rest.length →
        (readChain read k ⟨line, x⟩).map Chain.gist = (readChain read k' ⟨line', x'⟩).map Chain.gist) :
    (readOthers read k c).map Chain.gist = (readOthers read k' c').map Chain.gist := by
  have start := kin.trimStart
  have keyword := start.same.leadingKeyword
  have length := length_trimStart_le c.rest
  have length' := length_trimStart_le c'.rest
  have drop (t : List Char) : ("else".toList ++ t).drop 4 = t := rfl
  simp only [readOthers, Cursor.moveTo, ← keyword]
  split
  · rename_i word
    obtain ⟨r, text, ends, inner⟩ := exists_of_leadingKeyword word
    rw [trimStart_trimStart] at text
    change trimStart c.rest = "else".toList ++ r at text
    obtain ⟨r', text', follows⟩ := follows_else start text ends
    obtain ⟨rest, if_, ends'⟩ := inner rfl
    have behind := (start.follow follows).trimStart
    have code : Quote.code.after ((trimStart r).takeWhile (· != '(')) = .code := by
      have tidy := behind.tidy
      rw [if_] at tidy ⊢
      exact Tidy.paren_behind (f := []) tidy rfl ⟨by simp [joins], .inl (by decide)⟩ ends'
    have shorter := length_trimStart_le r
    have shorter' := length_trimStart_le r'
    rw [text, List.length_append] at length
    rw [text', List.length_append] at length'
    simp only [text, text', drop]
    exact chain _ _ _ _ behind code (by omega) (by omega)
  · rename_i word
    obtain ⟨r, text, ends, -⟩ := exists_of_leadingKeyword word
    rw [trimStart_trimStart] at text
    change trimStart c.rest = "else".toList ++ r at text
    obtain ⟨r', text', follows⟩ := follows_else start text ends
    have ahead : Ahead r := by
      have tidy := start.tidy
      rw [text] at tidy
      exact tidy.ahead (by decide) (by simp [joins, ends]) (by decide)
    rw [text, List.length_append] at length
    simp only [text, text', drop]
    refine congrArg some ?_
    simp only [Chain.gist, gistAll_eq]
    exact congrArg _ (readBody_alike ⟨_, r⟩ ⟨_, r'⟩ alike (start.follow follows) ahead
      (by dsimp only; omega)).1
  · rfl

-- The branches of a statement are read alike; `k` and `k'` bound how many there are.
theorem readChain_alike (c c' : Cursor) (alike : AlikeBelow n) {k k' : Nat} (kin : Kin c.rest c'.rest)
    (code : Quote.code.after (c.rest.takeWhile (· != '(')) = .code) (short : c.rest.length ≤ n)
    (enough : c.rest.length ≤ k) (enough' : c'.rest.length ≤ k') :
    (readChain read k c).map Chain.gist = (readChain read k' c').map Chain.gist := by
  induction length : c.rest.length using Nat.strongRecOn generalizing c c' k k' with
  | _ len ih =>
  have header := kin.header? code
  have none_ {k : Nat} {c : Cursor} (found : header? c.rest = none) : readChain read k c = none := by
    cases k with
    | zero => rfl
    | succ k => rw [readChain, found]; rfl
  have positive {k : Nat} {c : Cursor} {p : List Char × List Char} (found : header? c.rest = some p)
      (enough : c.rest.length ≤ k) : ∃ m, k = m + 1 ∧ p.2.length ≤ m ∧ p.2.length < c.rest.length := by
    have bound := length_header? (show header? c.rest = some (p.1, p.2) from found)
    exact ⟨k - 1, by omega, by omega, by omega⟩
  generalize found : header? c.rest = p at header
  generalize found' : header? c'.rest = p' at header
  cases header with
  | none => rw [none_ found, none_ found']
  | @some p p' both =>
    obtain ⟨m, rfl, fits, shorter⟩ := positive found enough
    obtain ⟨m', rfl, fits', -⟩ := positive found' enough'
    obtain ⟨cond, after⟩ := p
    obtain ⟨cond', after'⟩ := p'
    obtain ⟨inner, follows, ahead⟩ := both
    have kin_ := kin.follow follows
    have body := readBody_alike (c.moveTo after) (c'.moveTo after') alike kin_ ahead
      (Nat.lt_of_lt_of_le shorter short)
    rw [readChain_succ read m c found, readChain_succ read m' c' found']
    have left := length_readBody_le read (c.moveTo after)
    have left' := length_readBody_le read (c'.moveTo after')
    have others : (readOthers read m (readBody read (c.moveTo after)).2).map Chain.gist =
        (readOthers read m' (readBody read (c'.moveTo after')).2).map Chain.gist := by
      change (readBody read (c.moveTo after)).2.rest.length ≤ after.length at left
      change (readBody read (c'.moveTo after')).2.rest.length ≤ after'.length at left'
      dsimp only at fits fits' shorter
      exact readOthers_alike alike (kin_.follow body.2) (by omega) fun _ _ x x' kin code_ bound bound' =>
        ih x.length (by omega) _ _ kin code_ (by dsimp only; omega) (by dsimp only; omega) (by dsimp only; omega) rfl
    rw [Option.map_map, Option.map_map]
    have branch (cond : Cond) (body : List Stmt) (o : Option Chain) :
        o.map (Chain.gist ∘ Chain.branch cond body) =
          (o.map Chain.gist).map (Chain.branch cond.gist (body.map gist)) := by
      cases o <;> simp [Chain.gist]
    rw [branch, branch, others, body.1, Cond.gist_read inner.same]

theorem readClause_alike (alike : AlikeBelow n) (kin : Kin x x') (short : x.length < n) (line line' : Nat) :
    (readClause read line x).map gist = (readClause read line' x').map gist := by
  unfold readClause
  rw [kin.same.isBlankText_eq]
  split
  · rfl
  · exact congrArg some (alike x x' short kin _ _)

theorem readFor?_alike (alike : AlikeBelow n) (kin : Kin a b) (short : a.length ≤ n)
    (code : Quote.code.after (a.takeWhile (· != '(')) = .code) (loc loc' : Location) :
    (readFor? read loc a).map gist = (readFor? read loc' b).map gist := by
  have header := kin.header? code
  unfold readFor?
  generalize found : header? a = p at header
  generalize header? b = p' at header
  cases header with
  | none => rfl
  | @some p p' both =>
    obtain ⟨inside, after⟩ := p
    obtain ⟨inside', after'⟩ := p'
    obtain ⟨inner, follows, ahead⟩ := both
    have bound := length_header? found
    have body := readBody_alike ((Cursor.mk loc.line a).moveTo after)
      ((Cursor.mk loc'.line b).moveTo after') alike (kin.follow follows) ahead
      (by dsimp only [Cursor.moveTo]; omega)
    have shorter (part : List Char) (member : part ∈ splitTop [';'] inside) : part.length < n := by
      have short := length_of_mem_splitTop member
      omega
    have clauses := inner.splitTop
    simp only [Option.bind_eq_bind, Option.bind_some]
    generalize splitTop [';'] inside = parts at clauses shorter
    generalize splitTop [';'] inside' = parts' at clauses
    cases clauses with
    | nil => rfl
    | @cons init _ _ _ kinInit clauses =>
      cases clauses with
      | nil => rfl
      | @cons cond cond' _ _ kinCond clauses =>
        cases clauses with
        | nil => rfl
        | @cons step _ _ _ kinStep clauses =>
          cases clauses with
          | cons => rfl
          | nil =>
            have first := readClause_alike alike kinInit (shorter init (by simp)) loc.line loc'.line
            have last := readClause_alike alike kinStep (shorter step (by simp)) loc.line loc'.line
            have test : (if isBlankText cond then Cond.truth (.number 1.0) else .read cond).gist =
                (if isBlankText cond' then Cond.truth (.number 1.0) else .read cond').gist := by
              rw [kinCond.same.isBlankText_eq]
              split
              · rfl
              · exact Cond.gist_read kinCond.same
            refine congrArg some ?_
            simp only [gist, gistAll_eq, gistClause_eq, body.1, first, last, test]

theorem readWhile?_alike (alike : AlikeBelow n) (kin : Kin a b) (short : a.length ≤ n)
    (code : Quote.code.after (a.takeWhile (· != '(')) = .code) (loc loc' : Location) :
    (readWhile? read loc a).map gist = (readWhile? read loc' b).map gist := by
  have header := kin.header? code
  unfold readWhile?
  generalize found : header? a = p at header
  generalize header? b = p' at header
  cases header with
  | none => rfl
  | @some p p' both =>
    obtain ⟨inside, after⟩ := p
    obtain ⟨inside', after'⟩ := p'
    obtain ⟨inner, follows, ahead⟩ := both
    have bound := length_header? found
    have body := readBody_alike ((Cursor.mk loc.line a).moveTo after)
      ((Cursor.mk loc'.line b).moveTo after') alike (kin.follow follows) ahead
      (by dsimp only [Cursor.moveTo]; omega)
    simp only [Option.bind_eq_bind, Option.bind_some]
    refine congrArg some ?_
    simp only [gist, gistAll_eq, body.1, Cond.gist_read inner.same]

/-- A statement is read alike from tidy texts with the same code, if the blocks in it are. -/
theorem gist_read (kin : Kin a b) (loc loc' : Location) : (read loc a).gist = (read loc' b).gist := by
  induction length : a.length using Nat.strongRecOn generalizing a b loc loc' with
  | _ n ih =>
    have alike : AlikeBelow n := fun x x' short kin loc loc' => ih _ short kin loc loc' rfl
    have trimmed := kin.trim
    have start : trimStart (trim a) = trim a := by
      by_cases none : trim a = []
      · rw [none]
        rfl
      · exact (tight_trim none).starts.trimStart_eq
    have short := length_trim_le a
    have keyword := trimmed.same.leadingKeyword
    have ignored : (act loc (.ignored (String.ofList (trim a)))).gist =
        (act loc' (.ignored (String.ofList (trim b)))).gist := by
      simp only [gist, Action.gist, squeeze_eq trimmed.same]
    have code {k : Keyword} (word : leadingKeyword (trim a) = some k) (head : k.opening ∈ headWords) :
        Quote.code.after ((trim a).takeWhile (· != '(')) = .code := by
      have first := Tidy.first_paren (f := []) (x := trim a) trimmed.tidy rfl rfl word (.inl head)
      rwa [start] at first
    have kept {o o' : Option Stmt} (same : o.map gist = o'.map gist) :
        (o.getD (act loc (.ignored (String.ofList (trim a))))).gist =
          (o'.getD (act loc' (.ignored (String.ofList (trim b))))).gist := by
      cases o with
      | none =>
        rw [Option.map_none, eq_comm, Option.map_eq_none_iff] at same
        rw [same]
        exact ignored
      | some st =>
        obtain ⟨st', rfl, eq⟩ := Option.map_eq_some_iff.1 same.symm
        exact eq.symm
    rw [read_eq, read_eq loc', readLevel, readLevel]
    refine kept ?_
    rw [← keyword]
    split
    · rename_i word
      have chain := readChain_alike ⟨loc.line, trim a⟩ ⟨loc'.line, trim b⟩ alike trimmed
        (code word (by decide)) (by dsimp only; omega) (Nat.le_refl _) (Nat.le_refl _)
      have choose (loc : Location) (o : Option Chain) :
          (o.map (Stmt.choose loc)).map gist = (o.map Chain.gist).map (Stmt.choose .start) := by
        cases o <;> simp [gist]
      rw [choose, choose, chain]
    · rename_i word
      exact readFor?_alike alike trimmed (by omega) (code word (by decide)) loc loc'
    · rename_i word
      exact readWhile?_alike alike trimmed (by omega) (code word (by decide)) loc loc'
    · rfl
    · exact congrArg some (gist_readSimple loc loc' trimmed.same)

end Stmt

end Breadboard
