import Breadboard.Sketch.ReadStmt
import Breadboard.Total

set_option autoImplicit false

/-!
Reading without fuel. Main statement: the length of a text is fuel enough for it, so that reading a
statement comes down to reading the statements in it, which are shorter.
-/
namespace Breadboard

open Text

section Lengths

-- A part of a text is the text without some of its characters.
theorem splitTopFrom_sublist (sep : List Char) (q : Quote) (depth : Int) (skip : Nat) (cs : List Char) :
    ∀ part ∈ (splitTopFrom sep q depth skip cs).1 :: (splitTopFrom sep q depth skip cs).2,
      part.Sublist cs := by
  induction cs generalizing q depth skip with
  | nil => simp [splitTopFrom]
  | cons c cs ih =>
    have later (q : Quote) (depth : Int) (skip : Nat) :
        ∀ part ∈ (splitTopFrom sep q depth skip cs).2, part.Sublist (c :: cs) := fun part h =>
      .cons _ (ih q depth skip part (List.mem_cons_of_mem _ h))
    have first (q : Quote) (depth : Int) (skip : Nat) : (splitTopFrom sep q depth skip cs).1.Sublist cs :=
      ih q depth skip _ List.mem_cons_self
    rw [List.forall_mem_cons]
    cases skip with
    | succ skip => exact ⟨.cons _ (first q depth skip), later q depth skip⟩
    | zero =>
      rw [splitTopFrom]
      split
      · dsimp only
        split
        · refine ⟨List.nil_sublist _, List.forall_mem_cons.2 ⟨?_, later _ _ _⟩⟩
          exact .cons _ (first _ _ _)
        · exact ⟨.cons_cons _ (first _ _ _), later _ _ _⟩
      · exact ⟨.cons_cons _ (first _ _ _), later _ _ _⟩

theorem sublist_of_mem_splitTop {sep part cs : List Char} (h : part ∈ splitTop sep cs) : part.Sublist cs :=
  splitTopFrom_sublist sep .code 0 0 cs part h

theorem beforeTop_sublist (sep cs : List Char) : (beforeTop sep cs).Sublist cs :=
  splitTopFrom_sublist sep .code 0 0 cs _ List.mem_cons_self

theorem length_of_mem_splitTop {sep part cs : List Char} (h : part ∈ splitTop sep cs) :
    part.length ≤ cs.length := (sublist_of_mem_splitTop h).length_le

theorem length_beforeTop_le (sep cs : List Char) : (beforeTop sep cs).length ≤ cs.length :=
  (beforeTop_sublist sep cs).length_le

theorem trimStart_sublist (cs : List Char) : (trimStart cs).Sublist cs := List.dropWhile_sublist isBlank

theorem trim_sublist (cs : List Char) : (trim cs).Sublist cs := by
  have ended (cs : List Char) : (trimEnd cs).Sublist cs := by
    simpa [trimEnd, dropEndWhile] using (List.dropWhile_sublist (l := cs.reverse) isBlank).reverse
  exact (ended _).trans (trimStart_sublist cs)

-- How much room lines take, each with its end.
def extent (ls : List (List Char)) : Nat := total (ls.map (·.length + 1))

@[simp] theorem extent_nil : extent [] = 0 := rfl

@[simp] theorem extent_cons (line : List Char) (ls : List (List Char)) :
    extent (line :: ls) = line.length + 1 + extent ls := rfl

theorem extent_append (a b : List (List Char)) : extent (a ++ b) = extent a + extent b := by
  induction a with
  | nil => simp
  | cons line a ih =>
    simp only [List.cons_append, extent_cons, ih]
    omega

theorem length_intercalate (line : List Char) (ls : List (List Char)) :
    (['\n'].intercalate (line :: ls)).length + 1 = extent (line :: ls) := by
  induction ls generalizing line with
  | nil => simp [List.intercalate]
  | cons next ls ih =>
    have rest := ih next
    simp only [List.intercalate, List.intersperse_cons_cons, List.flatten_cons, List.length_append,
      List.length_singleton, extent_cons] at rest ⊢
    omega

theorem extent_linesFrom_le (seen cs : List Char) :
    extent (linesFrom seen cs) ≤ seen.length + cs.length + 1 := by
  have returned (seen : List Char) : (dropReturn seen).length ≤ seen.length := by
    unfold dropReturn
    split <;> simp
  induction cs generalizing seen with
  | nil =>
    unfold linesFrom
    split <;> simp [extent]
  | cons c cs ih =>
    unfold linesFrom
    split
    · have rest := ih []
      have ended := returned seen
      simp only [extent_cons, List.length_reverse, List.length_nil, List.length_cons] at rest ⊢
      omega
    · have rest := ih (c :: seen)
      simp only [List.length_cons] at rest ⊢
      omega

theorem length_ofLine {loc : Location} {line : List Char} :
    ∀ p ∈ Piece.ofLine loc line, p.text.length ≤ line.length := by
  intro p member
  obtain ⟨part, inside, made⟩ := List.mem_filterMap.1 member
  obtain ⟨whole, split, rfl⟩ := List.mem_map.1 inside
  split at made
  · cases made
  · cases made
    exact Nat.le_trans (length_trim_le whole) (length_of_mem_splitTop split)

-- How much room what is being taken in takes.
def CutState.extent : CutState → Nat
  | .idle => 0
  | .joining _ text _ => text.length + 1
  | .absorbing c => c.piece.text.length + 1

-- Taking in a line makes no more text than there has been.
def Fits (n : Nat) (taken : List Piece × CutState) : Prop :=
  (∀ p ∈ taken.1, p.text.length < n) ∧ taken.2.extent ≤ n

theorem fits_join (loc : Location) {text : List Char} (parens : Int) {n : Nat} (fits : text.length < n) :
    Fits n (CutState.join loc text parens) := by
  unfold CutState.join
  split
  · exact ⟨by simp, fits⟩
  · exact ⟨fun p h => Nat.lt_of_le_of_lt (length_ofLine p h) fits, Nat.zero_le n⟩

theorem length_add_le (c : Compound) (line : List Char) :
    (c.add line).piece.text.length ≤ c.piece.text.length + (line.length + 1) := by
  simp only [Compound.piece, Compound.add, List.reverse_cons]
  cases c.lines.reverse with
  | nil => simp [List.intercalate]
  | cons first others =>
    have before := length_intercalate first others
    have after := length_intercalate first (others ++ [line])
    simp only [List.cons_append, extent_cons, extent_append, extent_nil] at before after ⊢
    omega

theorem fits_absorb {c : Compound} {line : List Char} (rest : List (List Char)) {n : Nat}
    (fits : (c.add line).piece.text.length < n) : Fits n (CutState.absorb c line rest) := by
  unfold CutState.absorb
  dsimp only
  split
  · split
    · exact ⟨by simp, fits⟩
    · exact ⟨by simpa using fits, Nat.zero_le n⟩
  · exact ⟨by simp, fits⟩

theorem fits_next (s : CutState) (number : Nat) (raw : List Char) (rest : List (List Char)) :
    Fits (s.extent + (raw.length + 1)) (s.next number raw rest) := by
  cases s with
  | idle =>
    have bare : (trimStart ((trim raw).dropWhile (· == '\x7d'))).length ≤ raw.length :=
      Nat.le_trans (length_trimStart_le _)
        (Nat.le_trans (List.dropWhile_sublist _).length_le (length_trim_le raw))
    simp only [CutState.next, CutState.startLine, CutState.extent]
    split
    · exact ⟨by simp, Nat.zero_le _⟩
    · split
      · refine fits_absorb rest ?_
        simp only [Compound.piece, Compound.add, List.reverse_singleton, List.intercalate,
          List.intersperse_singleton, List.flatten_singleton]
        omega
      · exact fits_join _ _ (by omega)
  | joining loc text parens =>
    have added := length_trim_le raw
    refine fits_join _ _ ?_
    simp only [List.length_append, List.length_cons, CutState.extent]
    omega
  | absorbing c =>
    refine fits_absorb rest ?_
    have whole := length_add_le c raw
    simp only [CutState.extent]
    omega

theorem length_cutLines (s : CutState) (number : Nat) (ls : List (List Char)) :
    ∀ p ∈ cutLines s number ls, p.text.length < s.extent + extent ls := by
  induction ls generalizing s number with
  | nil =>
    intro p member
    cases s with
    | idle => cases member
    | joining loc text parens =>
      have short := length_ofLine p member
      simp only [CutState.extent]
      omega
    | absorbing c =>
      obtain rfl := List.mem_singleton.1 member
      exact Nat.lt_succ_self _
  | cons raw ls ih =>
    intro p member
    obtain ⟨pieces, state⟩ := fits_next s number raw ls
    simp only [extent_cons]
    rcases List.mem_append.1 member with member | member
    · have short := pieces p member
      omega
    · have short := ih _ _ p member
      omega

theorem length_cutBlock {number : Nat} {text : List Char} :
    ∀ p ∈ cutBlock number text, p.text.length ≤ text.length := by
  intro p member
  have short := length_cutLines .idle number (lines text) p member
  have whole : extent (lines text) ≤ [].length + text.length + 1 := extent_linesFrom_le [] text
  simp only [CutState.extent, List.length_nil] at short whole
  omega

end Lengths

namespace Stmt

section Parts

variable {text inner after : List Char}

theorem eq_of_enclosed? {b : Bracket} (found : b.enclosed? text = some (inner, after)) :
    text = b.opener :: (inner ++ b.closer :: after) := by
  unfold Bracket.enclosed? at found
  split at found
  · cases found
  · split at found
    · rename_i opener
      rw [opener, Bracket.close_eq found]
    · cases found

theorem exists_of_header? (found : header? text = some (inner, after)) :
    ∃ front, text = front ++ '(' :: (inner ++ ')' :: after) := by
  refine ⟨text.takeWhile (· != '('), ?_⟩
  have parts := List.takeWhile_append_dropWhile (p := (· != '(')) (l := text)
  have opens : text.dropWhile (· != '(') = '(' :: (inner ++ ')' :: after) := eq_of_enclosed? found
  rw [← opens, parts]

theorem length_header? (found : header? text = some (inner, after)) :
    inner.length + after.length + 2 ≤ text.length := by
  obtain ⟨front, rfl⟩ := exists_of_header? found
  simp only [List.length_append, List.length_cons]
  omega

theorem length_enclosed? {b : Bracket} (found : b.enclosed? text = some (inner, after)) :
    inner.length + after.length + 2 ≤ text.length := by
  rw [eq_of_enclosed? found]
  simp only [List.length_append, List.length_cons]
  omega

theorem length_afterStatement_le (text : List Char) : (afterStatement text).length ≤ text.length := by
  rw [afterStatement, List.length_drop]
  exact Nat.sub_le _ _

theorem length_afterCompound_lt (found : header? text = some (inner, after)) :
    (afterCompound text).length < text.length := by
  have shorter := length_header? found
  have body := length_trimStart_le after
  rw [afterCompound, found]
  dsimp only
  split
  · cases enclosed : Bracket.curly.enclosed? (trimStart after) with
    | none => exact Nat.lt_of_lt_of_le (Nat.succ_pos _) shorter
    | some parts =>
      have parts := length_enclosed? enclosed
      simp only [Option.map_some, Option.getD_some]
      omega
  · have rest := length_afterStatement_le (trimStart after)
    omega

theorem length_afterCompound_le (text : List Char) : (afterCompound text).length ≤ text.length := by
  cases found : header? text with
  | none =>
    rw [afterCompound, found]
    exact Nat.zero_le _
  | some parts => exact Nat.le_of_lt (length_afterCompound_lt found)

end Parts

section Bodies

variable (read : Location → List Char → Stmt) {c : Cursor}

-- The statements of a body without braces: one, or none if there is no text.
def single (line : Nat) (text : List Char) : List Stmt :=
  if isBlankText text then [] else [read ⟨line, 1⟩ text]

-- A body in braces is read piece by piece; without a closing brace it takes all of the text.
theorem readBody_block (brace : (trimStart c.rest).head? = some '\x7b') {inside after : List Char}
    (parts : (Bracket.curly.enclosed? (trimStart c.rest)).getD ((trimStart c.rest).tail, []) =
      (inside, after)) :
    readBody read c =
      ((cutBlock (c.moveTo (trimStart c.rest)).line inside).map fun p => read p.location p.text,
        (c.moveTo (trimStart c.rest)).moveTo after) := by
  have place : (c.moveTo (trimStart c.rest)).rest = trimStart c.rest := rfl
  rw [readBody]
  simp only [place, if_pos brace, parts]

-- Without braces a compound body ends where the scan for its end stops.
theorem readBody_compound (bare : (trimStart c.rest).head? ≠ some '\x7b')
    (keyword : (leadingKeyword (trimStart c.rest)).isSome = true) :
    readBody read c =
      (single read (c.moveTo (trimStart c.rest)).line ((trimStart c.rest).take
        ((trimStart c.rest).length - (afterCompound (trimStart c.rest)).length)),
        (c.moveTo (trimStart c.rest)).moveTo (afterCompound (trimStart c.rest))) := by
  have place : (c.moveTo (trimStart c.rest)).rest = trimStart c.rest := rfl
  rw [readBody]
  simp only [place, if_neg bare, if_pos keyword]
  rfl

-- Without braces a simple body ends at its semicolon.
theorem readBody_simple (bare : (trimStart c.rest).head? ≠ some '\x7b')
    (plain : leadingKeyword (trimStart c.rest) = none) :
    readBody read c =
      (single read (c.moveTo (trimStart c.rest)).line (beforeTop [';'] (trimStart c.rest)),
        (c.moveTo (trimStart c.rest)).moveTo (afterStatement (trimStart c.rest))) := by
  have place : (c.moveTo (trimStart c.rest)).rest = trimStart c.rest := rfl
  have none : ¬(leadingKeyword (trimStart c.rest)).isSome = true := by simp [plain]
  rw [readBody]
  simp only [place, if_neg bare, if_neg none]
  rfl

-- Where the parts of a body in braces are, it has more characters than what stands in it.
theorem length_block (brace : (trimStart c.rest).head? = some '\x7b') {inside after : List Char}
    (parts : (Bracket.curly.enclosed? (trimStart c.rest)).getD ((trimStart c.rest).tail, []) =
      (inside, after)) : inside.length + 1 ≤ c.rest.length ∧ after.length ≤ c.rest.length := by
  have body := length_trimStart_le c.rest
  cases enclosed : Bracket.curly.enclosed? (trimStart c.rest) with
  | none =>
    obtain ⟨rest, opens⟩ := List.head?_eq_some_iff.1 brace
    rw [enclosed, opens] at parts
    cases parts
    rw [opens] at body
    exact ⟨body, Nat.zero_le _⟩
  | some found =>
    rw [enclosed] at parts
    obtain rfl : found = (inside, after) := parts
    have parts := length_enclosed? enclosed
    omega

theorem length_readBody_le (c : Cursor) : (readBody read c).2.rest.length ≤ c.rest.length := by
  have body := length_trimStart_le c.rest
  by_cases brace : (trimStart c.rest).head? = some '\x7b'
  · rw [readBody_block read brace rfl]
    exact (length_block brace rfl).2
  · by_cases keyword : (leadingKeyword (trimStart c.rest)).isSome = true
    · rw [readBody_compound read brace keyword]
      exact Nat.le_trans (length_afterCompound_le _) body
    · rw [readBody_simple read brace (by simpa using keyword)]
      exact Nat.le_trans (length_afterStatement_le _) body

end Bodies

/-- Whether two readers read texts of less than `n` characters alike. -/
def Agree (n : Nat) (read read' : Location → List Char → Stmt) : Prop :=
  ∀ loc cs, cs.length < n → read loc cs = read' loc cs

section Agreement

variable {n m : Nat} {read read' : Location → List Char → Stmt}

theorem Agree.mono (agree : Agree n read read') (fewer : m ≤ n) : Agree m read read' :=
  fun loc cs short => agree loc cs (Nat.lt_of_lt_of_le short fewer)

theorem Agree.single {line : Nat} {text : List Char} (agree : Agree n read read') (short : text.length < n) :
    single read line text = single read' line text := by
  rw [Stmt.single, Stmt.single, agree _ _ short]

theorem Agree.readBody (c : Cursor) (agree : Agree (c.rest.length + 1) read read') :
    readBody read c = readBody read' c := by
  have body := length_trimStart_le c.rest
  by_cases brace : (trimStart c.rest).head? = some '\x7b'
  · rw [readBody_block read brace rfl, readBody_block read' brace rfl]
    have inside := (length_block brace rfl).1
    congr 1
    refine List.map_congr_left fun p member => agree _ _ ?_
    have piece := length_cutBlock p member
    omega
  · by_cases keyword : (leadingKeyword (trimStart c.rest)).isSome = true
    · rw [readBody_compound read brace keyword, readBody_compound read' brace keyword, agree.single]
      rw [List.length_take]
      omega
    · have plain : leadingKeyword (trimStart c.rest) = none := by simpa using keyword
      have short := length_beforeTop_le [';'] (trimStart c.rest)
      rw [readBody_simple read brace plain, readBody_simple read' brace plain, agree.single (by omega)]

theorem Agree.readChain (branches : Nat) (c : Cursor) (agree : Agree c.rest.length read read') :
    readChain read branches c = readChain read' branches c := by
  induction branches generalizing c with
  | zero => rfl
  | succ branches ih =>
    unfold Stmt.readChain
    cases found : header? c.rest with
    | none => rfl
    | some parts =>
      obtain ⟨cond, after⟩ := parts
      have shorter := length_header? found
      have body := (agree.mono (m := after.length + 1) (by omega)).readBody (c.moveTo after)
      have left := length_readBody_le read' (c.moveTo after)
      have next := length_trimStart_le (Stmt.readBody read' (c.moveTo after)).2.rest
      have after_ : (c.moveTo after).rest = after := rfl
      rw [after_] at left
      simp only [Option.bind_eq_bind, Option.bind_some, body]
      generalize Stmt.readBody read' (c.moveTo after) = result at left next
      obtain ⟨stmts, line, tail⟩ := result
      dsimp only at left next ⊢
      simp only [Cursor.moveTo]
      split
      · have dropped := length_trimStart_le ((trimStart tail).drop 4)
        rw [List.length_drop] at dropped
        rw [ih _ (agree.mono (by dsimp only; omega))]
      · rw [(agree.mono (by simp only [List.length_drop]; omega)).readBody]
      · rfl

theorem Agree.readFor? (loc : Location) (text : List Char) (agree : Agree text.length read read') :
    readFor? read loc text = readFor? read' loc text := by
  unfold Stmt.readFor?
  cases found : header? text with
  | none => rfl
  | some parts =>
    obtain ⟨header, after⟩ := parts
    have shorter := length_header? found
    have clause (part : List Char) (member : part ∈ splitTop [';'] header) :
        readClause read loc.line part = readClause read' loc.line part := by
      have short := length_of_mem_splitTop member
      rw [readClause, readClause, agree _ part (by omega)]
    have body := (agree.mono (m := after.length + 1) (by omega)).readBody
      ((Cursor.mk loc.line text).moveTo after)
    simp only [Option.bind_eq_bind, Option.bind_some, body]
    split
    · rename_i init cond step clauses
      rw [clause init (by simp [clauses]), clause step (by simp [clauses])]
    · rfl

theorem Agree.readWhile? (loc : Location) (text : List Char) (agree : Agree text.length read read') :
    readWhile? read loc text = readWhile? read' loc text := by
  unfold Stmt.readWhile?
  cases found : header? text with
  | none => rfl
  | some parts =>
    obtain ⟨cond, after⟩ := parts
    have shorter := length_header? found
    have body := (agree.mono (m := after.length + 1) (by omega)).readBody
      ((Cursor.mk loc.line text).moveTo after)
    simp only [Option.bind_eq_bind, Option.bind_some, body]

end Agreement

/-- Reading a statement, with the statements in it read by `read`. -/
def readLevel (read : Location → List Char → Stmt) (loc : Location) (cs : List Char) : Stmt :=
  let text := trim cs
  let compound? : Option Stmt :=
    match leadingKeyword text with
    | some .ifWord => (readChain read text.length ⟨loc.line, text⟩).map (Stmt.choose loc)
    | some .forWord => readFor? read loc text
    | some .whileWord => readWhile? read loc text
    | some _ => none
    | none => some (readSimple loc text)
  compound?.getD (.act loc (.ignored (String.ofList text)))

theorem readWithin_succ (fuel : Nat) (loc : Location) (cs : List Char) :
    readWithin (fuel + 1) loc cs = readLevel (readWithin fuel) loc cs := rfl

theorem Agree.readLevel {read read' : Location → List Char → Stmt} {cs : List Char} (loc : Location)
    (agree : Agree cs.length read read') : readLevel read loc cs = readLevel read' loc cs := by
  have trimmed := agree.mono (length_trim_le cs)
  unfold Stmt.readLevel
  dsimp only
  split
  · rw [trimmed.readChain]
  · rw [trimmed.readFor?]
  · rw [trimmed.readWhile?]
  · rfl
  · rfl

-- More fuel than a text has characters makes no difference.
theorem readWithin_eq {f g : Nat} {loc : Location} {cs : List Char} (enough : cs.length < f)
    (enough' : cs.length < g) : readWithin f loc cs = readWithin g loc cs := by
  induction f generalizing g loc cs with
  | zero => omega
  | succ f ih =>
    cases g with
    | zero => omega
    | succ g =>
      rw [readWithin_succ, readWithin_succ]
      exact Agree.readLevel loc fun loc' inner short => ih (by omega) (by omega)

/-- Reading a statement comes down to reading the statements in it. -/
theorem read_eq (loc : Location) (cs : List Char) : read loc cs = readLevel read loc cs := by
  rw [read, readWithin_succ]
  exact Agree.readLevel loc fun loc' inner short => readWithin_eq short (Nat.lt_succ_self _)

end Stmt

end Breadboard
