import Breadboard.Proofs.Compound.Heads
import Breadboard.Proofs.Numbering.Cutting

set_option autoImplicit false

/-!
The lines of the statements in a statement. Main statement: where the lines of a text get other numbers but
keep their distances, the statement that is read from it is the same, with all lines in it renumbered alike.
-/
namespace Breadboard

open Text

mutual

/-- A statement with other line numbers, in it as well. -/
def Stmt.renumber (f : Nat → Nat) : Stmt → Stmt
  | .act loc action => .act (loc.renumber f) action
  | .call loc name args => .call (loc.renumber f) name args
  | .choose loc chain => .choose (loc.renumber f) (chain.renumber f)
  | .forLoop loc init cond step body =>
    .forLoop (loc.renumber f) (Stmt.renumberClause f init) cond (Stmt.renumberClause f step)
      (Stmt.renumberAll f body)
  | .whileLoop loc cond body => .whileLoop (loc.renumber f) cond (Stmt.renumberAll f body)

def Chain.renumber (f : Nat → Nat) : Chain → Chain
  | .done => .done
  | .otherwise body => .otherwise (Stmt.renumberAll f body)
  | .branch cond body rest => .branch cond (Stmt.renumberAll f body) (rest.renumber f)

def Stmt.renumberAll (f : Nat → Nat) : List Stmt → List Stmt
  | [] => []
  | st :: rest => st.renumber f :: Stmt.renumberAll f rest

def Stmt.renumberClause (f : Nat → Nat) : Option Stmt → Option Stmt
  | none => none
  | some st => some (st.renumber f)

end

mutual

/-- The lines on which a statement and the statements in it stand. -/
def Stmt.lineNumbers : Stmt → List Nat
  | .act loc _ => [loc.line]
  | .call loc _ _ => [loc.line]
  | .choose loc chain => loc.line :: chain.lineNumbers
  | .forLoop loc init _ step body =>
    loc.line :: (Stmt.clauseLineNumbers init ++ Stmt.clauseLineNumbers step ++ Stmt.allLineNumbers body)
  | .whileLoop loc _ body => loc.line :: Stmt.allLineNumbers body

def Chain.lineNumbers : Chain → List Nat
  | .done => []
  | .otherwise body => Stmt.allLineNumbers body
  | .branch _ body rest => Stmt.allLineNumbers body ++ rest.lineNumbers

def Stmt.allLineNumbers : List Stmt → List Nat
  | [] => []
  | st :: rest => st.lineNumbers ++ Stmt.allLineNumbers rest

def Stmt.clauseLineNumbers : Option Stmt → List Nat
  | none => []
  | some st => st.lineNumbers

end

section Renumbered

variable (f : Nat → Nat)

@[simp] theorem Stmt.renumberAll_eq (body : List Stmt) : renumberAll f body = body.map (renumber f) := by
  induction body with
  | nil => rfl
  | cons st body ih => rw [renumberAll, ih, List.map_cons]

@[simp] theorem Stmt.renumberClause_eq (clause : Option Stmt) :
    renumberClause f clause = clause.map (renumber f) := by
  cases clause <;> rfl

mutual

theorem Stmt.lineNumbers_renumber : (st : Stmt) → (st.renumber f).lineNumbers = st.lineNumbers.map f
  | .act _ _ => rfl
  | .call _ _ _ => rfl
  | .choose loc chain => congrArg (f loc.line :: ·) (Chain.lineNumbers_renumber chain)
  | .forLoop loc init cond step body => by
    have first := Stmt.clauseLineNumbers_renumber init
    have last := Stmt.clauseLineNumbers_renumber step
    have inside := Stmt.allLineNumbers_renumber body
    rw [Stmt.renumber, Stmt.lineNumbers, Stmt.lineNumbers, first, last, inside]
    simp [Location.renumber]
  | .whileLoop loc _ body => congrArg (f loc.line :: ·) (Stmt.allLineNumbers_renumber body)

theorem Chain.lineNumbers_renumber : (chain : Chain) →
    (chain.renumber f).lineNumbers = chain.lineNumbers.map f
  | .done => rfl
  | .otherwise body => Stmt.allLineNumbers_renumber body
  | .branch cond body rest => by
    have inside := Stmt.allLineNumbers_renumber body
    have others := Chain.lineNumbers_renumber rest
    rw [Chain.renumber, Chain.lineNumbers, Chain.lineNumbers, inside, others, List.map_append]

theorem Stmt.allLineNumbers_renumber : (body : List Stmt) →
    Stmt.allLineNumbers (Stmt.renumberAll f body) = (Stmt.allLineNumbers body).map f
  | [] => rfl
  | st :: rest => by
    have first := Stmt.lineNumbers_renumber st
    have others := Stmt.allLineNumbers_renumber rest
    rw [Stmt.renumberAll, Stmt.allLineNumbers, Stmt.allLineNumbers, first, others, List.map_append]

theorem Stmt.clauseLineNumbers_renumber : (clause : Option Stmt) →
    Stmt.clauseLineNumbers (Stmt.renumberClause f clause) = (Stmt.clauseLineNumbers clause).map f
  | none => rfl
  | some st => Stmt.lineNumbers_renumber st

end

end Renumbered

namespace Stmt

section Parts

variable {text inner after : List Char}

theorem sublists_of_enclosed? {b : Bracket} (found : b.enclosed? text = some (inner, after)) :
    inner.Sublist text ∧ after.Sublist text := by
  rw [eq_of_enclosed? found]
  exact ⟨(List.sublist_append_left ..).cons _, ((List.sublist_cons_self ..).trans (List.sublist_append_right ..)).cons _⟩

theorem sublists_of_header? (found : header? text = some (inner, after)) :
    inner.Sublist text ∧ after.Sublist text := by
  obtain ⟨inside, behind⟩ := sublists_of_enclosed? found
  exact ⟨inside.trans (List.dropWhile_sublist _), behind.trans (List.dropWhile_sublist _)⟩

theorem afterStatement_sublist (text : List Char) : (afterStatement text).Sublist text :=
  List.drop_sublist _ _

theorem afterCompound_sublist (text : List Char) : (afterCompound text).Sublist text := by
  cases found : header? text with
  | none =>
    rw [afterCompound, found]
    exact List.nil_sublist _
  | some parts =>
    obtain ⟨inner, after⟩ := parts
    have body := (trimStart_sublist after).trans (sublists_of_header? found).2
    rw [afterCompound, found]
    dsimp only
    split
    · cases enclosed : Bracket.curly.enclosed? (trimStart after) with
      | none => exact List.nil_sublist _
      | some parts =>
        exact (sublists_of_enclosed? enclosed).2.trans body
    · exact (afterStatement_sublist _).trans body

-- What stands in the braces of a body, and what follows them.
theorem sublists_of_block {inside : List Char}
    (parts : (Bracket.curly.enclosed? text).getD (text.tail, []) = (inside, after)) :
    inside.Sublist text ∧ after.Sublist text := by
  cases enclosed : Bracket.curly.enclosed? text with
  | none =>
    rw [enclosed] at parts
    cases parts
    exact ⟨List.tail_sublist _, List.nil_sublist _⟩
  | some found =>
    rw [enclosed] at parts
    obtain rfl : found = (inside, after) := parts
    exact sublists_of_enclosed? enclosed

end Parts

section Tracking

variable {f : Nat → Nat} {lo hi : Nat} {read : Location → List Char → Stmt} {c : Cursor} {rest : List Char}

def Cursor.renumber (f : Nat → Nat) (c : Cursor) : Cursor := { c with line := f c.line }

@[simp] theorem Cursor.rest_renumber (f : Nat → Nat) (c : Cursor) : (c.renumber f).rest = c.rest := rfl

@[simp] theorem Cursor.rest_moveTo (c : Cursor) (rest : List Char) : (c.moveTo rest).rest = rest := rfl

/-- Whether a cursor and the text behind it stand on lines from `lo` on and in front of line `hi`. -/
def Cursor.StandsIn (lo hi : Nat) (c : Cursor) : Prop := Breadboard.StandsIn lo hi c.line c.rest

/-- Whether a reader of statements gives the lines of a text to what it reads from it. -/
def Tracks (f : Nat → Nat) (lo hi : Nat) (read : Location → List Char → Stmt) : Prop :=
  ∀ loc text, StandsIn lo hi loc.line text → read (loc.renumber f) text = (read loc text).renumber f

theorem Cursor.moveTo_renumber (moves : Moves f lo hi) (stands : c.StandsIn lo hi) (rest : List Char) :
    (c.renumber f).moveTo rest = (c.moveTo rest).renumber f := by
  have low := stands.low
  have high := stands.high
  have line := moves c.line (c.line + (newlines c.rest - newlines rest)) low (Nat.le_add_right ..) (by omega)
  rw [Nat.add_sub_cancel_left] at line
  simp only [moveTo, renumber, line]

theorem Cursor.StandsIn.moveTo (stands : c.StandsIn lo hi) (part : rest.Sublist c.rest) :
    (c.moveTo rest).StandsIn lo hi := by
  have low := stands.low
  have high := stands.high
  have fewer := newlines_le_of_sublist part
  refine ⟨Nat.le_trans low (Nat.le_add_right ..), ?_⟩
  change c.line + (newlines c.rest - newlines rest) + newlines rest < hi
  omega

theorem Tracks.single (tracks : Tracks f lo hi read) {line : Nat} {text : List Char}
    (stands : Breadboard.StandsIn lo hi line text) :
    single read (f line) text = (single read line text).map (renumber f) := by
  unfold Stmt.single
  split
  · rfl
  · exact congrArg ([·]) (tracks ⟨line, 1⟩ text stands)

variable (moves : Moves f lo hi) (tracks : Tracks f lo hi read)

include moves tracks

theorem Tracks.block {line : Nat} {inside : List Char} (stands : Breadboard.StandsIn lo hi line inside) :
    (cutBlock (f line) inside).map (fun p => read p.location p.text) =
      ((cutBlock line inside).map fun p => read p.location p.text).map (renumber f) := by
  have pieces := cutBlock_renumber f moves stands.low stands.lines_le
  rw [pieces, List.map_map, List.map_map]
  refine List.map_congr_left fun p member => ?_
  exact tracks p.location p.text ((standsIn_of_mem_cutBlock member).mono stands.low stands.lines_le)

-- The body of a statement keeps to the lines of its text, and so does what follows it.
theorem Tracks.readBody (stands : c.StandsIn lo hi) :
    readBody read (c.renumber f) =
        ((readBody read c).1.map (renumber f), (readBody read c).2.renumber f) ∧
      (readBody read c).2.StandsIn lo hi := by
  have trimmed := trimStart_sublist c.rest
  have start := stands.moveTo trimmed
  have place := Cursor.moveTo_renumber moves stands (trimStart c.rest)
  have onward (rest : List Char) := Cursor.moveTo_renumber moves start rest
  by_cases brace : (trimStart c.rest).head? = some '\x7b'
  · obtain ⟨⟨inside, after⟩, parts⟩ : ∃ parts,
        (Bracket.curly.enclosed? (trimStart c.rest)).getD ((trimStart c.rest).tail, []) = parts := ⟨_, rfl⟩
    obtain ⟨inner, behind⟩ := sublists_of_block parts
    have block := Tracks.block moves tracks (Breadboard.StandsIn.part start inner)
    rw [readBody_block read brace parts, readBody_block read (c := c.renumber f) brace parts]
    rw [Cursor.rest_renumber, place, onward]
    exact ⟨Prod.ext block rfl, start.moveTo behind⟩
  · by_cases keyword : (leadingKeyword (trimStart c.rest)).isSome = true
    · have single := tracks.single (Breadboard.StandsIn.part start (List.take_sublist
        ((trimStart c.rest).length - (afterCompound (trimStart c.rest)).length) _))
      rw [readBody_compound read brace keyword, readBody_compound read (c := c.renumber f) brace keyword]
      rw [Cursor.rest_renumber, place, onward]
      exact ⟨Prod.ext single rfl, start.moveTo (afterCompound_sublist _)⟩
    · have plain : leadingKeyword (trimStart c.rest) = none := by simpa using keyword
      have single := tracks.single (Breadboard.StandsIn.part start (beforeTop_sublist [';'] _))
      rw [readBody_simple read brace plain, readBody_simple read (c := c.renumber f) brace plain]
      rw [Cursor.rest_renumber, place, onward]
      exact ⟨Prod.ext single rfl, start.moveTo (afterStatement_sublist _)⟩

theorem Tracks.readOthers {branches : Nat} (stands : c.StandsIn lo hi)
    (chain : ∀ c : Cursor, c.StandsIn lo hi →
      readChain read branches (c.renumber f) = (readChain read branches c).map (Chain.renumber f)) :
    readOthers read branches (c.renumber f) = (readOthers read branches c).map (Chain.renumber f) := by
  have start := stands.moveTo (trimStart_sublist c.rest)
  have place := Cursor.moveTo_renumber moves stands (trimStart c.rest)
  have word : ((trimStart c.rest).drop 4).Sublist (trimStart c.rest) := List.drop_sublist _ _
  have onward (rest : List Char) := Cursor.moveTo_renumber moves start rest
  simp only [Stmt.readOthers, Cursor.rest_renumber, place, Cursor.rest_moveTo, onward]
  split
  · exact chain _ (start.moveTo ((trimStart_sublist _).trans word))
  · rw [(Tracks.readBody moves tracks (start.moveTo word)).1]
    simp [Chain.renumber]
  · rfl

theorem Tracks.readChain (branches : Nat) (stands : c.StandsIn lo hi) :
    readChain read branches (c.renumber f) = (readChain read branches c).map (Chain.renumber f) := by
  induction branches generalizing c with
  | zero => rfl
  | succ branches ih =>
    cases header : header? c.rest with
    | none =>
      have header' : header? (c.renumber f).rest = none := header
      rw [Stmt.readChain, Stmt.readChain, header, header']
      rfl
    | some parts =>
      obtain ⟨cond, after⟩ := parts
      have start := stands.moveTo (sublists_of_header? header).2
      obtain ⟨body, behind⟩ := Tracks.readBody moves tracks start
      have others := Tracks.readOthers moves tracks behind fun c => ih
      rw [readChain_succ read branches c header, readChain_succ read branches (c.renumber f) header,
        Cursor.moveTo_renumber moves stands, body, others]
      cases Stmt.readOthers read branches (Stmt.readBody read (c.moveTo after)).2 <;> simp [Chain.renumber]

theorem Tracks.readFor? {loc : Location} {text : List Char} (stands : Breadboard.StandsIn lo hi loc.line text) :
    readFor? read (loc.renumber f) text = (readFor? read loc text).map (renumber f) := by
  unfold Stmt.readFor?
  cases found : header? text with
  | none => rfl
  | some parts =>
    obtain ⟨header, after⟩ := parts
    obtain ⟨inside, behind⟩ := sublists_of_header? found
    have start : (Cursor.mk loc.line text).StandsIn lo hi := stands
    obtain ⟨body, -⟩ := Tracks.readBody moves tracks (start.moveTo behind)
    have place : (Cursor.mk (loc.renumber f).line text).moveTo after =
        ((Cursor.mk loc.line text).moveTo after).renumber f := Cursor.moveTo_renumber moves start after
    have clause (part : List Char) (member : part ∈ splitTop [';'] header) :
        readClause read (loc.renumber f).line part = (readClause read loc.line part).map (renumber f) := by
      have inner := stands.part ((sublist_of_mem_splitTop member).trans inside)
      unfold readClause
      split
      · rfl
      · exact congrArg some (tracks ⟨loc.line, 1⟩ part inner)
    simp only [Option.bind_eq_bind, Option.bind_some, place, body]
    split
    · rename_i init cond step clauses
      rw [clause init (by simp [clauses]), clause step (by simp [clauses])]
      simp [renumber]
    · rfl

theorem Tracks.readWhile? {loc : Location} {text : List Char} (stands : Breadboard.StandsIn lo hi loc.line text) :
    readWhile? read (loc.renumber f) text = (readWhile? read loc text).map (renumber f) := by
  unfold Stmt.readWhile?
  cases found : header? text with
  | none => rfl
  | some parts =>
    obtain ⟨cond, after⟩ := parts
    have start : (Cursor.mk loc.line text).StandsIn lo hi := stands
    obtain ⟨body, -⟩ := Tracks.readBody moves tracks (start.moveTo (sublists_of_header? found).2)
    have place : (Cursor.mk (loc.renumber f).line text).moveTo after =
        ((Cursor.mk loc.line text).moveTo after).renumber f := Cursor.moveTo_renumber moves start after
    simp only [Option.bind_eq_bind, Option.bind_some, place, body]
    simp [renumber]

omit moves tracks in
theorem readSimple_renumber (loc : Location) (text : List Char) :
    readSimple (loc.renumber f) text = (readSimple loc text).renumber f := by
  unfold readSimple
  dsimp only
  split
  · rfl
  · rfl
  · split
    · rfl
    · split <;> rfl

theorem Tracks.readLevel : Tracks f lo hi (readLevel read) := by
  intro loc cs stands
  have text := stands.part (trim_sublist cs)
  unfold Stmt.readLevel
  dsimp only
  cases leadingKeyword (trim cs) with
  | none => exact readSimple_renumber loc (trim cs)
  | some k =>
    have made {compound : Option Stmt} : (compound.map (renumber f)).getD
        (.act (loc.renumber f) (.ignored (String.ofList (trim cs)))) =
          (compound.getD (.act loc (.ignored (String.ofList (trim cs))))).renumber f := by
      cases compound <;> rfl
    rw [← made]
    refine congrArg (Option.getD · _) ?_
    cases k with
    | ifWord =>
      have chain := Tracks.readChain moves tracks (c := ⟨loc.line, trim cs⟩) (trim cs).length text
      have place : (Cursor.mk loc.line (trim cs)).renumber f = ⟨(loc.renumber f).line, trim cs⟩ := rfl
      rw [place] at chain
      dsimp only
      rw [chain, Option.map_map, Option.map_map]
      rfl
    | forWord => exact Tracks.readFor? moves tracks text
    | whileWord => exact Tracks.readWhile? moves tracks text
    | elseIf => rfl
    | elseWord => rfl

omit tracks in
theorem tracks_readWithin (fuel : Nat) : Tracks f lo hi (readWithin fuel) := by
  induction fuel with
  | zero => exact fun _ _ _ => rfl
  | succ fuel ih => exact Tracks.readLevel moves ih

omit tracks in
/-- Reading a statement gives it the lines of its text. -/
theorem tracks_read : Tracks f lo hi Stmt.read := fun loc cs => tracks_readWithin moves (cs.length + 1) loc cs

end Tracking

end Stmt

end Breadboard
