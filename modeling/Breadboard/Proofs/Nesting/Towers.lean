import Breadboard.Proofs.Canonical.Routines
import Breadboard.Proofs.Compound.Braces
import Breadboard.Proofs.Nesting.Depth

set_option autoImplicit false

/-!
Towers of statements. Main statement: expressions and conditions are cut off at a depth and statements are not,
however they stand in one another; it is only the length of a source that bounds how deep they are nested.
-/
namespace Breadboard

open Text
open Canonical (Code InLine)

/-- What opens a layer of a tower. -/
inductive Opener where
  | ifWord
  | forWord
  | whileWord
  deriving DecidableEq

def Opener.head : Opener → Head
  | ifWord => .choice ['a']
  | forWord => .counted ['a'] ['b'] ['c']
  | whileWord => .repeated ['a']

/-- How a statement stands in another: as its body, without braces or in them, or as the first or the last clause
of a `for`. -/
inductive Layer where
  | bare (opener : Opener)
  | braced (opener : Opener)
  | init
  | step
  deriving DecidableEq

def Layer.around : Layer → Body → Body
  | bare opener, s => .headed opener.head [' '] [' '] s
  | braced opener, s => .headed opener.head [' '] [' '] (.block (' ' :: (s.text ++ [' '])))
  | init, s => .headed (.counted s.text ['b'] ['c']) [' '] [' '] (.block [])
  | step, s => .headed (.counted ['a'] ['b'] s.text) [' '] [' '] (.block [])

/-- Statements that stand in one another, an empty loop in the last of them. -/
def tower (layers : List Layer) : Body := layers.foldr Layer.around (.headed (.repeated ['a']) [' '] [' '] (.block []))

/-- A sketch with a tower in its `setup`. -/
def towerSource (layers : List Layer) : String :=
  String.ofList (Canonical.routineHead "setup" [] ++ [' '] ++ '\x7b' :: ((tower layers).text ++ ['\x7d']))

section Stacks

/-- What all parts of a tower are: a compound statement without an `else`, closed code on one line that is one
part of any text. -/
structure Stacked (s : Body) : Prop where
  proper : s.Proper
  nested : s.isNested = true
  noElse : s.hasElse = false
  whole : Whole s.text
  code : Code InLine InLine s.text

variable {s : Body} {h : Head}

theorem blank_space : ∀ c ∈ [' '], isBlank c = true := by decide

theorem code_blank : Code InLine InLine [' '] := .char rfl (by decide) .nil

theorem code_head (h : Head) (inner : Code InLine InLine h.inner) : Code InLine InLine (h.text [' ']) := by
  have word : Code InLine InLine h.word :=
    .ofPlain (fun c member => Canonical.isPlain_of_isWordChar (h.isWordChar_word c member))
      fun c member => .of_isWordChar (h.isWordChar_word c member)
  exact (word.append code_blank).append inner.ofParens

theorem stacked_headed {body : Body} (proper : h.Proper) (inner : Code InLine InLine h.inner) (fine : body.Proper)
    (noElse : body.hasElse = false) (whole : Whole body.text) (code : Code InLine InLine body.text) :
    Stacked (.headed h [' '] [' '] body) where
  proper := ⟨proper, by decide, fine⟩
  nested := rfl
  noElse := noElse
  whole := by
    have space : Whole [' '] := .plain (by decide)
    have flat : Closed [' '] := .plain (by decide)
    exact (h.whole_text proper blank_space).append (h.closed_text proper blank_space) (space.append flat whole)
  code := (code_head h inner).append (code_blank.append code)

theorem stacked_block {inside : List Char} (proper : h.Proper) (inner : Code InLine InLine h.inner)
    (closed : Closed inside) (code : Code InLine InLine inside) : Stacked (.headed h [' '] [' '] (.block inside)) :=
  stacked_headed proper inner closed rfl (.group .curly closed) (.group .curly code .nil)

theorem Opener.proper_head (o : Opener) : o.head.Proper := by cases o <;> decide

theorem Opener.code_head (o : Opener) : Code InLine InLine o.head.inner := by
  cases o <;> exact .ofPlain (by decide) (by decide)

theorem Stacked.around (stacked : Stacked s) (l : Layer) : Stacked (l.around s) := by
  have closed := Body.closed_text stacked.proper
  have others : Code InLine InLine [';', 'b', ';', 'c'] := .ofPlain (by decide) (by decide)
  have earlier : Code InLine InLine ['a', ';', 'b', ';'] := .ofPlain (by decide) (by decide)
  have space : Closed [' '] := .plain (by decide)
  cases l with
  | bare o => exact stacked_headed o.proper_head o.code_head stacked.proper stacked.noElse stacked.whole stacked.code
  | braced o =>
    exact stacked_block o.proper_head o.code_head (space.append (closed.append space))
      (code_blank.append (stacked.code.append code_blank))
  | init =>
    exact stacked_block ⟨⟨closed, by decide, by decide⟩, stacked.whole, by decide, by decide⟩
      (stacked.code.append others) .nil .nil
  | step =>
    exact stacked_block ⟨⟨by decide, by decide, closed⟩, by decide, by decide, stacked.whole⟩
      (earlier.append stacked.code) .nil .nil

theorem stacked_tower (layers : List Layer) : Stacked (tower layers) := by
  induction layers with
  | nil => exact stacked_block (by decide) (.ofPlain (by decide) (by decide)) .nil .nil
  | cons l layers ih => exact ih.around l

end Stacks

section Reading

variable {s : Body}

theorem Stacked.inLine (stacked : Stacked s) : '\n' ∉ s.text := by
  intro member
  exact absurd (stacked.code.inLine (fun _ h => h) '\n' member) (by decide)

-- On a line of its own such a statement is cut out as a whole.
theorem Stacked.cutBlock_eq (stacked : Stacked s) {a b : List Char} (before : ∀ c ∈ a, c = ' ')
    (behind : ∀ c ∈ b, c = ' ') (number : Nat) :
    cutBlock number (a ++ (s.text ++ b)) = [⟨s.text, ⟨number, byteSize a + 1⟩⟩] := by
  obtain ⟨k, keyword⟩ := Option.isSome_iff_exists.1 (Body.isSome_leadingKeyword stacked.proper stacked.nested)
  have blank {c : Char} (space : c = ' ') : isBlank c = true := by rw [space]; rfl
  have starts := Body.starts_word stacked.proper stacked.nested
  refine cutBlock_compound (fun c h => blank (before c h)) (fun c h => blank (behind c h))
    (Body.tight_text stacked.proper) starts ?_ keyword number
  simp only [List.mem_append, not_or]
  refine ⟨fun h => ?_, stacked.inLine, fun h => ?_⟩
  · exact absurd (before _ h) (by decide)
  · exact absurd (behind _ h) (by decide)

theorem depth_read_letter (line : Nat) {c : Char} (letter : c ∈ ['a', 'b', 'c']) :
    Stmt.depthClause (Stmt.readClause Stmt.read line [c]) = 1 := by
  simp only [List.mem_cons, List.not_mem_nil, or_false] at letter
  obtain rfl | rfl | rfl := letter <;> rfl

theorem Opener.depth_statement (o : Opener) (loc : Location) (st : Stmt) :
    (o.head.statement loc [st] .done).depth = st.depth + 1 := by
  have some_ := st.one_le_depth
  cases o with
  | ifWord => simp [head, Head.statement, Stmt.depth, Chain.depth, Stmt.depthAll]
  | whileWord => simp [head, Head.statement, Stmt.depth, Stmt.depthAll]
  | forWord =>
    have first := depth_read_letter loc.line (c := 'a') (by decide)
    have last := depth_read_letter loc.line (c := 'c') (by decide)
    simp only [head, Head.statement, Stmt.depth, first, last, Stmt.depthAll]
    omega

-- A loop with nothing in its body is nested as deep as its clauses.
theorem depth_read_counted {init cond step : List Char} (proper : (Head.counted init cond step).Proper)
    (loc : Location) : (Stmt.read loc ((Head.counted init cond step).block [' '] [])).depth =
      max (Stmt.depthClause (Stmt.readClause Stmt.read loc.line init))
        (Stmt.depthClause (Stmt.readClause Stmt.read loc.line step)) + 1 := by
  have made := Head.read_block_alone _ proper blank_space .nil loc
  exact (congrArg Stmt.depth made).trans (congrArg (· + 1) (Nat.max_zero _))

-- A layer adds one to the depth of the statement in it, of which it takes no notice.
theorem Stacked.depth_around (stacked : Stacked s) (l : Layer) (loc : Location) :
    ∃ loc', (Stmt.read loc (l.around s).text).depth = (Stmt.read loc' s.text).depth + 1 := by
  have code := Body.code_of_isNested stacked.nested
  have blanks : ∀ c ∈ [' '] ++ [' '], isBlank c = true := by decide
  have clause (line : Nat) : Stmt.readClause Stmt.read line s.text = some (Stmt.read ⟨line, 1⟩ s.text) := by
    have solid : isBlankText s.text = false := (Body.starts_solid stacked.proper).isBlankText_append []
    rw [Stmt.readClause, solid]
    rfl
  cases l with
  | bare o =>
    have left := Body.left_eq_nil stacked.proper stacked.noElse
    have reach : s.reach = s.text := by simp [Body.reach, left, code]
    have bare : s.isBlock = false := by
      cases s with
      | block inside => cases stacked.nested
      | simple | headed | branched => rfl
    have made : Stmt.read loc (o.head.text [' '] ++ ([' '] ++ s.text)) = _ :=
      read_bare o.proper_head stacked.proper bare blanks fun _ => left
    rw [reach] at made
    exact ⟨_, (congrArg Stmt.depth made).trans (o.depth_statement loc _)⟩
  | braced o =>
    have closed := (stacked.around (.braced o)).proper.2.2
    have made := o.head.read_block_alone o.proper_head blank_space closed loc
    have cut := stacked.cutBlock_eq (a := [' ']) (b := [' ']) (by simp) (by simp)
      (loc.line + newlines (o.head.text [' ']))
    rw [List.singleton_append] at cut
    rw [cut] at made
    exact ⟨_, (congrArg Stmt.depth made).trans (o.depth_statement loc _)⟩
  | init =>
    have made := depth_read_counted (stacked.around .init).proper.1 loc
    have some_ := (Stmt.read ⟨loc.line, 1⟩ s.text).one_le_depth
    rw [clause, depth_read_letter loc.line (by decide), Stmt.depthClause, Nat.max_eq_left some_] at made
    exact ⟨_, made⟩
  | step =>
    have made := depth_read_counted (stacked.around .step).proper.1 loc
    have some_ := (Stmt.read ⟨loc.line, 1⟩ s.text).one_le_depth
    rw [clause, depth_read_letter loc.line (by decide), Stmt.depthClause, Nat.max_eq_right some_] at made
    exact ⟨_, made⟩

theorem depth_read_tower (layers : List Layer) (loc : Location) :
    (Stmt.read loc (tower layers).text).depth = layers.length + 1 := by
  induction layers generalizing loc with
  | nil =>
    have made : Stmt.read loc ((Head.repeated ['a']).block [' '] []) = _ :=
      Head.read_block_alone _ (by decide) blank_space .nil loc
    exact congrArg Stmt.depth made
  | cons l layers ih =>
    obtain ⟨loc', deeper⟩ := (stacked_tower layers).depth_around l loc
    exact deeper.trans (congrArg (· + 1) (ih loc'))

end Reading

section Sources

-- A sketch with a tower in its `setup` is read as that tower, and no other statement.
theorem ofSource_towerSource (layers : List Layer) :
    ∃ globals number, Program.ofSource (towerSource layers) =
      ⟨globals, .empty, [Stmt.read ⟨number, 1⟩ (tower layers).text], []⟩ := by
  have stacked := stacked_tower layers
  have identifier : isIdentifier "setup".toList = true := rfl
  have head := Canonical.code_routineHead [] identifier
  have outside : Canonical.Outside (Canonical.routineHead "setup" [] ++ [' ']) :=
    (Canonical.outside_routineHead [] identifier).append (.ofChars (by decide))
  have code := ((head.mono (fun _ h => h) fun _ => Canonical.InWords.inLine).append code_blank).append
    (.group .curly stacked.code .nil)
  have bare : stripComments (towerSource layers).toList = (towerSource layers).toList := by
    have whole := @Code.stripFrom_append _ [] _ _ code
    rw [List.append_nil] at whole
    rw [towerSource, String.toList_ofList]
    exact whole.trans (List.append_nil _)
  have block : blocks (towerSource layers).toList =
      [⟨' ' :: (Canonical.routineHead "setup" []).reverse, (tower layers).text⟩] := by
    have found := outside [] ('\x7b' :: ((tower layers).text ++ ['\x7d']))
    rw [towerSource, String.toList_ofList, blocks, found]
    exact stacked.code.blocksFrom_block _
  obtain ⟨line, signature⟩ := Canonical.signature?_routineHead identifier (by decide) [] []
  rw [List.append_nil] at signature
  have body := stacked.cutBlock_eq (a := []) (b := []) (by simp) (by simp)
    (Block.mk (' ' :: (Canonical.routineHead "setup" []).reverse) (tower layers).text).line
  rw [List.nil_append, List.append_nil] at body
  rw [Program.ofSource, Outline.ofSource, bare, block, List.foldl_cons, Outline.addBlock, signature]
  simp only [if_true, body]
  exact ⟨_, _, rfl⟩

theorem depth_towerSource (layers : List Layer) :
    (Program.ofSource (towerSource layers)).depth = layers.length + 1 := by
  obtain ⟨globals, number, program⟩ := ofSource_towerSource layers
  have single (st : Stmt) : (Program.mk globals .empty [st] []).depth = st.depth := Nat.max_zero st.depth
  rw [program, single, depth_read_tower]

/-- Expressions and conditions are cut off: what is read from a text is nested no deeper than the levels that are
read. Statements are not. A program keeps to a limit if its source has no more opening parentheses. But a tower keeps
to it only if it has fewer layers, whatever they are, bodies with braces or without or clauses, as it is read to its
last layer; so that every limit is exceeded by some source. -/
theorem nesting_is_not_cut_off (limit : Nat) (cs : List Char) (source : String) (layers : List Layer) :
    ((Expr.read cs).depth ≤ maxLevels + 1 ∧ (Cond.read cs).depth ≤ maxLevels + 2) ∧
    (Program.ofSource source).depth ≤ openings source.toList ∧
    ((Program.ofSource (towerSource layers)).depth ≤ limit ↔ layers.length < limit) ∧
    ∃ deeper, limit < (Program.ofSource deeper).depth := by
  refine ⟨⟨Expr.depth_readWithin _ cs, Cond.depth_readWithin _ cs⟩, Program.depth_ofSource_le source, ?_, ?_⟩
  · rw [depth_towerSource]
    exact Nat.succ_le_iff
  · refine ⟨towerSource (List.replicate limit (.bare .ifWord)), ?_⟩
    rw [depth_towerSource, List.length_replicate]
    exact Nat.lt_succ_self limit

end Sources

end Breadboard
