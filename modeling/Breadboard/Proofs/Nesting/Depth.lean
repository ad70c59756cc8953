import Breadboard.Proofs.Cutting
import Breadboard.Proofs.Numbering.Sources

set_option autoImplicit false

/-!
How deep what is read from a source is nested. Main statements: no expression and no condition is nested deeper than
the levels that are read, and no statement is nested deeper than the source has opening parentheses.
-/
namespace Breadboard

open Text

mutual

/-- How many calls stand in one another in an expression, its innermost part included. -/
def Expr.depth : Expr → Nat
  | .digitalRead pin => pin.depth + 1
  | .analogRead pin => pin.depth + 1
  | .builtin _ args => Expr.depthAll args + 1
  | .number _ | .text _ | .millis | .micros | .var _ | .arithmetic _ => 1

def Expr.depthAll : List Expr → Nat
  | [] => 0
  | e :: es => max e.depth (Expr.depthAll es)

end

mutual

def Cond.depth : Cond → Nat
  | .all parts => Cond.depthAll parts + 1
  | .any parts => Cond.depthAll parts + 1
  | .not inner => inner.depth + 1
  | .compare lhs _ rhs => max lhs.depth rhs.depth + 1
  | .truth e => e.depth + 1

def Cond.depthAll : List Cond → Nat
  | [] => 0
  | c :: cs => max c.depth (Cond.depthAll cs)

end

section Levels

variable {n : Nat}

theorem Expr.depthAll_le_iff {args : List Expr} : depthAll args ≤ n ↔ ∀ e ∈ args, e.depth ≤ n := by
  induction args with
  | nil => simp [depthAll]
  | cons e args ih => rw [depthAll, Nat.max_le, ih, List.forall_mem_cons]

theorem Cond.depthAll_le_iff {parts : List Cond} : depthAll parts ≤ n ↔ ∀ c ∈ parts, c.depth ≤ n := by
  induction parts with
  | nil => simp [depthAll]
  | cons c parts ih => rw [depthAll, Nat.max_le, ih, List.forall_mem_cons]

theorem Expr.one_le_depth (e : Expr) : 1 ≤ e.depth := by
  cases e <;> simp [depth]

theorem Cond.one_le_depth (c : Cond) : 1 ≤ c.depth := by
  cases c <;> simp [depth]

theorem Expr.depthAll_map {read : List Char → Expr} (within : ∀ cs, (read cs).depth ≤ n) (parts : List (List Char)) :
    depthAll (parts.map read) ≤ n :=
  depthAll_le_iff.2 (List.forall_mem_map.2 fun part _ => within part)

theorem Cond.depthAll_map {read : List Char → Cond} (within : ∀ cs, (read cs).depth ≤ n) (parts : List (List Char)) :
    depthAll (parts.map read) ≤ n :=
  depthAll_le_iff.2 (List.forall_mem_map.2 fun part _ => within part)

theorem Expr.depth_readLeaf? {text : List Char} {e : Expr} (leaf : readLeaf? text = some e) : e.depth = 1 := by
  unfold readLeaf? at leaf
  dsimp only at leaf
  repeat' split at leaf
  -- The last text is no leaf.
  rotate_right
  · cases leaf
  all_goals
    cases leaf
    rfl

theorem Expr.depth_readWithin (levels : Nat) (cs : List Char) : (readWithin levels cs).depth ≤ levels + 1 := by
  induction levels generalizing cs with
  | zero => exact Nat.le_refl 1
  | succ levels ih =>
    unfold readWithin
    dsimp only
    split
    · rename_i leaf
      rw [depth_readLeaf? leaf]
      exact Nat.le_add_left ..
    · split
      · exact Nat.succ_le_succ (ih _)
      · split
        · exact Nat.succ_le_succ (ih _)
        · split
          · exact Nat.succ_le_succ (depthAll_map ih _)
          · split <;> exact Nat.le_add_left ..

theorem Cond.depth_readWithin (levels : Nat) (cs : List Char) : (readWithin levels cs).depth ≤ levels + 2 := by
  induction levels generalizing cs with
  | zero => exact Nat.le_refl 2
  | succ levels ih =>
    have operand (cs : List Char) : (Expr.readWithin levels cs).depth ≤ levels + 2 :=
      Nat.le_succ_of_le (Expr.depth_readWithin levels cs)
    unfold readWithin
    dsimp only
    split
    · exact Nat.succ_le_succ (depthAll_map ih _)
    · split
      · exact Nat.succ_le_succ (depthAll_map ih _)
      · split
        · exact Nat.succ_le_succ (ih _)
        · split
          · exact Nat.succ_le_succ (Nat.max_le.2 ⟨operand _, operand _⟩)
          · exact Nat.succ_le_succ (operand _)

end Levels

mutual

/-- How many statements stand in one another, from a statement on; the clauses of a `for` stand in it. -/
def Stmt.depth : Stmt → Nat
  | .act _ _ => 1
  | .call _ _ _ => 1
  | .choose _ chain => chain.depth + 1
  | .forLoop _ init _ step body =>
    max (max (Stmt.depthClause init) (Stmt.depthClause step)) (Stmt.depthAll body) + 1
  | .whileLoop _ _ body => Stmt.depthAll body + 1

def Chain.depth : Chain → Nat
  | .done => 0
  | .otherwise body => Stmt.depthAll body
  | .branch _ body rest => max (Stmt.depthAll body) rest.depth

def Stmt.depthAll : List Stmt → Nat
  | [] => 0
  | st :: rest => max st.depth (Stmt.depthAll rest)

def Stmt.depthClause : Option Stmt → Nat
  | none => 0
  | some st => st.depth

end

/-- How deep the statements of a program are nested. -/
def Program.depth (p : Program) : Nat :=
  Stmt.depthAll (p.setup ++ (p.loop ++ p.functions.entries.flatMap fun e => e.2.body))

theorem Stmt.depthAll_le_iff {body : List Stmt} {n : Nat} : depthAll body ≤ n ↔ ∀ st ∈ body, st.depth ≤ n := by
  induction body with
  | nil => simp [depthAll]
  | cons st body ih => rw [depthAll, Nat.max_le, ih, List.forall_mem_cons]

theorem Stmt.one_le_depth (st : Stmt) : 1 ≤ st.depth := by
  cases st <;> simp [depth]

/-- How many parentheses open in a text, those in its literals included. -/
def openings (cs : List Char) : Nat := cs.count '('

section Openings

variable {a b : List Char}

theorem openings_le_of_sublist (part : a.Sublist b) : openings a ≤ openings b := part.count_le '('

@[simp] theorem openings_append (a b : List Char) : openings (a ++ b) = openings a + openings b :=
  List.count_append

theorem openings_cons (c : Char) (cs : List Char) :
    openings (c :: cs) = openings cs + if c = '(' then 1 else 0 := by
  simp [openings, List.count_cons]

theorem openings_reverse (cs : List Char) : openings cs.reverse = openings cs := List.count_reverse

theorem openings_essence (cs : List Char) : openings (essence cs) = openings cs :=
  List.count_filter (by decide)

-- A statement of a block has no more of them than the block.
theorem openings_of_mem_cutBlock {number : Nat} {text : List Char} {p : Piece} (member : p ∈ cutBlock number text) :
    openings p.text ≤ openings text := by
  have part : p.text.Sublist (Piece.texts (cutBlock number text)) := by
    rw [Piece.texts, List.flatMap_def]
    exact List.sublist_flatten_of_mem (List.mem_map_of_mem member)
  have all : openings (Piece.texts (cutBlock number text)) = openings text := by
    rw [← openings_essence, essence_cutBlock, openings_essence]
  exact all ▸ openings_le_of_sublist part

end Openings

namespace Stmt

-- The head of a compound statement takes one.
theorem openings_header? {text inner after : List Char} (found : header? text = some (inner, after)) :
    openings inner + openings after + 1 ≤ openings text := by
  obtain ⟨front, rfl⟩ := exists_of_header? found
  simp only [openings_append, openings_cons, if_pos]
  omega

/-- Whether a reader nests statements no deeper than the text of a statement has opening parentheses. -/
def Shallow (read : Location → List Char → Stmt) : Prop := ∀ loc cs, (read loc cs).depth ≤ openings cs + 1

section Reading

variable {read : Location → List Char → Stmt} {c : Cursor} (shallow : Shallow read)

theorem rest_readBody_sublist (read : Location → List Char → Stmt) (c : Cursor) :
    (readBody read c).2.rest.Sublist c.rest := by
  have trimmed := trimStart_sublist c.rest
  by_cases brace : (trimStart c.rest).head? = some '\x7b'
  · obtain ⟨⟨inside, after⟩, parts⟩ : ∃ parts,
        (Bracket.curly.enclosed? (trimStart c.rest)).getD ((trimStart c.rest).tail, []) = parts := ⟨_, rfl⟩
    rw [readBody_block read brace parts]
    exact (sublists_of_block parts).2.trans trimmed
  · by_cases keyword : (leadingKeyword (trimStart c.rest)).isSome = true
    · rw [readBody_compound read brace keyword]
      exact (afterCompound_sublist _).trans trimmed
    · rw [readBody_simple read brace (by simpa using keyword)]
      exact (afterStatement_sublist _).trans trimmed

include shallow

theorem Shallow.single {line : Nat} {text : List Char} (part : text.Sublist c.rest) :
    depthAll (single read line text) ≤ openings c.rest + 1 := by
  have fewer := openings_le_of_sublist part
  rw [Stmt.single]
  split
  · exact Nat.zero_le _
  · have whole := shallow ⟨line, 1⟩ text
    simp only [depthAll]
    omega

theorem Shallow.readBody (c : Cursor) : depthAll (readBody read c).1 ≤ openings c.rest + 1 := by
  have trimmed := trimStart_sublist c.rest
  by_cases brace : (trimStart c.rest).head? = some '\x7b'
  · obtain ⟨⟨inside, after⟩, parts⟩ : ∃ parts,
        (Bracket.curly.enclosed? (trimStart c.rest)).getD ((trimStart c.rest).tail, []) = parts := ⟨_, rfl⟩
    have fewer := openings_le_of_sublist ((sublists_of_block parts).1.trans trimmed)
    rw [readBody_block read brace parts, depthAll_le_iff]
    refine List.forall_mem_map.2 fun p member => ?_
    have whole := shallow p.location p.text
    have piece := openings_of_mem_cutBlock member
    omega
  · by_cases keyword : (leadingKeyword (trimStart c.rest)).isSome = true
    · rw [readBody_compound read brace keyword]
      exact shallow.single ((List.take_sublist _ _).trans trimmed)
    · rw [readBody_simple read brace (by simpa using keyword)]
      exact shallow.single ((beforeTop_sublist [';'] _).trans trimmed)

theorem Shallow.readOthers {branches : Nat} {others : Chain}
    (chain : ∀ (c : Cursor) (others : Chain), readChain read branches c = some others →
      others.depth ≤ openings c.rest)
    (made : readOthers read branches c = some others) : others.depth ≤ openings c.rest + 1 := by
  have trimmed := trimStart_sublist c.rest
  have word := (List.drop_sublist 4 (trimStart c.rest)).trans trimmed
  simp only [Stmt.readOthers, Cursor.rest_moveTo] at made
  split at made
  · have fewer := openings_le_of_sublist ((trimStart_sublist _).trans word)
    have within := chain _ _ made
    rw [Cursor.rest_moveTo] at within
    omega
  · cases made
    have fewer := openings_le_of_sublist word
    have body := shallow.readBody
      ((c.moveTo (trimStart c.rest)).moveTo ((trimStart c.rest).drop 4))
    rw [Cursor.rest_moveTo] at body
    simp only [Chain.depth]
    omega
  · cases made
    exact Nat.zero_le _

theorem Shallow.readChain (branches : Nat) (c : Cursor) (chain : Chain)
    (made : readChain read branches c = some chain) : chain.depth ≤ openings c.rest := by
  induction branches generalizing c chain with
  | zero => cases made
  | succ branches ih =>
    cases header : header? c.rest with
    | none =>
      rw [Stmt.readChain, header] at made
      cases made
    | some parts =>
      obtain ⟨cond, after⟩ := parts
      rw [readChain_succ read branches c header] at made
      obtain ⟨others, rest, rfl⟩ := Option.map_eq_some_iff.1 made
      have head := openings_header? header
      have body := shallow.readBody (c.moveTo after)
      have behind := openings_le_of_sublist (rest_readBody_sublist read (c.moveTo after))
      have more := shallow.readOthers ih rest
      rw [Cursor.rest_moveTo] at body behind
      simp only [Chain.depth]
      omega

theorem Shallow.readFor? {loc : Location} {text : List Char} {st : Stmt}
    (made : readFor? read loc text = some st) : st.depth ≤ openings text + 1 := by
  unfold Stmt.readFor? at made
  cases found : header? text with
  | none =>
    rw [found] at made
    cases made
  | some parts =>
    obtain ⟨header, after⟩ := parts
    have head := openings_header? found
    have clause (part : List Char) (member : part ∈ splitTop [';'] header) :
        depthClause (readClause read loc.line part) ≤ openings header + 1 := by
      have fewer := openings_le_of_sublist (sublist_of_mem_splitTop member)
      unfold readClause
      split
      · exact Nat.zero_le _
      · exact Nat.le_trans (shallow ⟨loc.line, 1⟩ part) (Nat.succ_le_succ fewer)
    have body := shallow.readBody ((Cursor.mk loc.line text).moveTo after)
    rw [Cursor.rest_moveTo] at body
    simp only [found, Option.bind_eq_bind, Option.bind_some] at made
    split at made
    · rename_i init cond step clauses
      cases made
      have first := clause init (by simp [clauses])
      have last := clause step (by simp [clauses])
      simp only [depth]
      omega
    · cases made

theorem Shallow.readWhile? {loc : Location} {text : List Char} {st : Stmt}
    (made : readWhile? read loc text = some st) : st.depth ≤ openings text + 1 := by
  unfold Stmt.readWhile? at made
  cases found : header? text with
  | none =>
    rw [found] at made
    cases made
  | some parts =>
    obtain ⟨cond, after⟩ := parts
    have head := openings_header? found
    have body := shallow.readBody ((Cursor.mk loc.line text).moveTo after)
    rw [Cursor.rest_moveTo] at body
    simp only [found, Option.bind_eq_bind, Option.bind_some, Option.some.injEq] at made
    subst made
    simp only [depth]
    omega

omit shallow in
theorem depth_readSimple (loc : Location) (text : List Char) : (readSimple loc text).depth = 1 := by
  unfold readSimple
  dsimp only
  split
  · rfl
  · rfl
  · split
    · rfl
    · split <;> rfl

-- Each level of statements takes a head, and with it a parenthesis.
theorem Shallow.readLevel : Shallow (readLevel read) := by
  intro loc cs
  have fewer := openings_le_of_sublist (trim_sublist cs)
  have made {compound : Option Stmt} (within : ∀ st, compound = some st → st.depth ≤ openings (trim cs) + 1) :
      (compound.getD (.act loc (.ignored (String.ofList (trim cs))))).depth ≤ openings cs + 1 := by
    cases compound with
    | none => exact Nat.le_add_left ..
    | some st => exact Nat.le_trans (within st rfl) (Nat.succ_le_succ fewer)
  unfold Stmt.readLevel
  dsimp only
  apply made
  intro st read
  split at read
  · obtain ⟨chain, branches, rfl⟩ := Option.map_eq_some_iff.1 read
    exact Nat.succ_le_succ (shallow.readChain _ _ chain branches)
  · exact shallow.readFor? read
  · exact shallow.readWhile? read
  · cases read
  · cases read
    rw [depth_readSimple]
    exact Nat.le_add_left ..

omit shallow in
theorem shallow_readWithin (fuel : Nat) : Shallow (readWithin fuel) := by
  induction fuel with
  | zero => exact fun _ _ => Nat.le_add_left ..
  | succ fuel ih => exact ih.readLevel

omit shallow in
theorem shallow_read : Shallow Stmt.read := fun loc cs => shallow_readWithin (cs.length + 1) loc cs

end Reading

end Stmt

section Sources

/-- The statements of an outline. -/
def Outline.pieces (o : Outline) : List Piece := o.setup ++ (o.loop ++ o.functions.flatMap FunctionOutline.body)

theorem mem_of_backToOpening {depth : Nat} {cs inside rest : List Char}
    (found : Outline.backToOpening depth cs = some (inside, rest)) : '(' ∈ cs := by
  induction cs generalizing depth inside with
  | nil => cases found
  | cons c cs ih =>
    unfold Outline.backToOpening at found
    split at found
    · rename_i opens
      exact opens ▸ List.mem_cons_self
    · obtain ⟨parts, inner, made⟩ := Option.map_eq_some_iff.1 found
      cases made
      exact List.mem_cons_of_mem _ (ih inner)

-- The head of a function takes a parenthesis as well.
theorem openings_of_signature? {behind : List Char} {s : Outline.Signature}
    (found : Outline.signature? behind = some s) : 1 ≤ openings behind := by
  rw [signature?_eq] at found
  split at found
  · obtain ⟨parts, opens, -⟩ := Option.bind_eq_some_iff.1 found
    have member := mem_of_backToOpening opens
    have part := (List.tail_sublist _).trans (List.dropWhile_sublist (l := behind) isBlank)
    exact List.count_pos_iff.2 (part.mem member)
  · cases found

theorem mem_pieces_addBlock {o : Outline} {b : Block} {p : Piece} (member : p ∈ (Outline.addBlock o b).pieces) :
    p ∈ o.pieces ∨ openings p.text + 1 ≤ openings b.behind + openings b.inside := by
  cases found : Outline.signature? b.behind with
  | none =>
    rw [Outline.addBlock, found] at member
    exact .inl member
  | some s =>
    have head := openings_of_signature? found
    have body (inside : p ∈ cutBlock b.line b.inside) :
        openings p.text + 1 ≤ openings b.behind + openings b.inside := by
      have piece := openings_of_mem_cutBlock inside
      omega
    rw [Outline.addBlock, found] at member
    dsimp only at member
    simp only [Outline.pieces, List.mem_append]
    split at member
    · simp only [Outline.pieces, List.mem_append] at member
      exact member.elim (.inr ∘ body) fun other => .inl (.inr other)
    · split at member
      · simp only [Outline.pieces, List.mem_append] at member
        obtain first | own | function := member
        · exact .inl (.inl first)
        · exact .inr (body own)
        · exact .inl (.inr (.inr function))
      · simp only [Outline.pieces, List.mem_append, List.flatMap_append, List.flatMap_singleton] at member
        obtain first | second | function | own := member
        · exact .inl (.inl first)
        · exact .inl (.inr (.inl second))
        · exact .inl (.inr (.inr function))
        · exact .inr (body own)

theorem openings_of_mem_pieces {source : String} {p : Piece} (member : p ∈ (Outline.ofSource source).pieces) :
    openings p.text + 1 ≤ openings source.toList := by
  have folded (bs : List Block) (places : ∀ b ∈ bs, b.StandsIn (stripComments source.toList)) (o : Outline)
      (before : ∀ p ∈ o.pieces, openings p.text + 1 ≤ openings source.toList) :
      ∀ p ∈ (bs.foldl Outline.addBlock o).pieces, openings p.text + 1 ≤ openings source.toList := by
    induction bs generalizing o with
    | nil => exact before
    | cons b bs ih =>
      obtain ⟨here, later⟩ := List.forall_mem_cons.1 places
      refine ih later _ fun p member => ?_
      obtain known | added := mem_pieces_addBlock member
      · exact before p known
      · have block := openings_le_of_sublist (here.sublist.trans (stripComments_sublist source.toList))
        simp only [openings_append, openings_cons, openings_reverse] at block
        omega
  exact folded _ (fun b => standsIn_of_mem_blocks) _ (by simp [Outline.pieces]) p member

theorem Program.depth_ofOutline {o : Outline} {n : Nat} (few : ∀ p ∈ o.pieces, openings p.text + 1 ≤ n) :
    (Program.ofOutline o).depth ≤ n := by
  have all (pieces : List Piece) (part : ∀ p ∈ pieces, p ∈ o.pieces) : ∀ st ∈ Stmt.readAll pieces, st.depth ≤ n :=
    List.forall_mem_map.2 fun p member =>
      Nat.le_trans (Stmt.shallow_read p.location p.text) (few p (part p member))
  rw [depth, Stmt.depthAll_le_iff, List.forall_mem_append, List.forall_mem_append]
  refine ⟨all o.setup fun p member => ?_, all o.loop fun p member => ?_, fun st member => ?_⟩
  · exact List.mem_append_left _ member
  · exact List.mem_append_right _ (List.mem_append_left _ member)
  · obtain ⟨e, listed, inside⟩ := List.mem_flatMap.1 member
    obtain ⟨f, known, rfl⟩ := List.mem_map.1 (Table.mem_ofList listed)
    refine all f.body (fun p within => ?_) st inside
    exact List.mem_append_right _ (List.mem_append_right _ (List.mem_flatMap.2 ⟨f, known, within⟩))

/-- However a source nests its statements, each level of them takes a parenthesis. -/
theorem Program.depth_ofSource_le (source : String) : (Program.ofSource source).depth ≤ openings source.toList :=
  depth_ofOutline fun _ member => openings_of_mem_pieces member

end Sources

end Breadboard
