import Breadboard.Proofs.Canonical.Scanning
import Breadboard.Proofs.Comments
import Breadboard.Proofs.Numbering.Reading
import Breadboard.Proofs.OrderedTable
import Breadboard.Sketch.Program

set_option autoImplicit false

/-!
The line numbers of a program. Main statement: empty lines in front of a source move all lines of its
functions and its statements by their number and change nothing else, and these lines are lines of the source.
-/
namespace Breadboard

open Text

def Function.renumber (f : Nat → Nat) (fn : Function) : Function :=
  { fn with body := Stmt.renumberAll f fn.body, location := fn.location.renumber f }

/-- A program with other line numbers. -/
def Program.renumber (f : Nat → Nat) (p : Program) : Program :=
  { p with
    functions := ⟨p.functions.entries.map fun e => (e.1, e.2.renumber f)⟩
    setup := Stmt.renumberAll f p.setup
    loop := Stmt.renumberAll f p.loop }

def Function.lineNumbers (fn : Function) : List Nat := fn.location.line :: Stmt.allLineNumbers fn.body

/-- The lines on which the functions and the statements of a program stand. -/
def Program.lineNumbers (p : Program) : List Nat :=
  p.functions.entries.flatMap (fun e => e.2.lineNumbers) ++
    (Stmt.allLineNumbers p.setup ++ Stmt.allLineNumbers p.loop)

theorem Program.lineNumbers_renumber (f : Nat → Nat) (p : Program) :
    (p.renumber f).lineNumbers = p.lineNumbers.map f := by
  have function (fn : Function) : (fn.renumber f).lineNumbers = fn.lineNumbers.map f :=
    congrArg (f fn.location.line :: ·) (Stmt.allLineNumbers_renumber f fn.body)
  simp only [lineNumbers, renumber, Stmt.allLineNumbers_renumber, List.map_append, List.flatMap_map, function,
    List.map_flatMap]

section Outlines

variable {f : Nat → Nat} {lo hi : Nat} {o : Outline}

def FunctionOutline.renumber (f : Nat → Nat) (g : FunctionOutline) : FunctionOutline :=
  { g with body := g.body.map (Piece.renumber f), location := g.location.renumber f }

def Outline.renumber (f : Nat → Nat) (o : Outline) : Outline :=
  { o with
    setup := o.setup.map (Piece.renumber f)
    loop := o.loop.map (Piece.renumber f)
    functions := o.functions.map (FunctionOutline.renumber f) }

/-- Whether statements stand on lines from `lo` on and in front of line `hi`. -/
def AllStandIn (lo hi : Nat) (pieces : List Piece) : Prop :=
  ∀ p ∈ pieces, StandsIn lo hi p.location.line p.text

structure FunctionOutline.StandsIn (lo hi : Nat) (g : FunctionOutline) : Prop where
  low : lo ≤ g.location.line
  high : g.location.line < hi
  body : AllStandIn lo hi g.body

structure Outline.StandsIn (lo hi : Nat) (o : Outline) : Prop where
  setup : AllStandIn lo hi o.setup
  loop : AllStandIn lo hi o.loop
  functions : ∀ g ∈ o.functions, g.StandsIn lo hi

theorem readAll_renumber (moves : Moves f lo hi) {pieces : List Piece} (stand : AllStandIn lo hi pieces) :
    Stmt.readAll (pieces.map (Piece.renumber f)) = Stmt.renumberAll f (Stmt.readAll pieces) := by
  rw [Stmt.renumberAll_eq, Stmt.readAll, Stmt.readAll, List.map_map, List.map_map]
  exact List.map_congr_left fun p member => Stmt.tracks_read moves p.location p.text (stand p member)

theorem readFunction_renumber (moves : Moves f lo hi) {g : FunctionOutline} (stands : g.StandsIn lo hi) :
    Program.readFunction (g.renumber f) = (Program.readFunction g).renumber f := by
  have body := readAll_renumber moves stands.body
  simp only [Program.readFunction, FunctionOutline.renumber, Function.renumber, body]

theorem ofOutline_renumber (moves : Moves f lo hi) (stands : o.StandsIn lo hi) :
    Program.ofOutline (o.renumber f) = (Program.ofOutline o).renumber f := by
  have functions : (o.functions.map (FunctionOutline.renumber f)).map (fun g => (g.name, Program.readFunction g)) =
      (o.functions.map fun g => (g.name, Program.readFunction g)).map fun e => (e.1, e.2.renumber f) := by
    rw [List.map_map, List.map_map]
    refine List.map_congr_left fun g member => ?_
    exact congrArg (Prod.mk g.name) (readFunction_renumber moves (stands.functions g member))
  simp only [Program.ofOutline, Outline.renumber, Program.renumber, functions, Table.map_ofList,
    readAll_renumber moves stands.setup, readAll_renumber moves stands.loop]

-- A renumbering that leaves these lines alone, and no others, changes nothing.
theorem lineNumbers_ofOutline (stands : o.StandsIn lo hi) :
    ∀ n ∈ (Program.ofOutline o).lineNumbers, lo ≤ n ∧ n < hi := by
  let f (n : Nat) : Nat := if lo ≤ n ∧ n < hi then n else n + 1
  have fixed {n : Nat} (low : lo ≤ n) (high : n < hi) : f n = n := if_pos ⟨low, high⟩
  have moves : Moves f lo hi := by
    intro m n low le high
    rw [fixed (Nat.le_trans low le) high, fixed low (Nat.lt_of_le_of_lt le high)]
    omega
  have place {loc : Location} (low : lo ≤ loc.line) (high : loc.line < hi) : loc.renumber f = loc :=
    congrArg (Location.mk · loc.column) (fixed low high)
  have all {pieces : List Piece} (stand : AllStandIn lo hi pieces) : pieces.map (Piece.renumber f) = pieces := by
    refine (List.map_congr_left fun p member => ?_).trans (List.map_id pieces)
    have line := stand p member
    exact congrArg (Piece.mk p.text) (place line.low (Nat.lt_of_le_of_lt (Nat.le_add_right ..) line.high))
  have functions : o.functions.map (FunctionOutline.renumber f) = o.functions := by
    refine (List.map_congr_left fun g member => ?_).trans (List.map_id o.functions)
    have line := stands.functions g member
    rw [FunctionOutline.renumber, all line.body, place line.low line.high]
    rfl
  have same : o.renumber f = o := by
    rw [Outline.renumber, all stands.setup, all stands.loop, functions]
  have numbers := congrArg Program.lineNumbers (ofOutline_renumber moves stands)
  rw [same, Program.lineNumbers_renumber] at numbers
  intro n member
  have kept : f n = n := List.map_inj_left.1 (numbers.symm.trans (List.map_id _).symm) n member
  by_contra outside
  have moved : f n = n + 1 := if_neg outside
  omega

end Outlines

section Lines

variable {a b seen seen' : List Char}

-- A text has no more lines than one that it is a part of.
theorem length_linesFrom_le (part : a.Sublist b) (behind : seen.Sublist seen') :
    (linesFrom seen a).length ≤ (linesFrom seen' b).length := by
  have one (seen seen' cs : List Char) : (linesFrom seen cs).length ≤ (linesFrom seen' cs).length + 1 := by
    induction cs generalizing seen seen' with
    | nil =>
      unfold linesFrom
      split <;> simp
    | cons c cs ih =>
      unfold linesFrom
      split
      · simp
      · exact ih _ _
  induction part generalizing seen seen' with
  | slnil =>
    cases seen with
    | nil => exact Nat.zero_le _
    | cons c seen =>
      cases seen' with
      | nil => cases behind
      | cons d seen' => exact Nat.le_refl _
  | @cons a b c part ih =>
    by_cases newline : c = '\n'
    · have more := one seen [] a
      have rest := ih (List.Sublist.refl [])
      rw [linesFrom, if_pos newline, List.length_cons]
      omega
    · rw [linesFrom, if_neg newline]
      exact ih (behind.cons _)
  | @cons_cons a b c part ih =>
    by_cases newline : c = '\n'
    · rw [linesFrom, linesFrom, if_pos newline, if_pos newline]
      exact Nat.succ_le_succ (ih (.refl _))
    · rw [linesFrom, linesFrom, if_neg newline, if_neg newline]
      exact ih (behind.cons_cons _)

theorem length_lines_le_of_sublist (part : a.Sublist b) : (lines a).length ≤ (lines b).length :=
  length_linesFrom_le part (.refl _)

theorem newlines_add_length_lines_le (a b : List Char) :
    newlines a + (lines b).length ≤ (lines (a ++ b)).length := by
  have from_ (seen : List Char) : newlines a + (lines b).length ≤ (linesFrom seen (a ++ b)).length := by
    induction a generalizing seen with
    | nil =>
      have more : (lines b).length ≤ (linesFrom seen b).length :=
        length_linesFrom_le (.refl b) (List.nil_sublist seen)
      simpa [newlines] using more
    | cons c a ih =>
      rw [List.cons_append, linesFrom]
      split
      · rename_i newline
        have rest := ih []
        simp only [newlines, newline, List.count_cons_self, List.length_cons] at rest ⊢
        omega
      · rename_i other
        simpa [newlines, other] using ih (c :: seen)
  exact from_ []

theorem lines_newlines (k : Nat) (cs : List Char) :
    lines (List.replicate k '\n' ++ cs) = List.replicate k [] ++ lines cs := by
  induction k with
  | zero => rfl
  | succ k ih => exact congrArg ([] :: ·) ih

end Lines

section Blocks

variable (front : List Char)

-- What is scanned further down a text, below more of it.
def Text.Block.below (b : Block) : Block := { b with behind := b.behind ++ front }

def Text.BlockScan.below : BlockScan → BlockScan
  | outside behind => outside (behind ++ front)
  | within behind inside depth => within (behind ++ front) inside depth

theorem code_below (c : Char) (scan : BlockScan) :
    (scan.below front).code c = ((scan.code c).1.below front, (scan.code c).2.map (Block.below front)) := by
  cases scan with
  | outside behind =>
    simp only [BlockScan.below, BlockScan.code]
    split <;> rfl
  | within behind inside depth =>
    simp only [BlockScan.below, BlockScan.code]
    split
    · cases depth with
      | zero => simp [Block.below]
      | succ depth => rfl
    · split <;> rfl

theorem literal_below (c : Char) (scan : BlockScan) :
    (scan.below front).literal c = (scan.literal c).below front := by
  cases scan <;> rfl

theorem blocksFrom_below (q : Quote) (scan : BlockScan) (cs : List Char) :
    blocksFrom q (scan.below front) cs = (blocksFrom q scan cs).map (Block.below front) := by
  induction cs generalizing q scan with
  | nil => cases scan <;> rfl
  | cons c cs ih =>
    rw [blocksFrom_cons, blocksFrom_cons]
    split
    · rw [code_below]
      dsimp only
      rw [ih, List.map_append]
      cases (scan.code c).2 <;> rfl
    · rw [literal_below, ih]

theorem blocks_newlines (k : Nat) (cs : List Char) :
    blocks (List.replicate k '\n' ++ cs) = (blocks cs).map (Block.below (List.replicate k '\n')) := by
  have outside : Canonical.Outside (List.replicate k '\n') :=
    .ofChars fun c member => by rw [List.eq_of_mem_replicate member]; decide
  have front := blocksFrom_below (List.replicate k '\n') .code (.outside []) cs
  rw [blocks, outside, List.reverse_replicate, List.append_nil]
  exact front

-- The text that a scan has gone over, in its own order.
def Text.BlockScan.text : BlockScan → List Char
  | outside behind => behind.reverse
  | within behind inside _ => behind.reverse ++ '\x7b' :: inside.reverse

/-- Whether a block stands in a text. -/
def Text.Block.StandsIn (cs : List Char) (b : Block) : Prop :=
  b.behind.reverse ++ '\x7b' :: b.inside <+: cs

theorem code_text (c : Char) (scan : BlockScan) :
    (scan.code c).1.text = scan.text ++ [c] ∧ ∀ b ∈ (scan.code c).2, b.StandsIn scan.text := by
  cases scan with
  | outside behind =>
    simp only [BlockScan.code]
    split
    · rename_i opener
      subst opener
      exact ⟨by simp [BlockScan.text, Bracket.opener], by simp⟩
    · exact ⟨by simp [BlockScan.text], by simp⟩
  | within behind inside depth =>
    have onward : behind.reverse ++ '\x7b' :: (c :: inside).reverse =
        behind.reverse ++ '\x7b' :: inside.reverse ++ [c] := by simp
    simp only [BlockScan.code]
    split
    · cases depth with
      | zero =>
        refine ⟨by simp [BlockScan.text, Bracket.opener], ?_⟩
        simp [Block.StandsIn, BlockScan.text]
      | succ depth => exact ⟨onward, by simp⟩
    · split
      · exact ⟨onward, by simp⟩
      · exact ⟨onward, by simp⟩

theorem standsIn_of_mem_blocks {cs : List Char} {b : Block} (member : b ∈ blocks cs) : b.StandsIn cs := by
  have from_ (q : Quote) (scan : BlockScan) (cs : List Char) :
      ∀ b ∈ blocksFrom q scan cs, b.StandsIn (scan.text ++ cs) := by
    induction cs generalizing q scan with
    | nil => cases scan <;> simp [blocksFrom, Block.StandsIn, BlockScan.text]
    | cons c cs ih =>
      have passed (scan' : BlockScan) (text : scan'.text = scan.text ++ [c]) :
          scan'.text ++ cs = scan.text ++ c :: cs := by simp [text]
      rw [blocksFrom_cons]
      split
      · obtain ⟨text, closed⟩ := code_text c scan
        refine List.forall_mem_append.2 ⟨fun b member => ?_, passed _ text ▸ ih .code (scan.code c).1⟩
        exact (closed b (Option.mem_toList.1 member)).trans (List.prefix_append _ _)
      · refine passed _ ?_ ▸ ih (q.next c) (scan.literal c)
        cases scan <;> simp [BlockScan.literal, BlockScan.text]
  exact from_ .code (.outside []) cs b member

-- The lines of a block are lines of the text that it stands in.
theorem Text.Block.StandsIn.line_le {cs : List Char} {b : Block} (stands : b.StandsIn cs) :
    b.line + (lines b.inside).length ≤ (lines cs).length + 1 ∧ b.line ≤ (lines cs).length := by
  have whole := length_lines_le_of_sublist stands.sublist
  have inside := newlines_add_length_lines_le (b.behind.reverse ++ ['\x7b']) b.inside
  have opens := newlines_add_length_lines_le b.behind.reverse ('\x7b' :: b.inside)
  have some_ : 1 ≤ (lines ('\x7b' :: b.inside)).length :=
    length_lines_le_of_sublist (a := ['\x7b']) (List.Sublist.cons_cons _ (List.nil_sublist _))
  have brace : newlines ['\x7b'] = 0 := rfl
  simp only [newlines_append, newlines_reverse, brace, List.append_assoc, List.singleton_append] at inside opens
  simp only [Block.line]
  omega

end Blocks

section Signatures

open Outline

variable {behind : List Char} {k : Nat}

theorem backToOpening_newlines (depth : Nat) (cs : List Char) :
    backToOpening depth (cs ++ List.replicate k '\n') =
      (backToOpening depth cs).map fun parts => (parts.1, parts.2 ++ List.replicate k '\n') := by
  induction cs generalizing depth with
  | nil =>
    have none (k : Nat) : backToOpening depth (List.replicate k '\n') = none := by
      induction k with
      | zero => rfl
      | succ k ih => simp [List.replicate_succ, backToOpening, ih]
    exact none k
  | cons c cs ih =>
    rw [List.cons_append]
    unfold backToOpening
    split
    · cases depth with
      | zero => rfl
      | succ depth =>
        simp only [ih, Option.map_map]
        rfl
    · simp only [ih, Option.map_map]
      rfl

theorem sublist_of_backToOpening {depth : Nat} {cs inside rest : List Char}
    (found : backToOpening depth cs = some (inside, rest)) : rest.Sublist cs := by
  induction cs generalizing depth inside with
  | nil => cases found
  | cons c cs ih =>
    unfold backToOpening at found
    split at found
    · cases depth with
      | zero =>
        cases found
        exact List.sublist_cons_self _ _
      | succ depth =>
        obtain ⟨parts, inner, made⟩ := Option.map_eq_some_iff.1 found
        cases made
        exact (ih inner).cons _
    · obtain ⟨parts, inner, made⟩ := Option.map_eq_some_iff.1 found
      cases made
      exact (ih inner).cons _

/-- Whether what stands in front of parameters makes the head of a function, `front` read backwards: a name,
and a type that is parted from it. -/
def headsFunction (name front : List Char) : Bool :=
  isIdentifier name && !(["if", "for", "while", "switch"].contains (String.ofList name)) &&
    (front.head?.any fun c => isBlank c || isPointerMark c) &&
    ((front.dropWhile isBlank).head?.any fun c => isWordChar c || isPointerMark c)

/-- The head of a function, from the text of its parameters and the text in front of them, read backwards. -/
def Outline.Signature.ofParts? (params before : List Char) : Option Signature :=
  let name := ((before.dropWhile isBlank).takeWhile isWordChar).reverse
  let front := (before.dropWhile isBlank).dropWhile isWordChar
  if headsFunction name front then
    some ⟨String.ofList name, (splitArgs params.reverse).filterMap paramName?, newlines front + 1⟩
  else none

theorem signature?_eq (behind : List Char) : signature? behind =
    if (behind.dropWhile isBlank).head? = some ')' then
      (backToOpening 0 (behind.dropWhile isBlank).tail).bind fun parts => Signature.ofParts? parts.1 parts.2
    else none := by
  have guarded (a b c d : Bool) (s : Signature) :
      (do guard a; guard b; guard c; guard d; some s) = if a && b && c && d then some s else none := by
    cases a <;> cases b <;> cases c <;> cases d <;> rfl
  unfold signature?
  split
  · rename_i head closes
    rw [closes, List.head?_cons, if_pos rfl]
    refine congrArg (Option.bind _) (funext fun parts => ?_)
    obtain ⟨params, before⟩ := parts
    exact guarded _ _ _ _ _
  · rename_i none
    rw [if_neg]
    intro closes
    obtain ⟨head, eq⟩ := List.head?_eq_some_iff.1 closes
    exact none head eq

theorem dropWhile_newlines {p : Char → Bool} (skips : p '\n' = true) (cs : List Char) :
    (cs ++ List.replicate k '\n').dropWhile p =
      if (cs.dropWhile p).isEmpty then [] else cs.dropWhile p ++ List.replicate k '\n' := by
  have none : (List.replicate k '\n').dropWhile p = [] :=
    List.dropWhile_eq_nil_iff.2 fun c member => by rw [List.eq_of_mem_replicate member, skips]
  rw [List.dropWhile_append, none]

-- Empty lines in front of a type are no part of it.
theorem headsFunction_newlines (name front : List Char) :
    headsFunction name (front ++ List.replicate k '\n') = headsFunction name front := by
  have typed : ((front ++ List.replicate k '\n').dropWhile isBlank).head? = (front.dropWhile isBlank).head? := by
    rw [dropWhile_newlines (by decide)]
    cases front.dropWhile isBlank <;> rfl
  rw [headsFunction, headsFunction, typed]
  cases front with
  | nil => exact (Bool.and_false _).trans (Bool.and_false _).symm
  | cons c front => rfl

theorem ofParts?_newlines (params before : List Char) :
    Signature.ofParts? params (before ++ List.replicate k '\n') =
      (Signature.ofParts? params before).map fun s => { s with line := s.line + k } := by
  unfold Signature.ofParts?
  rw [dropWhile_newlines (by decide)]
  cases text : before.dropWhile isBlank with
  | nil => rfl
  | cons d tail =>
    have none : (List.replicate k '\n').takeWhile isWordChar = [] ∧
        (List.replicate k '\n').dropWhile isWordChar = List.replicate k '\n' := by
      cases k <;> exact ⟨rfl, rfl⟩
    have name : (d :: tail ++ List.replicate k '\n').takeWhile isWordChar = (d :: tail).takeWhile isWordChar := by
      rw [List.takeWhile_append, none.1]
      split
      · rename_i all
        rw [List.append_nil, (List.takeWhile_prefix isWordChar).eq_of_length all]
      · rfl
    have front : (d :: tail ++ List.replicate k '\n').dropWhile isWordChar =
        (d :: tail).dropWhile isWordChar ++ List.replicate k '\n' := by
      rw [List.dropWhile_append, none.2]
      split
      · rename_i all
        rw [List.isEmpty_iff.1 all, List.nil_append]
      · rfl
    have count : newlines (List.replicate k '\n') = k := List.count_replicate_self
    simp only [List.isEmpty_cons, Bool.false_eq_true, if_false, name, front, headsFunction_newlines,
      newlines_append, count]
    split
    · exact congrArg some (by simp only [Nat.add_right_comm])
    · rfl

-- Empty lines far in front of a block move the head of its function.
theorem signature?_newlines (behind : List Char) : signature? (behind ++ List.replicate k '\n') =
    (signature? behind).map fun s => { s with line := s.line + k } := by
  rw [signature?_eq, signature?_eq, dropWhile_newlines (by decide)]
  cases behind.dropWhile isBlank with
  | nil => rfl
  | cons c head =>
    have front : (if (c :: head).isEmpty then [] else c :: head ++ List.replicate k '\n') =
        c :: (head ++ List.replicate k '\n') := rfl
    rw [front, List.head?_cons, List.head?_cons, List.tail_cons, List.tail_cons, backToOpening_newlines]
    by_cases closes : some c = some ')'
    · rw [if_pos closes, if_pos closes]
      cases backToOpening 0 head with
      | none => rfl
      | some parts => exact ofParts?_newlines parts.1 parts.2
    · rw [if_neg closes, if_neg closes]
      rfl

-- The name of a function stands in front of its block.
theorem line_of_signature? {s : Signature} (found : signature? behind = some s) :
    1 ≤ s.line ∧ s.line ≤ newlines behind + 1 := by
  rw [signature?_eq] at found
  split at found
  · obtain ⟨parts, opens, made⟩ := Option.bind_eq_some_iff.1 found
    have before := (sublist_of_backToOpening opens).trans
      ((List.tail_sublist _).trans (List.dropWhile_sublist (l := behind) isBlank))
    have fewer := newlines_le_of_sublist ((List.dropWhile_sublist isWordChar).trans
      ((List.dropWhile_sublist isBlank).trans before))
    unfold Signature.ofParts? at made
    dsimp only at made
    split at made
    · cases made
      exact ⟨Nat.le_add_left .., Nat.succ_le_succ fewer⟩
    · cases made
  · cases found

end Signatures

section Outlining

open Outline

variable {o : Outline} {b : Block}

-- Further down by `k` lines.
theorem addBlock_newlines (k : Nat) (o : Outline) (b : Block) :
    addBlock (o.renumber (· + k)) (b.below (List.replicate k '\n')) = (addBlock o b).renumber (· + k) := by
  have moves : Moves (· + k) b.line (b.line + (lines b.inside).length) := by
    intro m n _ le _
    dsimp only
    omega
  have body := cutBlock_renumber (· + k) moves (Nat.le_refl _) (Nat.le_refl _)
  have count : newlines (List.replicate k '\n') = k := List.count_replicate_self
  have line : (b.below (List.replicate k '\n')).line = b.line + k := by
    simp only [Block.line, Block.below, newlines_append, count, Nat.add_right_comm]
  have signature : signature? (b.below (List.replicate k '\n')).behind =
      (signature? b.behind).map fun s => { s with line := s.line + k } := signature?_newlines b.behind
  have inside : (b.below (List.replicate k '\n')).inside = b.inside := rfl
  simp only [addBlock, signature, line, inside, body]
  cases signature? b.behind with
  | none => rfl
  | some s =>
    dsimp only [Option.map_some]
    split
    · rfl
    · split
      · rfl
      · simp [Outline.renumber, FunctionOutline.renumber, Location.renumber]

theorem foldl_addBlock_newlines (k : Nat) (bs : List Block) (o : Outline) :
    (bs.map (Block.below (List.replicate k '\n'))).foldl addBlock (o.renumber (· + k)) =
      (bs.foldl addBlock o).renumber (· + k) := by
  induction bs generalizing o with
  | nil => rfl
  | cons b bs ih => rw [List.map_cons, List.foldl_cons, List.foldl_cons, addBlock_newlines, ih]

theorem standsIn_addBlock {hi : Nat} (stands : o.StandsIn 1 hi) (line : b.line < hi)
    (inside : b.line + (lines b.inside).length ≤ hi) : (addBlock o b).StandsIn 1 hi := by
  have body : AllStandIn 1 hi (cutBlock b.line b.inside) := fun p member =>
    (standsIn_of_mem_cutBlock member).mono (Nat.le_add_left ..) inside
  unfold addBlock
  split
  · exact stands
  · rename_i s found
    obtain ⟨low, high⟩ := line_of_signature? found
    dsimp only
    split
    · exact ⟨body, stands.loop, stands.functions⟩
    · split
      · exact ⟨stands.setup, body, stands.functions⟩
      · refine ⟨stands.setup, stands.loop, List.forall_mem_append.2 ⟨stands.functions, ?_⟩⟩
        simpa using FunctionOutline.StandsIn.mk low (Nat.lt_of_le_of_lt high line) body

theorem standsIn_foldl_addBlock {hi : Nat} {bs : List Block} (stands : o.StandsIn 1 hi)
    (places : ∀ b ∈ bs, b.line < hi ∧ b.line + (lines b.inside).length ≤ hi) :
    (bs.foldl addBlock o).StandsIn 1 hi := by
  induction bs generalizing o with
  | nil => exact stands
  | cons b bs ih =>
    obtain ⟨first, others⟩ := List.forall_mem_cons.1 places
    exact ih (standsIn_addBlock stands first.1 first.2) others

end Outlining

section Sources

theorem stripComments_newlines (k : Nat) (cs : List Char) :
    stripComments (List.replicate k '\n' ++ cs) = List.replicate k '\n' ++ stripComments cs := by
  induction k with
  | zero => rfl
  | succ k ih => exact congrArg ('\n' :: ·) ih

theorem scanGlobals_newlines (k : Nat) (cs : List Char) :
    Outline.scanGlobals (List.replicate k '\n' ++ cs) = Outline.scanGlobals cs := by
  rw [Outline.scanGlobals, lines_newlines]
  induction k with
  | zero => rfl
  | succ k ih => exact ih

theorem ofSource_newlines (k : Nat) (source : String) :
    Outline.ofSource (String.ofList (List.replicate k '\n' ++ source.toList)) =
      (Outline.ofSource source).renumber (· + k) := by
  simp only [Outline.ofSource, String.toList_ofList, stripComments_newlines, scanGlobals_newlines, blocks_newlines]
  exact foldl_addBlock_newlines k (blocks (stripComments source.toList))
    ⟨Outline.scanGlobals (stripComments source.toList), [], [], []⟩

theorem standsIn_ofSource (source : String) :
    (Outline.ofSource source).StandsIn 1 ((lines source.toList).length + 1) := by
  have bare := length_lines_le_of_sublist (stripComments_sublist source.toList)
  have none (globals : Table Value) : (Outline.mk globals [] [] []).StandsIn 1 ((lines source.toList).length + 1) :=
    ⟨by simp [AllStandIn], by simp [AllStandIn], by simp⟩
  refine standsIn_foldl_addBlock (none _) fun b member => ?_
  have places := (standsIn_of_mem_blocks member).line_le
  omega

/-- Empty lines in front of a source change nothing in the program that is read from it but the lines, and all of
these, those of the functions and of the statements however deep they stand, by their number. And these lines
are lines of the source, which are counted from one. -/
theorem lines_follow_source (source : String) :
    (∀ k, Program.ofSource (String.ofList (List.replicate k '\n' ++ source.toList)) =
      (Program.ofSource source).renumber (· + k)) ∧
    ∀ n ∈ (Program.ofSource source).lineNumbers, 1 ≤ n ∧ n ≤ (lines source.toList).length := by
  have stands := standsIn_ofSource source
  constructor
  · intro k
    have moves : Moves (· + k) 1 ((lines source.toList).length + 1) := by
      intro m n _ le _
      dsimp only
      omega
    rw [Program.ofSource, ofSource_newlines, ofOutline_renumber moves stands]
    rfl
  · intro n member
    have place := lineNumbers_ofOutline stands n member
    omega

-- A statement in a body stands on the line on which it starts, whether there are braces or not.
example : (Program.ofSource
    "\nvoid f() \x7b\n  while (a) \x7b b();\n  c(); \x7d\n  if (a)\n    d();\n  else\n\n    e();\n\x7d").lineNumbers =
      [2, 3, 3, 4, 5, 6, 9] := by decide +kernel

end Sources

end Breadboard
