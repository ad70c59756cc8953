import Breadboard.Proofs.Canonical.Routines
import Breadboard.Proofs.OrderedTable

set_option autoImplicit false

/-!
Sketches. Main statement: reading the text of a canonical sketch gives the program that it stands
for, locations aside.
-/
namespace Breadboard.Canonical

open Text

variable (width : Nat)

section Lines

theorem identifier_setup : isIdentifier "setup".toList = true := rfl

theorem identifier_loop : isIdentifier "loop".toList = true := rfl

variable (sketch : Sketch)

theorem Sketch.inLine_lines : ∀ line ∈ sketch.lines width, ∀ c ∈ line, InLine c := by
  have globals : ∀ line ∈ sketch.globals.map Global.line, ∀ c ∈ line, InLine c :=
    List.forall_mem_map.2 fun g _ => g.code_line.inLine fun _ h => h
  have routines : ∀ line ∈ sketch.routines.flatMap (Routine.lines width), ∀ c ∈ line, InLine c := by
    intro line h
    obtain ⟨r, -, member⟩ := List.mem_flatMap.1 h
    exact inLine_routineLines width r.params r.body r.name.isIdentifier line member
  simp only [Sketch.lines, List.forall_mem_append]
  exact ⟨⟨⟨globals, inLine_routineLines width [] sketch.setup identifier_setup⟩,
    inLine_routineLines width [] sketch.loop identifier_loop⟩, routines⟩

theorem addLines_routines (routines : List Routine) (globals : Table Value) :
    Outline.addLines 0 globals (routines.flatMap (Routine.lines width)) = globals := by
  induction routines with
  | nil => rfl
  | cons r routines ih =>
    rw [List.flatMap_cons, Routine.lines, addLines_routineLines width r.params r.body r.name.isIdentifier, ih]

theorem Sketch.scanGlobals_lines :
    Outline.scanGlobals (printed (sketch.lines width)) = sketch.program.globals := by
  rw [Outline.scanGlobals, lines_printed (sketch.inLine_lines width), Sketch.lines, List.append_assoc,
    List.append_assoc, addLines_globals, addLines_routineLines width [] sketch.setup identifier_setup,
    addLines_routineLines width [] sketch.loop identifier_loop, addLines_routines]
  rfl

theorem balanced_globals (globals : List Global) : Balanced (printed (globals.map Global.line)) := by
  induction globals with
  | nil => exact .nil
  | cons g globals ih =>
    rw [List.map_cons, printed_cons]
    exact Code.append g.code_line.balanced (.char rfl trivial ih)

theorem balanced_routines (routines : List Routine) :
    Balanced (printed (routines.flatMap (Routine.lines width))) := by
  induction routines with
  | nil => exact .nil
  | cons r routines ih =>
    rw [List.flatMap_cons, printed_append]
    exact Code.append (balanced_routine width r.params r.body r.name.isIdentifier) ih

theorem Sketch.stripComments_lines :
    stripComments (printed (sketch.lines width)) = printed (sketch.lines width) := by
  have balanced : Balanced (printed (sketch.lines width)) := by
    simp only [Sketch.lines, printed_append]
    exact (((balanced_globals sketch.globals).append
      (balanced_routine width [] sketch.setup identifier_setup)).append
      (balanced_routine width [] sketch.loop identifier_loop)).append
      (balanced_routines width sketch.routines)
  have whole := @Code.stripFrom_append _ [] _ _ balanced
  simpa [stripComments, stripFrom] using whole

end Lines

section Blocks

theorem outside_globals (globals : List Global) : Outside (printed (globals.map Global.line)) := by
  induction globals with
  | nil => exact fun _ _ => rfl
  | cons g globals ih =>
    have text : printed ((g :: globals).map Global.line) =
        (g.line ++ ['\n']) ++ printed (globals.map Global.line) := by simp
    rw [text]
    exact g.outside_line.append ih

-- The block of a function is taken in as its body, under the name of the function.
theorem foldl_routine {name : String} (identifier : isIdentifier name.toList = true)
    (free : name ∉ ["if", "for", "while", "switch"]) (params : List (Name ["void"]))
    (body : List Statement) (o : Outline) (behind cs : List Char) :
    ∃ behind' number line, (blocksFrom .code (.outside behind)
        (printed (routineLines width name params body) ++ cs)).foldl Outline.addBlock o =
      (blocksFrom .code (.outside behind') cs).foldl Outline.addBlock
        (if name = "setup" then { o with setup := cutBlock number (inside width 0 body) }
        else if name = "loop" then { o with loop := cutBlock number (inside width 0 body) }
        else { o with
          functions := o.functions ++
            [⟨name, params.map Name.spelling, cutBlock number (inside width 0 body), ⟨line, 1⟩⟩] }) := by
  obtain ⟨behind', found⟩ := blocksFrom_routine width params body identifier behind cs
  obtain ⟨line, signature⟩ := signature?_routineHead identifier free params behind
  rw [found, List.foldl_cons, Outline.addBlock, signature]
  exact ⟨behind', _, line, rfl⟩

theorem Name.function_cases (name : Name functionWords) :
    name.spelling ≠ "setup" ∧ name.spelling ≠ "loop" ∧
      name.spelling ∉ ["if", "for", "while", "switch"] := by
  have other := name.notReserved
  simp only [functionWords, List.mem_cons, not_or] at other
  simpa using other

-- The functions of a sketch are taken in one after the other.
theorem foldl_routines (routines : List Routine)
    (enough : ∀ r ∈ routines, Statement.levelsAll r.body ≤ maxLevels) (o : Outline) (behind : List Char) :
    ∃ functions, (blocksFrom .code (.outside behind)
        (printed (routines.flatMap (Routine.lines width)))).foldl Outline.addBlock o =
        { o with functions := o.functions ++ functions } ∧
      functions.map (fun f => (f.name, (Program.readFunction f).unlocated)) =
        routines.map fun r => (r.name.spelling, r.meaning) := by
  induction routines generalizing o behind with
  | nil => exact ⟨[], by simp [blocksFrom], rfl⟩
  | cons r routines ih =>
    rw [List.forall_mem_cons] at enough
    obtain ⟨notSetup, notLoop, free⟩ := r.name.function_cases
    obtain ⟨behind', number, line, step⟩ := foldl_routine width r.name.isIdentifier free r.params r.body o
      behind (printed (routines.flatMap (Routine.lines width)))
    rw [if_neg notSetup, if_neg notLoop] at step
    obtain ⟨functions, rest, same⟩ := ih enough.2 _ behind'
    rw [List.flatMap_cons, printed_append, Routine.lines, step, rest]
    refine ⟨_ :: functions, by rw [List.append_assoc]; rfl, ?_⟩
    have body := @readAll_inside width number 0 _ enough.1
    rw [List.map_cons, same, Program.readFunction, Function.unlocated, body]
    rfl

variable (sketch : Sketch)

-- The outline of a sketch: the texts of its statements, whatever their places.
theorem Sketch.ofSource_source
    (enough : ∀ r ∈ sketch.routines, Statement.levelsAll r.body ≤ maxLevels) :
    ∃ first second functions, Outline.ofSource (sketch.source width) =
        ⟨sketch.program.globals, cutBlock first (inside width 0 sketch.setup),
          cutBlock second (inside width 0 sketch.loop), functions⟩ ∧
      functions.map (fun f => (f.name, (Program.readFunction f).unlocated)) =
        sketch.routines.map fun r => (r.name.spelling, r.meaning) := by
  let o : Outline := ⟨sketch.program.globals, [], [], []⟩
  let routines := printed (sketch.routines.flatMap (Routine.lines width))
  have text : printed (sketch.lines width) = printed (sketch.globals.map Global.line) ++
      (printed (routineLines width "setup" [] sketch.setup) ++
        (printed (routineLines width "loop" [] sketch.loop) ++ routines)) := by
    simp only [Sketch.lines, printed_append, List.append_assoc, routines]
  have start : Outline.ofSource (sketch.source width) =
      (blocks (printed (sketch.lines width))).foldl Outline.addBlock o := by
    rw [Outline.ofSource, Sketch.source, String.toList_ofList, sketch.stripComments_lines,
      sketch.scanGlobals_lines]
  -- Each function is one step of the fold; where the scan stands in between does not matter.
  rw [start, blocks, text, outside_globals]
  obtain ⟨_, first, _, setup⟩ := foldl_routine width identifier_setup (by decide) [] sketch.setup o _
    (printed (routineLines width "loop" [] sketch.loop) ++ routines)
  obtain ⟨behind, second, _, loop⟩ := foldl_routine width identifier_loop (by decide) [] sketch.loop _ _
    routines
  obtain ⟨functions, rest, same⟩ := foldl_routines width sketch.routines enough _ behind
  rw [setup, loop, rest]
  exact ⟨first, second, functions, rfl, same⟩

end Blocks

section Programs

variable (sketch : Sketch)

theorem Sketch.levels_routine {r : Routine} (member : r ∈ sketch.routines) :
    Statement.levelsAll r.body ≤ sketch.levels := by
  have bound : ∀ routines : List Routine, r ∈ routines →
      Statement.levelsAll r.body ≤ (routines.map fun r => Statement.levelsAll r.body).foldr max 0 := by
    intro routines h
    induction routines with
    | nil => exact absurd h List.not_mem_nil
    | cons first routines ih =>
      rw [List.map_cons, List.foldr_cons]
      rcases List.mem_cons.1 h with rfl | later
      · exact Nat.le_max_left _ _
      · exact Nat.le_trans (ih later) (Nat.le_max_right _ _)
  exact Nat.le_trans (bound sketch.routines member) (Nat.le_max_right _ _)

-- The table of the functions that were read, without their places.
theorem table_unlocated {functions : List FunctionOutline} {read : List (String × Function)}
    (same : functions.map (fun f => (f.name, (Program.readFunction f).unlocated)) = read) :
    Table.mk ((Table.ofList (functions.map fun f => (f.name, Program.readFunction f))).entries.map
      fun (name, f) => (name, f.unlocated)) = Table.ofList read := by
  refine (Table.map_ofList Function.unlocated _).trans ?_
  rw [List.map_map]
  exact congrArg Table.ofList same

-- Reading undoes printing: whatever a canonical sketch declares and however its statements,
-- conditions and expressions are nested, its text is read as the program that it stands for.
theorem Sketch.reading_undoes_printing (enough : sketch.levels ≤ maxLevels) :
    (Program.ofSource (sketch.source width)).unlocated = sketch.program := by
  have routines (r : Routine) (member : r ∈ sketch.routines) : Statement.levelsAll r.body ≤ maxLevels :=
    Nat.le_trans (sketch.levels_routine member) enough
  obtain ⟨first, second, functions, outline, same⟩ := sketch.ofSource_source width routines
  simp only [Sketch.levels, Nat.max_le] at enough
  have setup := @readAll_inside width first 0 _ enough.1.1
  have loop := @readAll_inside width second 0 _ enough.1.2
  have table := table_unlocated same
  rw [Program.ofSource, outline, Program.ofOutline, Program.unlocated]
  simp only [setup, loop, table]
  rfl

-- Texts that hold what code is cut at: braces, marks, semicolons, comments and operators.
def tangled : Sketch :=
  let x : Expr := .var ⟨"x", by decide, by decide⟩
  let one : Expr := .number ⟨1, by decide⟩
  let count : Simple := .step ⟨"x", by decide, by decide⟩ true
  let print : Statement := .simple (.print (.literal "\x7d else \x7b \"// == ; \\") true)
  { globals := [⟨⟨"x", by decide, by decide⟩, .number ⟨9007199254740991, by decide⟩⟩,
      ⟨⟨"text", by decide, by decide⟩, .text "void loop() \x7b /* \" */ = 1, 2;\n"⟩]
    setup := [.simple .serialBegin, .simple (.pinMode one (.var ⟨"OUT", by decide, by decide⟩))]
    loop := [
      .choose (.not (.connect .all (.compare x .le (.analogRead one)) (.truth (.text "&& (")) []))
        [.forLoop (some (.assign ⟨"x", by decide, by decide⟩ .set one)) (.compare x .lt .millis) (some count)
          [.whileLoop (.truth (.digitalRead x)) [print], .simple (.printf "%d \x7b" [x, .text ")"])]]
        (.elseIf (.compare (.text "==") .ne x) [] (.otherwise [print])),
      .simple (.call ⟨"blink", by decide, by decide⟩ [x, .builtin .max [one, .text ","]])]
    routines := [⟨⟨"blink", by decide, by decide⟩, [⟨"a", by decide, by decide⟩, ⟨"b", by decide, by decide⟩],
      [print, .simple count]⟩] }

theorem tangled_reading_undoes_printing : tangled.levels ≤ maxLevels ∧
    (Program.ofSource (tangled.source 2)).unlocated = tangled.program :=
  ⟨by decide, tangled.reading_undoes_printing 2 (by decide)⟩

end Programs

end Breadboard.Canonical
