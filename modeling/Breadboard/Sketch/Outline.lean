import Breadboard.Sketch.Literal
import Breadboard.Sketch.Piece
import Breadboard.Text.Comment

set_option autoImplicit false

/-!
The outline of a sketch: its globals, and its functions as the texts of their statements. No text is
refused; what has no known form is left out.
-/
namespace Breadboard

open Text

structure FunctionOutline where
  name : String
  params : List String
  body : List Piece
  location : Location
  deriving DecidableEq, Repr

structure Outline where
  globals : Table Value
  setup : List Piece
  loop : List Piece
  /-- In the order of the source, those of the same name included. -/
  functions : List FunctionOutline
  deriving DecidableEq, Repr

namespace Outline

/-- Takes in a definition, given what follows `#define`. -/
def addDefine (globals : Table Value) (cs : List Char) : Table Value :=
  if cs.head?.any isBlank then
    let text := trim cs
    let name := text.takeWhile fun c => !isBlank c
    if isIdentifier name then
      globals.insert (String.ofList name) (literalValue globals (text.drop name.length))
    else globals
  else globals

def isPointerMark (c : Char) : Bool := c == '*' || c == '&'

/-- The name that a declarator declares. The first one of a declaration has a type in front of it,
the others have not. -/
def declaredName? (isFirst : Bool) (lhs : List Char) : Option (List Char) := do
  guard (!lhs.contains '(')
  let words := words lhs
  let last ← words.getLast?
  let isTyped := 2 ≤ words.length &&
    words.dropLast.all fun w => isIdentifier (dropEndWhile isPointerMark w)
  guard (if isFirst then isTyped else words.length == 1)
  let name := (last.dropWhile isPointerMark).takeWhile (· != '[')
  guard (isIdentifier name)
  some name

/-- Takes in the declarators of a declaration up to the first that is none. -/
def addDeclarators : Bool → Table Value → List (List Char) → Table Value
  | _, globals, [] => globals
  | isFirst, globals, part :: parts =>
    let (lhs, init?) := match cutTop? ['='] part with
      | some (lhs, init) => (lhs, some init)
      | none => (part, none)
    match declaredName? isFirst lhs with
    | none => globals
    | some name =>
      let value := (init?.map (literalValue globals)).getD .zero
      addDeclarators false (globals.insert (String.ofList name) value) parts

def addDeclaration (globals : Table Value) (cs : List Char) : Table Value :=
  addDeclarators true globals (splitTop [','] cs)

/-- Takes in a line that stands outside of all blocks. -/
def addLine (globals : Table Value) (raw : List Char) : Table Value :=
  let line := trim raw
  match dropPrefix? "#define".toList line with
  | some define => addDefine globals define
  | none =>
    if line.head? = some '#' then globals
    else (splitTop [';'] line).dropLast.foldl addDeclaration globals

/-- Takes in the lines of a text, with `depth` braces open in front of them. -/
def addLines : Int → Table Value → List (List Char) → Table Value
  | _, globals, [] => globals
  | depth, globals, line :: rest =>
    addLines (depth + Bracket.curly.balance .code line)
      (if depth = 0 then addLine globals line else globals) rest

def scanGlobals (text : List Char) : Table Value := addLines 0 .empty (lines text)

/-- Cuts a text that is read backwards from a closing parenthesis, where `depth` more are open, at the
opening one. Literals do not matter here. -/
def backToOpening : Nat → List Char → Option (List Char × List Char)
  | _, [] => none
  | depth, c :: cs =>
    if c = '(' then
      match depth with
      | 0 => some ([], cs)
      | depth + 1 => (backToOpening depth cs).map fun (inside, rest) => (c :: inside, rest)
    else
      (backToOpening (if c = ')' then depth + 1 else depth) cs).map
        fun (inside, rest) => (c :: inside, rest)

/-- The name that a parameter declares: its last word in front of a default. -/
def paramName? (cs : List Char) : Option String :=
  let decl := cs.takeWhile (· != '=')
  let name := ((decl.reverse.dropWhile fun c => !isWordChar c).takeWhile isWordChar).reverse
  if String.ofList name ≠ "void" ∧ isIdentifier name then some (String.ofList name) else none

/-- The head of a function. -/
structure Signature where
  name : String
  params : List String
  line : Nat

/-- Reads the head of a function from the text in front of its block, read backwards. -/
def signature? (behind : List Char) : Option Signature := do
  let ')' :: head := behind.dropWhile isBlank | none
  let (params, before) ← backToOpening 0 head
  let before := before.dropWhile isBlank
  let name := (before.takeWhile isWordChar).reverse
  let front := before.dropWhile isWordChar
  guard (isIdentifier name)
  let word := String.ofList name
  guard (!(["if", "for", "while", "switch"].contains word))
  guard (front.head?.any fun c => isBlank c || isPointerMark c)
  guard ((front.dropWhile isBlank).head?.any fun c => isWordChar c || isPointerMark c)
  some ⟨word, (splitArgs params.reverse).filterMap paramName?, newlines front + 1⟩

/-- Takes in a block, if it is the body of a function. -/
def addBlock (o : Outline) (b : Block) : Outline :=
  match signature? b.behind with
  | none => o
  | some s =>
    let body := cutBlock b.line b.inside
    if s.name = "setup" then { o with setup := body }
    else if s.name = "loop" then { o with loop := body }
    else { o with functions := o.functions ++ [⟨s.name, s.params, body, ⟨s.line, 1⟩⟩] }

/-- The outline of a source text. -/
def ofSource (source : String) : Outline :=
  let text := stripComments source.toList
  (blocks text).foldl addBlock ⟨scanGlobals text, [], [], []⟩

end Outline

end Breadboard
