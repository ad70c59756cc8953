import Breadboard.Sketch.Piece
import Breadboard.Sketch.ReadExpr

set_option autoImplicit false

/-!
Reading statements from their texts. No text is refused: what has no known form is kept and does
nothing.
-/
namespace Breadboard

open Text

/-- The duty that `tone` writes. -/
def toneDuty : Float := 128.0

namespace Action

/-- The two arguments of a call that takes two. -/
def twoArgs? (args : List Char) : Option (Expr × Expr) :=
  match splitArgs args with
  | [a, b] => some (.read a, .read b)
  | _ => none

/-- What a print call prints: its first argument. A literal may be wrapped in `F(...)`. -/
def printArg (args : List Char) : PrintArg :=
  match splitArgs args with
  | [] => .empty
  | arg :: _ =>
    let arg := (stripCall ['F'] arg).getD arg
    match unquote arg with
    | some body => .literal (String.ofList (expandEscapes body))
    | none => .value (.read arg)

/-- A formatted print: its template has to be a string literal. -/
def readPrintf? (args : List Char) : Option Action :=
  match splitArgs args with
  | [] => none
  | template :: rest =>
    if template.head? = some '"' then
      (unquote template).map fun body =>
        .printf (String.ofList (expandEscapes body)) (rest.map Expr.read)
    else none

/-- The hardware calls in the order in which they are tried. A call that is found with the wrong
arguments is none of the later ones either. -/
def hardwareCalls : List (String × (List Char → Option Action)) :=
  [("delay", fun args => some (.delay (.read args))),
    ("delayMicroseconds", fun args => some (.delayMicros (.read args))),
    ("Serial.begin", fun _ => some .serialBegin),
    ("Serial.println", fun args => some (.print (printArg args) true)),
    ("Serial.print", fun args => some (.print (printArg args) false)),
    ("Serial.printf", readPrintf?),
    ("pinMode", fun args => (twoArgs? args).map fun (pin, mode) => .pinMode pin mode),
    ("digitalWrite", fun args => (twoArgs? args).map fun (pin, value) => .digitalWrite pin value),
    ("analogWrite", fun args => (twoArgs? args).map fun (pin, duty) => .analogWrite pin duty),
    ("ledcWrite", fun args => (twoArgs? args).map fun (pin, duty) => .analogWrite pin duty),
    ("tone", fun args => (splitArgs args).head?.map fun pin =>
      .analogWrite (.read pin) (.number toneDuty)),
    ("noTone", fun args => some (.analogWrite (.read args) (.number 0.0)))]

/-- The hardware call that a text is, if it has the name and the shape of one; what it does is `none`
if its arguments are wrong. -/
def hardwareCall? (text : List Char) : Option (Option Action) :=
  hardwareCalls.findSome? fun (name, read) => (stripCall name.toList text).map read

/-- The operator of an assignment that ends in `=` behind the character `before`. -/
def assignOp? : Char → Option AssignOp
  | '+' => some .add
  | '-' => some .sub
  | '*' => some .mul
  | '/' => some .div
  | _ => none

/-- Finds the first equals sign, at the end of one of `parts` and at or behind position `start`, that
assigns rather than compares. Gives the text in front of the operator and the text behind it. -/
def findAssign (text : List Char) : Nat → List (List Char) → Option (List Char × AssignOp × List Char)
  | _, [] => none
  | start, part :: parts =>
    let pos := start + part.length
    if text.length ≤ pos then none
    else
      let before := if pos = 0 then ' ' else text.getD (pos - 1) ' '
      let after := text.getD (pos + 1) ' '
      if after = '=' || before = '=' || before = '!' || before = '<' || before = '>' then
        findAssign text (pos + 1) parts
      else match assignOp? before with
        | some op => some (text.take (pos - 1), op, text.drop (pos + 1))
        | none => some (text.take pos, .set, text.drop (pos + 1))

/-- An assignment, with an optional type in front of the name. -/
def readAssign? (text : List Char) : Option Action := do
  let (lhs, op, rhs) ← findAssign text 0 (splitTop ['='] text)
  let words := words lhs
  let last ← words.getLast?
  let name := last.dropWhile (· == '*')
  guard (isIdentifier name && words.dropLast.all fun w => isIdentifier (dropEndWhile (· == '*') w))
  some (.assign (String.ofList name) op (.read rhs))

/-- An increment or a decrement, the operator in front of the name or behind it. -/
def readStep? (text : List Char) : Option Action := do
  let (name, delta) ←
    ((dropSuffix? ['+', '+'] text).map (·, (1.0 : Float))).orElse fun _ =>
    ((dropSuffix? ['-', '-'] text).map (·, (-1.0 : Float))).orElse fun _ =>
    ((dropPrefix? ['+', '+'] text).map (·, (1.0 : Float))).orElse fun _ =>
    ((dropPrefix? ['-', '-'] text).map (·, (-1.0 : Float)))
  let name := trim name
  guard (isIdentifier name)
  some (.step (String.ofList name) delta)

end Action

namespace Stmt

/-- A statement that is not compound. -/
def readSimple (loc : Location) (text : List Char) : Stmt :=
  let ignored : Stmt := .act loc (.ignored (String.ofList text))
  match Action.hardwareCall? text with
  | some (some action) => .act loc action
  | some none => ignored
  | none =>
    match (Action.readAssign? text).or (Action.readStep? text) with
    | some action => .act loc action
    | none =>
      match splitCall text with
      | some (name, args) => .call loc (String.ofList name) ((splitArgs args).map Expr.read)
      | none => ignored

/-- A place in a text: the rest of it and the line on which the rest starts. -/
structure Cursor where
  line : Nat
  rest : List Char

/-- Moves on to `rest`, an end part of the text. -/
def Cursor.moveTo (c : Cursor) (rest : List Char) : Cursor :=
  ⟨c.line + (newlines c.rest - newlines rest), rest⟩

/-- The text between the first parentheses, and what follows them. -/
def header? (text : List Char) : Option (List Char × List Char) :=
  Bracket.round.enclosed? (text.dropWhile (· != '('))

/-- What follows the first top-level semicolon. -/
def afterStatement (text : List Char) : List Char := text.drop ((beforeTop [';'] text).length + 1)

/-- What follows a compound statement that stands without braces as the body of another: the text
behind its block or its first semicolon. -/
def afterCompound (text : List Char) : List Char :=
  match header? text with
  | none => []
  | some (_, after) =>
    let body := trimStart after
    if body.head? = some '\x7b' then ((Bracket.curly.enclosed? body).map Prod.snd).getD []
    else afterStatement body

/-- Reads the body of a compound statement, a block or a single statement, and moves behind it. The
statements in it are read by `read`. -/
def readBody (read : Location → List Char → Stmt) (c : Cursor) : List Stmt × Cursor :=
  let c := c.moveTo (trimStart c.rest)
  if c.rest.head? = some '\x7b' then
    let (inside, after) := (Bracket.curly.enclosed? c.rest).getD (c.rest.tail, [])
    ((cutBlock c.line inside).map fun p => read p.location p.text, c.moveTo after)
  else
    let (single, after) :=
      if (leadingKeyword c.rest).isSome then
        let after := afterCompound c.rest
        (c.rest.take (c.rest.length - after.length), after)
      else (beforeTop [';'] c.rest, afterStatement c.rest)
    (if isBlankText single then [] else [read ⟨c.line, 1⟩ single], c.moveTo after)

/-- Reads an `if` and its branches, of which there are at most `branches`; `none` if one of them has
no condition. -/
def readChain (read : Location → List Char → Stmt) : Nat → Cursor → Option Chain
  | 0, _ => none
  | branches + 1, c => do
    let (cond, after) ← header? c.rest
    let (body, c) := readBody read (c.moveTo after)
    let c := c.moveTo (trimStart c.rest)
    match leadingKeyword c.rest with
    | some .elseIf =>
      let rest ← readChain read branches (c.moveTo (trimStart (c.rest.drop 4)))
      some (.branch (.read cond) body rest)
    | some .elseWord =>
      some (.branch (.read cond) body (.otherwise (readBody read (c.moveTo (c.rest.drop 4))).1))
    | _ => some (.branch (.read cond) body .done)

/-- A clause in the header of a `for`, which may be missing. -/
def readClause (read : Location → List Char → Stmt) (line : Nat) (text : List Char) : Option Stmt :=
  if isBlankText text then none else some (read ⟨line, 1⟩ text)

def readFor? (read : Location → List Char → Stmt) (loc : Location) (text : List Char) : Option Stmt := do
  let (header, after) ← header? text
  match splitTop [';'] header with
  | [init, cond, step] =>
    let test := if isBlankText cond then Cond.truth (.number 1.0) else .read cond
    let (body, _) := readBody read ((Cursor.mk loc.line text).moveTo after)
    some (.forLoop loc (readClause read loc.line init) test (readClause read loc.line step) body)
  | _ => none

def readWhile? (read : Location → List Char → Stmt) (loc : Location) (text : List Char) : Option Stmt := do
  let (cond, after) ← header? text
  let (body, _) := readBody read ((Cursor.mk loc.line text).moveTo after)
  some (.whileLoop loc (.read cond) body)

/-- Reads a statement in which statements are nested less than `fuel` deep. -/
def readWithin : Nat → Location → List Char → Stmt
  | 0, loc, cs => .act loc (.ignored (String.ofList (trim cs)))
  | fuel + 1, loc, cs =>
    let text := trim cs
    let compound? : Option Stmt :=
      match leadingKeyword text with
      | some .ifWord => (readChain (readWithin fuel) text.length ⟨loc.line, text⟩).map (Stmt.choose loc)
      | some .forWord => readFor? (readWithin fuel) loc text
      | some .whileWord => readWhile? (readWithin fuel) loc text
      | some _ => none
      | none => some (readSimple loc text)
    compound?.getD (.act loc (.ignored (String.ofList text)))

/-- Reads a statement. The statements in its body are shorter than it is, so that its length bounds
how deep they are nested. -/
def read (loc : Location) (cs : List Char) : Stmt := readWithin (cs.length + 1) loc cs

/-- Reads the statements of a block. -/
def readAll (pieces : List Piece) : List Stmt := pieces.map fun p => read p.location p.text

end Stmt

end Breadboard
