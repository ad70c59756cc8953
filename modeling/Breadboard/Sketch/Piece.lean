import Breadboard.Sketch.Stmt
import Breadboard.Text.Call

set_option autoImplicit false

/-!
Cutting the text of a block into the texts of its statements.

A line that opens with a keyword takes in the lines after it until its braces are closed, and an `if`
also takes in the `else` branches that start on later lines. A line with open parentheses takes in
the lines after it until they are closed. Other lines are cut at their semicolons.
-/
namespace Breadboard

open Text

/-- The text of a statement and where it starts. -/
structure Piece where
  text : List Char
  location : Location
  deriving DecidableEq, Repr

namespace Piece

/-- Text between statements. -/
def isFiller (cs : List Char) : Bool :=
  cs.all fun c => isBlank c || c == '\x7b' || c == '\x7d' || c == ';'

/-- The simple statements of a line. -/
def ofLine (loc : Location) (line : List Char) : List Piece :=
  ((splitTop [';'] line).map trim).filterMap fun part => if isFiller part then none else some ⟨part, loc⟩

end Piece

/-- A compound statement that is being taken in. -/
structure Compound where
  location : Location
  /-- The lines so far, the latest first. -/
  lines : List (List Char)
  /-- Open braces. -/
  depth : Int
  /-- Whether the current branch has had a brace. -/
  opened : Bool
  /-- Whether branches can follow. -/
  isChain : Bool
  deriving DecidableEq, Repr

namespace Compound

def piece (c : Compound) : Piece := ⟨['\n'].intercalate c.lines.reverse, c.location⟩

/-- Whether a text ends in a semicolon. -/
def endsStatement (line : List Char) : Bool := (trimEnd line).getLast? == some ';'

def add (c : Compound) (line : List Char) : Compound :=
  { c with
    lines := line :: c.lines
    depth := c.depth + Bracket.curly.balance .code line
    opened := c.opened || containsCode 0x7b .code line }

/-- Whether the branch that ends with `line` is complete. -/
def isComplete (c : Compound) (line : List Char) : Bool :=
  c.depth ≤ 0 && (c.opened || endsStatement line)

/-- Whether the first line with text on it opens with `else`. -/
def continuesIn (rest : List (List Char)) : Bool :=
  ((rest.find? fun line => !isBlankText line).bind leadingKeyword).any
    fun k => k == .elseWord || k == .elseIf

end Compound

/-- Where the cutting of a block stands. -/
inductive CutState where
  | idle
  /-- Taking in a line whose parentheses are open. -/
  | joining (loc : Location) (text : List Char) (parens : Int)
  | absorbing (c : Compound)

namespace CutState

def finish : CutState → List Piece
  | idle => []
  | joining loc text _ => Piece.ofLine loc text
  | absorbing c => [c.piece]

/-- Goes on with a line while parentheses are open. -/
def join (loc : Location) (text : List Char) (parens : Int) : List Piece × CutState :=
  if parens > 0 then ([], joining loc text parens) else (Piece.ofLine loc text, idle)

/-- Adds a line to a compound statement, of which `rest` are the lines to come. -/
def absorb (c : Compound) (line : List Char) (rest : List (List Char)) : List Piece × CutState :=
  let c := c.add line
  if c.isComplete line then
    if c.isChain && Compound.continuesIn rest then
      ([], absorbing { c with depth := 0, opened := false })
    else ([c.piece], idle)
  else ([], absorbing c)

def isChainWord : Keyword → Bool
  | .ifWord | .elseIf | .elseWord => true
  | _ => false

/-- Starts on a line of its own. -/
def startLine (number : Nat) (raw : List Char) (rest : List (List Char)) : List Piece × CutState :=
  let line := trimStart ((trim raw).dropWhile (· == '\x7d'))
  let loc : Location := ⟨number, byteSize raw - byteSize (trimStart raw) + 1⟩
  if Piece.isFiller line then ([], idle)
  else match leadingKeyword line with
    | some k => absorb ⟨loc, [], 0, false, isChainWord k⟩ line rest
    | none => join loc line (Bracket.round.balance .code line)

/-- Takes in one line. -/
def next (s : CutState) (number : Nat) (raw : List Char) (rest : List (List Char)) :
    List Piece × CutState :=
  match s with
  | idle => startLine number raw rest
  | joining loc text parens =>
    join loc (text ++ ' ' :: trim raw) (parens + Bracket.round.balance .code raw)
  | absorbing c => absorb c raw rest

end CutState

/-- Cuts lines into pieces, with `number` that of the first line. -/
def cutLines : CutState → Nat → List (List Char) → List Piece
  | s, _, [] => s.finish
  | s, number, line :: rest =>
    (s.next number line rest).1 ++ cutLines (s.next number line rest).2 (number + 1) rest

/-- The statements of a block whose text starts on line `number`. -/
def cutBlock (number : Nat) (text : List Char) : List Piece := cutLines .idle number (lines text)

end Breadboard
