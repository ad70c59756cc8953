import Breadboard.Text.Bracket

set_option autoImplicit false

/-!
Identifiers, calls and the keywords that open a compound statement.
-/
namespace Breadboard.Text

/-- A character that an identifier may hold. -/
def isWordChar (c : Char) : Bool := c.isAlphanum || c == '_'

def isIdentifier : List Char → Bool
  | [] => false
  | c :: cs => (c.isAlpha || c == '_') && cs.all isWordChar

/-- The argument text of a text that is a call of `name` and nothing else. -/
def stripCall (name cs : List Char) : Option (List Char) := do
  let rest ← dropPrefix? name (trim cs)
  match ← Bracket.round.enclosed? (trimStart rest) with
  | (args, []) => some args
  | _ => none

/-- The name and the argument text of a text that is a call and nothing else. -/
def splitCall (cs : List Char) : Option (List Char × List Char) := do
  let text := trim cs
  guard (text.contains '(')
  let name := trim (text.takeWhile (· != '('))
  guard (isIdentifier name)
  let args ← stripCall name text
  some (name, args)

/-- The words that open a compound statement. -/
inductive Keyword where
  | ifWord
  | elseIf
  | elseWord
  | forWord
  | whileWord
  deriving DecidableEq, Repr

/-- What follows `word`, if the text starts with it as a whole word. -/
def dropWord? (word cs : List Char) : Option (List Char) := do
  let rest ← dropPrefix? word cs
  guard (!rest.head?.any isWordChar)
  some rest

def leadingKeyword (cs : List Char) : Option Keyword :=
  let line := trimStart cs
  match dropWord? "else".toList line with
  | some rest =>
    if (dropWord? "if".toList (trimStart rest)).isSome then some .elseIf else some .elseWord
  | none =>
    if (dropWord? "if".toList line).isSome then some .ifWord
    else if (dropWord? "for".toList line).isSome then some .forWord
    else if (dropWord? "while".toList line).isSome then some .whileWord
    else none

end Breadboard.Text
