import Breadboard.Sketch.Expr
import Breadboard.Sketch.Literal

set_option autoImplicit false

/-!
Reading expressions and conditions from text. No text is refused: what has no known form is left for
arithmetic. What is nested too deeply reads as zero.
-/
namespace Breadboard

open Text

/-- How many levels of calls and conditions are read. -/
def maxLevels : Nat := 65

/-- Whether a text is a call of `name` without arguments. -/
def isBareCall (name : String) (cs : List Char) : Bool := (stripCall name.toList cs).any isBlankText

namespace Expr

/-- An expression that needs no nested one. -/
def readLeaf? (text : List Char) : Option Expr :=
  let word := String.ofList text
  if word = "HIGH" || word = "true" then some (.number 1.0)
  else if word = "LOW" || word = "false" then some (.number 0.0)
  else if word = "INPUT" || word = "OUTPUT" || word = "INPUT_PULLUP" then some (.text word)
  else match numberLiteral? text with
    | some n => some (.number n)
    | none =>
      match unquote text with
      | some body => some (.text (String.ofList (expandEscapes body)))
      | none =>
        if isBareCall "millis" text then some .millis
        else if isBareCall "micros" text then some .micros
        else none

/-- The function and the arguments of a text that calls a known function. -/
def builtinCall? (text : List Char) : Option (Builtin × List (List Char)) := do
  let (name, args) ← splitCall text
  let f ← Builtin.ofName? (String.ofList name)
  some (f, splitArgs args)

/-- Reads an expression; what lies more than `levels` calls deep is zero. -/
def readWithin : Nat → List Char → Expr
  | 0, _ => .number 0.0
  | levels + 1, cs =>
    let text := trim cs
    match readLeaf? text with
    | some e => e
    | none =>
      match stripCall "digitalRead".toList text with
      | some pin => .digitalRead (readWithin levels pin)
      | none =>
        match stripCall "analogRead".toList text with
        | some pin => .analogRead (readWithin levels pin)
        | none =>
          match builtinCall? text with
          | some (f, args) => .builtin f (args.map (readWithin levels))
          | none =>
            if isIdentifier text then .var (String.ofList text)
            else .arithmetic (String.ofList text)

def read (cs : List Char) : Expr := readWithin maxLevels cs

end Expr

namespace Cond

/-- Drops one pair of parentheses around the whole of a text. -/
def stripParens (cs : List Char) : List Char :=
  let text := trim cs
  match Bracket.round.enclosed? text with
  | some (inside, []) => trim inside
  | _ => text

/-- The first comparison in search order that stands at the top level, and its two sides. -/
def comparison? (text : List Char) : Option (Comparison × List Char × List Char) :=
  Comparison.searchOrder.findSome? fun op =>
    (cutTop? op.symbol.toList text).map fun (lhs, rhs) => (op, lhs, rhs)

/-- What a text that opens with a negation negates. -/
def negated? : List Char → Option (List Char)
  | '!' :: rest => if rest.head? = some '=' then none else some rest
  | _ => none

/-- Reads a condition: a conjunction is looked for first, then a disjunction, a negation and a
comparison. What lies more than `levels` deep is false. -/
def readWithin : Nat → List Char → Cond
  | 0, _ => .truth (.number 0.0)
  | levels + 1, cs =>
    let text := stripParens cs
    match splitTop "&&".toList text with
    | first :: second :: rest => .all ((first :: second :: rest).map (readWithin levels))
    | _ =>
      match splitTop "||".toList text with
      | first :: second :: rest => .any ((first :: second :: rest).map (readWithin levels))
      | _ =>
        match negated? text with
        | some rest => .not (readWithin levels rest)
        | none =>
          match comparison? text with
          | some (op, lhs, rhs) => .compare (.readWithin levels lhs) op (.readWithin levels rhs)
          | none => .truth (.readWithin levels text)

def read (cs : List Char) : Cond := readWithin maxLevels cs

end Cond

end Breadboard
