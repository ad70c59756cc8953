import Breadboard.Text.Call
import Breadboard.Table
import Breadboard.Value

set_option autoImplicit false

/-!
Number literals and the values of definitions and initialisers.
-/
namespace Breadboard

open Text

/-- Digits with at most one point, read as a number. -/
def pointNumber? (cs : List Char) : Option Float :=
  if cs.all (fun c => c.isDigit || c == '.') && cs.count '.' ≤ 1 then Decimal.read? cs else none

/-- A number literal: a sign, then decimal digits with a point or `0x` and hexadecimal digits, then
suffixes for its type. -/
def numberLiteral? (cs : List Char) : Option Float := do
  let text := trim cs
  let (negative, body) := match text with
    | '-' :: body => (true, body)
    | '+' :: body => (false, body)
    | body => (false, body)
  let size ← match (dropPrefix? "0x".toList body).or (dropPrefix? "0X".toList body) with
    | some hex => (Decimal.readHex? (dropEndWhile (fun c => "uUlL".toList.contains c) hex)).map Decimal.ofInt
    | none => pointNumber? (dropEndWhile (fun c => "uUlLfF".toList.contains c) body)
  some (if negative then -size else size)

/-- The value of a definition or an initialiser: a constant, a literal, or an earlier name. Anything
else is zero. -/
def literalValue (globals : Table Value) (cs : List Char) : Value :=
  let text := trim (dropEndWhile (· == ';') (trim cs))
  let word := String.ofList text
  if word = "true" || word = "HIGH" then .number 1.0
  else if word = "false" || word = "LOW" then .number 0.0
  else match numberLiteral? text with
    | some n => .number n
    | none =>
      match if text.head? = some '"' then unquote text else none with
      | some body => .text (String.ofList (expandEscapes body))
      | none => (globals.find? word).getD .zero

end Breadboard
