import Breadboard.Decimal.Layout

set_option autoImplicit false

/-!
JSON documents and their text.
-/
namespace Breadboard.Json

/-- A number: a whole number of at most 64 bits, or a floating-point number. -/
inductive Numeral where
  | whole (n : Int)
  | real (x : Float)
  deriving DecidableEq, Repr

inductive Datum where
  | null
  | bool (b : Bool)
  | number (n : Numeral)
  | string (s : String)
  | array (items : List Datum)
  | object (fields : List (String × Datum))
  deriving Repr, Inhabited

namespace Datum

def isNull : Datum → Bool
  | null => true
  | _ => false

mutual

/-- Whether two documents are the same. -/
def same : Datum → Datum → Bool
  | null, null => true
  | bool a, bool b => a == b
  | number a, number b => a == b
  | string a, string b => a == b
  | array a, array b => sameItems a b
  | object a, object b => sameFields a b
  | _, _ => false

def sameItems : List Datum → List Datum → Bool
  | [], [] => true
  | a :: as, b :: bs => a.same b && sameItems as bs
  | _, _ => false

def sameFields : List (String × Datum) → List (String × Datum) → Bool
  | [], [] => true
  | (k, a) :: as, (l, b) :: bs => k == l && a.same b && sameFields as bs
  | _, _ => false

end

end Datum

/-- Numbers in a document: whole ones have a point, and those from 10^16 on or below 10^-5 have an
exponent with a sign. -/
def numberLayout : Decimal.Layout :=
  { tie := .even, pointAbove := some (-5), pointUpTo := some 16, wholePoint := true
    exponentPlus := true }

def Numeral.render : Numeral → List Char
  | whole n => Decimal.integer n
  | real x => numberLayout.render x

/-- A character of a string. Marks, backslashes and control characters are escaped. -/
def escapeChar (c : Char) : List Char :=
  match c with
  | '"' => ['\\', '"']
  | '\\' => ['\\', '\\']
  | '\x08' => ['\\', 'b']
  | '\x0c' => ['\\', 'f']
  | '\n' => ['\\', 'n']
  | '\r' => ['\\', 'r']
  | '\t' => ['\\', 't']
  | c =>
    if c.toNat < 0x20 then
      ['\\', 'u', '0', '0', Nat.digitChar (c.toNat / 16), Nat.digitChar (c.toNat % 16)]
    else [c]

def renderString (s : String) : List Char := '"' :: s.toList.flatMap escapeChar ++ ['"']

/-- A new line at a depth; every level is indented by two blanks. -/
def newLine (depth : Nat) : List Char := '\n' :: List.replicate (2 * depth) ' '

mutual

/-- The text of a document that stands at a depth. -/
def Datum.render (depth : Nat) : Datum → List Char
  | .null => "null".toList
  | .bool b => if b then "true".toList else "false".toList
  | .number n => n.render
  | .string s => renderString s
  | .array [] => "[]".toList
  | .array (item :: items) =>
    '[' :: newLine (depth + 1) ++ item.render (depth + 1) ++ Datum.renderItems (depth + 1) items ++
      newLine depth ++ [']']
  | .object [] => ['\x7b', '\x7d']
  | .object ((name, d) :: fields) =>
    '\x7b' :: newLine (depth + 1) ++ renderString name ++ ':' :: ' ' :: d.render (depth + 1) ++
      Datum.renderFields (depth + 1) fields ++ newLine depth ++ ['\x7d']

/-- The items of an array behind the first. -/
def Datum.renderItems (depth : Nat) : List Datum → List Char
  | [] => []
  | item :: items => ',' :: newLine depth ++ item.render depth ++ Datum.renderItems depth items

/-- The fields of an object behind the first. -/
def Datum.renderFields (depth : Nat) : List (String × Datum) → List Char
  | [] => []
  | (name, d) :: fields =>
    ',' :: newLine depth ++ renderString name ++ ':' :: ' ' :: d.render depth ++
      Datum.renderFields depth fields

end

end Breadboard.Json
