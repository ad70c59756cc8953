import Breadboard.Text.Call
import Breadboard.Decimal.Layout
import Breadboard.Decimal.Reading

set_option autoImplicit false

/-!
Arithmetic on text. The names in an expression are replaced by the text of their values, and what
results is read as sums and products of numbers. Whatever is not such an expression is worth zero.
-/
namespace Breadboard.Arithmetic

open Text

/-- The constants that an expression can name. -/
def constant? (word : String) : Option Float :=
  if word = "HIGH" || word = "true" then some 1.0
  else if word = "LOW" || word = "false" then some 0.0
  else none

/-- The text that takes the place of a word. A negative number is put in parentheses. A word that
names nothing stays. -/
def replaceWord (lookup : String → Option Float) (word : List Char) : List Char :=
  let name := String.ofList word
  let value :=
    match constant? name with
    | some x => some x
    | none => if word.head?.any Char.isDigit then none else lookup name
  match value with
  | none => word
  | some x =>
    let digits := Decimal.Layout.plain.render x
    if x < 0.0 then '(' :: digits ++ [')'] else digits

/-- Replaces the words of a text, with `seen` the current word so far, read backwards. -/
def substituteFrom (lookup : String → Option Float) (seen : List Char) : List Char → List Char
  | [] => if seen.isEmpty then [] else replaceWord lookup seen.reverse
  | c :: cs =>
    if isWordChar c then substituteFrom lookup (c :: seen) cs
    else (if seen.isEmpty then [] else replaceWord lookup seen.reverse) ++
      c :: substituteFrom lookup [] cs

def substitute (lookup : String → Option Float) (cs : List Char) : List Char :=
  substituteFrom lookup [] cs

inductive Token where
  | number (n : Float)
  | op (c : Char)
  | opening
  | closing
  /-- Digits and points that are no number. -/
  | bad
  deriving DecidableEq, Repr

def isNumberChar (c : Char) : Bool := c.isDigit || c == '.'

def numberToken (cs : List Char) : Token :=
  match Decimal.read? cs with
  | some n => .number n
  | none => .bad

/-- The tokens of a text, with `seen` the current number so far, read backwards. -/
def tokensFrom (seen : List Char) : List Char → List Token
  | [] => if seen.isEmpty then [] else [numberToken seen.reverse]
  | c :: cs =>
    if isNumberChar c then tokensFrom (c :: seen) cs
    else
      let rest := tokensFrom [] cs
      let rest :=
        if isBlank c then rest
        else if c = '(' then .opening :: rest
        else if c = ')' then .closing :: rest
        else .op c :: rest
      if seen.isEmpty then rest else numberToken seen.reverse :: rest

def tokens (cs : List Char) : List Token := tokensFrom [] cs

/-- A part of an expression: its value and the tokens behind it. -/
abbrev Part := Option (Float × List Token)

/-- Applies an operator between factors; nothing can be divided by zero. -/
def applyFactor (op : Char) (x y : Float) : Option Float :=
  if op = '*' then some (x * y)
  else if y == 0.0 then none
  else if op = '/' then some (x / y)
  else some (Decimal.remainder x y)

/-- The factors that follow a value, from left to right; `fuel` bounds their number. -/
def factorsAfter (factor : List Token → Part) : Nat → Float → List Token → Part
  | fuel + 1, x, .op c :: ts =>
    if c = '*' || c = '/' || c = '%' then do
      let (y, ts) ← factor ts
      let z ← applyFactor c x y
      factorsAfter factor fuel z ts
    else some (x, .op c :: ts)
  | _, x, ts => some (x, ts)

def product (factor : List Token → Part) (ts : List Token) : Part := do
  let (x, rest) ← factor ts
  factorsAfter factor ts.length x rest

/-- The summands that follow a value, from left to right; `fuel` bounds their number. -/
def summandsAfter (factor : List Token → Part) : Nat → Float → List Token → Part
  | fuel + 1, x, .op c :: ts =>
    if c = '+' || c = '-' then do
      let (y, ts) ← product factor ts
      summandsAfter factor fuel (if c = '+' then x + y else x - y) ts
    else some (x, .op c :: ts)
  | _, x, ts => some (x, ts)

def sum (factor : List Token → Part) (ts : List Token) : Part := do
  let (x, rest) ← product factor ts
  summandsAfter factor ts.length x rest

/-- A number, a signed factor or a sum in parentheses, where signs and parentheses may be nested
`levels` deep. -/
def factor : Nat → List Token → Part
  | _, .number n :: ts => some (n, ts)
  | levels + 1, .op c :: ts =>
    if c = '+' || c = '-' then do
      let (x, ts) ← factor levels ts
      some (if c = '-' then -x else x, ts)
    else none
  | levels + 1, .opening :: ts => do
    match ← sum (factor levels) ts with
    | (x, .closing :: ts) => some (x, ts)
    | _ => none
  | _, _ => none

/-- How deep signs and parentheses may be nested. -/
def maxNesting : Nat := 64

/-- The value of a list of tokens that is one expression. -/
def tokensValue? (ts : List Token) : Option Float :=
  match sum (factor maxNesting) ts with
  | some (x, []) => if x.isFinite then some x else none
  | _ => none

/-- The characters of an expression without names. -/
def isAllowed (c : Char) : Bool := c.isDigit || isBlank c || "+-*/%().".toList.contains c

/-- Whether some character is followed by itself and is `c`. -/
def hasPair (c : Char) : List Char → Bool
  | a :: b :: cs => (a = c && b = c) || hasPair c (b :: cs)
  | _ => false

/-- The value of an expression text, with names looked up. -/
def evaluate (lookup : String → Option Float) (text : List Char) : Float :=
  let cs := substitute lookup text
  if isBlankText cs || !cs.all isAllowed || hasPair '+' cs || hasPair '-' cs then 0.0
  else (tokensValue? (tokens cs)).getD 0.0

end Breadboard.Arithmetic
