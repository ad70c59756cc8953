import Breadboard.Decimal.Reading
import Breadboard.Json.Datum
import Breadboard.Table
import Breadboard.Text.Blank

set_option autoImplicit false

/-!
Reading JSON text. Of several defects the first one in reading order is reported.
-/
namespace Breadboard.Json

/-- What can be wrong with a text: it is no JSON, it ends too early, or it is JSON of the wrong
shape. -/
inductive Defect where
  | notJson
  | cutOff
  | wrongShape
  deriving DecidableEq, Repr

/-- Takes something off the front of a text. -/
abbrev Reader (α : Type) := List Char → Except Defect (α × List Char)

def isSpace (c : Char) : Bool := c == ' ' || c == '\n' || c == '\t' || c == '\r'

def skipSpace (cs : List Char) : List Char := cs.dropWhile isSpace

/-! ## Words and strings -/

/-- Reads exactly the characters of a word. -/
def readWord : List Char → List Char → Except Defect (List Char)
  | [], cs => .ok cs
  | _ :: _, [] => .error .cutOff
  | w :: word, c :: cs => if w = c then readWord word cs else .error .notJson

/-- Reads four hexadecimal digits. -/
def readHex4 : Reader Nat := fun cs =>
  if Text.byteSize (cs.take 4) < 4 then .error .cutOff
  else match (cs.take 4).mapM Decimal.hexDigit? with
    | some [a, b, c, d] => .ok (((a * 16 + b) * 16 + c) * 16 + d, cs.drop 4)
    | _ => .error .notJson

/-- Reads the second half of a character that is written as two escapes. -/
def readTrail (lead : Nat) : Reader Char
  | [] => .error .cutOff
  | ['\\'] => .error .cutOff
  | '\\' :: 'u' :: cs => do
    let (trail, cs) ← readHex4 cs
    if 0xDC00 ≤ trail ∧ trail ≤ 0xDFFF then
      .ok (Char.ofNat ((lead - 0xD800) * 0x400 + (trail - 0xDC00) + 0x10000), cs)
    else .error .notJson
  | _ => .error .notJson

/-- Reads what follows a backslash and `u`. -/
def readUnicode : Reader Char := fun cs => do
  let (n, cs) ← readHex4 cs
  if 0xD800 ≤ n ∧ n ≤ 0xDBFF then readTrail n cs
  else if 0xDC00 ≤ n ∧ n ≤ 0xDFFF then .error .notJson
  else .ok (Char.ofNat n, cs)

/-- What a backslash followed by a character stands for. -/
def simpleEscape? : Char → Option Char
  | '"' => some '"'
  | '\\' => some '\\'
  | '/' => some '/'
  | 'b' => some '\x08'
  | 'f' => some '\x0c'
  | 'n' => some '\n'
  | 'r' => some '\r'
  | 't' => some '\t'
  | _ => none

/-- Reads what follows a backslash, with `unicode` for what follows `u`. -/
def readEscape (unicode : Reader Char) : Reader Char
  | [] => .error .cutOff
  | c :: cs =>
    if c = 'u' then unicode cs
    else match simpleEscape? c with
      | some d => .ok (d, cs)
      | none => .error .notJson

/-- Reads the rest of a string up to its closing mark, with `seen` what came before, read backwards.
At most `fuel` characters are read. -/
def readChars (unicode : Reader Char) : Nat → List Char → Reader (List Char)
  | 0, _, _ => .error .cutOff
  | _ + 1, _, [] => .error .cutOff
  | fuel + 1, seen, c :: cs =>
    if c = '"' then .ok (seen.reverse, cs)
    else if c = '\\' then do
      let (d, cs) ← readEscape unicode cs
      readChars unicode fuel (d :: seen) cs
    else if c.toNat < 0x20 then .error .notJson
    else readChars unicode fuel (c :: seen) cs

/-- Reads a string from behind its opening mark. -/
def readString : Reader String := fun cs => do
  let (s, cs) ← readChars readUnicode (cs.length + 1) [] cs
  .ok (String.ofList s, cs)

/-! ## Numbers -/

/-- The largest whole number that is kept as it is. -/
def maxWhole : Nat := Decimal.twoTo 64 - 1

/-- Takes in digits as long as the number fits into 64 bits. Gives the number, how many digits went
into it, and how many were left. -/
def takeDigits : Nat → List Char → Nat × Nat × Nat
  | n, [] => (n, 0, 0)
  | n, c :: cs =>
    let m := 10 * n + (c.toNat - '0'.toNat)
    if m ≤ maxWhole then
      let (k, taken, left) := takeDigits m cs
      (k, taken + 1, left)
    else (n, 0, cs.length + 1)

/-- The largest power of ten that a number is scaled by at once. -/
def maxPower : Nat := 308

def powerOfTen (n : Nat) : Float := Decimal.nearest (Decimal.tenTo n) 1

/-- Scales a number down by a power of ten, in at most `fuel` steps. -/
def scaleDown : Nat → Float → Nat → Float
  | 0, x, _ => x
  | fuel + 1, x, n =>
    if n ≤ maxPower then x / powerOfTen n
    else if x == 0.0 then x
    else scaleDown fuel (x / powerOfTen maxPower) (n - maxPower)

/-- The number `significand * 10 ^ exponent`, rounded at every step of the computation. An infinite
one is refused. -/
def realOf (negative : Bool) (significand : Nat) (exponent : Int) : Except Defect Float :=
  let x := Decimal.nearest significand 1
  let size : Except Defect Float :=
    if exponent < 0 then .ok (scaleDown 4 x exponent.natAbs)
    else if exponent.toNat ≤ maxPower then
      let y := x * powerOfTen exponent.toNat
      if y.isInf then .error .notJson else .ok y
    else if x == 0.0 then .ok x
    else .error .notJson
  size.map fun y => if negative then -y else y

/-- The largest exponent that is read as it is. -/
def maxExponent : Nat := Decimal.twoTo 31 - 1

/-- Keeps an exponent within 32 bits. -/
def clampExponent (e : Int) : Int := max (-Decimal.twoTo 31) (min maxExponent e)

/-- Reads what follows the `e` of a number whose significand is to be scaled by `start` already. -/
def readExponent (negative : Bool) (significand : Nat) (start : Int) : Reader Numeral := fun cs => do
  let (down, cs) := match cs with
    | '+' :: cs => (false, cs)
    | '-' :: cs => (true, cs)
    | cs => (false, cs)
  match cs with
  | [] => .error .cutOff
  | c :: _ =>
    if !c.isDigit then .error .notJson
    else
      let e := Decimal.ofDigits (cs.takeWhile Char.isDigit)
      let rest := cs.dropWhile Char.isDigit
      if e ≤ maxExponent then
        let x ← realOf negative significand (clampExponent (if down then start - e else start + e))
        .ok (.real x, rest)
      else if significand ≠ 0 ∧ !down then .error .notJson
      else .ok (.real (if negative then -0.0 else 0.0), rest)

def isExponentMark (c : Char) : Bool := c == 'e' || c == 'E'

/-- Reads what follows the point of a number. -/
def readPlaces (negative : Bool) (significand : Nat) (start : Int) : Reader Numeral := fun cs => do
  let digits := cs.takeWhile Char.isDigit
  let rest := cs.dropWhile Char.isDigit
  if digits.isEmpty then .error (if rest.isEmpty then .cutOff else .notJson)
  else
    let (significand, taken, _) := takeDigits significand digits
    let exponent := start - taken
    match rest with
    | c :: tail =>
      if isExponentMark c then readExponent negative significand exponent tail
      else
        let x ← realOf negative significand exponent
        .ok (.real x, rest)
    | [] =>
      let x ← realOf negative significand exponent
      .ok (.real x, rest)

/-- A whole number with its sign. Zero with a minus sign and what does not fit into 64 bits are
floating-point numbers. -/
def wholeNumeral (negative : Bool) (n : Nat) : Numeral :=
  if negative then
    if 0 < n ∧ n ≤ Decimal.twoTo 63 then .whole (-n) else .real (-Decimal.nearest n 1)
  else .whole n

/-- Reads a number behind its sign. -/
def readUnsigned (negative : Bool) : Reader Numeral := fun cs => do
  let digits := cs.takeWhile Char.isDigit
  let rest := cs.dropWhile Char.isDigit
  match digits with
  | [] => .error (if rest.isEmpty then .cutOff else .notJson)
  | '0' :: _ :: _ => .error .notJson
  | _ =>
    let (significand, _, left) := takeDigits 0 digits
    let plain : Except Defect (Numeral × List Char) :=
      if left = 0 then .ok (wholeNumeral negative significand, rest)
      else (realOf negative significand left).map fun x => (.real x, rest)
    match rest with
    | c :: tail =>
      if c = '.' then readPlaces negative significand left tail
      else if isExponentMark c then readExponent negative significand left tail
      else plain
    | [] => plain

def readNumber : Reader Numeral
  | '-' :: cs => readUnsigned true cs
  | cs => readUnsigned false cs

/-! ## Arrays and objects -/

/-- Looks for the next item of an array: where it starts, or `none` at the end of the array. -/
def nextItem (first : Bool) (cs : List Char) : Except Defect (Option (List Char)) :=
  match skipSpace cs with
  | [] => .error .cutOff
  | c :: rest =>
    if c = ']' then .ok none
    else if first then .ok (some (c :: rest))
    else if c = ',' then
      match skipSpace rest with
      | [] => .error .cutOff
      | d :: rest => if d = ']' then .error .notJson else .ok (some (d :: rest))
    else .error .notJson

/-- Reads the items of an array up to its end. -/
def readItems {α : Type} (item : Reader α) : Nat → Bool → List α → Reader (List α)
  | 0, _, _, _ => .error .cutOff
  | fuel + 1, first, seen, cs => do
    match ← nextItem first cs with
    | none => .ok (seen.reverse, (skipSpace cs).tail)
    | some cs =>
      let (a, cs) ← item cs
      readItems item fuel false (a :: seen) cs

/-- Looks for the next field of an object: what follows the opening mark of its name, or `none` at
the end of the object. -/
def nextField (first : Bool) (cs : List Char) : Except Defect (Option (List Char)) :=
  match skipSpace cs with
  | [] => .error .cutOff
  | c :: rest =>
    if c = '\x7d' then .ok none
    else if first then if c = '"' then .ok (some rest) else .error .notJson
    else if c = ',' then
      match skipSpace rest with
      | [] => .error .cutOff
      | d :: rest => if d = '"' then .ok (some rest) else .error .notJson
    else .error .notJson

/-- Reads the colon between a name and its value. -/
def readColon (cs : List Char) : Except Defect (List Char) :=
  match skipSpace cs with
  | [] => .error .cutOff
  | c :: rest => if c = ':' then .ok rest else .error .notJson

/-- Reads the fields of an object up to its end; `field` goes on from behind a name. -/
def readFields {σ : Type} (field : σ → String → Reader σ) : Nat → Bool → σ → Reader σ
  | 0, _, _, _ => .error .cutOff
  | fuel + 1, first, s, cs => do
    match ← nextField first cs with
    | none => .ok (s, (skipSpace cs).tail)
    | some cs =>
      let (name, cs) ← readString cs
      let (s, cs) ← field s name cs
      readFields field fuel false s cs

/-- Reads an array from behind its opening bracket. -/
def readArray {α : Type} (item : Reader α) : Reader (List α) := fun cs =>
  readItems item (cs.length + 1) true [] cs

/-- Reads an object from behind its opening brace. -/
def readObject {σ : Type} (field : σ → String → Reader σ) (start : σ) : Reader σ := fun cs =>
  readFields field (cs.length + 1) true start cs

/-! ## Documents -/

/-- How deep arrays and objects may be nested. -/
def maxDepth : Nat := 127

/-- Reads a value that is no array, no object and no string, where `c` opens it. -/
def readScalar (c : Char) (cs : List Char) : Except Defect (Datum × List Char) :=
  if c = 'n' then (readWord "ull".toList cs).map fun cs => (.null, cs)
  else if c = 't' then (readWord "rue".toList cs).map fun cs => (.bool true, cs)
  else if c = 'f' then (readWord "alse".toList cs).map fun cs => (.bool false, cs)
  else if c = '-' || c.isDigit then (readNumber (c :: cs)).map fun (n, cs) => (.number n, cs)
  else .error .notJson

/-- Reads a document in which arrays and objects are nested at most `levels` deep. Of two fields of
the same name the later one counts. -/
def readDatum : Nat → Reader Datum
  | levels, cs =>
    match skipSpace cs with
    | [] => .error .cutOff
    | c :: rest =>
      if c = '"' then (readString rest).map fun (s, cs) => (.string s, cs)
      else if c = '[' then
        match levels with
        | 0 => .error .notJson
        | levels + 1 => (readArray (readDatum levels) rest).map fun (items, cs) => (.array items, cs)
      else if c = '\x7b' then
        match levels with
        | 0 => .error .notJson
        | levels + 1 =>
          let field (fields : List (String × Datum)) (name : String) :
              Reader (List (String × Datum)) := fun cs => do
            let cs ← readColon cs
            let (d, cs) ← readDatum levels cs
            .ok (Table.insertInto name d fields, cs)
          (readObject field [] rest).map fun (fields, cs) => (.object fields, cs)
      else readScalar c rest

/-- The defect of a text that opens with a value of a kind that is not wanted. What can be read of
that value is read first. -/
def unwanted (cs : List Char) : Defect :=
  match cs with
  | [] => .cutOff
  | c :: rest =>
    if c = '[' || c = '\x7b' then .wrongShape
    else
      let read : Except Defect (List Char) :=
        if c = '"' then (readString rest).map Prod.snd else (readScalar c rest).map Prod.snd
      match read with
      | .ok _ => .wrongShape
      | .error e => e

/-- Reads a string where one is wanted. -/
def wantString : Reader String := fun cs =>
  match skipSpace cs with
  | '"' :: rest => readString rest
  | cs => .error (unwanted cs)

/-- Reads an array where one is wanted, at a level. -/
def wantArray {α : Type} (item : Nat → Reader α) : Nat → Reader (List α) := fun levels cs =>
  match skipSpace cs with
  | '[' :: rest =>
    match levels with
    | 0 => .error .notJson
    | levels + 1 => readArray (item levels) rest
  | cs => .error (unwanted cs)

/-! ## Passing over a value -/

/-- Reads an escape of a string that is passed over: any four digits will do. -/
def passUnicode : Reader Char := fun cs => (readHex4 cs).map fun (_, cs) => (' ', cs)

def passString (cs : List Char) : Except Defect (List Char) :=
  (readChars passUnicode (cs.length + 1) [] cs).map Prod.snd

/-- Passes over the exponent of a number, from behind its mark. -/
def passExponent (cs : List Char) : Except Defect (List Char) :=
  let cs := match cs with
    | '+' :: cs => cs
    | '-' :: cs => cs
    | cs => cs
  if cs.head?.any Char.isDigit then .ok (cs.dropWhile Char.isDigit) else .error .notJson

/-- Passes over a number behind its sign. -/
def passNumber (cs : List Char) : Except Defect (List Char) :=
  let tail (cs : List Char) : Except Defect (List Char) :=
    match cs with
    | c :: rest => if isExponentMark c then passExponent rest else .ok cs
    | [] => .ok []
  match cs.takeWhile Char.isDigit with
  | [] => .error .notJson
  | '0' :: _ :: _ => .error .notJson
  | _ =>
    match cs.dropWhile Char.isDigit with
    | '.' :: rest =>
      if rest.head?.any Char.isDigit then tail (rest.dropWhile Char.isDigit) else .error .notJson
    | rest => tail rest

/-- Passes over a value that is no array and no object, where `c` opens it. -/
def passScalar (c : Char) (cs : List Char) : Except Defect (List Char) :=
  if c = 'n' then readWord "ull".toList cs
  else if c = 't' then readWord "rue".toList cs
  else if c = 'f' then readWord "alse".toList cs
  else if c = '-' then passNumber cs
  else if c.isDigit then passNumber (c :: cs)
  else if c = '"' then passString cs
  else .error .notJson

/-- Passes over the name of a field and its colon. -/
def passName (cs : List Char) : Except Defect (List Char) := do
  match skipSpace cs with
  | [] => .error .cutOff
  | c :: rest =>
    if c = '"' then
      let cs ← passString rest
      readColon cs
    else .error .notJson

/-- Where the passing over a value stands: at a value, or inside the innermost container with or
without an item in front. -/
inductive PassState where
  | value
  | inside (afterItem : Bool)

/-- Passes over a value, where `containers` are open, the innermost first. Their number does not
matter. -/
def pass : Nat → PassState → List Bool → List Char → Except Defect (List Char)
  | 0, _, _, _ => .error .cutOff
  | fuel + 1, .value, containers, cs =>
    match skipSpace cs with
    | [] => .error .cutOff
    | c :: rest =>
      if c = '[' || c = '\x7b' then pass fuel (.inside false) ((c == '\x7b') :: containers) rest
      else do
        let rest ← passScalar c rest
        if containers.isEmpty then .ok rest else pass fuel (.inside true) containers rest
  | _ + 1, .inside _, [], cs => .ok cs
  | fuel + 1, .inside afterItem, isObject :: containers, cs =>
    match skipSpace cs with
    | [] => .error .cutOff
    | c :: rest =>
      if c = (if isObject then '\x7d' else ']') then
        if containers.isEmpty then .ok rest else pass fuel (.inside true) containers rest
      else if afterItem && c != ',' then .error .notJson
      else do
        let rest := if afterItem then rest else c :: rest
        let rest ← if isObject then passName rest else .ok rest
        pass fuel .value (isObject :: containers) rest

def passValue (cs : List Char) : Except Defect (List Char) :=
  pass (2 * cs.length + 2) .value [] cs

end Breadboard.Json
