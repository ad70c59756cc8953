import Breadboard.Value

set_option autoImplicit false

/-!
Templates for formatted printing: a text with directives that are filled in from a list of values.
-/
namespace Breadboard

/-- What a directive makes of its value. -/
inductive Conversion where
  | signed
  | unsigned
  | lowerHex
  | upperHex
  | fixed
  | text
  | char
  deriving DecidableEq, Repr

def Conversion.ofChar? : Char → Option Conversion
  | 'd' | 'i' => some .signed
  | 'u' => some .unsigned
  | 'x' => some .lowerHex
  | 'X' => some .upperHex
  | 'f' => some .fixed
  | 's' => some .text
  | 'c' => some .char
  | _ => none

structure Directive where
  /-- Fill with blanks on the right. -/
  left : Bool
  /-- Fill with zeros on the left. -/
  zero : Bool
  width : Nat
  precision : Option Nat
  conversion : Conversion
  deriving DecidableEq, Repr

/-- A piece of a template. -/
inductive Segment where
  | literal (cs : List Char)
  | directive (d : Directive)
  deriving DecidableEq, Repr

namespace Template

/-- The largest width and precision that a directive can ask for. -/
def widest : Nat := 256

def isFlag (c : Char) : Bool := c == '-' || c == '0'

def isLength (c : Char) : Bool := c == 'l' || c == 'h'

/-- The value of a run of digits, never above `widest`. -/
def cappedNumber (cs : List Char) : Nat :=
  cs.foldl (fun n c => min widest (10 * n + (c.toNat - '0'.toNat))) 0

theorem length_dropWhile_le (p : Char → Bool) (cs : List Char) :
    (cs.dropWhile p).length ≤ cs.length :=
  (List.dropWhile_sublist p).length_le

/-- A point and the digits behind it, if there is one. -/
def readPrecision : List Char → Option (List Char) × List Char
  | '.' :: cs => (some (cs.takeWhile Char.isDigit), cs.dropWhile Char.isDigit)
  | cs => (none, cs)

theorem length_readPrecision_le (cs : List Char) : (readPrecision cs).2.length ≤ cs.length := by
  unfold readPrecision
  split
  · exact Nat.le_succ_of_le (length_dropWhile_le _ _)
  · exact Nat.le_refl _

/-- Reads what follows a percent sign. A percent sign there stands for itself. A length alone asks
for a signed number. Anything else that is no directive is copied. -/
def readSegment (cs : List Char) : Segment × List Char :=
  let flags := cs.takeWhile isFlag
  let afterFlags := cs.dropWhile isFlag
  let width := afterFlags.takeWhile Char.isDigit
  let afterWidth := afterFlags.dropWhile Char.isDigit
  let (places, afterPlaces) := readPrecision afterWidth
  let length := afterPlaces.takeWhile isLength
  let rest := afterPlaces.dropWhile isLength
  let raw := '%' :: (flags ++ width ++ (places.map ('.' :: ·)).getD [] ++ length)
  let directive (c : Conversion) : Segment :=
    .directive ⟨flags.contains '-', flags.contains '0', cappedNumber width, places.map cappedNumber, c⟩
  match rest with
  | [] => if length.isEmpty then (.literal raw, []) else (directive .signed, [])
  | c :: tail =>
    if c = '%' then (.literal ['%'], tail)
    else match Conversion.ofChar? c with
      | some conversion => (directive conversion, tail)
      | none => if length.isEmpty then (.literal (raw ++ [c]), tail) else (directive .signed, rest)

theorem length_readSegment_le (cs : List Char) : (readSegment cs).2.length ≤ cs.length := by
  have hrest : ((readPrecision ((cs.dropWhile isFlag).dropWhile Char.isDigit)).2.dropWhile
      isLength).length ≤ cs.length :=
    Nat.le_trans (length_dropWhile_le _ _) <| Nat.le_trans (length_readPrecision_le _) <|
      Nat.le_trans (length_dropWhile_le _ _) (length_dropWhile_le _ _)
  revert hrest
  simp only [readSegment]
  split
  · split <;> simp
  · rename_i c tail h
    rw [h]
    intro hrest
    simp only [List.length_cons] at hrest
    split
    · simp only; omega
    · split
      · simp only; omega
      · split
        · simp only; omega
        · simpa using hrest

/-- Cuts a template into its pieces. -/
def parse : List Char → List Segment
  | [] => []
  | c :: cs =>
    if c = '%' then
      have := length_readSegment_le cs
      (readSegment cs).1 :: parse (readSegment cs).2
    else .literal [c] :: parse cs
termination_by cs => cs.length

end Template

/-- The whole part of a value as a signed number of 64 bits, if the value is a finite number. -/
def Value.toInteger? (v : Value) : Option Int :=
  let n := v.toNumber
  if n.isFinite then some n.toInt64.toInt else none

namespace Directive

/-- Fills a text up to the width. Zeros go behind a minus sign. -/
def pad (d : Directive) (body : List Char) : List Char :=
  let fill := d.width - body.length
  if d.left then body ++ List.replicate fill ' '
  else if d.zero then
    match body with
    | '-' :: digits => '-' :: (List.replicate fill '0' ++ digits)
    | _ => List.replicate fill '0' ++ body
  else List.replicate fill ' ' ++ body

/-- The character with a given number, if there is one. -/
def charOfNumber (n : Float) : List Char :=
  let code := n.toUInt32.toNat
  if code.isValidChar then [Char.ofNat code] else []

/-- Numbers without a sign are shown modulo this. -/
def wordSize : Int := 4294967296

def body (d : Directive) (v : Value) : List Char :=
  match d.conversion with
  | .signed =>
    match v.toInteger? with
    | some n => Decimal.integer n
    | none => (Value.formatNumber v.toNumber).toList
  | .unsigned =>
    match v.toInteger? with
    | some n => Nat.toDigits 10 (n % wordSize).toNat
    | none => (Value.formatNumber v.toNumber).toList
  | .lowerHex => Nat.toDigits 16 ((v.toInteger?.getD 0) % wordSize).toNat
  | .upperHex => (Nat.toDigits 16 ((v.toInteger?.getD 0) % wordSize).toNat).map Char.toUpper
  | .fixed => Decimal.fixed (d.precision.getD 6) v.toNumber
  | .char =>
    match v with
    | .text s => s.toList.take 1
    | .number n => charOfNumber n
  | .text =>
    let cs := v.toText.toList
    match d.precision with
    | some p => cs.take p
    | none => cs

def render (d : Directive) (v : Value) : List Char := d.pad (d.body v)

end Directive

namespace Template

/-- Fills in the directives, one value each; a missing value is zero. -/
def fill : List Segment → List Value → List Char
  | [], _ => []
  | .literal cs :: segments, args => cs ++ fill segments args
  | .directive d :: segments, args => d.render (args.headD .zero) ++ fill segments args.tail

/-- The text of a template, filled in. -/
def format (template : String) (args : List Value) : String :=
  String.ofList (fill (parse template.toList) args)

end Template

end Breadboard
