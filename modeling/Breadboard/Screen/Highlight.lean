import Breadboard.Screen.Row
import Breadboard.Text.Alphanumeric
import Breadboard.Text.Literal

set_option autoImplicit false

/-!
Colours for a line of a sketch. The line is cut into lexemes, nothing is lost, and every lexeme gets
a style.
-/
namespace Breadboard.Screen

inductive Lexeme where
  | word (cs : List Char)
  | symbol (c : Char)
  /-- A string or character literal with its marks. -/
  | literal (cs : List Char)
  /-- A comment up to the end of the line. -/
  | comment (cs : List Char)
  /-- A line for the preprocessor, up to its end. -/
  | directive (cs : List Char)
  deriving DecidableEq, Repr

namespace Lexeme

def text : Lexeme → List Char
  | word cs => cs
  | symbol c => [c]
  | literal cs => cs
  | comment cs => cs
  | directive cs => cs

end Lexeme

/-- What a scan has begun: a word, or a literal that `mark` ends unless it is escaped. The characters
seen are kept, the latest first. -/
inductive Begun where
  | word (seen : List Char)
  | literal (mark : Char) (escaped : Bool) (seen : List Char)
  deriving DecidableEq, Repr

namespace Begun

def seen : Begun → List Char
  | word cs => cs
  | literal _ _ cs => cs

/-- Ends what has been begun. A word without characters is none. -/
def finish : Begun → List Lexeme
  | word [] => []
  | word cs => [.word cs.reverse]
  | literal _ _ cs => [.literal cs.reverse]

end Begun

def isWordPart (c : Char) : Bool := Text.isAlphanumeric c || c == '_'

/-- Cuts the rest of a line into lexemes. -/
def lexemesFrom : Begun → List Char → List Lexeme
  | b, [] => b.finish
  | .literal mark escaped seen, c :: cs =>
    if escaped then lexemesFrom (.literal mark false (c :: seen)) cs
    else if c = mark then .literal (c :: seen).reverse :: lexemesFrom (.word []) cs
    else lexemesFrom (.literal mark (c == '\\') (c :: seen)) cs
  | .word seen, c :: cs =>
    if c = '/' ∧ cs.head? = some '/' then (Begun.word seen).finish ++ [.comment (c :: cs)]
    else if c = '#' ∧ seen.isEmpty then [.directive (c :: cs)]
    else if Text.isMark c then (Begun.word seen).finish ++ lexemesFrom (.literal c false [c]) cs
    else if isWordPart c then lexemesFrom (.word (c :: seen)) cs
    else (Begun.word seen).finish ++ .symbol c :: lexemesFrom (.word []) cs

def lexemes (line : List Char) : List Lexeme := lexemesFrom (.word []) line

def typeWords : List String :=
  ["int", "long", "short", "unsigned", "float", "double", "bool", "boolean", "byte", "char", "void",
    "String", "const", "static", "volatile", "uint8_t", "uint16_t", "uint32_t", "int8_t", "int16_t",
    "int32_t", "size_t"]

def controlWords : List String := ["if", "else", "for", "while", "return", "break", "continue"]

def constantWords : List String := ["HIGH", "LOW", "INPUT", "OUTPUT", "INPUT_PULLUP", "true", "false"]

/-- The style of a word; `called` if an opening parenthesis follows it. -/
def wordStyle (cs : List Char) (called : Bool) : Style :=
  let w := String.ofList cs
  if typeWords.contains w then .ink Palette.kind
  else if controlWords.contains w then { Style.ink Palette.keyword with bold := true }
  else if constantWords.contains w || cs.head?.any Char.isDigit then .ink Palette.number
  else if called then .ink Palette.call
  else .ink Palette.text

def symbolStyle (c : Char) : Style :=
  if "\x7b\x7d()[]".toList.contains c then .ink Palette.system else .ink Palette.text

/-- The style of a lexeme with the one behind it. A word directly in front of a literal or a comment
has no colour of its own. -/
def Lexeme.style : Lexeme → Option Lexeme → Style
  | word _, some (literal _) => .plain
  | word _, some (comment _) => .plain
  | word cs, following => wordStyle cs (following == some (symbol '('))
  | symbol c, _ => symbolStyle c
  | literal _, _ => .ink Palette.literal
  | comment _, _ => .ink Palette.faint
  | directive _, _ => .ink Palette.keyword

def styled : List Lexeme → Line
  | [] => []
  | l :: rest => ⟨l.text, l.style rest.head?⟩ :: styled rest

/-- A line of a sketch in its colours. -/
def highlight (line : List Char) : Line := styled (lexemes line)

theorem text_styled (ls : List Lexeme) : (styled ls).text = ls.flatMap Lexeme.text := by
  induction ls with
  | nil => rfl
  | cons l ls ih => simpa [styled, Line.text] using ih

@[simp] theorem Begun.text_finish (b : Begun) : b.finish.flatMap Lexeme.text = b.seen.reverse := by
  match b with
  | .word [] => rfl
  | .word (_ :: _) => simp [finish, seen, Lexeme.text]
  | .literal .. => simp [finish, seen, Lexeme.text]

/-- Lexemes hold what was seen and what is still to come, and nothing else. -/
theorem text_lexemesFrom (b : Begun) (cs : List Char) :
    (lexemesFrom b cs).flatMap Lexeme.text = b.seen.reverse ++ cs := by
  fun_induction lexemesFrom b cs <;> simp_all [Begun.seen, Lexeme.text]

end Breadboard.Screen
