import Breadboard.Sketch.Program

set_option autoImplicit false

/-!
Canonical sketches: sketches as they are written when nothing is left to taste. Every form has its
text, and its meaning is what reading that text has to give.

A simple statement has a line of its own and every body stands in braces on lines of its own,
indented by `width` more than the statement that it belongs to. Texts stand between double quotes,
with marks, backslashes and what would end a line escaped.
-/
namespace Breadboard

mutual

/-- A statement with every place in it forgotten. -/
def Stmt.unlocated : Stmt → Stmt
  | .act _ action => .act .start action
  | .call _ name args => .call .start name args
  | .choose _ chain => .choose .start chain.unlocated
  | .forLoop _ init cond step body =>
    .forLoop .start (Stmt.unlocatedClause init) cond (Stmt.unlocatedClause step) (Stmt.unlocatedAll body)
  | .whileLoop _ cond body => .whileLoop .start cond (Stmt.unlocatedAll body)

def Chain.unlocated : Chain → Chain
  | .done => .done
  | .otherwise body => .otherwise (Stmt.unlocatedAll body)
  | .branch cond body rest => .branch cond (Stmt.unlocatedAll body) rest.unlocated

def Stmt.unlocatedAll : List Stmt → List Stmt
  | [] => []
  | st :: rest => st.unlocated :: Stmt.unlocatedAll rest

def Stmt.unlocatedClause : Option Stmt → Option Stmt
  | none => none
  | some st => some st.unlocated

end

def Function.unlocated (f : Function) : Function :=
  { f with body := Stmt.unlocatedAll f.body, location := .start }

def Program.unlocated (p : Program) : Program :=
  { p with
    functions := ⟨p.functions.entries.map fun (name, f) => (name, f.unlocated)⟩
    setup := Stmt.unlocatedAll p.setup
    loop := Stmt.unlocatedAll p.loop }

end Breadboard

namespace Breadboard.Canonical

open Text

-- Words that an expression reads as constants.
def constants : List String := ["HIGH", "LOW", "true", "false", "INPUT", "OUTPUT", "INPUT_PULLUP"]

-- Words that open a compound statement.
def keywords : List String := ["if", "else", "for", "while"]

def hardwareNames : List String := Action.hardwareCalls.map Prod.fst

-- Words that are no names of functions besides the two that every sketch has.
def functionWords : List String := ["setup", "loop", "if", "for", "while", "switch"]

structure Name (reserved : List String) where
  spelling : String
  isIdentifier : isIdentifier spelling.toList = true
  notReserved : spelling ∉ reserved

def Name.text {reserved : List String} (name : Name reserved) : List Char := name.spelling.toList

/-- A whole number; no finite floating-point number has more digits. -/
structure Numeral where
  value : Nat
  isFinite : (Nat.toDigits 10 value).length ≤ 309

namespace Numeral

def text (n : Numeral) : List Char := Nat.toDigits 10 n.value

def number (n : Numeral) : Float := Decimal.ofInt n.value

end Numeral

-- The letter that stands for `c` behind a backslash, if `c` has to be escaped.
def escapeLetter? : Char → Option Char
  | '"' => some '"'
  | '\\' => some '\\'
  | '\n' => some 'n'
  | '\t' => some 't'
  | '\r' => some 'r'
  | '\x00' => some '0'
  | _ => none

def escapeChar (c : Char) : List Char :=
  match escapeLetter? c with
  | some letter => ['\\', letter]
  | none => [c]

def escape (cs : List Char) : List Char := cs.flatMap escapeChar

def quote (s : String) : List Char := '"' :: escape s.toList ++ ['"']

def parens (cs : List Char) : List Char := '(' :: cs ++ [')']

def callText (name : String) (args : List Char) : List Char := name.toList ++ parens args

-- Arguments and parameters.
def listed (parts : List (List Char)) : List Char := [',', ' '].intercalate parts

inductive Expr where
  | number (n : Numeral)
  | text (s : String)
  | var (name : Name constants)
  | millis
  | micros
  | digitalRead (pin : Expr)
  | analogRead (pin : Expr)
  | builtin (f : Builtin) (args : List Expr)

namespace Expr

def isText : Expr → Bool
  | text _ => true
  | _ => false

mutual

def code : Expr → List Char
  | number n => n.text
  | text s => quote s
  | var name => name.text
  | millis => callText "millis" []
  | micros => callText "micros" []
  | digitalRead pin => callText "digitalRead" pin.code
  | analogRead pin => callText "analogRead" pin.code
  | builtin f args => callText f.name (listed (codes args))

def codes : List Expr → List (List Char)
  | [] => []
  | e :: es => e.code :: codes es

end

mutual

def meaning : Expr → Breadboard.Expr
  | number n => .number n.number
  | text s => .text s
  | var name => .var name.spelling
  | millis => .millis
  | micros => .micros
  | digitalRead pin => .digitalRead pin.meaning
  | analogRead pin => .analogRead pin.meaning
  | builtin f args => .builtin f (meanings args)

def meanings : List Expr → List Breadboard.Expr
  | [] => []
  | e :: es => e.meaning :: meanings es

end

mutual

/-- How deep calls are nested, the expression itself included. -/
def levels : Expr → Nat
  | digitalRead pin => pin.levels + 1
  | analogRead pin => pin.levels + 1
  | builtin _ args => levelsAll args + 1
  | number _ | text _ | var _ | millis | micros => 1

def levelsAll : List Expr → Nat
  | [] => 0
  | e :: es => max e.levels (levelsAll es)

end

end Expr

inductive Connective where
  | all
  | any
  deriving DecidableEq

def Connective.symbol : Connective → List Char
  | all => ['&', '&']
  | any => ['|', '|']

inductive Cond where
  | compare (lhs : Expr) (op : Comparison) (rhs : Expr)
  | truth (e : Expr)
  | not (inner : Cond)
  | connect (op : Connective) (first second : Cond) (rest : List Cond)

namespace Cond

def spaced (symbol : List Char) : List Char := ' ' :: symbol ++ [' ']

mutual

def code : Cond → List Char
  | compare lhs op rhs => lhs.code ++ spaced op.symbol.toList ++ rhs.code
  | truth e => e.code
  | not inner => '!' :: parens inner.code
  | connect op first second rest =>
    (spaced op.symbol).intercalate (parens first.code :: parens second.code :: codes rest)

-- The further parts of a connection, each in its parentheses.
def codes : List Cond → List (List Char)
  | [] => []
  | c :: cs => parens c.code :: codes cs

end

mutual

def meaning : Cond → Breadboard.Cond
  | compare lhs op rhs => .compare lhs.meaning op rhs.meaning
  | truth e => .truth e.meaning
  | not inner => .not inner.meaning
  | connect .all first second rest => .all (first.meaning :: second.meaning :: meanings rest)
  | connect .any first second rest => .any (first.meaning :: second.meaning :: meanings rest)

def meanings : List Cond → List Breadboard.Cond
  | [] => []
  | c :: cs => c.meaning :: meanings cs

end

mutual

def levels : Cond → Nat
  | compare lhs _ rhs => max lhs.levels rhs.levels + 1
  | truth e => e.levels + 1
  | not inner => inner.levels + 1
  | connect _ first second rest => max (max first.levels second.levels) (levelsAll rest) + 1

def levelsAll : List Cond → Nat
  | [] => 0
  | c :: cs => max c.levels (levelsAll cs)

end

end Cond

inductive PrintArg where
  | literal (s : String)
  | value (e : Expr) (notText : e.isText = false)
  | empty

namespace PrintArg

def code : PrintArg → List Char
  | literal s => quote s
  | value e _ => e.code
  | empty => []

def meaning : PrintArg → Breadboard.PrintArg
  | literal s => .literal s
  | value e _ => .value e.meaning
  | empty => .empty

def levels : PrintArg → Nat
  | value e _ => e.levels
  | literal _ | empty => 0

end PrintArg

-- What stands in front of the equals sign.
def assignMark : AssignOp → List Char
  | .set => []
  | .add => ['+']
  | .sub => ['-']
  | .mul => ['*']
  | .div => ['/']

inductive Simple where
  | delay (ms : Expr)
  | delayMicros (us : Expr)
  | serialBegin
  | print (arg : PrintArg) (newline : Bool)
  | printf (template : String) (args : List Expr)
  | pinMode (pin mode : Expr)
  | digitalWrite (pin value : Expr)
  | analogWrite (pin duty : Expr)
  | assign (name : Name keywords) (op : AssignOp) (value : Expr)
  | step (name : Name keywords) (up : Bool)
  | call (name : Name (keywords ++ hardwareNames)) (args : List Expr)

namespace Simple

def code : Simple → List Char
  | delay ms => callText "delay" ms.code
  | delayMicros us => callText "delayMicroseconds" us.code
  | serialBegin => callText "Serial.begin" "9600".toList
  | print arg newline => callText (if newline then "Serial.println" else "Serial.print") arg.code
  | printf template args => callText "Serial.printf" (listed (quote template :: Expr.codes args))
  | pinMode pin mode => callText "pinMode" (listed [pin.code, mode.code])
  | digitalWrite pin value => callText "digitalWrite" (listed [pin.code, value.code])
  | analogWrite pin duty => callText "analogWrite" (listed [pin.code, duty.code])
  | assign name op value => name.text ++ ' ' :: assignMark op ++ ['=', ' '] ++ value.code
  | step name up => name.text ++ (if up then ['+', '+'] else ['-', '-'])
  | call name args => callText name.spelling (listed (Expr.codes args))

def meaning : Simple → Stmt
  | delay ms => .act .start (.delay ms.meaning)
  | delayMicros us => .act .start (.delayMicros us.meaning)
  | serialBegin => .act .start .serialBegin
  | print arg newline => .act .start (.print arg.meaning newline)
  | printf template args => .act .start (.printf template (Expr.meanings args))
  | pinMode pin mode => .act .start (.pinMode pin.meaning mode.meaning)
  | digitalWrite pin value => .act .start (.digitalWrite pin.meaning value.meaning)
  | analogWrite pin duty => .act .start (.analogWrite pin.meaning duty.meaning)
  | assign name op value => .act .start (.assign name.spelling op value.meaning)
  | step name up => .act .start (.step name.spelling (if up then 1.0 else -1.0))
  | call name args => .call .start name.spelling (Expr.meanings args)

def levels : Simple → Nat
  | delay ms => ms.levels
  | delayMicros us => us.levels
  | print arg _ => arg.levels
  | printf _ args => Expr.levelsAll args
  | pinMode pin mode => max pin.levels mode.levels
  | digitalWrite pin value => max pin.levels value.levels
  | analogWrite pin duty => max pin.levels duty.levels
  | assign _ _ value => value.levels
  | call _ args => Expr.levelsAll args
  | serialBegin | step _ _ => 0

end Simple

-- The clauses of a loop, which may be missing.
namespace Clause

def code : Option Simple → List Char
  | none => []
  | some s => s.code

def meaning : Option Simple → Option Stmt
  | none => none
  | some s => some s.meaning

def levels : Option Simple → Nat
  | none => 0
  | some s => s.levels

end Clause

mutual

inductive Statement where
  | simple (s : Simple)
  | choose (cond : Cond) (body : List Statement) (rest : Branches)
  | forLoop (init : Option Simple) (cond : Cond) (step : Option Simple) (body : List Statement)
  | whileLoop (cond : Cond) (body : List Statement)

-- What follows the first branch of an `if`.
inductive Branches where
  | done
  | otherwise (body : List Statement)
  | elseIf (cond : Cond) (body : List Statement) (rest : Branches)

end

-- Lines with their ends.
def printed (ls : List (List Char)) : List Char := ls.flatMap (· ++ ['\n'])

def indented (n : Nat) (line : List Char) : List Char := List.replicate n ' ' ++ line

-- Braces that open and close a body.
def opening (head : List Char) : List Char := head ++ [' ', '\x7b']

def ifHead (cond : Cond) : List Char := "if ".toList ++ parens cond.code

def whileHead (cond : Cond) : List Char := "while ".toList ++ parens cond.code

def forHead (init : Option Simple) (cond : Cond) (step : Option Simple) : List Char :=
  "for ".toList ++ parens ([';', ' '].intercalate [Clause.code init, cond.code, Clause.code step])

mutual

def Statement.lines (width n : Nat) : Statement → List (List Char)
  | .simple s => [indented n (s.code ++ [';'])]
  | .choose cond body rest =>
    indented n (opening (ifHead cond)) :: Statement.linesAll width (n + width) body ++
      rest.lines width n
  | .forLoop init cond step body =>
    indented n (opening (forHead init cond step)) :: Statement.linesAll width (n + width) body ++
      [indented n ['\x7d']]
  | .whileLoop cond body =>
    indented n (opening (whileHead cond)) :: Statement.linesAll width (n + width) body ++
      [indented n ['\x7d']]

def Branches.lines (width n : Nat) : Branches → List (List Char)
  | .done => [indented n ['\x7d']]
  | .otherwise body =>
    indented n (opening ('\x7d' :: " else".toList)) :: Statement.linesAll width (n + width) body ++
      [indented n ['\x7d']]
  | .elseIf cond body rest =>
    indented n (opening ('\x7d' :: " else ".toList ++ ifHead cond)) ::
      Statement.linesAll width (n + width) body ++ rest.lines width n

def Statement.linesAll (width n : Nat) : List Statement → List (List Char)
  | [] => []
  | st :: rest => st.lines width n ++ Statement.linesAll width n rest

end

mutual

def Statement.meaning : Statement → Stmt
  | .simple s => s.meaning
  | .choose cond body rest =>
    .choose .start (.branch cond.meaning (Statement.meanings body) rest.meaning)
  | .forLoop init cond step body =>
    .forLoop .start (Clause.meaning init) cond.meaning (Clause.meaning step) (Statement.meanings body)
  | .whileLoop cond body => .whileLoop .start cond.meaning (Statement.meanings body)

def Branches.meaning : Branches → Chain
  | .done => .done
  | .otherwise body => .otherwise (Statement.meanings body)
  | .elseIf cond body rest => .branch cond.meaning (Statement.meanings body) rest.meaning

def Statement.meanings : List Statement → List Stmt
  | [] => []
  | st :: rest => st.meaning :: Statement.meanings rest

end

mutual

def Statement.levels : Statement → Nat
  | .simple s => s.levels
  | .choose cond body rest => max (max cond.levels (Statement.levelsAll body)) rest.levels
  | .forLoop init cond step body =>
    max (max (Clause.levels init) cond.levels) (max (Clause.levels step) (Statement.levelsAll body))
  | .whileLoop cond body => max cond.levels (Statement.levelsAll body)

def Branches.levels : Branches → Nat
  | .done => 0
  | .otherwise body => Statement.levelsAll body
  | .elseIf cond body rest => max (max cond.levels (Statement.levelsAll body)) rest.levels

def Statement.levelsAll : List Statement → Nat
  | [] => 0
  | st :: rest => max st.levels (Statement.levelsAll rest)

end

inductive Initial where
  | number (n : Numeral)
  | text (s : String)

namespace Initial

def type : Initial → List Char
  | number _ => "int".toList
  | text _ => "String".toList

def code : Initial → List Char
  | number n => n.text
  | text s => quote s

def value : Initial → Value
  | number n => .number n.number
  | text s => .text s

end Initial

structure Global where
  name : Name []
  initial : Initial

def Global.line (g : Global) : List Char :=
  g.initial.type ++ ' ' :: g.name.text ++ " = ".toList ++ g.initial.code ++ [';']

structure Routine where
  name : Name functionWords
  params : List (Name ["void"])
  body : List Statement

def paramText (p : Name ["void"]) : List Char := "int ".toList ++ p.text

def routineHead (name : String) (params : List (Name ["void"])) : List Char :=
  "void ".toList ++ callText name (listed (params.map paramText))

def routineLines (width : Nat) (name : String) (params : List (Name ["void"]))
    (body : List Statement) : List (List Char) :=
  opening (routineHead name params) :: Statement.linesAll width width body ++ [['\x7d']]

namespace Routine

def lines (width : Nat) (r : Routine) : List (List Char) :=
  routineLines width r.name.spelling r.params r.body

def meaning (r : Routine) : Function :=
  ⟨r.name.spelling, r.params.map Name.spelling, Statement.meanings r.body, .start⟩

end Routine

structure Sketch where
  globals : List Global
  setup : List Statement
  loop : List Statement
  routines : List Routine

namespace Sketch

def lines (width : Nat) (sketch : Sketch) : List (List Char) :=
  sketch.globals.map Global.line ++ routineLines width "setup" [] sketch.setup ++
    routineLines width "loop" [] sketch.loop ++ sketch.routines.flatMap (Routine.lines width)

def source (width : Nat) (sketch : Sketch) : String := String.ofList (printed (sketch.lines width))

def program (sketch : Sketch) : Program where
  globals := .ofList (sketch.globals.map fun g => (g.name.spelling, g.initial.value))
  functions := .ofList (sketch.routines.map fun r => (r.name.spelling, r.meaning))
  setup := Statement.meanings sketch.setup
  loop := Statement.meanings sketch.loop

def levels (sketch : Sketch) : Nat :=
  max (max (Statement.levelsAll sketch.setup) (Statement.levelsAll sketch.loop))
    ((sketch.routines.map fun r => Statement.levelsAll r.body).foldr max 0)

end Sketch

end Breadboard.Canonical
