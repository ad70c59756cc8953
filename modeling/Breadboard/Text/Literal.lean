import Breadboard.Text.Blank

set_option autoImplicit false

/-!
String and character literals inside code: where a character stands with respect to them, what a
literal holds and what its escapes mean.
-/
namespace Breadboard.Text

/-- Where a scan stands: in code, inside a literal opened by `mark`, or behind a backslash in one. -/
inductive Quote where
  | code
  | inside (mark : Char)
  | escaped (mark : Char)
  deriving DecidableEq, Repr

/-- Whether `c` opens a literal. -/
def isMark (c : Char) : Bool := c == '"' || c == '\''

def Quote.next : Quote → Char → Quote
  | .code, c => if isMark c then .inside c else .code
  | .inside mark, c => if c = '\\' then .escaped mark else if c = mark then .code else .inside mark
  | .escaped mark, _ => .inside mark

/-- Whether `c` belongs to the code rather than to a literal or its marks. -/
def Quote.isCode : Quote → Char → Bool
  | .code, c => !isMark c
  | _, _ => false

@[simp] theorem Quote.next_of_isCode {q : Quote} {c : Char} (h : q.isCode c = true) :
    q.next c = .code := by
  cases q <;> simp_all [isCode, next]

/-- The state of a scan after a whole text. -/
def Quote.after (q : Quote) (cs : List Char) : Quote := cs.foldl Quote.next q

@[simp] theorem Quote.after_nil (q : Quote) : q.after [] = q := rfl

@[simp] theorem Quote.after_cons (q : Quote) (c : Char) (cs : List Char) :
    q.after (c :: cs) = (q.next c).after cs := rfl

@[simp] theorem Quote.after_append (q : Quote) (a b : List Char) :
    q.after (a ++ b) = (q.after a).after b := by
  simp [Quote.after]

/-- Whether some byte of the code of a text is `needle`. -/
def containsCode (needle : UInt8) : Quote → List Char → Bool
  | _, [] => false
  | q, c :: cs =>
    (q.isCode c && (String.utf8EncodeChar c).contains needle) || containsCode needle (q.next c) cs

/-- The body of a literal opened by `mark`, escapes left as written, if the literal ends where the
text ends. -/
def literalBody (mark : Char) : Bool → List Char → Option (List Char)
  | _, [] => none
  | true, c :: cs => (literalBody mark false cs).map (c :: ·)
  | false, c :: cs =>
    if c = mark then if cs.isEmpty then some [] else none
    else (literalBody mark (c == '\\') cs).map (c :: ·)

/-- The body of a text that is one literal and nothing else. -/
def unquote (cs : List Char) : Option (List Char) :=
  match trim cs with
  | [] => none
  | c :: rest => if isMark c then literalBody c false rest else none

/-- What a backslash followed by `c` stands for. -/
def escapeMeaning : Char → Char
  | 'n' => '\n'
  | 't' => '\t'
  | 'r' => '\r'
  | '0' => '\x00'
  | c => c

def expandEscapes : List Char → List Char
  | [] => []
  | ['\\'] => ['\\']
  | '\\' :: c :: cs => escapeMeaning c :: expandEscapes cs
  | c :: cs => c :: expandEscapes cs

end Breadboard.Text
