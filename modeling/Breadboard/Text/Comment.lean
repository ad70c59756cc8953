import Breadboard.Text.Literal

set_option autoImplicit false

/-!
Removing comments from code, so that every line keeps its number.
-/
namespace Breadboard.Text

/-- Where the removal of comments stands. -/
inductive CommentState where
  | code
  | literal (mark : Char)
  | escaped (mark : Char)
  | lineComment
  /-- In a block comment, with `star` after a star that the comment itself holds. -/
  | blockComment (star : Bool)
  /-- On the star that opens a block comment. -/
  | blockOpening
  deriving DecidableEq, Repr

/-- Line comments go up to the end of their line, block comments up to `*/`; of a block comment
only the line ends are kept. A literal ends at its mark or with its line. -/
def stripFrom : CommentState → List Char → List Char
  | _, [] => []
  | .literal mark, c :: cs =>
    c :: stripFrom
      (if c = '\\' then .escaped mark else if c = mark || c = '\n' then .code else .literal mark) cs
  | .escaped mark, c :: cs => c :: stripFrom (.literal mark) cs
  | .lineComment, c :: cs =>
    if c = '\n' then c :: stripFrom .code cs else stripFrom .lineComment cs
  | .blockOpening, _ :: cs => stripFrom (.blockComment false) cs
  | .blockComment star, c :: cs =>
    if star && c = '/' then stripFrom .code cs
    else if c = '\n' then c :: stripFrom (.blockComment false) cs
    else stripFrom (.blockComment (c = '*')) cs
  | .code, c :: cs =>
    if isMark c then c :: stripFrom (.literal c) cs
    else if c = '/' && cs.head? = some '/' then stripFrom .lineComment cs
    else if c = '/' && cs.head? = some '*' then stripFrom .blockOpening cs
    else c :: stripFrom .code cs

section Steps

variable {mark c : Char} {star : Bool} {cs : List Char}

theorem stripFrom_nil (state : CommentState) : stripFrom state [] = [] := by cases state <;> rfl

theorem stripFrom_inLiteral : stripFrom (.literal mark) (c :: cs) = c :: stripFrom
    (if c = '\\' then .escaped mark else if c = mark || c = '\n' then .code else .literal mark) cs := rfl

theorem stripFrom_inEscape : stripFrom (.escaped mark) (c :: cs) = c :: stripFrom (.literal mark) cs := rfl

theorem stripFrom_inLine : stripFrom .lineComment (c :: cs) =
    if c = '\n' then c :: stripFrom .code cs else stripFrom .lineComment cs := rfl

theorem stripFrom_opening : stripFrom .blockOpening (c :: cs) = stripFrom (.blockComment false) cs := rfl

theorem stripFrom_inBlock : stripFrom (.blockComment star) (c :: cs) =
    if star && c = '/' then stripFrom .code cs
    else if c = '\n' then c :: stripFrom (.blockComment false) cs
    else stripFrom (.blockComment (c = '*')) cs := rfl

theorem stripFrom_inCode : stripFrom .code (c :: cs) =
    if isMark c then c :: stripFrom (.literal c) cs
    else if c = '/' && cs.head? = some '/' then stripFrom .lineComment cs
    else if c = '/' && cs.head? = some '*' then stripFrom .blockOpening cs
    else c :: stripFrom .code cs := rfl

end Steps

def stripComments (cs : List Char) : List Char := stripFrom .code cs

end Breadboard.Text
