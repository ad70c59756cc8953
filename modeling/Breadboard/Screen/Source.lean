import Breadboard.Screen.Highlight
import Breadboard.Screen.Picture
import Breadboard.Text.Blank

set_option autoImplicit false

/-!
The pane with the source of the sketch. The line that was executed last is kept on one row of the
pane as long as the ends of the source allow it.
-/
namespace Breadboard.Screen

/-- What a source pane remembers from one frame to the next. -/
structure SourceScroll where
  /-- How many lines are above the pane. -/
  offset : Nat
  /-- The row for the current line; `none` as long as nothing has been shown. -/
  row : Option Nat
  deriving DecidableEq, Repr

namespace SourceScroll

def top : SourceScroll := ⟨0, none⟩

/-- Scrolls to line `current` of `total` lines in a pane of `rows` rows. Lines are counted from one;
a line outside the source moves nothing. -/
def follow (s : SourceScroll) (rows total current : Nat) : SourceScroll :=
  let row := min (s.row.getD (rows / 2)) (rows - 1)
  { offset := if 0 < current ∧ current ≤ total then min (current - 1 - row) (total - rows) else s.offset
    row := some row }

/-- Moves the row of the current line. -/
def moveRow (f : Nat → Nat) (s : SourceScroll) : SourceScroll := { s with row := s.row.map f }

end SourceScroll

/-- The lines in sight, each with its number. -/
def numberedLines (offset rows : Nat) (lines : List (List Char)) : List (Nat × List Char) :=
  ((List.range' (offset + 1) rows).zip (lines.drop offset))

structure SourcePane where
  source : String
  /-- The line that was executed last; zero if there is none. -/
  current : Nat
  failed : Bool
  focused : Bool

namespace SourcePane

def numberStyle (p : SourcePane) (number : Nat) : Style :=
  if number ≠ p.current then .ink Palette.faint
  else { Style.ink (if p.failed then Palette.failure else Palette.accent) with bold := true }

/-- The current line has a ground of its own; if the run failed there its other colours give way. -/
def textStyle (p : SourcePane) (number : Nat) (s : Style) : Style :=
  if number ≠ p.current then s
  else if p.failed then ⟨some .white, some Palette.failure, true, false⟩
  else (Style.paper Palette.current).onto s

def line (p : SourcePane) (number : Nat) (text : List Char) : Line :=
  ⟨padLeft 4 (Nat.toDigits 10 number) ++ [' '], p.numberStyle number⟩ ::
    (highlight text).map fun s => { s with style := p.textStyle number s.style }

def lines (p : SourcePane) : List (List Char) := Text.lines p.source.toList

/-- How the pane scrolls when it is drawn with a height. -/
def scrolled (p : SourcePane) (scroll : SourceScroll) (height : Nat) : SourceScroll :=
  scroll.follow (textRows height) p.lines.length p.current

def draw (p : SourcePane) (scroll : SourceScroll) (width height : Nat) : Picture × SourceScroll :=
  let scroll := p.scrolled scroll height
  let shown := (numberedLines scroll.offset (textRows height) p.lines).map fun (n, l) => p.line n l
  (framed p.focused " Sketch " width height
    (.flowing .left (width - 2) (height - 2) .plain shown), scroll)

end SourcePane

end Breadboard.Screen
