import Breadboard.Screen.Style
import Breadboard.Text.Cluster
import Breadboard.Text.Width
import Breadboard.Total

set_option autoImplicit false

/-!
Rows of cells, and lines of styled text that are laid out in them. Text never goes beyond the width
that it is given.
-/
namespace Breadboard.Screen

structure Cell where
  text : List Char
  style : Style
  deriving DecidableEq, Repr

abbrev Row := List Cell

def Cell.blank (style : Style) : Cell := ⟨[' '], style⟩

def Cell.width (c : Cell) : Nat := Text.width c.text

def Row.blank (width : Nat) (style : Style) : Row := List.replicate width (.blank style)

def Row.text (r : Row) : List Char := r.flatMap Cell.text

/-- A piece of text of one style. -/
structure Span where
  text : List Char
  style : Style
  deriving DecidableEq, Repr

abbrev Line := List Span

def Line.text (l : Line) : List Char := l.flatMap Span.text

/-- What is shown in one place. -/
structure Glyph where
  text : List Char
  width : Nat
  style : Style
  deriving DecidableEq, Repr

/-- The glyphs of a piece of text. A line feed is none. -/
def Span.glyphs (s : Span) : List Glyph :=
  ((Text.clusters s.text).filter (· != ['\n'])).map fun cs => ⟨cs, Text.width cs, s.style⟩

def Span.width (s : Span) : Nat := Text.width s.text

def Line.glyphs (l : Line) : List Glyph := l.flatMap Span.glyphs

def Line.width (l : Line) : Nat := total (l.map Span.width)

/-- The glyphs in front of the first one for which there is no room. -/
def fitting : Nat → List Glyph → List Glyph
  | _, [] => []
  | room, g :: gs => if g.width ≤ room then g :: fitting (room - g.width) gs else []

def totalWidth (gs : List Glyph) : Nat := total (gs.map Glyph.width)

theorem totalWidth_fitting_le (room : Nat) (gs : List Glyph) : totalWidth (fitting room gs) ≤ room := by
  induction gs generalizing room with
  | nil => simp [fitting, totalWidth]
  | cons g gs ih =>
    rw [fitting]
    split
    · have := ih (room - g.width)
      simp only [totalWidth, List.map_cons, total_cons] at this ⊢
      omega
    · simp [totalWidth]

/-! Flowing text: what has no width is left out. -/

inductive Alignment where
  | left
  | right
  deriving DecidableEq, Repr

/-- The cells of a glyph on a ground of one style. -/
def Glyph.cells (ground : Style) (g : Glyph) : Row :=
  if g.width = 0 then []
  else ⟨g.text, g.style.onto ground⟩ :: Row.blank (g.width - 1) ground

@[simp] theorem Glyph.length_cells (ground : Style) (g : Glyph) :
    (g.cells ground).length = g.width := by
  rw [Glyph.cells]
  split
  · simp [*]
  · simp [Row.blank]
    omega

theorem length_flatMap_cells (ground : Style) (gs : List Glyph) :
    (gs.flatMap (Glyph.cells ground)).length = totalWidth gs := by
  induction gs with
  | nil => rfl
  | cons g gs ih => simp [totalWidth, ih]

/-- A line of flowing text in a row of `width` cells. Glyphs that are wider than the row are left
out. -/
def Row.flowing (alignment : Alignment) (width : Nat) (ground : Style) (line : Line) : Row :=
  let gs := fitting width (line.glyphs.filter (·.width ≤ width))
  let cells := gs.flatMap (Glyph.cells ground)
  let rest := Row.blank (width - totalWidth gs) ground
  match alignment with
  | .left => cells ++ rest
  | .right => rest ++ cells

@[simp] theorem Row.length_flowing (alignment : Alignment) (width : Nat) (ground : Style)
    (line : Line) : (Row.flowing alignment width ground line).length = width := by
  have h := totalWidth_fitting_le width (line.glyphs.filter (·.width ≤ width))
  cases alignment <;> simp only [flowing, List.length_append, length_flatMap_cells, blank,
    List.length_replicate] <;> omega

/-! Entries of a list: what has no width goes with the cell before it, and the cells behind a wide
glyph show nothing of the ground. -/

/-- Puts a glyph in front of cells. `marks` are those without width that follow it. -/
def Glyph.enter (ground : Style) (g : Glyph) : List Char × Row → List Char × Row
  | (marks, row) =>
    if g.width = 0 then (g.text ++ marks, row)
    else if g.width = 1 then ([], ⟨g.text ++ marks, g.style.onto ground⟩ :: row)
    else
      ([], ⟨g.text, g.style.onto ground⟩ :: Row.blank (g.width - 2) .plain ++
        ⟨' ' :: marks, if marks.isEmpty then .plain else g.style⟩ :: row)

/-- The cells of a piece of an entry, as far as there is room. What has no width at the very start
takes the first cell. -/
def Span.entryCells (ground : Style) (room : Nat) (s : Span) : Row :=
  match (fitting room s.glyphs).foldr (Glyph.enter ground) ([], []) with
  | (marks, c :: row) => { c with text := marks ++ c.text } :: row
  | ([], []) => []
  | (marks, []) => [⟨marks, s.style.onto ground⟩]

def entryFrom (ground : Style) : Nat → Line → Row
  | _, [] => []
  | room, s :: rest =>
    if s.width = 0 then entryFrom ground room rest
    else if room = 0 then []
    else s.entryCells ground room ++ entryFrom ground (room - s.width) rest

/-- A list entry in a row of `width` cells. The ground shows only if the line has any width. -/
def Row.entry (width : Nat) (ground : Style) (line : Line) : Row :=
  let ground := if line.width = 0 then .plain else ground
  let cells := entryFrom ground width line
  cells ++ Row.blank (width - cells.length) ground

end Breadboard.Screen
