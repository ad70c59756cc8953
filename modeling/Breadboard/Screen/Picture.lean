import Breadboard.Screen.Row

set_option autoImplicit false

/-!
Pictures made of rows, and panes with an edge and a title.
-/
namespace Breadboard.Screen

/-- The rows of a picture from top to bottom. -/
abbrev Picture := List Row

namespace Picture

/-- Pads or cuts rows to a height. -/
def fill (width height : Nat) (ground : Style) (rows : List Row) : Picture :=
  (rows ++ List.replicate (height - rows.length) (Row.blank width ground)).take height

/-- Two pictures of one height side by side. -/
def beside (left right : Picture) : Picture := List.zipWith (· ++ ·) left right

def above (upper lower : Picture) : Picture := upper ++ lower

/-- Lines of flowing text. -/
def flowing (alignment : Alignment) (width height : Nat) (ground : Style) (lines : List Line) :
    Picture :=
  fill width height ground (lines.map (Row.flowing alignment width ground))

@[simp] theorem length_fill (width height : Nat) (ground : Style) (rows : List Row) :
    (fill width height ground rows).length = height := by
  simp [fill]
  omega

@[simp] theorem length_flowing (alignment : Alignment) (width height : Nat) (ground : Style)
    (lines : List Line) : (flowing alignment width height ground lines).length = height := by
  simp [flowing]

end Picture

/-- The size of the first of two parts of `size` cells if it gets `percent` percent of them; a half
is rounded up. -/
def share (percent size : Nat) : Nat := (size * percent + 50) / 100

theorem share_le {percent size : Nat} (h : percent ≤ 100) : share percent size ≤ size := by
  have := Nat.mul_le_mul_left size h
  rw [share]
  omega

/-! Panes with an edge around them. -/

def edgeStyle (focused : Bool) : Style :=
  if focused then { Style.ink Palette.focusedEdge with bold := true } else .ink Palette.edge

def edgeCell (style : Style) (c : Char) : Cell := ⟨[c], style⟩

/-- An edge from one corner to the other. On a single cell there is only the first corner. -/
def edgeRow (style : Style) (first last : Char) (width : Nat) (label : List Char) : Row :=
  match width with
  | 0 => []
  | 1 => [edgeCell style first]
  | n + 2 =>
    let label := label.take n
    let middle := label ++ List.replicate (n - label.length) '─'
    (first :: middle ++ [last]).map (edgeCell style)

/-- A row between the left and the right edge. -/
def sideRow (style : Style) (width : Nat) (inside : Row) : Row :=
  match width with
  | 0 => []
  | 1 => [edgeCell style '│']
  | _ => edgeCell style '│' :: inside ++ [edgeCell style '│']

/-- A pane with an edge around `inside`, which is two cells smaller each way. -/
def framed (focused : Bool) (title : String) (width height : Nat) (inside : Picture) : Picture :=
  let style := edgeStyle focused
  let top := edgeRow style '┌' '┐' width title.toList
  match height with
  | 0 => []
  | 1 => [top]
  | _ => top :: inside.map (sideRow style width) ++ [edgeRow style '└' '┘' width []]

/-- How many rows of text a pane plans for: those between its edges, and at least one. -/
def textRows (height : Nat) : Nat := max (height - 2) 1

/-! Columns of fixed width inside a line. -/

def padRight (columns : Nat) (cs : List Char) : List Char :=
  cs ++ List.replicate (columns - cs.length) ' '

def padLeft (columns : Nat) (cs : List Char) : List Char :=
  List.replicate (columns - cs.length) ' ' ++ cs

end Breadboard.Screen
