import Breadboard.Screen.Picture

set_option autoImplicit false

/-!
A display keeps what its cells show and draws only what a new picture changes. The cell right behind a
wide one is covered by it, so it is not drawn and keeps what it had.
-/
namespace Breadboard.Screen

/-- Brings a row up to date. `last` is the width of the cell before it in the new picture, and `stale`
counts the cells from here on that a wide glyph of either picture reaches. -/
def refreshFrom (last stale : Nat) : Row → Row → Row → Row
  | old :: olds, new :: news, cell :: cells =>
    let drawn := last ≤ 1 ∧ (new ≠ old ∨ 0 < stale)
    (if drawn then new else cell) ::
      refreshFrom new.width (max (max new.width old.width) stale - 1) olds news cells
  | _, _, cells => cells

def Row.refresh (old new shown : Row) : Row := refreshFrom 1 0 old new shown

structure Display where
  /-- The picture that was drawn last. -/
  picture : Picture
  /-- What the cells show. -/
  shown : Picture

namespace Display

def blank (width height : Nat) : Display :=
  let rows := List.replicate height (Row.blank width .plain)
  ⟨rows, rows⟩

/-- Draws a picture of the display's size. -/
def draw (d : Display) (p : Picture) : Display :=
  ⟨p, List.zipWith (fun f shown => f shown) (List.zipWith Row.refresh d.picture p) d.shown⟩

/-- What is shown after each of the pictures. -/
def drawAll (d : Display) : List Picture → List Picture
  | [] => []
  | p :: ps => (d.draw p).shown :: (d.draw p).drawAll ps

end Display

/-- What a picture shows on a display that was blank. -/
def Picture.onBlank (width height : Nat) (p : Picture) : Picture :=
  ((Display.blank width height).draw p).shown

/-- The text of a row for a terminal that moves on by the width of what it prints: cells that a wide
one covers are left out. -/
def printedFrom : Nat → Row → List Char
  | _, [] => []
  | 0, c :: row => c.text ++ printedFrom (c.width - 1) row
  | covered + 1, _ :: row => printedFrom covered row

def Row.printed (r : Row) : List Char := printedFrom 0 r

theorem length_refreshFrom (last stale : Nat) (olds news cells : Row) :
    (refreshFrom last stale olds news cells).length = cells.length := by
  fun_induction refreshFrom last stale olds news cells <;> simp_all

@[simp] theorem Row.length_refresh (old new shown : Row) :
    (Row.refresh old new shown).length = shown.length :=
  length_refreshFrom 1 0 old new shown

/-- Drawing again what is shown changes nothing. -/
theorem refreshFrom_self (last stale : Nat) (row : Row) :
    refreshFrom last stale row row row = row := by
  induction row generalizing last stale with
  | nil => rfl
  | cons c row ih => simp [refreshFrom, ih]

end Breadboard.Screen
