import Breadboard.Decimal.Layout
import Breadboard.Screen.Picture
import Breadboard.Serial

set_option autoImplicit false

/-!
The pane with the output of the serial monitor, every line with its time.
-/
namespace Breadboard.Screen

/-- The farthest position of a scroll. It stands for the newest output. -/
def farthest : Nat := Decimal.twoTo 64 - 1

structure LogPane where
  monitor : Serial.Monitor
  focused : Bool

namespace LogPane

def categoryStyle : Serial.Category → Style
  | .print | .println => .ink Palette.text
  | .printf => .ink Palette.kind
  | .system => .ink Palette.system
  | .error => { Style.ink Palette.failure with bold := true }

def stamp (time : List Char) : Span := ⟨padLeft 10 time ++ [' '], .ink Palette.faint⟩

/-- The lines of an event; a line end at its very end makes none. -/
def eventLines (e : Serial.Event) : List Line :=
  let text := e.text.toList
  let text := (Text.dropSuffix? ['\n'] text).getD text
  (Text.splitOn '\n' text).map fun part =>
    [stamp (Decimal.fixed 3 e.elapsed ++ ['s']), ⟨part, categoryStyle e.category⟩]

/-- The line of the text that belongs to no event yet. -/
def pendingLines (m : Serial.Monitor) : List Line :=
  if m.pending.isEmpty then []
  else [[stamp ['…'], ⟨m.pending.toList, { Style.ink Palette.text with dim := true }⟩]]

def lines (p : LogPane) : List Line := p.monitor.events.flatMap eventLines ++ pendingLines p.monitor

/-- Scrolls at most to the last full page. As long as there is no output the scroll stays. -/
def scrolled (p : LogPane) (scroll height : Nat) : Nat :=
  if p.lines.isEmpty then scroll else min scroll (p.lines.length - textRows height)

def draw (p : LogPane) (scroll width height : Nat) : Picture × Nat :=
  let scroll := p.scrolled scroll height
  let inside :=
    if p.lines.isEmpty then
      Picture.flowing .left (width - 2) (height - 2) (.ink Palette.faint)
        [[⟨"(no output)".toList, .plain⟩]]
    else
      let shown := (p.lines.drop scroll).take (textRows height)
      Picture.fill (width - 2) (height - 2) .plain
        (shown.map fun l => (Row.blank 1 .plain ++ Row.entry (width - 3) .plain l).take (width - 2))
  (framed p.focused " Serial Monitor " width height inside, scroll)

end LogPane

end Breadboard.Screen
