import Breadboard.Board.Basic
import Breadboard.Screen.Picture

set_option autoImplicit false

/-!
The pane with the table of all pins. One pin is selected, and its row is always in sight.
-/
namespace Breadboard.Screen

structure PinsPane where
  pins : List (Pin × PinState)
  selected : Nat
  focused : Bool

namespace PinsPane

def abilities (s : PinState) : String :=
  match s.hasAdc, s.hasDac with
  | true, true => "ADC DAC"
  | true, false => "ADC"
  | false, true => "DAC"
  | false, false => ""

def levelStyle (s : PinState) : Style :=
  if s.mode = .power then .ink Palette.power
  else if s.high then { Style.ink Palette.success with bold := true }
  else .ink Palette.faint

def dutyStyle (s : PinState) : Style := .ink (if 0 < s.duty then Palette.accent else Palette.faint)

def wiring : Option Connection → String
  | some c => s!"{c.component} ({c.label})"
  | none => ""

/-- The columns of the table; numbers stand at the right. -/
def columns (pin mode level duty analog able wired : List Char) : List (List Char) :=
  [padRight 7 pin, padRight 13 mode, padRight 3 level, padLeft 4 duty ++ [' '],
    padLeft 5 analog ++ [' '], padRight 8 able, wired]

def header : Line :=
  let titles := columns "PIN".toList "MODE".toList "D".toList "PWM".toList "ADC".toList "CAPS".toList
    "WIRED TO".toList
  [⟨titles.flatten, { Style.ink Palette.faint with bold := true }⟩]

def line (pin : Pin) (s : PinState) : Line :=
  let texts := columns pin.name.toList s.mode.name.toList (if s.high then ['H'] else ['L'])
    (Nat.toDigits 10 s.duty) (Nat.toDigits 10 s.analog) (abilities s).toList
    (wiring s.connection).toList
  let styles := [.ink Palette.call, .ink Palette.kind, levelStyle s, dutyStyle s, .ink Palette.number,
    .ink Palette.faint, .ink Palette.text]
  texts.zipWith Span.mk styles

/-- How many pins a pane plans for: those between its header and its lower edge, and at least one. -/
def pinRows (height : Nat) : Nat := max (height - 3) 1

/-- Scrolls no further than it takes to see the selected pin. -/
def scrolled (p : PinsPane) (scroll height : Nat) : Nat :=
  if p.selected < scroll then p.selected
  else if scroll + pinRows height ≤ p.selected then p.selected + 1 - pinRows height
  else scroll

def row (p : PinsPane) (width : Nat) (entry : (Pin × PinState) × Nat) : Row :=
  Row.entry width (if entry.2 = p.selected then .paper Palette.current else .plain)
    (line entry.1.1 entry.1.2)

def draw (p : PinsPane) (scroll width height : Nat) : Picture × Nat :=
  let scroll := p.scrolled scroll height
  let shown := (p.pins.zipIdx.drop scroll).take (pinRows height)
  let rows := Row.entry (width - 2) .plain header :: shown.map (p.row (width - 2))
  (framed p.focused " Pins " width height (.fill (width - 2) (height - 2) .plain rows), scroll)

end PinsPane

end Breadboard.Screen
