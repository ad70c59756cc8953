import Breadboard.Screen.Display
import Breadboard.Session.Basic

set_option autoImplicit false

/-!
The keys of a session.
-/
namespace Breadboard

open Screen (Picture)

inductive Key where
  | char (c : Char)
  | tab
  | backTab
  | up
  | down
  | last
  | other
  deriving DecidableEq, Repr

/-- A file that a session wants to have written. -/
structure Export where
  path : String
  text : String
  deriving DecidableEq, Repr

namespace Session

def minSpeed : Float := 1.0 / 64.0

def maxSpeed : Float := 64.0

/-- By how much a key changes the reading of a converter. -/
def analogStep : Nat := 256

def toggleRun (s : Session) : Session :=
  if s.engine.status = .running then { s with engine := s.engine.stop }.hear
  else match s.engine.start s.source with
    | .ok engine => { s with engine }.hear
    | .error refusal => (s.say refusal.message).hear

def scaleSpeed (s : Session) (factor : Float) : Session :=
  let speed := s.engine.speed * factor
  let speed := if speed < minSpeed then minSpeed else if maxSpeed < speed then maxSpeed else speed
  match s.engine.setSpeed speed with
  | .ok engine =>
    { s with engine, message := "Speed ×" ++ String.ofList (Decimal.Layout.plain.render speed) }
  | .error refusal => s.say refusal.message

def selectedPin? (s : Session) : Option (Pin × PinState) := s.engine.board.pins[s.selected]?

/-- Drives the selected pin to its other level. -/
def togglePin (s : Session) : Session :=
  match s.selectedPin? with
  | none => s
  | some (pin, state) =>
    if pin.isRail then s.say s!"{pin.name} is a supply rail"
    else
      let engine := s.engine.onBoard (·.writeDigital pin (if state.high then 0.0 else 1.0))
      let level := if state.high then "LOW" else "HIGH"
      { s with engine, message := s!"{pin.name} driven {level}" }

/-- Changes the reading of the selected pin's converter, within its range. -/
def moveAnalog (s : Session) (change : Nat → Nat) : Session :=
  match s.selectedPin? with
  | none => s
  | some (pin, state) =>
    if !state.hasAdc then s.say s!"{pin.name} has no ADC channel"
    else
      let value := min (change state.analog) PinState.maxAnalog
      { s with
        engine := s.engine.onBoard (·.setAnalog pin (Float.ofNat value))
        message := s!"{pin.name} ADC = {value}" }

/-- What the key for up does in the focused pane. In the source the current line goes down. -/
def moveUp (s : Session) : Session :=
  match s.focus with
  | .source => { s with sourceScroll := s.sourceScroll.moveRow (· + 1) }
  | .pins => { s with selected := s.selected - 1 }
  | .serial => { s with serialScroll := s.serialScroll - 1 }

def moveDown (s : Session) : Session :=
  match s.focus with
  | .source => { s with sourceScroll := s.sourceScroll.moveRow (· - 1) }
  | .pins => { s with selected := min (s.selected + 1) (s.engine.board.pins.length - 1) }
  | .serial => { s with serialScroll := min (s.serialScroll + 1) Screen.farthest }

/-- The file that a loaded circuit is written to: `diagram.json` goes to `diagram.export.json`. -/
def exportPath (path : String) : String :=
  String.ofList (File.withExtension "export.json".toList path.toList)

/-- What a key does, unless it asks for a file. -/
def react (s : Session) : Key → Session
  | .char 'q' | .char 'Q' => { s with quit := true }
  | .char 's' => s.toggleRun
  | .char 'r' => { s with engine := s.engine.reset }.hear
  | .char '+' | .char '=' => s.scaleSpeed 2.0
  | .char '-' => s.scaleSpeed 0.5
  | .char ' ' => s.togglePin
  | .char '[' => s.moveAnalog (· - analogStep)
  | .char ']' => s.moveAnalog (· + analogStep)
  | .tab => { s with focus := s.focus.next }
  | .backTab => { s with focus := s.focus.previous }
  | .up => s.moveUp
  | .down => s.moveDown
  | .last => { s with serialScroll := Screen.farthest }
  | .char _ | .other => s

/-- The file that a key asks for. -/
def wanted? (s : Session) (key : Key) : Option Export :=
  if key = .char 'e' then s.circuit.map fun c => ⟨exportPath c.path, c.circuit.render⟩ else none

/-- Tells how writing a file went. -/
def report (s : Session) (file : Export) : Option File.Fault → Session
  | none => s.say s!"Circuit exported to {file.path}"
  | some fault => s.say s!"Export failed: {fault.message}"

/-- Handles a key. `save` tells what went wrong with writing a file. -/
def press (s : Session) (save : Export → Option File.Fault) (key : Key) : Session :=
  match s.wanted? key with
  | some file => s.report file (save file)
  | none => if key = .char 'e' then s.say "No circuit loaded" else s.react key

/-- Plays a session: the screen is drawn, then time passes and a key is pressed, until the session is
quit or no key is left. Gives all pictures in order. -/
def play (save : Export → Option File.Fault) (width height : Nat) :
    List (Nat × Key) → Session → Option (List Picture × Session)
  | [], s => (s.frame width height).map fun (picture, s) => ([picture], s.close)
  | (span, key) :: rest, s => do
    let (picture, s) ← s.frame width height
    if s.quit then some ([picture], s.close)
    else
      let s := { s with engine := s.engine.advance span }.press save key
      let (pictures, s) ← play save width height rest s
      some (picture :: pictures, s)

/-- Plays a session on a blank display. Gives what is shown after each picture. -/
def playOn (save : Export → Option File.Fault) (width height : Nat) (steps : List (Nat × Key))
    (s : Session) : Option (List Picture × Session) :=
  (play save width height steps s).map fun (pictures, s) =>
    ((Screen.Display.blank width height).drawAll pictures, s)

end Session

end Breadboard
