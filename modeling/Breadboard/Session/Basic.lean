import Breadboard.Engine.Wiring
import Breadboard.File
import Breadboard.Screen.Bar
import Breadboard.Screen.Log
import Breadboard.Screen.Pins
import Breadboard.Screen.Source

set_option autoImplicit false

/-!
A session: an engine with a sketch, and the screen that shows them.
-/
namespace Breadboard

open Screen (Picture SourceScroll)

/-- The panes that can have the focus. -/
inductive Pane where
  | source
  | pins
  | serial
  deriving DecidableEq, Repr

namespace Pane

/-- Goes around clockwise. -/
def next : Pane → Pane
  | source => serial
  | serial => pins
  | pins => source

def previous : Pane → Pane
  | source => pins
  | pins => serial
  | serial => source

@[simp] theorem previous_next (p : Pane) : p.next.previous = p := by cases p <;> rfl

@[simp] theorem next_previous (p : Pane) : p.previous.next = p := by cases p <;> rfl

end Pane

/-- A circuit and the file that it was read from. -/
structure LoadedCircuit where
  circuit : Circuit
  path : String

structure Session where
  engine : Engine
  source : String
  circuit : Option LoadedCircuit
  focus : Pane
  sourceScroll : SourceScroll
  pinsScroll : Nat
  serialScroll : Nat
  /-- The row of the pin table that keys for pins act on. -/
  selected : Nat
  quit : Bool
  message : String

namespace Session

/-- Begins a session. What the engine has told so far is not shown. -/
def ofEngine (engine : Engine) (source : String) (circuit : Option LoadedCircuit) : Session :=
  { engine := engine.takeNews.2
    source, circuit
    focus := .source
    sourceScroll := .top
    pinsScroll := 0
    serialScroll := Screen.farthest
    selected := 0
    quit := false
    message := "Ready!" }

def say (s : Session) (message : String) : Session := { s with message }

def statusMessage : Status → String
  | .idle => "Board reset"
  | .running => "Sketch running"
  | .stopped => "Sketch stopped"
  | .error => "Sketch failed, see the serial monitor"

/-- The status that the engine has told last. -/
def newStatus? (news : List News) : Option Status :=
  (news.filterMap fun | .status s => some s | _ => none).getLast?

/-- Takes note of what the engine has told: a new status is shown, together with the newest output. -/
def hear (s : Session) : Session :=
  let (news, engine) := s.engine.takeNews
  match newStatus? news with
  | some status =>
    { s with engine, message := statusMessage status, serialScroll := Screen.farthest }
  | none => { s with engine }

def bar (s : Session) : Screen.Bar := ⟨s.message, s.engine.status, s.engine.speed, s.engine.millis⟩

def sourcePane (s : Session) : Screen.SourcePane :=
  ⟨s.source, s.engine.location.line, s.engine.status == .error, s.focus == .source⟩

def pinsPane (s : Session) : Screen.PinsPane := ⟨s.engine.board.pins, s.selected, s.focus == .pins⟩

def logPane (s : Session) : Screen.LogPane := ⟨s.engine.monitor, s.focus == .serial⟩

/-- Draws the screen: source and serial output at the left, the pins at the right, the status bar in
the last row. -/
def draw (s : Session) (width height : Nat) : Picture × Session :=
  let paneHeight := height - 1
  let left := Screen.share 55 width
  let upper := Screen.share 65 paneHeight
  let (source, sourceScroll) := s.sourcePane.draw s.sourceScroll left upper
  let (log, serialScroll) := s.logPane.draw s.serialScroll left (paneHeight - upper)
  let (pins, pinsScroll) := s.pinsPane.draw s.pinsScroll (width - left) paneHeight
  let picture := ((source.above log).beside pins).above (s.bar.draw width (min height 1))
  (picture, { s with sourceScroll, serialScroll, pinsScroll })

/-- Lets the engine go on and draws the screen. `none` if the engine's clock cannot hold the next
pause. -/
def frame (s : Session) (width height : Nat) : Option (Picture × Session) := do
  let (_, engine) ← s.engine.poll
  some ({ s with engine }.hear.draw width height)

def close (s : Session) : Session := { s with engine := s.engine.stop }

end Session

end Breadboard
