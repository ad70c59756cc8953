import Breadboard.Calc.Template
import Breadboard.Engine.Eval
import Breadboard.Serial

set_option autoImplicit false

/-!
What the actions of a sketch act on: variables, pins, the serial monitor and the random generator.
-/
namespace Breadboard

open Breadboard.Random (Generator)

inductive Status where
  | idle
  | running
  | stopped
  | error
  deriving DecidableEq, Repr

namespace Status

def all : List Status := [idle, running, stopped, error]

def name : Status → String
  | idle => "idle"
  | running => "running"
  | stopped => "stopped"
  | error => "error"

end Status

/-- Something that the outside is told about. -/
inductive News where
  | pin (notice : Notice)
  | serial (event : Serial.Event)
  | status (s : Status)
  | reset (id : String)
  deriving DecidableEq, Repr

structure World where
  scopes : Scopes
  board : Board
  monitor : Serial.Monitor
  random : Generator
  /-- What the outside has not been told yet, the latest first. -/
  outbox : List News

/-- When statements run and how fast. -/
structure Pace where
  time : Time.Reading
  speed : Float

namespace World

def env (w : World) (time : Time.Reading) : Env := ⟨w.scopes, w.board, time⟩

def eval (w : World) (time : Time.Reading) (e : Expr) : Value × World :=
  let (v, g) := e.eval (w.env time) w.random
  (v, { w with random := g })

def evalAll (w : World) (time : Time.Reading) (es : List Expr) : List Value × World :=
  let (vs, g) := Expr.evalAll (w.env time) es w.random
  (vs, { w with random := g })

def holds (w : World) (time : Time.Reading) (c : Cond) : Bool × World :=
  let (b, g) := c.holds (w.env time) w.random
  (b, { w with random := g })

def tell (w : World) (news : List News) : World := { w with outbox := news.reverse ++ w.outbox }

def setBoard (w : World) : Board × List Notice → World
  | (board, notices) => { w with board }.tell (notices.map .pin)

def setMonitor (w : World) : Serial.Monitor × List Serial.Event → World
  | (monitor, events) => { w with monitor }.tell (events.map .serial)

def print (w : World) (text : String) : World := { w with monitor := w.monitor.print text }

def emit (w : World) (text : String) (category : Serial.Category) (stamp : Float) : World :=
  w.setMonitor (w.monitor.emit text category stamp)

def flush (w : World) (stamp : Float) : World := w.setMonitor (w.monitor.flush stamp)

def assign (w : World) (name : String) (v : Value) : World := { w with scopes := w.scopes.assign name v }

@[simp] theorem scopes_tell (w : World) (news : List News) : (w.tell news).scopes = w.scopes := rfl

@[simp] theorem scopes_eval (w : World) (time : Time.Reading) (e : Expr) :
    (w.eval time e).2.scopes = w.scopes := rfl

@[simp] theorem scopes_evalAll (w : World) (time : Time.Reading) (es : List Expr) :
    (w.evalAll time es).2.scopes = w.scopes := rfl

@[simp] theorem scopes_holds (w : World) (time : Time.Reading) (c : Cond) :
    (w.holds time c).2.scopes = w.scopes := rfl

@[simp] theorem monitor_eval (w : World) (time : Time.Reading) (e : Expr) :
    (w.eval time e).2.monitor = w.monitor := rfl

@[simp] theorem monitor_holds (w : World) (time : Time.Reading) (c : Cond) :
    (w.holds time c).2.monitor = w.monitor := rfl

@[simp] theorem scopes_setBoard (w : World) (b : Board × List Notice) :
    (w.setBoard b).scopes = w.scopes := rfl

@[simp] theorem scopes_setMonitor (w : World) (m : Serial.Monitor × List Serial.Event) :
    (w.setMonitor m).scopes = w.scopes := rfl

end World

/-- The new value of a variable. A text on either side makes an addition a joining of texts. -/
def AssignOp.apply (op : AssignOp) (current v : Value) : Value :=
  match op with
  | .set => v
  | .add =>
    match current, v with
    | .number x, .number y => .number (x + y)
    | _, _ => .text (current.toText ++ v.toText)
  | .sub => .number (current.toNumber - v.toNumber)
  | .mul => .number (current.toNumber * v.toNumber)
  | .div => .number (current.toNumber / v.toNumber)

/-- What follows an action: the next statement, a pause, or a pause that is too long to be held. -/
inductive Flow where
  | next
  | pause (span : Nat)
  | overflow
  deriving DecidableEq, Repr

def Flow.ofPause : Option Nat → Flow
  | some span => pause span
  | none => overflow

namespace Action

/-- The text that the start of serial communication leaves. -/
def beginMessage : String := "Serial communication started"

/-- The text of what is printed. -/
def printText (p : Pace) (w : World) : PrintArg → String × World
  | .literal s => (s, w)
  | .value e =>
    let (v, w) := w.eval p.time e
    (v.toText, w)
  | .empty => ("", w)

/-- Carries out an action. -/
def perform (p : Pace) (w : World) : Action → World × Flow
  | .delay ms =>
    let (v, w) := w.eval p.time ms
    (w, .ofPause (Time.pause? v.toNumber p.speed))
  | .delayMicros us =>
    let (v, w) := w.eval p.time us
    (w, .ofPause (Time.pause? (v.toNumber / 1000.0) p.speed))
  | .serialBegin => (w.emit beginMessage .system p.time.stamp, .next)
  | .print arg newline =>
    let (text, w) := printText p w arg
    (if newline then w.emit text .println p.time.stamp else w.print text, .next)
  | .printf template args =>
    let (vs, w) := w.evalAll p.time args
    (w.emit (Template.format template vs) .printf p.time.stamp, .next)
  | .pinMode pin mode =>
    let (pin, w) := w.eval p.time pin
    let (mode, w) := w.eval p.time mode
    match Pin.ofValue? pin, mode with
    | some pin, .text keyword =>
      match Mode.ofKeyword? keyword with
      | some mode => (w.setBoard (w.board.setMode pin mode), .next)
      | none => (w, .next)
    | _, _ => (w, .next)
  | .digitalWrite pin value =>
    let (pin, w) := w.eval p.time pin
    let (value, w) := w.eval p.time value
    match Pin.ofValue? pin with
    | some pin => (w.setBoard (w.board.writeDigital pin value.toNumber), .next)
    | none => (w, .next)
  | .analogWrite pin duty =>
    let (pin, w) := w.eval p.time pin
    let (duty, w) := w.eval p.time duty
    match Pin.ofValue? pin with
    | some pin => (w.setBoard (w.board.writeAnalog pin duty.toNumber), .next)
    | none => (w, .next)
  | .assign name op value =>
    let (v, w) := w.eval p.time value
    (w.assign name (op.apply ((w.scopes.lookup name).getD .zero) v), .next)
  | .step name delta =>
    let current := ((w.scopes.lookup name).map Value.toNumber).getD 0.0
    (w.assign name (.number (current + delta)), .next)
  | .ignored _ => (w, .next)

/-- No action enters or leaves a call. -/
theorem depth_perform (p : Pace) (w : World) (a : Action) :
    (a.perform p w).1.scopes.depth = w.scopes.depth := by
  cases a with
  | print arg newline => cases arg <;> cases newline <;> rfl
  | pinMode pin mode =>
    simp only [perform]
    split
    · split <;> rfl
    · rfl
  | digitalWrite pin value => simp only [perform]; split <;> rfl
  | analogWrite pin duty => simp only [perform]; split <;> rfl
  | assign name op value => simp [perform, World.assign]
  | step name delta => simp [perform, World.assign]
  | _ => rfl

end Action

end Breadboard
