import Breadboard.Board.Peripheral
import Breadboard.Engine.Run
import Breadboard.Sketch.ReadExpr

set_option autoImplicit false

/-!
The engine: a board, a serial monitor and the run of a sketch, driven by a clock from outside.
-/
namespace Breadboard

structure Config where
  /-- How much faster than the clock simulated time goes. -/
  speed : Float
  /-- How many serial events are kept. -/
  history : Nat
  /-- How deep calls can be nested. -/
  maxCallDepth : Nat
  /-- How long one poll may take, in nanoseconds. -/
  pollSlice : Nat
  seed : UInt64

def Config.standard : Config :=
  { speed := 1.0, history := Serial.Monitor.defaultCapacity, maxCallDepth := 64, pollSlice := 8000000
    seed := 0 }

/-- A request that the engine refuses. -/
inductive Refusal where
  | alreadyRunning
  | invalidSpeed (speed : Float)
  deriving DecidableEq, Repr

def Refusal.message : Refusal → String
  | alreadyRunning => "A sketch is already running"
  | invalidSpeed speed =>
    "Invalid speed " ++ String.ofList (Decimal.Layout.plain.render speed) ++
      " (must be a positive number)"

/-- What driving the engine has led to: nothing more to do before a time, or no run. -/
inductive Progress where
  | pending (due : Nat)
  | halted (status : Status)
  deriving DecidableEq, Repr

structure Engine where
  config : Config
  /-- What the clock shows. -/
  now : Nat
  status : Status
  program : Program
  thread : Thread
  registry : Registry
  speed : Float
  startedAt : Option Nat
  /-- How long the run had lasted when it ended. -/
  frozen : Option Nat
  /-- When the run goes on. -/
  due : Option Nat

namespace Engine

/-- What a message of failure opens with. -/
def errorMark : String := "ERROR: "

/-- The most steps of one poll. -/
def maxStepsPerPoll : Nat := 10000

def isValidSpeed (speed : Float) : Bool := speed.isFinite && speed > 0.0

def ofConfig (config : Config) : Engine :=
  { config
    now := 0
    status := .idle
    program := .empty
    thread :=
      { frames := [], phase := .setup, location := .start
        world :=
          { scopes := .empty, board := .fresh, monitor := .ofCapacity config.history
            random := .ofSeed config.seed, outbox := [] } }
    registry := .empty
    speed := if isValidSpeed config.speed then config.speed else 1.0
    startedAt := none
    frozen := none
    due := none }

def world (e : Engine) : World := e.thread.world

def board (e : Engine) : Board := e.world.board

def monitor (e : Engine) : Serial.Monitor := e.world.monitor

def location (e : Engine) : Location := e.thread.location

def setWorld (e : Engine) (w : World) : Engine := { e with thread := { e.thread with world := w } }

/-- Hands out the news that have gathered, the oldest first. -/
def takeNews (e : Engine) : List News × Engine :=
  (e.world.outbox.reverse, e.setWorld { e.world with outbox := [] })

/-- How long the run has lasted; it stands still once the run has ended. -/
def elapsed (e : Engine) : Nat :=
  match e.frozen, e.startedAt with
  | some span, _ => span
  | none, some start => e.now - start
  | none, none => 0

def reading (e : Engine) : Time.Reading := .of e.elapsed e.speed

def millis (e : Engine) : Float := e.reading.millis

def micros (e : Engine) : Float := e.reading.micros

def setting (e : Engine) : Setting := ⟨e.program, e.config.maxCallDepth, ⟨e.reading, e.speed⟩⟩

def setStatus (e : Engine) (status : Status) : Engine :=
  { e with status }.setWorld (e.world.tell [.status status])

def advance (e : Engine) (span : Nat) : Engine := { e with now := e.now + span }

/-- Reads a source text and begins to run it, unless a run is under way. -/
def start (e : Engine) (source : String) : Except Refusal Engine :=
  if e.status = .running then .error .alreadyRunning
  else
    let program := Program.ofSource source
    let thread : Thread :=
      { frames := [.sequence program.setup], phase := .setup, location := .start
        world := { e.world with scopes := .ofGlobals program.globals } }
    .ok <| { e with program, thread, startedAt := some e.now, frozen := none, due := none }.setStatus
      .running

/-- Ends a run: held text is flushed, time stands still and all that was still to be done is
dropped. -/
def halt (e : Engine) : Engine :=
  let w := e.world.flush e.reading.stamp
  { e with
    frozen := some e.elapsed
    due := none
    thread := { e.thread with frames := [], world := { w with scopes := w.scopes.exitAll } } }

def stop (e : Engine) : Engine := if e.status = .running then e.halt.setStatus .stopped else e

/-- Stops and makes pins, variables and parts what they were in the beginning. The wiring stays, and
the parts that want it are told. -/
def reset (e : Engine) : Engine :=
  let e := e.stop
  let w := e.world.setBoard e.board.reset
  let w := { w with board := e.registry.reconnect w.board }.tell (e.registry.hooks.map .reset)
  let w := { w with scopes := .empty, monitor := w.monitor.clearPending }
  { e with
    thread := { e.thread with frames := [], location := .start, world := w }
    startedAt := none
    frozen := none
    due := none }.setStatus .idle

/-- Ends a run with a failure, which is reported on the serial monitor. -/
def fail (e : Engine) (fault : Fault) : Engine :=
  let e := e.halt
  (e.setWorld (e.world.emit (errorMark ++ fault.message) .error e.reading.stamp)).setStatus .error

/-- Goes on up to the next pause, if its time has come. `none` if the next pause is too long for the
clock. -/
def step (e : Engine) : Option (Progress × Engine) :=
  if e.status ≠ .running then some (.halted e.status, e)
  else match e.due.filter (e.now < ·) with
    | some due => some (.pending due, e)
    | none =>
      match e.thread.run e.setting with
      | .pause span thread =>
        (Time.after? e.now span).map fun due => (.pending due, { e with thread, due := some due })
      | .fail fault thread =>
        let e := { e with thread }.fail fault
        some (.halted e.status, e)
      | .overflow => none

/-- Takes up to `steps` more steps as long as the next one is due. -/
def pollFrom : Nat → Progress → Engine → Option (Progress × Engine)
  | 0, last, e => some (last, e)
  | steps + 1, last, e =>
    match last with
    | .pending due =>
      if due ≤ e.now ∧ 0 < e.config.pollSlice then
        match e.step with
        | some (last, e) => pollFrom steps last e
        | none => none
      else some (last, e)
    | .halted _ => some (last, e)

/-- Takes all steps that are due. The clock stands still meanwhile. -/
def poll (e : Engine) : Option (Progress × Engine) :=
  match e.step with
  | some (last, e) => pollFrom (maxStepsPerPoll - 1) last e
  | none => none

/-- Changes the speed; it counts from the next delay or reading of the time on. -/
def setSpeed (e : Engine) (speed : Float) : Except Refusal Engine :=
  if isValidSpeed speed then .ok { e with speed } else .error (.invalidSpeed speed)

/-- The value of an expression at this point of the run. -/
def evaluate (e : Engine) (expr : String) : Value × Engine :=
  let (v, w) := e.world.eval e.reading (.read expr.toList)
  (v, e.setWorld w)

/-- Whether a condition holds at this point of the run. -/
def check (e : Engine) (cond : String) : Bool × Engine :=
  let (b, w) := e.world.holds e.reading (.read cond.toList)
  (b, e.setWorld w)

def lookup (e : Engine) (name : String) : Option Value := e.world.scopes.lookup name

/-- Changes the board from outside. -/
def onBoard (e : Engine) (f : Board → Board × List Notice) : Engine :=
  e.setWorld (e.world.setBoard (f e.board))

def register (e : Engine) (p : Peripheral) : Engine :=
  let (registry, board) := e.registry.register e.board p
  { e with registry }.setWorld { e.world with board }

/-- Removes a part and tells whether there was one. -/
def remove (e : Engine) (id : String) : Bool × Engine :=
  match e.registry.remove? e.board id with
  | some (registry, board) => (true, { e with registry }.setWorld { e.world with board })
  | none => (false, e)

/-- Numbers in descriptions: whole ones have a point, large and small ones an exponent. -/
def describedNumber : Decimal.Layout :=
  { tie := .up, pointAbove := some (-4), pointUpTo := some 16, wholePoint := true
    exponentPlus := false }

def describeStatus : Status → String
  | .idle => "Idle"
  | .running => "Running"
  | .stopped => "Stopped"
  | .error => "Error"

def describe (e : Engine) : String :=
  let status := describeStatus e.status
  let speed := String.ofList (describedNumber.render e.speed)
  let place := s!"SourceLocation \x7b line: {e.location.line}, column: {e.location.column} \x7d"
  s!"Engine \x7b status: {status}, speed: {speed}, frames: {e.thread.frames.length}, location: " ++
    place ++ " \x7d"

end Engine

end Breadboard
