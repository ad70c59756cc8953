import Breadboard.Engine.World
import Breadboard.Sketch.Program

set_option autoImplicit false

/-!
The run of a program as a stack of frames, so that it can pause at any point and go on later.

A run pauses at a delay, after every round of a `for`, after every hundred rounds of a `while` and
after every pass of the main loop. As calls can be nested only so deep, it cannot go on forever
without a pause: every step that does not end it lowers a rank.
-/
namespace Breadboard

inductive Phase where
  | setup
  | loop
  deriving DecidableEq, Repr

/-- What is still to be done at one level of a run. -/
inductive Frame where
  /-- The rest of a block. -/
  | sequence (rest : List Stmt)
  /-- The test of a `for`. -/
  | forTest (cond : Cond) (step : Option Stmt) (body : List Stmt)
  /-- The step clause of a `for`, after its body. -/
  | forStep (cond : Cond) (step : Option Stmt) (body : List Stmt)
  /-- The test of a `while` after a number of rounds. -/
  | whileTest (cond : Cond) (body : List Stmt) (rounds : Nat)
  /-- The return from a call. -/
  | call

/-- A failure that ends a run. -/
inductive Fault where
  | callDepth (function : String) (limit : Nat) (location : Location)
  deriving DecidableEq, Repr

def Fault.message : Fault → String
  | callDepth function limit location =>
    s!"Call to '{function}' exceeds the maximum call depth of {limit} at line {location.line}"

structure Thread where
  /-- What is still to be done, the innermost level first. -/
  frames : List Frame
  phase : Phase
  /-- Where the statement stands that was started last. -/
  location : Location
  world : World

/-- What a run does not change: the program, how deep calls can be nested, and the pace. -/
structure Setting where
  program : Program
  limit : Nat
  pace : Pace

/-- The outcome of a step: it goes on, it pauses, it fails, or it pauses for too long. -/
inductive Outcome where
  | next (t : Thread)
  | pause (span : Nat) (t : Thread)
  | fail (fault : Fault) (t : Thread)
  | overflow

namespace Thread

def push (t : Thread) (f : Frame) : Thread := { t with frames := f :: t.frames }

def depth (t : Thread) : Nat := t.world.scopes.depth

/-- A `while` pauses after this many rounds. -/
def roundsPerPause : Nat := 100

/-- Tests the conditions of a chain from the first on and pushes the body to be run. -/
def choose (s : Setting) : Chain → Thread → Thread
  | .done, t => t
  | .otherwise body, t => t.push (.sequence body)
  | .branch cond body rest, t =>
    let (b, w) := t.world.holds s.pace.time cond
    let t := { t with world := w }
    if b then t.push (.sequence body) else choose s rest t

/-- Enters a call of a function with the arguments that there are; missing ones are zero. -/
def enter (s : Setting) (f : Function) (args : List Expr) (t : Thread) : Thread :=
  let (vs, w) := t.world.evalAll s.pace.time args
  let bindings := f.params.zipIdx.map fun (name, i) => (name, vs.getD i .zero)
  { t with
    frames := .sequence f.body :: .call :: t.frames
    world := { w with scopes := w.scopes.enter bindings } }

/-- Starts a statement. Calls of unknown functions do nothing. -/
def execute (s : Setting) : Stmt → Thread → Outcome
  | .act _ action, t =>
    let (w, flow) := action.perform s.pace t.world
    let t := { t with world := w }
    match flow with
    | .next => .next t
    | .pause span => .pause span t
    | .overflow => .overflow
  | .call loc name args, t =>
    match s.program.functions.find? name with
    | none => .next t
    | some f =>
      if s.limit ≤ t.depth then .fail (.callDepth name s.limit loc) t
      else .next (t.enter s f args)
  | .choose _ chain, t => .next (t.choose s chain)
  | .forLoop _ none cond step body, t => .next (t.push (.forTest cond step body))
  | .forLoop _ (some init) cond step body, t => execute s init (t.push (.forTest cond step body))
  | .whileLoop _ cond body, t => .next (t.push (.whileTest cond body 0))

/-- Pauses for a round of a `for` unless its step clause pauses by itself. -/
def yieldBody : Outcome → Outcome
  | .next t => .pause Time.bodyYield t
  | o => o

/-- Takes the innermost frame one step on. -/
def step (s : Setting) (t : Thread) : Outcome :=
  match t.frames with
  | [] =>
    let t := { t with frames := [.sequence s.program.loop] }
    match t.phase with
    | .setup => .next { t with phase := .loop }
    | .loop => .pause Time.loopYield t
  | .sequence [] :: fs => .next { t with frames := fs }
  | .sequence (st :: rest) :: fs =>
    execute s st { t with frames := .sequence rest :: fs, location := st.location }
  | .forTest cond step body :: fs =>
    let (b, w) := t.world.holds s.pace.time cond
    let fs := if b then .sequence body :: .forStep cond step body :: fs else fs
    .next { t with frames := fs, world := w }
  | .forStep cond step body :: fs =>
    let t := { t with frames := .forTest cond step body :: fs }
    match step with
    | none => .pause Time.bodyYield t
    | some st => yieldBody (execute s st t)
  | .whileTest cond body rounds :: fs =>
    let (b, w) := t.world.holds s.pace.time cond
    if b then
      let t : Thread :=
        { t with frames := .sequence body :: .whileTest cond body (rounds + 1) :: fs, world := w }
      if (rounds + 1) % roundsPerPause = 0 then .pause Time.bodyYield t else .next t
    else .next { t with frames := fs, world := w }
  | .call :: fs =>
    .next { t with frames := fs, world := { t.world with scopes := t.world.scopes.exit } }

end Thread

end Breadboard
