import Breadboard.Command.Options
import Breadboard.Session.Key
import Breadboard.Sketch.Outline

set_option autoImplicit false

/-!
The command line: it loads a sketch and perhaps a circuit, begins a session with them, and tells what
came out of it.
-/
namespace Breadboard.Command

/-- Why nothing is run. -/
inductive Failure where
  | usage (e : UsageError)
  | sketch (path : String) (fault : File.Fault)
  deriving DecidableEq, Repr

def Failure.message : Failure → String
  | usage e => e.message
  | sketch path fault => s!"Cannot read '{path}': {fault.message}"

def usageLines (program : String) : List String :=
  ["", s!"Usage: {program} <sketch.ino> [--speed <x>] [--circuit <file.json>]", "", "Examples:",
    s!"  {program} blink.ino                      # Run a sketch",
    s!"  {program} blink.ino --speed 4            # Run four times faster",
    s!"  {program} blink.ino --circuit diagram.json  # Wire parts to the board"]

/-- What is told about a failure. -/
def Failure.notes (f : Failure) (program : String) : List String :=
  s!"Error: {f.message}" :: usageLines program

/-- Puts the circuit of a file on the board. Without a circuit the run goes on. -/
def loadCircuit (engine : Engine) (path : String) :
    Except File.Fault String → List String × Option LoadedCircuit × Engine
  | .error fault => ([s!"Warning: Cannot read circuit '{path}': {fault.message}"], none, engine)
  | .ok json =>
    match engine.importCircuit json with
    | (none, engine) =>
      ([s!"Warning: Circuit '{path}' is not valid JSON, continuing without it"], none, engine)
    | (some circuit, engine) =>
      let (attached, engine) := engine.attachCircuit circuit
      let note := s!"Loaded circuit {path} with {circuit.parts.length} parts, {attached} wired to the board."
      ([note], some ⟨circuit, path⟩, engine)

/-- A session that is about to begin, with what is told before. -/
structure Launch where
  notes : List String
  session : Session

/-- Begins a session with the text of a sketch and what the circuit's file gave, if one was named. -/
def launch (o : Options) (config : Config) (source : String)
    (circuit : Option (String × Except File.Fault String)) : Except Refusal Launch := do
  let outline := Outline.ofSource source
  let loading := s!"Loading {o.sketch}..."
  let parsed :=
    s!"Parsed successfully. Found {outline.functions.length} functions and {outline.globals.size} globals."
  let engine := Engine.ofConfig { config with speed := o.speed }
  let (notes, loaded, engine) := match circuit with
    | some (path, file) => loadCircuit engine path file
    | none => ([], none, engine)
  let parts := if engine.registry.isEmpty then []
    else [s!"Registered {engine.registry.size} peripherals."]
  let engine ← engine.start source
  .ok ⟨loading :: parsed :: notes ++ parts, .ofEngine engine source loaded⟩

/-- What is printed when a session has ended. -/
def output (s : Session) : List String := s.engine.monitor.output

/-- What is told when a session has ended. -/
def farewell (s : Session) : String :=
  s!"Final status: {s.engine.status.name} after {s.engine.monitor.size} serial events."

/-- What a run of the command line leaves behind. -/
structure Outcome where
  code : Nat
  printed : List String
  told : List String
  deriving DecidableEq, Repr

/-- Runs the command line in a directory where `read` gives the files and `save` writes them, with
keys that are typed at once. `none` if the engine's clock cannot hold a pause. -/
def run (program : String) (args : List String) (read : String → Except File.Fault String)
    (save : Export → Option File.Fault) (keys : List Key) : Option Outcome :=
  let failed (f : Failure) : Outcome := ⟨1, [], f.notes program⟩
  match Options.parse args with
  | .error e => some (failed (.usage e))
  | .ok o =>
    match read o.sketch with
    | .error fault => some (failed (.sketch o.sketch fault))
    | .ok source =>
      match launch o .standard source (o.circuit.map fun path => (path, read path)) with
      | .error refusal => some ⟨1, [], [s!"Error: {refusal.message}"]⟩
      | .ok l => do
        let (_, s) ← l.session.play save 80 24 (keys.map fun key => (0, key))
        some ⟨0, output s, l.notes ++ [farewell s]⟩

end Breadboard.Command
