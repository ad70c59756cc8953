import Breadboard.Command.Basic

set_option autoImplicit false

/-!
The program: it shows the screen on standard output and takes its keys from standard input, a line at
a time.
-/
namespace Breadboard.Terminal

/-- The size of the screen. -/
def columns : Nat := 80

def rows : Nat := 24

def readFile (path : String) : IO (Except File.Fault String) := do
  try
    let bytes ← IO.FS.readBinFile path
    match String.fromUTF8? bytes with
    | some text => return .ok text
    | none => return .error .notText
  catch
    | .noFileOrDirectory .. => return .error .missing
    | e => return .error (.other (toString e))

def writeFile (file : Export) : IO (Option File.Fault) := do
  try
    IO.FS.writeFile file.path file.text
    return none
  catch
    | .noFileOrDirectory .. => return some .missing
    | e => return some (.other (toString e))

/-- The keys that a character of a line stands for. -/
def key : Char → Key
  | '\t' => .tab
  | '^' => .up
  | 'v' => .down
  | '$' => .last
  | c => .char c

def press (s : Session) (k : Key) : IO Session := do
  match s.wanted? k with
  | some file => return s.report file (← writeFile file)
  | none => return s.press (fun _ => none) k

def pressAll (s : Session) (line : String) : IO Session :=
  line.toList.foldlM (fun s c => if s.quit || c == '\n' then pure s else press s (key c)) s

/-- Shows the screen and waits for a line of keys, again and again, until the session is quit or
the input ends. -/
partial def loop (input : IO.FS.Stream) (s : Session) (shownAt : Nat) : IO (Option Session) := do
  let now ← IO.monoNanosNow
  let s := { s with engine := s.engine.advance (now - shownAt) }
  match s.frame columns rows with
  | none => return none
  | some (picture, s) =>
    IO.println ("\n".intercalate (picture.map fun row => String.ofList row.printed))
    if s.quit then return some s.close
    let line ← input.getLine
    let s ← if line.isEmpty then pure { s with quit := true } else pressAll s line
    loop input s now

def tell (lines : List String) : IO Unit := lines.forM fun line => IO.eprintln line

end Breadboard.Terminal

open Breadboard in
def main (args : List String) : IO UInt32 := do
  let program := "breadboard"
  match Command.Options.parse args with
  | .error e =>
    Terminal.tell ((Command.Failure.usage e).notes program)
    return 1
  | .ok o =>
    match ← Terminal.readFile o.sketch with
    | .error fault =>
      Terminal.tell ((Command.Failure.sketch o.sketch fault).notes program)
      return 1
    | .ok source =>
      let circuit ← o.circuit.mapM fun path => return (path, ← Terminal.readFile path)
      let seed ← IO.rand 0 (Decimal.twoTo 62)
      match Command.launch o { Config.standard with seed := seed.toUInt64 } source circuit with
      | .error refusal =>
        Terminal.tell [s!"Error: {refusal.message}"]
        return 1
      | .ok l =>
        Terminal.tell l.notes
        match ← Terminal.loop (← IO.getStdin) l.session (← IO.monoNanosNow) with
        | none =>
          Terminal.tell ["Error: The pause is too long"]
          return 1
        | some s =>
          (Command.output s).forM fun line => IO.println line
          Terminal.tell [Command.farewell s]
          return 0
