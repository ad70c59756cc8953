import Breadboard.Text.Blank
import Breadboard.Text.Quoted
import Breadboard.Subscribers

set_option autoImplicit false

/-!
The serial monitor. Printed text is held back until something ends the event that it belongs to; then
held text and new text become one event. Only the latest events are kept.
-/
namespace Breadboard.Serial

inductive Category where
  | print
  | println
  | printf
  | system
  | error
  deriving DecidableEq, Repr

namespace Category

def all : List Category := [print, println, printf, system, error]

def name : Category → String
  | print => "print"
  | println => "println"
  | printf => "printf"
  | system => "system"
  | error => "error"

def ofName? (s : String) : Option Category := all.find? (·.name == s)

/-- Whether an event ends the current line of the monitor. -/
def endsLine : Category → Bool
  | print | printf => false
  | _ => true

end Category

structure Event where
  text : String
  category : Category
  /-- Simulated seconds since the run started. -/
  elapsed : Float
  deriving DecidableEq, Repr

structure Monitor where
  /-- Text that belongs to no event yet. -/
  pending : String
  /-- The events that are kept, the latest first. -/
  recent : List Event
  capacity : Nat
  subscribers : Subscribers
  deriving DecidableEq, Repr

namespace Monitor

def defaultCapacity : Nat := 1000

/-- An empty monitor; it keeps at least one event. -/
def ofCapacity (capacity : Nat) : Monitor := ⟨"", [], max capacity 1, .none⟩

/-- The events that are kept, the oldest first. -/
def events (m : Monitor) : List Event := m.recent.reverse

def size (m : Monitor) : Nat := m.recent.length

def isEmpty (m : Monitor) : Bool := m.recent.isEmpty

/-- Adds an event; at the limit the oldest one is dropped. -/
def push (m : Monitor) (e : Event) : Monitor :=
  { m with recent := if m.recent.length < m.capacity then e :: m.recent
                     else e :: m.recent.take (m.capacity - 1) }

def print (m : Monitor) (text : String) : Monitor := { m with pending := m.pending ++ text }

/-- Ends an event: the held text followed by `text`. -/
def emit (m : Monitor) (text : String) (category : Category) (elapsed : Float) :
    Monitor × List Event :=
  let e : Event := ⟨m.pending ++ text, category, elapsed⟩
  ({ m with pending := "" }.push e, [e])

/-- Ends the event of the held text, if there is any. -/
def flush (m : Monitor) (elapsed : Float) : Monitor × List Event :=
  if m.pending.isEmpty then (m, []) else m.emit "" .print elapsed

def clearPending (m : Monitor) : Monitor := { m with pending := "" }

def clear (m : Monitor) : Monitor := { m with pending := "", recent := [] }

def subscribe (m : Monitor) : Nat × Monitor :=
  let (id, subscribers) := m.subscribers.add
  (id, { m with subscribers })

def unsubscribe (m : Monitor) (id : Nat) : Bool × Monitor :=
  let (found, subscribers) := m.subscribers.remove id
  (found, { m with subscribers })

/-- All text that is kept, with the line ends that events make. -/
def transcript (m : Monitor) : List Char :=
  m.events.flatMap (fun e => e.text.toList ++ if e.category.endsLine then ['\n'] else []) ++
    m.pending.toList

/-- The lines of the monitor; a last line without text is left out. -/
def output (m : Monitor) : List String :=
  let lines := Text.splitOn '\n' m.transcript
  let lines := if lines.getLast?.any List.isEmpty then lines.dropLast else lines
  lines.map String.ofList

def describe (m : Monitor) : String :=
  let pending := Text.quoted m.pending
  s!"SerialMonitor \x7b pending: {pending}, events: {m.size}, capacity: {m.capacity} \x7d"

@[simp] theorem pending_push (m : Monitor) (e : Event) : (m.push e).pending = m.pending := rfl

@[simp] theorem pending_emit (m : Monitor) (text : String) (c : Category) (t : Float) :
    (m.emit text c t).1.pending = "" := rfl

theorem flush_of_pending {m : Monitor} (held : m.pending ≠ "") (elapsed : Float) :
    m.flush elapsed = m.emit "" .print elapsed := by
  simp [flush, String.isEmpty_iff, held]

theorem flush_of_empty {m : Monitor} (empty : m.pending = "") (elapsed : Float) :
    m.flush elapsed = (m, []) := by
  simp [flush, empty]

@[simp] theorem pending_flush (m : Monitor) (elapsed : Float) : (m.flush elapsed).1.pending = "" := by
  by_cases held : m.pending = ""
  · simp [flush_of_empty held, held]
  · simp [flush_of_pending held]

end Monitor

end Breadboard.Serial
