import Breadboard.Decimal.Binary

set_option autoImplicit false

/-!
Times and spans of time in whole nanoseconds.
-/
namespace Breadboard.Time

def nanosPerSecond : Nat := 1000000000

/-- The pause between two passes of the main loop. -/
def loopYield : Nat := 1000000

/-- The pause after a round of an inner loop: it only gives control back. -/
def bodyYield : Nat := 0

/-- A span in seconds. -/
def toSeconds (ns : Nat) : Float :=
  Decimal.nearest (ns / nanosPerSecond) 1 + Decimal.nearest (ns % nanosPerSecond) 1 / 1e9

/-- The span nearest to a number of seconds that is finite and not negative; a half goes to the even
neighbour. Spans of 2^64 seconds and more cannot be held. -/
def ofSeconds? (x : Float) : Option Nat :=
  let (num, den) := (Decimal.Binary.ofFloat x).scaled 9
  if den * (Decimal.twoTo 64 * nanosPerSecond) ≤ num then none else some (Decimal.roundDiv num den)

/-- The pause that a delay of `ms` milliseconds takes at a speed. A delay that is not positive takes
none; `none` if the pause cannot be held. -/
def pause? (ms speed : Float) : Option Nat :=
  let scaled := ms / speed
  if scaled.isFinite && scaled > 0.0 then ofSeconds? (scaled / 1000.0) else some 0

/-- The latest time that a clock can show. -/
def latest : Nat := Decimal.twoTo 63 * nanosPerSecond - 1

/-- The time `span` after `now`, unless it is beyond what a clock can show. -/
def after? (now span : Nat) : Option Nat := if now + span ≤ latest then some (now + span) else none

/-- What a sketch can tell of the time: simulated milliseconds and microseconds since its start, and
seconds for the time stamps of the serial monitor. -/
structure Reading where
  millis : Float
  micros : Float
  stamp : Float
  deriving DecidableEq, Repr

/-- What a sketch reads after a span at a speed. -/
def Reading.of (elapsed : Nat) (speed : Float) : Reading :=
  let seconds := toSeconds elapsed
  { millis := (seconds * 1000.0 * speed).floor
    micros := (seconds * 1000.0 * speed * 1000.0).floor
    stamp := seconds * speed }

end Breadboard.Time
