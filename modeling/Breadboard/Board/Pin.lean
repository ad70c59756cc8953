import Breadboard.Text.Blank
import Breadboard.Decimal.Reading
import Breadboard.Value

set_option autoImplicit false

/-!
The pins of the module: their names, modes and states.
-/
namespace Breadboard

/-- The supply rails. -/
inductive Rail where
  | v3
  | vin
  | gnd
  deriving DecidableEq, Repr

namespace Rail

def all : List Rail := [v3, vin, gnd]

def name : Rail → String
  | v3 => "3V3"
  | vin => "VIN"
  | gnd => "GND"

def isHigh : Rail → Bool
  | gnd => false
  | _ => true

end Rail

/-- A pin: a supply rail or a general purpose pin by its number. -/
inductive Pin where
  | rail (r : Rail)
  | gpio (n : Nat)
  deriving DecidableEq, Repr

/-- A text that names no pin. -/
structure UnknownPin where
  name : String
  deriving DecidableEq, Repr

def UnknownPin.message (e : UnknownPin) : String := s!"Unrecognized pin name '{e.name}'"

namespace Pin

def isRail : Pin → Bool
  | rail _ => true
  | gpio _ => false

def name : Pin → String
  | rail r => r.name
  | gpio n => s!"GPIO{n}"

/-- A whole number below 256 in decimal, with an optional plus sign. -/
def number? (cs : List Char) : Option Nat :=
  let ds := match cs with
    | '+' :: ds => ds
    | ds => ds
  if ds.isEmpty || !ds.all Char.isDigit then none
  else
    let n := Decimal.ofDigits ds
    if n < 256 then some n else none

/-- The rail that a name in capitals stands for. -/
def rail? (upper : List Char) : Option Rail :=
  if (Text.dropPrefix? "3.3V".toList upper).isSome then some .v3
  else
    let base := String.ofList (upper.takeWhile (· != '.'))
    if base = "3V3" || base = "3V" then some .v3
    else if base = "VIN" || base = "5V" then some .vin
    else if base = "GND" then some .gnd
    else none

/-- Drops one of the words that can stand in front of a pin's number. -/
def bareNumber (upper : List Char) : List Char :=
  ((["GPIO", "IO", "D"].findSome? fun word => Text.dropPrefix? word.toList upper)).getD upper

/-- Reads a pin's name in any mix of cases: `2`, `D2`, `GPIO2`, `IO2`, or a rail such as `3V3`,
`3.3V`, `VIN`, `5V`, `GND` or `GND.1`. -/
def parse (s : String) : Except UnknownPin Pin :=
  let upper := (Text.trim s.toList).map Char.toUpper
  match rail? upper with
  | some r => .ok (.rail r)
  | none =>
    match number? (bareNumber upper) with
    | some n => .ok (.gpio n)
    | none => .error ⟨s⟩

/-- The pin that a value addresses: a number from 0 to 255, or a name. -/
def ofValue? : Value → Option Pin
  | .number n =>
    if n ≥ 0.0 && n ≤ 255.0 && Decimal.isWhole n then some (.gpio n.toUInt8.toNat) else none
  | .text s => (parse s).toOption

end Pin

inductive Mode where
  | input
  | output
  | inputPullup
  | power
  deriving DecidableEq, Repr

namespace Mode

def name : Mode → String
  | input => "INPUT"
  | output => "OUTPUT"
  | inputPullup => "INPUT_PULLUP"
  | power => "POWER"

/-- The mode that a sketch can ask for by a keyword. -/
def ofKeyword? (s : String) : Option Mode := [input, output, inputPullup].find? (·.name == s)

end Mode

/-- What a pin is wired to. It has no electrical effect. -/
structure Connection where
  component : String
  label : String
  deriving DecidableEq, Repr

structure PinState where
  mode : Mode
  /-- The digital level. -/
  high : Bool
  /-- The last reading of the converter. -/
  analog : Nat
  /-- The duty of the pulses. -/
  duty : Nat
  hasAdc : Bool
  hasDac : Bool
  connection : Option Connection
  deriving DecidableEq, Repr

namespace PinState

def digital (s : PinState) : Nat := if s.high then 1 else 0

def maxDuty : Nat := 255

def maxAnalog : Nat := 4095

/-- The pins with an analog input. -/
def adcPins : List Nat := [0, 2, 4, 12, 13, 14, 15, 25, 26, 27, 32, 33, 34, 35, 36, 37, 38, 39]

/-- The pins with an analog output. -/
def dacPins : List Nat := [25, 26]

def ofGpio (n : Nat) : PinState :=
  { mode := .input, high := false, analog := 0, duty := 0
    hasAdc := adcPins.contains n, hasDac := dacPins.contains n, connection := none }

def ofRail (r : Rail) : PinState :=
  { mode := .power, high := r.isHigh, analog := if r.isHigh then maxAnalog else 0, duty := 0
    hasAdc := false, hasDac := false, connection := none }

def ofPin : Pin → PinState
  | .rail r => ofRail r
  | .gpio n => ofGpio n

/-- A pin that becomes a pulled up input reads high unless it is being pulsed. -/
def setMode (m : Mode) (s : PinState) : PinState :=
  { s with mode := m, high := s.high || (m == .inputPullup && s.duty == 0) }

/-- Drives the level; any number but zero is high. -/
def writeDigital (x : Float) (s : PinState) : PinState := { s with high := !(x == 0.0) && !x.isNaN }

/-- Sets the duty, cut to its range; the level is high exactly if the duty is not zero. -/
def writeAnalog (x : Float) (s : PinState) : PinState :=
  let duty := x.toUInt8.toNat
  { s with duty := duty, high := duty != 0 }

/-- Sets the reading of the converter, cut to its range. -/
def setAnalog (x : Float) (s : PinState) : PinState :=
  { s with analog := min maxAnalog x.toUInt16.toNat }

theorem duty_writeAnalog_le (x : Float) (s : PinState) : (s.writeAnalog x).duty ≤ maxDuty :=
  Nat.le_of_lt_succ x.toUInt8.toNat_lt

theorem analog_setAnalog_le (x : Float) (s : PinState) : (s.setAnalog x).analog ≤ maxAnalog :=
  Nat.min_le_left _ _

end PinState

end Breadboard
