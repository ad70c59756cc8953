import Breadboard.Decimal.Layout
import Breadboard.Engine.World
import Breadboard.Screen.Picture

set_option autoImplicit false

/-!
The status bar: how the run stands at the left, the keys at the right.
-/
namespace Breadboard.Screen

structure Bar where
  message : String
  status : Status
  speed : Float
  millis : Float

namespace Bar

def statusColor : Status → Color
  | .idle => Palette.faint
  | .running => Palette.success
  | .stopped => Palette.accent
  | .error => Palette.failure

/-- A whole number with at least `places` digits. -/
def digits (places n : Nat) : List Char :=
  let ds := Nat.toDigits 10 n
  List.replicate (places - ds.length) '0' ++ ds

/-- Simulated time in minutes, seconds and milliseconds. -/
def clock (millis : Float) : List Char :=
  let total := millis.toUInt64.toNat
  digits 1 (total / 60000) ++ ':' :: digits 2 (total / 1000 % 60) ++ '.' :: digits 3 (total % 1000)

def ground : Style := .paper Palette.current

def spaced (cs : List Char) : List Char := ' ' :: cs ++ [' ']

def onGround (c : Color) : Style := (Style.ink c).onto ground

def state (b : Bar) : Line :=
  let figures := clock b.millis ++ " │ ×".toList ++ Decimal.Layout.plain.render b.speed
  [⟨spaced (b.status.name.toList.map Char.toUpper), ⟨some .black, some (statusColor b.status), true, false⟩⟩,
    ⟨spaced figures, onGround Palette.faint⟩,
    ⟨spaced b.message.toList, onGround (if b.status = .error then Palette.failure else Palette.text)⟩]

/-- The keys and what they do. -/
def bindings : List (String × String) :=
  [("s", "run/stop"), ("r", "reset"), ("+/-", "speed"), ("⎵", "toggle pin"), ("[/]", "adc"),
    ("e", "export"), ("q", "quit")]

def binding (key meaning : String) : Line :=
  [⟨spaced key.toList, ⟨some .black, some Palette.faint, false, false⟩⟩,
    ⟨spaced meaning.toList, onGround Palette.text⟩]

def keys : Line :=
  (bindings.map fun (key, meaning) => binding key meaning).intersperse
    [⟨['│'], onGround Palette.faint⟩] |>.flatten

def draw (b : Bar) (width height : Nat) : Picture :=
  let left := share 50 width
  Picture.beside (.flowing .left left height ground [b.state])
    (.flowing .right (width - left) height ground [keys])

end Bar

end Breadboard.Screen
