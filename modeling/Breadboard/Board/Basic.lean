import Breadboard.Board.Pin
import Breadboard.Subscribers

set_option autoImplicit false

/-!
The table of all pins. Writes to a rail or to a pin that the board does not have change nothing, and
reads from a missing pin give zero. Observers are told when the mode, the level or the duty of a pin
changes.
-/
namespace Breadboard

/-- News of a pin: the pin and its state after the change. -/
structure Notice where
  pin : Pin
  state : PinState
  deriving DecidableEq, Repr

structure Board where
  pins : List (Pin × PinState)
  subscribers : Subscribers
  deriving DecidableEq, Repr

namespace Board

/-- The numbers of the general purpose pins. -/
def gpioNumbers : List Nat :=
  [0, 1, 2, 3, 4, 5, 12, 13, 14, 15, 16, 17, 18, 19, 21, 22, 23, 25, 26, 27, 32, 33, 34, 35, 36, 37,
    38, 39]

/-- The pins in the order of the board: rails first. -/
def layout : List Pin := Rail.all.map .rail ++ gpioNumbers.map .gpio

def freshPins : List (Pin × PinState) := layout.map fun p => (p, .ofPin p)

def fresh : Board := ⟨freshPins, .none⟩

def state? (b : Board) (p : Pin) : Option PinState := b.pins.lookup p

def readDigital (b : Board) (p : Pin) : Nat := ((b.state? p).map PinState.digital).getD 0

def readAnalog (b : Board) (p : Pin) : Nat := ((b.state? p).map PinState.analog).getD 0

/-- Applies `f` to the state of a pin. -/
def update (b : Board) (p : Pin) (f : PinState → PinState) : Board :=
  { b with pins := b.pins.map fun e => if e.1 = p then (e.1, f e.2) else e }

/-- Applies an electrical change to a pin that is no rail. There is news if the states before and after
it differ in what is compared. -/
def write (b : Board) (p : Pin) (f : PinState → PinState) (differs : PinState → PinState → Bool) :
    Board × List Notice :=
  if p.isRail then (b, [])
  else match b.state? p with
    | none => (b, [])
    | some s => (b.update p f, if differs s (f s) then [⟨p, f s⟩] else [])

def setMode (b : Board) (p : Pin) (m : Mode) : Board × List Notice :=
  b.write p (.setMode m) fun s s' => s.mode != s'.mode || s.high != s'.high

def writeDigital (b : Board) (p : Pin) (x : Float) : Board × List Notice :=
  b.write p (.writeDigital x) fun s s' => s.high != s'.high

def writeAnalog (b : Board) (p : Pin) (x : Float) : Board × List Notice :=
  b.write p (.writeAnalog x) fun s s' => s.duty != s'.duty || s.high != s'.high

-- Observers are not told of readings.
def setAnalog (b : Board) (p : Pin) (x : Float) : Board × List Notice :=
  b.write p (.setAnalog x) fun _ _ => false

def connect (b : Board) (p : Pin) (c : Connection) : Board :=
  b.update p fun s => { s with connection := some c }

def disconnect (b : Board) (p : Pin) : Board := b.update p fun s => { s with connection := none }

/-- Connects pins one after the other. -/
def connectAll (b : Board) (pins : List Pin) (c : Connection) : Board :=
  pins.foldl (fun b p => b.connect p c) b

/-- Makes all pins anew. There is news of every pin. -/
def reset (b : Board) : Board × List Notice :=
  ({ b with pins := freshPins }, freshPins.map fun e => ⟨e.1, e.2⟩)

/-- The pins whose state is not that of a fresh board. -/
def changed (b : Board) : List (Pin × PinState) :=
  b.pins.filter fun e => e.2 ≠ .ofPin e.1

def subscribe (b : Board) : Nat × Board :=
  let (id, subscribers) := b.subscribers.add
  (id, { b with subscribers })

def unsubscribe (b : Board) (id : Nat) : Bool × Board :=
  let (found, subscribers) := b.subscribers.remove id
  (found, { b with subscribers })

def describe (b : Board) : String :=
  s!"PinBoard \x7b pins: {b.pins.length}, subscribers: {b.subscribers.count} \x7d"

@[simp] theorem map_fst_update (b : Board) (p : Pin) (f : PinState → PinState) :
    (b.update p f).pins.map Prod.fst = b.pins.map Prod.fst := by
  simp only [update, List.map_map]
  congr 1
  funext e
  simp only [Function.comp]
  split <;> rfl

theorem state?_update_self (b : Board) (p : Pin) (f : PinState → PinState) :
    (b.update p f).state? p = (b.state? p).map f := by
  obtain ⟨es, subs⟩ := b
  simp only [state?, update]
  induction es with
  | nil => rfl
  | cons e es ih =>
    obtain ⟨q, s⟩ := e
    by_cases h : q = p
    · simp [h]
    · have hb : (p == q) = false := by simp [Ne.symm h]
      simp [h, List.lookup_cons, hb, ih]

theorem state?_update_of_ne (b : Board) {p q : Pin} (f : PinState → PinState) (h : q ≠ p) :
    (b.update p f).state? q = b.state? q := by
  obtain ⟨es, subs⟩ := b
  simp only [state?, update]
  induction es with
  | nil => rfl
  | cons e es ih =>
    obtain ⟨r, s⟩ := e
    by_cases hr : r = p
    · have hb : (q == r) = false := by simp [hr, h]
      have hb' : (q == p) = false := by simp [h]
      simp [hr, List.lookup_cons, hb', ih]
    · simp [hr, List.lookup_cons, ih]

end Board

end Breadboard
