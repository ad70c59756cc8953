set_option autoImplicit false

/-!
The random numbers of a sketch: the ChaCha stream cipher with twelve rounds, keyed from a seed of 64
bits by a permuted congruential generator.
-/
namespace Breadboard.Random

def rotateLeft (x : UInt32) (n : UInt32) : UInt32 := (x <<< n) ||| (x >>> (32 - n))

def rotateRight (x : UInt32) (n : UInt32) : UInt32 :=
  if n = 0 then x else (x >>> n) ||| (x <<< (32 - n))

/-- One step of the generator that stretches a seed: the new state and a word. -/
def stretch (state : UInt64) : UInt64 × UInt32 :=
  let state := state * 6364136223846793005 + 11634580027462260723
  let word := (((state >>> 18) ^^^ state) >>> 27).toUInt32
  (state, rotateRight word (state >>> 59).toUInt32)

/-- `n` words from a seed. -/
def stretchWords : Nat → UInt64 → List UInt32
  | 0, _ => []
  | n + 1, state =>
    let (state, word) := stretch state
    word :: stretchWords n state

/-- Four words of the cipher's state. -/
structure Row where
  a : UInt32
  b : UInt32
  c : UInt32
  d : UInt32
  deriving DecidableEq, Repr

namespace Row

def map₂ (f : UInt32 → UInt32 → UInt32) (x y : Row) : Row :=
  ⟨f x.a y.a, f x.b y.b, f x.c y.c, f x.d y.d⟩

def add (x y : Row) : Row := x.map₂ (· + ·) y

def xorRotate (n : UInt32) (x y : Row) : Row := x.map₂ (fun u v => rotateLeft (u ^^^ v) n) y

/-- Turns a row by `n` places to the left. -/
def turn (x : Row) : Nat → Row
  | 0 => x
  | n + 1 => (Row.mk x.b x.c x.d x.a).turn n

def toList (x : Row) : List UInt32 := [x.a, x.b, x.c, x.d]

end Row

/-- The cipher's state: four rows of four words. -/
structure Square where
  r0 : Row
  r1 : Row
  r2 : Row
  r3 : Row
  deriving DecidableEq, Repr

namespace Square

/-- The quarter round on all four columns at once. -/
def mixColumns (s : Square) : Square :=
  let r0 := s.r0.add s.r1
  let r3 := s.r3.xorRotate 16 r0
  let r2 := s.r2.add r3
  let r1 := s.r1.xorRotate 12 r2
  let r0 := r0.add r1
  let r3 := r3.xorRotate 8 r0
  let r2 := r2.add r3
  let r1 := r1.xorRotate 7 r2
  ⟨r0, r1, r2, r3⟩

/-- A round on the columns, then one on the diagonals. -/
def doubleRound (s : Square) : Square :=
  let s := s.mixColumns
  let s := mixColumns ⟨s.r0, s.r1.turn 1, s.r2.turn 2, s.r3.turn 3⟩
  ⟨s.r0, s.r1.turn 3, s.r2.turn 2, s.r3.turn 1⟩

def doubleRounds : Nat → Square → Square
  | 0, s => s
  | n + 1, s => doubleRounds n s.doubleRound

def add (s t : Square) : Square := ⟨s.r0.add t.r0, s.r1.add t.r1, s.r2.add t.r2, s.r3.add t.r3⟩

def toList (s : Square) : List UInt32 := s.r0.toList ++ s.r1.toList ++ s.r2.toList ++ s.r3.toList

end Square

/-- The words that open every block: `expand 32-byte k`. -/
def constantRow : Row := ⟨0x61707865, 0x3320646e, 0x79622d32, 0x6b206574⟩

/-- A generator: the two rows of its key, the number of the next block, and the words of the current
block that are not used up. -/
structure Generator where
  key0 : Row
  key1 : Row
  block : UInt64
  ready : List UInt32
  deriving DecidableEq, Repr

namespace Generator

def ofSeed (seed : UInt64) : Generator :=
  match stretchWords 8 seed with
  | [a, b, c, d, e, f, g, h] => ⟨⟨a, b, c, d⟩, ⟨e, f, g, h⟩, 0, []⟩
  | _ => ⟨⟨0, 0, 0, 0⟩, ⟨0, 0, 0, 0⟩, 0, []⟩

/-- The words of block `n`. -/
def blockWords (g : Generator) (n : UInt64) : List UInt32 :=
  let start : Square := ⟨constantRow, g.key0, g.key1, ⟨n.toUInt32, (n >>> 32).toUInt32, 0, 0⟩⟩
  ((Square.doubleRounds 6 start).add start).toList

/-- The next 64 bits, of two words the low one first. -/
def next (g : Generator) : UInt64 × Generator :=
  match g.ready with
  | low :: high :: rest => (low.toUInt64 ||| (high.toUInt64 <<< 32), { g with ready := rest })
  | _ =>
    match g.blockWords g.block with
    | low :: high :: rest =>
      (low.toUInt64 ||| (high.toUInt64 <<< 32), { g with block := g.block + 1, ready := rest })
    | _ => (0, g)

/-- A number from zero up to but not including one, in steps of 2^-53. -/
def unit (g : Generator) : Float × Generator :=
  let (bits, g) := g.next
  ((bits >>> 11).toFloat * Float.ofBits 0x3ca0000000000000, g)

end Generator

end Breadboard.Random
