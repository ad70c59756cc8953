set_option autoImplicit false

/-!
Colours and styles, and the palette that all parts of the screen share.
-/
namespace Breadboard.Screen

inductive Color where
  | rgb (red green blue : UInt8)
  | black
  | white
  deriving DecidableEq, Repr

/-- How a character is shown. A colour that is not set is the one of what lies below. -/
structure Style where
  foreground : Option Color
  background : Option Color
  bold : Bool
  dim : Bool
  deriving DecidableEq, Repr

namespace Style

def plain : Style := ⟨none, none, false, false⟩

def ink (c : Color) : Style := { plain with foreground := some c }

def paper (c : Color) : Style := { plain with background := some c }

/-- The upper style on the lower one: colours that it sets replace, and emphases add up. -/
def onto (upper lower : Style) : Style :=
  { foreground := upper.foreground <|> lower.foreground
    background := upper.background <|> lower.background
    bold := upper.bold || lower.bold
    dim := upper.dim || lower.dim }

@[simp] theorem onto_plain (s : Style) : s.onto plain = s := by
  obtain ⟨f, b, _, _⟩ := s
  cases f <;> cases b <;> simp [onto, plain]

@[simp] theorem plain_onto (s : Style) : plain.onto s = s := by
  simp [onto, plain]

theorem onto_assoc (a b c : Style) : (a.onto b).onto c = a.onto (b.onto c) := by
  obtain ⟨fa, ba, _, _⟩ := a
  obtain ⟨fb, bb, _, _⟩ := b
  cases fa <;> cases ba <;> cases fb <;> cases bb <;> simp [onto, Bool.or_assoc]

end Style

namespace Palette

def text : Color := .rgb 205 214 244

/-- Messages of the system on the serial monitor. -/
def system : Color := .rgb 137 180 250

/-- Pulses, and runs that were stopped. -/
def accent : Color := .rgb 250 179 135

/-- Comments, time stamps and pins at rest. -/
def faint : Color := .rgb 108 112 134

/-- High levels, and sketches that run. -/
def success : Color := .rgb 166 227 161

def failure : Color := .rgb 243 139 168

def keyword : Color := .rgb 203 166 247

def literal : Color := .rgb 166 227 161

/-- Numbers, and readings of the converter. -/
def number : Color := .rgb 250 179 135

def focusedEdge : Color := .rgb 249 226 175

def edge : Color := .rgb 88 91 112

/-- What lies below the current line. -/
def current : Color := .rgb 49 50 68

/-- Calls, and names of pins. -/
def call : Color := .rgb 137 220 235

/-- Types, modes of pins and formatted output. -/
def kind : Color := .rgb 148 226 213

/-- Supply rails. -/
def power : Color := .rgb 245 194 231

end Palette

end Breadboard.Screen
