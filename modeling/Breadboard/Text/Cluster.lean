import Breadboard.Text.Bond

set_option autoImplicit false

/-!
Which characters are shown together. A text is cut into clusters from its start, and what has been
seen of it decides whether the next character goes with the one before.
-/
namespace Breadboard.Text

/-- A chain of characters that a link can carry on: pictures and joiners, or consonants and the signs
that stack them. -/
inductive Chain where
  | idle
  | begun
  | linked
  deriving DecidableEq, Repr

/-- Marks may stand between a picture and its joiner. -/
def Chain.pictured (chain : Chain) (c : Char) : Chain :=
  if isPicture c then .begun
  else match chain, Bond.of c with
    | .begun, .extending => .begun
    | .begun, .joiner => .linked
    | _, _ => .idle

/-- Marks and joiners may stand between the consonants of a stack. -/
def Chain.stacked (chain : Chain) (c : Char) : Chain :=
  if isConsonant c then .begun
  else if chain = .idle then .idle
  else if isStacking c then .linked
  else if (Bond.of c = .extending ∨ Bond.of c = .joiner) ∧ c ≠ splittingMark then chain
  else .idle

/-- What a text ends with, as far as the next character can show it. -/
structure Tail where
  last : Bond
  isReturn : Bool
  /-- Regional letters go in pairs; one is waiting for its partner. -/
  oddRegional : Bool
  pictures : Chain
  stack : Chain
  deriving DecidableEq, Repr

namespace Tail

def empty : Tail := ⟨.control, false, false, .idle, .idle⟩

def push (t : Tail) (c : Char) : Tail :=
  { last := Bond.of c
    isReturn := c == '\r'
    oddRegional := isRegional c && !t.oddRegional
    pictures := t.pictures.pictured c
    stack := t.stack.stacked c }

/-- Whether `second` goes on the syllable that `first` has begun. -/
def inSyllable (first second : Bond) : Bool :=
  match first, second with
  | .initial, .initial | .initial, .vowel | .initial, .openSyllable | .initial, .closedSyllable => true
  | .openSyllable, .vowel | .openSyllable, .final | .vowel, .vowel | .vowel, .final => true
  | .closedSyllable, .final | .final, .final => true
  | _, _ => false

/-- Whether the next character is shown together with the last one. -/
def joins (t : Tail) (c : Char) : Bool :=
  if t.isReturn then c == '\n'
  else if t.last = .control then false
  else match Bond.of c with
    | .control => false
    | .extending | .joiner | .spacing => true
    | bond =>
      t.last == .leaning || inSyllable t.last bond || (t.pictures == .linked && isPicture c) ||
        (t.stack == .linked && isConsonant c) || (t.oddRegional && isRegional c)

end Tail

/-- What is left of a cluster behind `t`, and the clusters after it. -/
def clustersFrom : Tail → List Char → List Char × List (List Char)
  | _, [] => ([], [])
  | t, c :: cs =>
    let (own, later) := clustersFrom (t.push c) cs
    if t.joins c then (c :: own, later) else ([], (c :: own) :: later)

/-- The groups of characters that are shown together. -/
def clusters (cs : List Char) : List (List Char) := (clustersFrom .empty cs).2

theorem append_flatten_clustersFrom (t : Tail) (cs : List Char) :
    (clustersFrom t cs).1 ++ (clustersFrom t cs).2.flatten = cs := by
  induction cs generalizing t with
  | nil => rfl
  | cons c cs ih =>
    have h := ih (t.push c)
    simp only [clustersFrom]
    split <;> simpa using h

theorem joins_empty (c : Char) : Tail.empty.joins c = false := by
  simp [Tail.joins, Tail.empty]

theorem fst_clustersFrom_empty (cs : List Char) : (clustersFrom .empty cs).1 = [] := by
  cases cs with
  | nil => rfl
  | cons c cs => simp [clustersFrom, joins_empty]

/-- Nothing is lost and nothing is added. -/
@[simp] theorem flatten_clusters (cs : List Char) : (clusters cs).flatten = cs := by
  simpa [clusters, fst_clustersFrom_empty] using append_flatten_clustersFrom .empty cs

end Breadboard.Text
