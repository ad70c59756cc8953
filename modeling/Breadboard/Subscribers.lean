set_option autoImplicit false

/-!
Those who want to hear of something. Every subscriber has a number of its own, which is never used
again.
-/
namespace Breadboard

structure Subscribers where
  active : List Nat
  next : Nat
  deriving DecidableEq, Repr

namespace Subscribers

def none : Subscribers := ⟨[], 0⟩

def count (s : Subscribers) : Nat := s.active.length

/-- Adds a subscriber behind the others and gives its number. -/
def add (s : Subscribers) : Nat × Subscribers := (s.next, ⟨s.active ++ [s.next], s.next + 1⟩)

/-- Removes a subscriber and tells whether there was one. -/
def remove (s : Subscribers) (id : Nat) : Bool × Subscribers :=
  (s.active.contains id, { s with active := s.active.filter (· != id) })

/-- Who hears what: of every piece of news, in order, every subscriber once. -/
def deliver {α : Type} (s : Subscribers) (news : List α) : List (Nat × α) :=
  news.flatMap fun a => s.active.map fun id => (id, a)

@[simp] theorem deliver_nil {α : Type} (s : Subscribers) : s.deliver ([] : List α) = [] := rfl

@[simp] theorem deliver_append {α : Type} (s : Subscribers) (a b : List α) :
    s.deliver (a ++ b) = s.deliver a ++ s.deliver b := by
  simp [deliver]

end Subscribers

end Breadboard
