import Breadboard.Table
import Breadboard.Value

set_option autoImplicit false

/-!
Variables. There is one table of globals, and one table of locals for every call under way. Only the
locals of the innermost call are seen.
-/
namespace Breadboard

structure Scopes where
  globals : Table Value
  /-- The locals of the calls under way, the innermost first. -/
  calls : List (Table Value)
  deriving DecidableEq, Repr

namespace Scopes

def ofGlobals (globals : Table Value) : Scopes := ⟨globals, []⟩

def empty : Scopes := ofGlobals .empty

def locals? (s : Scopes) : Option (Table Value) := s.calls.head?

def depth (s : Scopes) : Nat := s.calls.length

def lookup (s : Scopes) (name : String) : Option Value :=
  (s.locals?.bind (·.find? name)).or (s.globals.find? name)

/-- Writes to the innermost locals if they have the name already, else to the globals. -/
def assign (s : Scopes) (name : String) (v : Value) : Scopes :=
  match s.calls with
  | locals :: outer =>
    if (locals.find? name).isSome then { s with calls := locals.insert name v :: outer }
    else { s with globals := s.globals.insert name v }
  | [] => { s with globals := s.globals.insert name v }

/-- Opens a call. Its locals start as those of its caller, with the bindings laid over them. -/
def enter (s : Scopes) (bindings : List (String × Value)) : Scopes :=
  { s with calls := (s.locals?.getD .empty).insertAll bindings :: s.calls }

def exit (s : Scopes) : Scopes := { s with calls := s.calls.tail }

def exitAll (s : Scopes) : Scopes := { s with calls := [] }

@[simp] theorem depth_assign (s : Scopes) (name : String) (v : Value) :
    (s.assign name v).depth = s.depth := by
  unfold assign depth
  split
  · rename_i h
    split <;> simp [h]
  · rfl

@[simp] theorem depth_enter (s : Scopes) (bindings : List (String × Value)) :
    (s.enter bindings).depth = s.depth + 1 := rfl

@[simp] theorem depth_exit (s : Scopes) : s.exit.depth = s.depth - 1 := by
  simp [depth, exit]

@[simp] theorem depth_exitAll (s : Scopes) : s.exitAll.depth = 0 := rfl

@[simp] theorem exit_enter (s : Scopes) (bindings : List (String × Value)) :
    (s.enter bindings).exit = s := rfl

end Scopes

end Breadboard
