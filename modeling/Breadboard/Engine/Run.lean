import Breadboard.Engine.Rank

set_option autoImplicit false

/-!
Runs: steps up to the next pause.
-/
namespace Breadboard

/-- How a run ends: with a pause, with a failure, or with a pause that is too long to be held. -/
inductive RunEnd where
  | pause (span : Nat) (t : Thread)
  | fail (fault : Fault) (t : Thread)
  | overflow

namespace Thread

/-- Goes on up to the next pause. -/
def run (s : Setting) (t : Thread) : RunEnd :=
  match h : t.step s with
  | .next t' =>
    have := rank_step_lt h
    run s t'
  | .pause span t' => .pause span t'
  | .fail fault t' => .fail fault t'
  | .overflow => .overflow
termination_by t.rank s

theorem run_of_next {s : Setting} {t t' : Thread} (h : t.step s = .next t') : t.run s = t'.run s := by
  rw [run]
  split <;> simp_all

theorem run_of_pause {s : Setting} {t t' : Thread} {span : Nat} (h : t.step s = .pause span t') :
    t.run s = .pause span t' := by
  rw [run]
  split <;> simp_all

theorem run_of_fail {s : Setting} {t t' : Thread} {fault : Fault} (h : t.step s = .fail fault t') :
    t.run s = .fail fault t' := by
  rw [run]
  split <;> simp_all

theorem run_of_overflow {s : Setting} {t : Thread} (h : t.step s = .overflow) :
    t.run s = .overflow := by
  rw [run]
  split <;> simp_all

end Thread

end Breadboard
