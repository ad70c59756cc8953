import Breadboard.Proofs.Host
import Breadboard.Total

set_option autoImplicit false

/-!
Driving an engine: time goes by, the speed changes, and the engine is asked to go on. The frames of a
sketch are run only by a step that is due, and a poll is nothing but steps at one instant.
-/
namespace Breadboard

namespace World

variable {w : World}

theorem flush_of_empty (empty : w.monitor.pending = "") (stamp : Float) : w.flush stamp = w := by
  simp [flush, Serial.Monitor.flush_of_empty empty, setMonitor, tell]

theorem flush_of_pending (held : w.monitor.pending ≠ "") (stamp : Float) :
    w.flush stamp = w.emit "" .print stamp := by
  simp [flush, Serial.Monitor.flush_of_pending held, emit]

/-- The world after a failure: held text is flushed, all calls are left, and the failure is reported. -/
def afterFailure (w : World) (report : String) (stamp : Float) : World :=
  let w := w.flush stamp
  ({ w with scopes := w.scopes.exitAll }.emit report .error stamp).tell [.status .error]

end World

inductive Drive where
  | advance (span : Nat)
  | setSpeed (speed : Float)
  | step
  | poll

def Drive.operation : Drive → HostOperation
  | .advance span => .advance span
  | .setSpeed speed => .setSpeed speed
  | .step => .step
  | .poll => .poll

-- How much time goes by.
def Drive.span : Drive → Nat
  | .advance span => span
  | _ => 0

namespace Engine

/-- Whether a step runs the frames: the engine is running and its due time has come. -/
def isDue (e : Engine) : Bool := e.status == .running && e.due.all (· ≤ e.now)

-- The engines on which a poll takes up to `steps` more steps.
def trailFrom : Nat → Progress → Engine → List Engine
  | 0, _, _ => []
  | steps + 1, last, e =>
    match last with
    | .pending due =>
      if due ≤ e.now ∧ 0 < e.config.pollSlice then
        e :: match e.step with
          | some (last, e') => trailFrom steps last e'
          | none => []
      else []
    | .halted _ => []

-- The engines on which a poll takes a step.
def trail (e : Engine) : List Engine :=
  e :: match e.step with
    | some (last, e') => trailFrom (maxStepsPerPoll - 1) last e'
    | none => []

end Engine

-- How often an operation runs the frames.
def Drive.runs (e : Engine) : Drive → Nat
  | .step => [e].countP Engine.isDue
  | .poll => e.trail.countP Engine.isDue
  | .advance _ | .setSpeed _ => 0

namespace Engine

/-- Drives an engine, and tells how often the frames were run. -/
def drive (e : Engine) : List Drive → Option (Nat × Engine)
  | [] => some (0, e)
  | d :: ds =>
    match d.operation.apply e with
    | some e' => (e'.drive ds).map fun (runs, last) => (d.runs e + runs, last)
    | none => none

theorem fail_eq (e : Engine) (fault : Fault) :
    e.fail fault =
      { e with
        status := .error
        frozen := some e.elapsed
        due := none
        thread := { e.thread with
          frames := []
          world := e.world.afterFailure (errorMark ++ fault.message) e.reading.stamp } } := rfl

theorem isDue_iff (e : Engine) :
    e.isDue = true ↔ e.status = .running ∧ ∀ due, e.due = some due → due ≤ e.now := by
  simp [isDue, Option.all_eq_true]

-- What a step makes of the end of a run.
def conclude (e : Engine) : RunEnd → Option (Progress × Engine)
  | .pause span thread =>
    (Time.after? e.now span).map fun due => (.pending due, { e with thread, due := some due })
  | .fail fault thread => some (.halted .error, { e with thread }.fail fault)
  | .overflow => none

theorem step_of_isDue {e : Engine} (due : e.isDue = true) :
    e.step = e.conclude (e.thread.run e.setting) := by
  obtain ⟨running, come⟩ := (isDue_iff e).1 due
  have none : e.due.filter (e.now < ·) = none := by
    simpa [Option.filter_eq_none_iff] using come
  simp only [step, running, none, conclude]
  rfl

-- All that a step that is due can lead to: a pause that ends in time, or a failure.
theorem step_cases {e e' : Engine} {last : Progress} (due : e.isDue = true)
    (step : e.step = some (last, e')) :
    (∃ span thread next, e.thread.run e.setting = .pause span thread ∧
      Time.after? e.now span = some next ∧ last = .pending next ∧
      e' = { e with thread, due := some next }) ∨
    (∃ fault thread, e.thread.run e.setting = .fail fault thread ∧ last = .halted .error ∧
      e' = { e with thread }.fail fault) := by
  rw [step_of_isDue due] at step
  cases run : e.thread.run e.setting with
  | pause span thread =>
    rw [run] at step
    obtain ⟨next, inTime, made⟩ := Option.map_eq_some_iff.1 step
    cases made
    exact .inl ⟨span, thread, next, rfl, inTime, rfl, rfl⟩
  | fail fault thread =>
    rw [run] at step
    cases step
    exact .inr ⟨fault, thread, rfl, rfl, rfl⟩
  | overflow =>
    rw [run] at step
    cases step

-- A step that is not due changes nothing.
theorem step_of_not_isDue {e : Engine} (early : e.isDue = false) :
    ∃ last, e.step = some (last, e) := by
  unfold step
  split
  · exact ⟨_, rfl⟩
  · rename_i running
    split
    · exact ⟨_, rfl⟩
    · rename_i come
      have due : e.isDue = true := by
        rw [isDue_iff]
        exact ⟨by simpa using running, by simpa [Option.filter_eq_none_iff] using come⟩
      rw [due] at early
      cases early

theorem step_of_halted {e : Engine} (halted : e.status ≠ .running) :
    e.step = some (.halted e.status, e) := by
  simp [step, halted]

theorem poll_of_halted {e : Engine} (halted : e.status ≠ .running) :
    e.poll = some (.halted e.status, e) := by
  simp [poll, step_of_halted halted, pollFrom, maxStepsPerPoll]

theorem apply_of_halted {e : Engine} (halted : e.status ≠ .running) {d : Drive}
    (same : ∀ speed, d ≠ .setSpeed speed) :
    d.operation.apply e = some (e.advance d.span) ∧ d.runs e = 0 := by
  have early : e.isDue = false := by simp [isDue, halted]
  cases d with
  | advance span => exact ⟨rfl, rfl⟩
  | setSpeed speed => exact absurd rfl (same speed)
  | step =>
    refine ⟨?_, by simp [Drive.runs, early]⟩
    simp [Drive.operation, HostOperation.apply, step_of_halted halted, Drive.span, advance]
  | poll =>
    have trail : e.trail = [e] := by
      simp [trail, step_of_halted halted, trailFrom, maxStepsPerPoll]
    refine ⟨?_, by simp [Drive.runs, trail, early]⟩
    simp [Drive.operation, HostOperation.apply, poll_of_halted halted, Drive.span, advance]

-- Once a run has ended, only the clock goes on.
theorem drive_of_halted {e : Engine} (halted : e.status ≠ .running) {ds : List Drive}
    (same : ∀ d ∈ ds, ∀ speed, d ≠ .setSpeed speed) :
    e.drive ds = some (0, e.advance (total (ds.map Drive.span))) := by
  induction ds generalizing e with
  | nil => rfl
  | cons d ds ih =>
    obtain ⟨first, others⟩ := List.forall_mem_cons.1 same
    obtain ⟨applied, idle⟩ := apply_of_halted halted first
    have later := ih (e := e.advance d.span) halted others
    simp only [drive, applied, idle, later, Option.map_some, List.map_cons, total_cons]
    simp [advance, Nat.add_assoc]

end Engine

end Breadboard
