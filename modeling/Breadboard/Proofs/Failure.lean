import Breadboard.Proofs.Drive
import Breadboard.Proofs.Lifecycle
import Breadboard.Proofs.Suspension

set_option autoImplicit false

/-!
Failures. Main statement: a step that is due fails exactly if its run comes, before it would pause, to
a call of a known function while as many calls are under way as there may be. The failure is reported
once, after the text that was held; the run leaves no call behind and all else as it was before that
call; and from then on nothing but the clock goes on.
-/
namespace Breadboard

namespace Thread

variable {s : Setting}

theorem Balanced.after {t u : Thread} (balanced : t.Balanced s.limit) {n : Nat}
    (reached : t.after s n = some u) : u.Balanced s.limit := by
  induction n generalizing t with
  | zero =>
    cases reached
    exact balanced
  | succ n ih =>
    unfold Thread.after at reached
    split at reached
    · rename_i step
      exact ih (balanced.step (congrArg Outcome.thread? step)) reached
    · cases reached

-- A statement that fails has not changed anything.
theorem world_of_execute_fail {fault : Fault} : (st : Stmt) → {t u : Thread} →
    t.execute s st = .fail fault u → u.world = t.world
  | .act _ action, t, u, h => by
    simp only [execute] at h
    split at h <;> cases h
  | .call loc name args, t, u, h => by
    simp only [execute] at h
    split at h
    · cases h
    · split at h <;> cases h
      rfl
  | .choose _ _, t, u, h => by cases h
  | .forLoop _ none _ _ _, t, u, h => by cases h
  | .forLoop _ (some init) cond step body, t, u, h =>
    world_of_execute_fail (t := t.push (.forTest cond step body)) init h
  | .whileLoop _ _ _, t, u, h => by cases h

theorem world_of_step_fail {t u : Thread} {fault : Fault} (h : t.step s = .fail fault u) :
    u.world = t.world := by
  obtain ⟨st, v, -, same, step⟩ | ⟨-, v, step | ⟨span, step⟩⟩ := step_starts_or_goes_on s t
  · have started : v.execute s st = .fail fault u := by
      obtain step | step := step <;> simpa [step, yieldBody_fail_iff] using h
    rw [world_of_execute_fail st started, same]
  · simp [step] at h
  · simp [step] at h

-- A call of an unknown function does nothing, however many calls are under way.
theorem execute_of_unknown {loc : Location} {name : String} {args : List Expr}
    (unknown : s.program.functions.find? name = none) : (st : Stmt) → (t : Thread) →
    st.first = .call loc name args → ∃ u, t.execute s st = .next u ∧ u.world = t.world
  | .act _ _, t, first => by cases first
  | .call loc name args, t, first => by
    cases first
    exact ⟨t, by simp [execute, unknown], rfl⟩
  | .choose _ _, t, first => by cases first
  | .forLoop _ none _ _ _, t, first => by cases first
  | .forLoop _ (some init) cond step body, t, first =>
    execute_of_unknown unknown init (t.push (.forTest cond step body)) first
  | .whileLoop _ _ _, t, first => by cases first

theorem step_of_unknown {loc : Location} {name : String} {args : List Expr} {t : Thread}
    (call : t.upcoming = some (.call loc name args))
    (unknown : s.program.functions.find? name = none) :
    ∃ u, u.world = t.world ∧ (t.step s = .next u ∨ t.step s = .pause Time.bodyYield u) := by
  obtain ⟨st, v, up, same, step⟩ | ⟨up, -⟩ := step_starts_or_goes_on s t
  · rw [up] at call
    obtain ⟨u, started, kept⟩ := execute_of_unknown unknown st v (Option.some.inj call)
    refine ⟨u, kept.trans same, ?_⟩
    obtain step | step := step
    · exact .inl (step.trans started)
    · exact .inr (by rw [step, started]; rfl)
  · rw [up] at call
    cases call

end Thread

namespace World

-- The events of a failure: the text that was held, if any, and the report.
def failureEvents (w : World) (report : String) (stamp : Float) : List Serial.Event :=
  (if w.monitor.pending = "" then [] else [⟨w.monitor.pending, .print, stamp⟩]) ++
    [⟨report, .error, stamp⟩]

theorem afterFailure_eq (w : World) (report : String) (stamp : Float) :
    w.afterFailure report stamp =
      { w with
        scopes := w.scopes.exitAll
        monitor := { (w.failureEvents report stamp).foldl Serial.Monitor.push w.monitor with
          pending := "" }
        outbox := .status .error :: ((w.failureEvents report stamp).map .serial).reverse ++ w.outbox } := by
  by_cases held : w.monitor.pending = ""
  · rw [afterFailure, flush_of_empty held]
    simp [failureEvents, held, emit, Serial.Monitor.emit, setMonitor, tell, Serial.Monitor.push]
  · rw [afterFailure, flush_of_pending held]
    simp [failureEvents, held, emit, Serial.Monitor.emit, setMonitor, tell, Serial.Monitor.push]

end World

namespace Engine

/-- The run that goes on now comes in `last` to a call of a known function while as many calls are
under way as there may be. -/
structure MeetsDeepCall (e : Engine) (name : String) (loc : Location) (last : Thread) : Prop where
  reached : ∃ n, e.thread.after e.setting n = some last
  call : ∃ args, last.upcoming = some (.call loc name args)
  known : ∃ f, e.program.functions.find? name = some f
  full : last.depth = e.config.maxCallDepth

-- What is reported of a call of `name` on a line.
def deepCallReport (name : String) (limit line : Nat) : String :=
  "ERROR: " ++ s!"Call to '{name}' exceeds the maximum call depth of {limit} at line {line}"

theorem report_callDepth (name : String) (limit : Nat) (loc : Location) :
    errorMark ++ (Fault.callDepth name limit loc).message = deepCallReport name limit loc.line := by
  simp only [errorMark, Fault.message, deepCallReport]

-- The engine that a failure leaves when the run of `e` has come to `last`.
structure FailedAt (e : Engine) (report : String) (last : Thread) (e' : Engine) : Prop where
  status_eq : e'.status = .error
  frames_eq : e'.thread.frames = []
  calls_eq : e'.world.scopes.calls = []
  globals_eq : e'.world.scopes.globals = last.world.scopes.globals
  board_eq : e'.board = last.world.board
  random_eq : e'.world.random = last.world.random
  pending_eq : e'.monitor.pending = ""
  monitor_eq : e'.monitor =
    { (last.world.failureEvents report e.reading.stamp).foldl Serial.Monitor.push last.world.monitor with
      pending := "" }
  outbox_eq : e'.world.outbox = .status .error ::
    ((last.world.failureEvents report e.reading.stamp).map .serial).reverse ++ last.world.outbox
  elapsed_eq : e'.elapsed = e.elapsed
  due_eq : e'.due = none

variable {config : Config} {e : Engine}

theorem step_fail_eq (due : e.isDue = true) {fault : Fault} {thread : Thread}
    (run : e.thread.run e.setting = .fail fault thread) :
    e.step = some (.halted .error, { e with thread }.fail fault) := by
  rw [step_of_isDue due, run, conclude]

-- A step that is due fails exactly if its run does.
theorem step_error_iff (due : e.isDue = true) :
    (∃ e', e.step = some (.halted .error, e')) ↔
      ∃ fault thread, e.thread.run e.setting = .fail fault thread := by
  constructor
  · rintro ⟨e', step⟩
    obtain ⟨_, _, _, -, -, pending, -⟩ | ⟨fault, thread, run, -, -⟩ := step_cases due step
    · cases pending
    · exact ⟨fault, thread, run⟩
  · rintro ⟨fault, thread, run⟩
    exact ⟨_, step_fail_eq due run⟩

-- No run nests more calls than there may be, so that too deep a call comes exactly at the limit.
theorem meetsDeepCall_iff (alive : e.Lifecycle config) {name : String} {loc : Location} {last : Thread} :
    e.MeetsDeepCall name loc last ↔
      ∃ n, e.thread.after e.setting n = some last ∧ last.AtDeepCall e.setting name loc := by
  have balanced : e.thread.Balanced e.setting.limit := by
    simpa [setting, alive.config_eq] using alive.balanced
  constructor
  · rintro ⟨⟨n, reached⟩, ⟨args, call⟩, ⟨f, known⟩, full⟩
    exact ⟨n, reached, args, f, call, known, Nat.le_of_eq full.symm⟩
  · rintro ⟨n, reached, args, f, call, known, deep⟩
    have full := Nat.le_antisymm (balanced.after reached).depth_le deep
    exact ⟨⟨n, reached⟩, ⟨args, call⟩, ⟨f, known⟩, full⟩

theorem MeetsDeepCall.run (alive : e.Lifecycle config) {name : String} {loc : Location} {last : Thread}
    (meets : e.MeetsDeepCall name loc last) :
    ∃ thread, thread.world = last.world ∧
      e.thread.run e.setting = .fail (.callDepth name e.config.maxCallDepth loc) thread := by
  obtain ⟨n, reached, deep⟩ := (meetsDeepCall_iff alive).1 meets
  obtain ⟨thread, step⟩ := (Thread.step_fail_iff _ _ _).2 ⟨name, loc, rfl, deep⟩
  exact ⟨thread, Thread.world_of_step_fail step, Thread.run_eq_iff.2 ⟨n, last, reached, step⟩⟩

theorem exists_meetsDeepCall_iff (alive : e.Lifecycle config) :
    (∃ name loc last, e.MeetsDeepCall name loc last) ↔
      ∃ fault thread, e.thread.run e.setting = .fail fault thread := by
  constructor
  · rintro ⟨name, loc, last, meets⟩
    obtain ⟨thread, -, run⟩ := meets.run alive
    exact ⟨_, thread, run⟩
  · rintro ⟨fault, thread, run⟩
    obtain ⟨n, last, reached, step⟩ := Thread.run_eq_iff.1 run
    obtain ⟨name, loc, rfl, deep⟩ := (Thread.step_fail_iff _ _ _).1 ⟨thread, step⟩
    exact ⟨name, loc, last, (meetsDeepCall_iff alive).2 ⟨n, reached, deep⟩⟩

theorem failedAt_fail (e : Engine) {last thread : Thread} (same : thread.world = last.world) (fault : Fault) :
    e.FailedAt (errorMark ++ fault.message) last ({ e with thread }.fail fault) := by
  have world : ({ e with thread }.fail fault).world =
      last.world.afterFailure (errorMark ++ fault.message) e.reading.stamp := by
    rw [← same, fail_eq]
    rfl
  rw [World.afterFailure_eq] at world
  constructor
  case status_eq => rfl
  case frames_eq => rfl
  case calls_eq => rw [world]; rfl
  case globals_eq => rw [world]; rfl
  case board_eq => rw [board, world]
  case random_eq => rw [world]
  case pending_eq => rw [monitor, world]
  case monitor_eq => rw [monitor, world]
  case outbox_eq => rw [world]
  case elapsed_eq => rfl
  case due_eq => rfl

/-- Take any engine that a host can come to and that runs and is due. A step of it fails exactly if
the run meets a call of a known function at the limit; then held text becomes one event and the report
one more, no frame and no call is left, variables, pins and random numbers are as they were before
that call, and steps, polls and time change nothing any more. Calls of unknown functions are passed
over at any depth. -/
theorem failure_reported_once (config : Config) (e : Engine) (reached : Engine.Reachable config e)
    (due : e.isDue = true) :
    ((∃ e', e.step = some (.halted .error, e')) ↔ ∃ name loc last, e.MeetsDeepCall name loc last) ∧
    (∀ name loc last, e.MeetsDeepCall name loc last → ∃ e', e.step = some (.halted .error, e') ∧
      e.FailedAt (deepCallReport name config.maxCallDepth loc.line) last e' ∧
      ∀ ds : List Drive, (∀ d ∈ ds, ∀ speed, d ≠ .setSpeed speed) →
        e'.drive ds = some (0, e'.advance (total (ds.map Drive.span))) ∧
        (e'.advance (total (ds.map Drive.span))).reading = e'.reading) ∧
    (∀ (t : Thread) (loc : Location) (name : String) (args : List Expr),
      t.upcoming = some (.call loc name args) → e.program.functions.find? name = none →
      ∃ u, u.world = t.world ∧
        (t.step e.setting = .next u ∨ t.step e.setting = .pause Time.bodyYield u)) := by
  have alive := reached.lifecycle
  refine ⟨(step_error_iff due).trans (exists_meetsDeepCall_iff alive).symm, ?_, ?_⟩
  · intro name loc last meets
    obtain ⟨thread, same, run⟩ := meets.run alive
    rw [alive.config_eq] at run
    have failed := failedAt_fail e same (.callDepth name config.maxCallDepth loc)
    rw [report_callDepth] at failed
    refine ⟨_, step_fail_eq due run, failed, ?_⟩
    intro ds idle
    refine ⟨drive_of_halted (by rw [failed.status_eq]; decide) idle, ?_⟩
    rw [reading, elapsed_advance_of_frozen rfl]
    rfl
  · intro t loc name args call unknown
    exact Thread.step_of_unknown call unknown

-- A function that calls itself at the start of a `for`, after something has been printed.
def plunging : String :=
  "String s = \"deep\";\nvoid f() { n++; for (f(); n < 9; n++) { } }\nvoid setup() { Serial.print(s); f(); }"

theorem failure_reported_once_plunging :
    let config := { Config.standard with maxCallDepth := 3 }
    let e := (ofConfig config).afterRequest ((ofConfig config).start plunging)
    Engine.Reachable config e ∧ e.isDue = true ∧ ∃ name loc last e', e.MeetsDeepCall name loc last ∧
      e.step = some (.halted .error, e') ∧
      e.FailedAt (deepCallReport name 3 loc.line) last e' ∧
      e'.monitor.events.map (fun e => (e.text, e.category)) =
        [("deep", .print),
          ("ERROR: Call to 'f' exceeds the maximum call depth of 3 at line 2", .error)] ∧
      e'.drive [.advance 5, .step, .poll] = some (0, e'.advance 5) := by
  intro config e
  have reached : Engine.Reachable config e := .host (.start plunging) .created rfl
  have due : e.isDue = true := by decide +kernel
  have step : e.step.map (fun (last, e') => (last, e'.monitor.events.map fun e => (e.text, e.category))) =
      some (.halted .error, [("deep", .print),
        ("ERROR: Call to 'f' exceeds the maximum call depth of 3 at line 2", .error)]) := by
    decide +kernel
  obtain ⟨⟨_, e'⟩, step, shown⟩ := Option.map_eq_some_iff.1 step
  obtain ⟨rfl, events⟩ := Prod.mk.inj shown
  obtain ⟨fails, failed, -⟩ := failure_reported_once config e reached due
  obtain ⟨name, loc, last, meets⟩ := fails.1 ⟨e', step⟩
  obtain ⟨e'', step', failedAt, idle⟩ := failed name loc last meets
  obtain rfl : e' = e'' := congrArg Prod.snd (Option.some.inj (step.symm.trans step'))
  have driven := (idle [.advance 5, .step, .poll] (by simp)).1
  exact ⟨reached, due, name, loc, last, e', meets, step, failedAt, events, driven⟩

end Engine

end Breadboard
