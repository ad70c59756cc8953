import Breadboard.Proofs.Drive
import Breadboard.Proofs.Noninterference

set_option autoImplicit false

/-!
Schedules do not matter. Main statement: two engines that run the same sketch, which does not look at
the time, and that agree but for times and speed, agree again whenever their frames have been run the
same number of times, however they were driven.
-/
namespace Breadboard

namespace World

variable {w v : World}

theorem emit_twins (same : w.unstamped = v.unstamped) (text : String) (category : Serial.Category)
    (stamp stamp' : Float) :
    (w.emit text category stamp).unstamped = (v.emit text category stamp').unstamped := by
  rw [← emit_unstamped, ← emit_unstamped, same]

theorem flush_twins (same : w.unstamped = v.unstamped) (stamp stamp' : Float) :
    (w.flush stamp).unstamped = (v.flush stamp').unstamped := by
  have pending : w.monitor.pending = v.monitor.pending :=
    congrArg (fun w => w.monitor.pending) same
  by_cases empty : v.monitor.pending = ""
  · rw [flush_of_empty (pending.trans empty), flush_of_empty empty, same]
  · rw [flush_of_pending (pending ▸ empty), flush_of_pending empty, emit_twins same]

theorem afterFailure_twins (same : w.unstamped = v.unstamped) (report : String) (stamp stamp' : Float) :
    (w.afterFailure report stamp).unstamped = (v.afterFailure report stamp').unstamped := by
  have flushed := flush_twins same stamp stamp'
  have left : unstamped { w.flush stamp with scopes := (w.flush stamp).scopes.exitAll } =
      unstamped { v.flush stamp' with scopes := (v.flush stamp').scopes.exitAll } :=
    congrArg (fun w => { w with scopes := w.scopes.exitAll }) flushed
  have emitted := emit_twins left report .error stamp stamp'
  exact congrArg (fun w => w.tell [.status .error]) emitted

end World

namespace Engine

/-- An engine without clock, times, speeds and time stamps. -/
def untimed (e : Engine) : Engine :=
  { e with
    config := { e.config with speed := 1.0 }
    now := 0
    speed := 1.0
    startedAt := none
    frozen := none
    due := none
    thread := { e.thread with world := e.world.unstamped } }

variable {a b : Engine}

theorem twins_of_untimed (same : a.untimed = b.untimed) : a.thread.Twins b.thread where
  frames_eq := congrArg (fun e => e.thread.frames) same
  phase_eq := congrArg (fun e => e.thread.phase) same
  location_eq := congrArg (fun e => e.thread.location) same
  world_eq := congrArg (fun e => e.thread.world) same

theorem program_of_untimed (same : a.untimed = b.untimed) : a.program = b.program :=
  congrArg (fun e => e.program) same

-- The thread may be replaced on both sides, and so may the times.
theorem untimed_setThread (same : a.untimed = b.untimed) {t u : Thread} (twins : t.Twins u)
    (status : Status) (frozen frozen' due due' : Option Nat) :
    { a with thread := t, status, frozen, due }.untimed =
      { b with thread := u, status, frozen := frozen', due := due' }.untimed := by
  have threads : { t with world := t.world.unstamped } = { u with world := u.world.unstamped } := by
    obtain ⟨frames, phase, location, w⟩ := t
    obtain ⟨frames', phase', location', v⟩ := u
    obtain ⟨rfl, rfl, rfl, world⟩ := twins
    simp only at world
    rw [world]
  have replaced := congrArg (fun e : Engine =>
    { e with thread := { t with world := t.world.unstamped }, status }) same
  exact replaced.trans (by rw [threads]; rfl)

theorem untimed_fail (same : a.untimed = b.untimed) {t u : Thread} (twins : t.Twins u)
    (fault : Fault) :
    ({ a with thread := t }.fail fault).untimed = ({ b with thread := u }.fail fault).untimed := by
  rw [fail_eq, fail_eq]
  apply untimed_setThread same
  exact ⟨rfl, twins.phase_eq, twins.location_eq, World.afterFailure_twins twins.world_eq _ _ _⟩

-- The sketch of an engine does not look at the time, and neither does what is left of it.
structure IsTimeless (e : Engine) : Prop where
  program : e.program.IsTimeless
  thread : e.thread.IsTimeless

theorem IsTimeless.of_untimed (timeless : a.IsTimeless) (same : a.untimed = b.untimed) :
    b.IsTimeless := by
  have frames := (twins_of_untimed same).frames_eq
  refine ⟨program_of_untimed same ▸ timeless.program, ?_⟩
  rw [Thread.IsTimeless, ← frames]
  exact timeless.thread

theorem program_step (due : a.isDue = true) {last : Progress} {a' : Engine}
    (step : a.step = some (last, a')) : a'.program = a.program := by
  obtain ⟨_, _, _, -, -, -, rfl⟩ | ⟨_, _, -, -, rfl⟩ := step_cases due step <;> rfl

theorem IsTimeless.step (timeless : a.IsTimeless) (due : a.isDue = true) {last : Progress}
    {a' : Engine} (step : a.step = some (last, a')) : a'.IsTimeless := by
  refine ⟨program_step due step ▸ timeless.program, ?_⟩
  obtain ⟨_, _, _, run, -, -, rfl⟩ | ⟨_, _, -, -, rfl⟩ := step_cases due step
  · exact timeless.thread.run timeless.program run
  · rfl

theorem untimed_conclude (same : a.untimed = b.untimed) {left right : RunEnd} (ends : left.Twins right)
    {last last' : Progress} {a' b' : Engine} (step : a.conclude left = some (last, a'))
    (step' : b.conclude right = some (last', b')) : a'.untimed = b'.untimed := by
  have status : a.status = b.status := congrArg (fun e => e.status) same
  cases ends with
  | pause twins =>
    obtain ⟨_, -, next⟩ := Option.map_eq_some_iff.1 step
    obtain ⟨_, -, next'⟩ := Option.map_eq_some_iff.1 step'
    cases next
    cases next'
    rw [untimed_setThread same twins a.status a.frozen b.frozen, status]
  | fail twins =>
    cases step
    cases step'
    exact untimed_fail same twins _
  | overflowLeft => cases step
  | overflowRight => cases step'

-- One run of the frames on either side leads to engines that agree again.
theorem untimed_step (timeless : a.IsTimeless) (same : a.untimed = b.untimed) (due : a.isDue = true)
    (due' : b.isDue = true) {last last' : Progress} {a' b' : Engine} (step : a.step = some (last, a'))
    (step' : b.step = some (last', b')) : a'.untimed = b'.untimed := by
  have setting : b.setting = ⟨a.program, a.config.maxCallDepth, ⟨b.reading, b.speed⟩⟩ := by
    have limit : a.config.maxCallDepth = b.config.maxCallDepth :=
      congrArg (fun e => e.config.maxCallDepth) same
    rw [program_of_untimed same, limit, Engine.setting]
  rw [step_of_isDue due, Engine.setting] at step
  rw [step_of_isDue due', setting] at step'
  have twins := twins_of_untimed same
  exact untimed_conclude same (twins.run timeless.program timeless.thread) step step'

/-- `Runs n e e'`: from `e` to `e'` the frames are run `n` times, and in between nothing but times and
speed changes. -/
inductive Runs : Nat → Engine → Engine → Prop where
  | here {e : Engine} : Runs 0 e e
  | wait {n : Nat} {e e' last : Engine} (same : e.untimed = e'.untimed) (later : Runs n e' last) :
      Runs n e last
  | run {n : Nat} {progress : Progress} {e e' last : Engine} (due : e.isDue = true)
      (step : e.step = some (progress, e')) (later : Runs n e' last) : Runs (n + 1) e last

theorem Runs.trans {n m : Nat} {e e' last : Engine} (first : Runs n e e') (second : Runs m e' last) :
    Runs (n + m) e last := by
  induction first with
  | here => simpa using second
  | wait same _ ih => exact .wait same (ih second)
  | run due step _ ih =>
    rw [Nat.add_right_comm]
    exact .run due step (ih second)

theorem runs_step {e e' : Engine} {progress : Progress} (step : e.step = some (progress, e')) :
    Runs ([e].countP isDue) e e' := by
  by_cases due : e.isDue = true
  · simpa [due] using Runs.run due step .here
  · obtain ⟨_, same⟩ := step_of_not_isDue (Bool.eq_false_iff.2 due)
    rw [same] at step
    cases step
    simpa [due] using Runs.here

theorem runs_pollFrom (steps : Nat) {last final : Progress} {e e' : Engine}
    (h : pollFrom steps last e = some (final, e')) :
    Runs ((trailFrom steps last e).countP isDue) e e' := by
  induction steps generalizing last e with
  | zero =>
    cases h
    exact .here
  | succ steps ih =>
    cases last with
    | halted status =>
      cases h
      exact .here
    | pending due =>
      simp only [pollFrom] at h
      simp only [trailFrom]
      by_cases more : due ≤ e.now ∧ 0 < e.config.pollSlice
      · rw [if_pos more] at h ⊢
        cases step : e.step with
        | none =>
          rw [step] at h
          cases h
        | some next =>
          rw [step] at h
          have all := (runs_step step).trans (ih h)
          rwa [← List.countP_append] at all
      · rw [if_neg more] at h ⊢
        cases h
        exact .here

theorem runs_poll {e e' : Engine} {final : Progress} (h : e.poll = some (final, e')) :
    Runs (e.trail.countP isDue) e e' := by
  unfold poll at h
  unfold trail
  cases step : e.step with
  | none =>
    rw [step] at h
    cases h
  | some next =>
    rw [step] at h
    have all := (runs_step step).trans (runs_pollFrom _ h)
    rwa [← List.countP_append] at all

theorem runs_operation {d : Drive} {e e' : Engine} (h : d.operation.apply e = some e') :
    Runs (d.runs e) e e' := by
  cases d with
  | advance span =>
    cases h
    have same : e.untimed = (e.advance span).untimed := rfl
    exact .wait same .here
  | setSpeed speed =>
    cases h
    refine .wait ?_ .here
    unfold setSpeed
    split <;> rfl
  | step =>
    obtain ⟨⟨progress, _⟩, step, rfl⟩ := Option.map_eq_some_iff.1 h
    exact runs_step step
  | poll =>
    obtain ⟨⟨progress, _⟩, poll, rfl⟩ := Option.map_eq_some_iff.1 h
    exact runs_poll poll

theorem runs_drive {ds : List Drive} {n : Nat} {e last : Engine} (h : e.drive ds = some (n, last)) :
    Runs n e last := by
  induction ds generalizing n e with
  | nil =>
    cases h
    exact .here
  | cons d ds ih =>
    unfold drive at h
    split at h
    · rename_i e' applied
      obtain ⟨⟨m, _⟩, rest, joined⟩ := Option.map_eq_some_iff.1 h
      cases joined
      exact (runs_operation applied).trans (ih rest)
    · cases h

-- Before its next run an engine changes in nothing but times and speed.
theorem Runs.first {n : Nat} {e last : Engine} (runs : Runs (n + 1) e last) :
    ∃ (progress : Progress) (ready next : Engine), e.untimed = ready.untimed ∧ ready.isDue = true ∧
      ready.step = some (progress, next) ∧ Runs n next last := by
  generalize count : n + 1 = m at runs
  induction runs with
  | here => cases count
  | wait same _ ih =>
    obtain ⟨progress, ready, next, same', rest⟩ := ih count
    exact ⟨progress, ready, next, same.trans same', rest⟩
  | run due step later =>
    cases count
    exact ⟨_, _, _, rfl, due, step, later⟩

theorem Runs.untimed_eq {e last : Engine} (runs : Runs 0 e last) : e.untimed = last.untimed := by
  generalize count : 0 = n at runs
  induction runs with
  | here => rfl
  | wait same _ ih => exact same.trans (ih count)
  | run => cases count

theorem Runs.agree {n : Nat} {a' b' : Engine} (timeless : a.IsTimeless) (same : a.untimed = b.untimed)
    (left : Runs n a a') (right : Runs n b b') : a'.untimed = b'.untimed := by
  induction n generalizing a b with
  | zero => exact left.untimed_eq.symm.trans (same.trans right.untimed_eq)
  | succ n ih =>
    obtain ⟨_, ready, next, waited, due, step, later⟩ := left.first
    obtain ⟨_, ready', next', waited', due', step', later'⟩ := right.first
    have timelessReady := timeless.of_untimed waited
    have agree : ready.untimed = ready'.untimed := waited.symm.trans (same.trans waited')
    have agree' := untimed_step timelessReady agree due due' step step'
    exact ih (timelessReady.step due step) agree' later later'

theorem Runs.program_eq {n : Nat} {e last : Engine} (runs : Runs n e last) :
    last.program = e.program := by
  induction runs with
  | here => rfl
  | wait same _ ih => exact ih.trans (program_of_untimed same).symm
  | run due step _ ih => exact ih.trans (program_step due step)

theorem Runs.isTimeless {n : Nat} {e last : Engine} (runs : Runs n e last) (timeless : e.IsTimeless) :
    last.IsTimeless := by
  induction runs with
  | here => exact timeless
  | wait same _ ih => exact ih (timeless.of_untimed same)
  | run due step _ ih => exact ih (timeless.step due step)

-- The statements that are left to be done come from the sketch.
def FramesFollow (e : Engine) : Prop := e.program.IsTimeless → e.thread.IsTimeless

theorem FramesFollow.of_eq {e e' : Engine} (follow : e.FramesFollow) (program : e'.program = e.program)
    (frames : e'.thread.frames = e.thread.frames) : e'.FramesFollow := by
  intro timeless
  rw [program] at timeless
  rw [Thread.IsTimeless, frames]
  exact follow timeless

theorem FramesFollow.of_nil {e : Engine} (frames : e.thread.frames = []) : e.FramesFollow := by
  intro _
  rw [Thread.IsTimeless, frames]
  rfl

theorem FramesFollow.runs {n : Nat} {e e' : Engine} (follow : e.FramesFollow) (runs : Runs n e e') :
    e'.FramesFollow := by
  intro timeless
  rw [runs.program_eq] at timeless
  exact (runs.isTimeless ⟨timeless, follow timeless⟩).thread

theorem FramesFollow.move {op : HostOperation} {e e' : Engine} (follow : e.FramesFollow)
    (move : e.Move op e') : e'.FramesFollow := by
  cases move with
  | @start source _ started =>
    unfold start at started
    split at started
    · cases started
    · cases started
      intro timeless
      have setup : Stmt.areTimeless (Program.ofSource source).setup = true := timeless.setup
      simpa [Thread.IsTimeless, setStatus, Engine.setWorld, Frame.isTimeless] using setup
  | stop =>
    unfold stop
    split
    · exact .of_nil rfl
    · exact follow
  | reset => exact .of_nil rfl
  | step step => exact follow.runs (runs_step step)
  | _ => exact follow.of_eq rfl rfl

theorem Reachable.isTimeless {config : Config} {e : Engine} (reached : Engine.Reachable config e)
    (timeless : e.program.IsTimeless) : e.IsTimeless := by
  have follow : e.FramesFollow :=
    reached.invariant_of_moves (fun _ => rfl) fun _ _ _ move follow => follow.move move
  exact ⟨timeless, follow timeless⟩

/-- Take two engines that agree but for clocks, times, speeds and time stamps, with a sketch that does
not look at the time, and drive them in any two ways in which the frames are run equally often. Then
they agree on the status, on all that is left to be done, on variables, pins and random numbers, and
on all serial text. -/
theorem schedules_agree (config : Config) (a b a' b' : Engine) (reached : Engine.Reachable config a)
    (timeless : a.program.IsTimeless) (same : a.untimed = b.untimed) (ds es : List Drive) (n : Nat)
    (left : a.drive ds = some (n, a')) (right : b.drive es = some (n, b')) :
    a'.status = b'.status ∧ a'.thread.frames = b'.thread.frames ∧ a'.thread.phase = b'.thread.phase ∧
      a'.location = b'.location ∧ a'.world.scopes = b'.world.scopes ∧ a'.board = b'.board ∧
      a'.world.random = b'.world.random ∧ a'.monitor.pending = b'.monitor.pending ∧
      a'.monitor.events.map (fun e => (e.text, e.category)) =
        b'.monitor.events.map (fun e => (e.text, e.category)) ∧
      a'.untimed = b'.untimed := by
  have agree := Runs.agree (reached.isTimeless timeless) same (runs_drive left) (runs_drive right)
  have twins := twins_of_untimed agree
  have part {α : Type} (f : World → α) : f a'.world.unstamped = f b'.world.unstamped :=
    congrArg f twins.world_eq
  have events : a'.monitor.events.map Serial.Event.unstamped =
      b'.monitor.events.map Serial.Event.unstamped := by
    have recent := part fun w => w.monitor.recent.reverse
    simpa [World.unstamped, Serial.Monitor.unstamped, Serial.Monitor.events, monitor] using recent
  have texts := congrArg (List.map fun e : Serial.Event => (e.text, e.category)) events
  simp only [List.map_map] at texts
  exact ⟨congrArg (fun e => e.status) agree, twins.frames_eq, twins.phase_eq, twins.location_eq,
    part fun w => w.scopes, part fun w => w.board, part fun w => w.random,
    part fun w => w.monitor.pending, texts, agree⟩

-- A sketch that counts in a function and waits after every count.
def ticking : String :=
  "int n = 0;\nvoid tick(int k) { n += k; Serial.println(n); }\nvoid loop() { tick(2); delay(20); }"

theorem ticking_isTimeless : (Program.ofSource ticking).IsTimeless := by
  have timeless (p : Program) (all : (Stmt.areTimeless p.setup && Stmt.areTimeless p.loop &&
      p.functions.entries.all fun entry => Stmt.areTimeless entry.2.body) = true) : p.IsTimeless := by
    simp only [Bool.and_eq_true, List.all_eq_true] at all
    exact ⟨all.1.1, all.1.2, fun name f known => all.2 _ (Table.mem_entries_of_find? known)⟩
  exact timeless _ (by decide +kernel)

theorem exists_drive {e : Engine} {ds : List Drive} {n : Nat}
    (runs : (e.drive ds).map Prod.fst = some n) : ∃ e', e.drive ds = some (n, e') := by
  obtain ⟨⟨_, e'⟩, drive, rfl⟩ := Option.map_eq_some_iff.1 runs
  exact ⟨e', drive⟩

-- The one engine takes a step whenever one is due, the other one is also asked too early, at another
-- time and at another pace.
theorem schedules_agree_ticking :
    let a := (ofConfig .standard).afterRequest ((ofConfig .standard).start ticking)
    let b := { a with now := 7, startedAt := some 5, speed := 2.0 }
    ∃ a' b', a.drive [.step, .advance 20000000, .poll] = some (2, a') ∧
      b.drive [.poll, .setSpeed 0.5, .step, .advance 5000000, .poll, .advance 5000000, .step] =
        some (2, b') ∧
      a'.world.scopes = b'.world.scopes ∧
      a'.monitor.events.map (fun e => (e.text, e.category)) =
        b'.monitor.events.map (fun e => (e.text, e.category)) := by
  intro a b
  have reached : Engine.Reachable .standard a := .host (.start ticking) .created rfl
  have same (e : Engine) : e.untimed = { e with now := 7, startedAt := some 5, speed := 2.0 }.untimed :=
    rfl
  obtain ⟨a', left⟩ : ∃ a', a.drive [.step, .advance 20000000, .poll] = some (2, a') :=
    exists_drive (by decide +kernel)
  obtain ⟨b', right⟩ : ∃ b', b.drive [.poll, .setSpeed 0.5, .step, .advance 5000000, .poll,
    .advance 5000000, .step] = some (2, b') := exists_drive (by decide +kernel)
  obtain ⟨-, -, -, -, scopes, -, -, -, events, -⟩ :=
    schedules_agree .standard a b a' b' reached ticking_isTimeless (same a) _ _ 2 left right
  exact ⟨a', b', left, right, scopes, events⟩

end Engine

end Breadboard
