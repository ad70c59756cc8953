import Breadboard.Proofs.CallStack
import Breadboard.Proofs.Host

set_option autoImplicit false

/-!
The life of an engine. Main statement: in every engine that a host can come to, status, frames, calls,
times, held text and speed belong together, and a refused request changes nothing.
-/
namespace Breadboard

namespace Engine

/-- What holds of every engine between two operations of its host. -/
structure Lifecycle (config : Config) (e : Engine) : Prop where
  config_eq : e.config = config
  balanced : e.thread.Balanced config.maxCallDepth
  frames_iff : e.thread.frames ≠ [] ↔ e.status = .running
  due_none : e.status ≠ .running → e.due = none
  started_iff : e.startedAt = none ↔ e.status = .idle
  frozen_iff : e.frozen.isSome = true ↔ e.status = .stopped ∨ e.status = .error
  pending_empty : e.status ≠ .running → e.monitor.pending = ""
  speed_finite : e.speed.isFinite = true
  speed_pos : e.speed > 0.0

theorem isValidSpeed_iff (speed : Float) :
    isValidSpeed speed = true ↔ speed.isFinite = true ∧ speed > 0.0 := by
  simp [isValidSpeed]

theorem lifecycle_ofConfig (config : Config) : (ofConfig config).Lifecycle config := by
  have speed : isValidSpeed (ofConfig config).speed = true := by
    simp only [ofConfig]
    split
    · assumption
    · decide
  obtain ⟨finite, positive⟩ := (isValidSpeed_iff _).1 speed
  refine ⟨rfl, ⟨rfl, Nat.zero_le _⟩, ?_, fun _ => rfl, ?_, ?_, fun _ => rfl, finite, positive⟩ <;>
    simp [ofConfig]

variable {config : Config} {e : Engine}

-- A world with the same depth of calls, and without held text if there was none, may take the place
-- of the engine's own.
theorem Lifecycle.setWorld (alive : e.Lifecycle config) {w : World}
    (depth : w.scopes.depth = e.world.scopes.depth)
    (pending : e.monitor.pending = "" → w.monitor.pending = "") :
    (e.setWorld w).Lifecycle config :=
  { alive with
    balanced := alive.balanced.setWorld depth
    pending_empty := fun h => pending (alive.pending_empty h) }

theorem Lifecycle.setRegistry (alive : e.Lifecycle config) (registry : Registry) :
    { e with registry }.Lifecycle config :=
  { alive with }

theorem Lifecycle.start (alive : e.Lifecycle config) (source : String) {e' : Engine}
    (h : e.start source = .ok e') : e'.Lifecycle config := by
  unfold Engine.start at h
  split at h
  · cases h
  · cases h
    refine ⟨alive.config_eq, ⟨rfl, Nat.zero_le _⟩, ?_, ?_, ?_, ?_, ?_, alive.speed_finite, alive.speed_pos⟩ <;>
      simp [setStatus, Engine.setWorld]

-- The end of a run, wherever its thread has come to.
theorem Lifecycle.halt (alive : e.Lifecycle config) (running : e.status = .running) (thread : Thread)
    {status : Status} (ended : status = .stopped ∨ status = .error) {w : World}
    (depth : w.scopes.depth = 0) (pending : w.monitor.pending = "") :
    (({ e with thread }.halt.setWorld w).setStatus status).Lifecycle config := by
  have started : e.startedAt ≠ none := by
    rw [Ne, alive.started_iff, running]
    simp
  refine ⟨alive.config_eq, ⟨depth.symm, ?_⟩, ?_, fun _ => rfl, ?_, ?_, fun _ => pending,
    alive.speed_finite, alive.speed_pos⟩
  · exact Nat.le_trans (Nat.le_of_eq depth) (Nat.zero_le _)
  · obtain rfl | rfl := ended <;> simp [Engine.halt, setStatus, Engine.setWorld]
  · obtain rfl | rfl := ended <;> simpa [Engine.halt, setStatus, Engine.setWorld] using started
  · obtain rfl | rfl := ended <;> simp [Engine.halt, setStatus, Engine.setWorld]

theorem Lifecycle.stop (alive : e.Lifecycle config) : e.stop.Lifecycle config := by
  unfold Engine.stop
  split
  · rename_i running
    have flushed : e.halt.world.monitor.pending = "" := Serial.Monitor.pending_flush _ _
    exact alive.halt running e.thread (.inl rfl) (Scopes.depth_exitAll _) flushed
  · exact alive

theorem Lifecycle.reset (alive : e.Lifecycle config) : e.reset.Lifecycle config := by
  have stopped := alive.stop
  refine ⟨stopped.config_eq, ⟨rfl, Nat.zero_le _⟩, ?_, ?_, ?_, ?_, ?_, stopped.speed_finite,
    stopped.speed_pos⟩ <;>
    simp [Engine.reset, setStatus, Engine.setWorld, Engine.monitor, Engine.world, World.tell,
      Serial.Monitor.clearPending]

theorem Lifecycle.step (alive : e.Lifecycle config) {last : Progress} {e' : Engine}
    (h : e.step = some (last, e')) : e'.Lifecycle config := by
  unfold Engine.step at h
  split at h
  · cases h
    exact alive
  · rename_i running
    have running : e.status = .running := by simpa using running
    have balanced : e.thread.Balanced e.setting.limit := by
      simpa [setting, alive.config_eq] using alive.balanced
    split at h
    · cases h
      exact alive
    -- A run that pauses keeps the engine running, and one that fails ends it.
    · split at h
      · rename_i span thread run
        obtain ⟨due, -, next⟩ := Option.map_eq_some_iff.1 h
        cases next
        obtain ⟨balanced, busy⟩ := balanced.run run
        refine { alive with balanced := ?_, frames_iff := ?_, due_none := ?_, pending_empty := ?_ }
        · simpa [setting, alive.config_eq] using balanced
        · simp [busy, running]
        · simp [running]
        · simp [running]
      · rename_i fault thread run
        cases h
        exact alive.halt running thread (.inr rfl) (Scopes.depth_exitAll _) (Serial.Monitor.pending_emit _ _ _ _)
      · cases h

theorem Lifecycle.move (alive : e.Lifecycle config) {op : HostOperation} {e' : Engine}
    (move : e.Move op e') : e'.Lifecycle config := by
  cases move with
  | start started => exact alive.start _ started
  | stop => exact alive.stop
  | reset => exact alive.reset
  | step step => exact alive.step step
  | @setSpeed speed valid =>
    obtain ⟨finite, positive⟩ := (isValidSpeed_iff speed).1 valid
    exact { alive with speed_finite := finite, speed_pos := positive }
  | advance span => exact { alive with }
  | importCircuit unread => exact alive.setWorld rfl fun _ => Serial.Monitor.pending_emit _ _ _ _
  | register p => exact (alive.setRegistry _).setWorld rfl id
  | remove name => exact (alive.setRegistry _).setWorld rfl id
  | evaluate | check | pin | listen | takeNews => exact alive.setWorld rfl id

theorem Reachable.lifecycle (reached : Engine.Reachable config e) : e.Lifecycle config :=
  reached.invariant_of_moves (lifecycle_ofConfig config) fun _ _ _ move alive => alive.move move

theorem elapsed_advance_of_frozen {e : Engine} (frozen : e.frozen.isSome = true) (span : Nat) :
    (e.advance span).elapsed = e.elapsed := by
  obtain ⟨value, frozen⟩ := Option.isSome_iff_exists.1 frozen
  simp [elapsed, advance, frozen]

/-- In every engine that a host can come to, there are as many frames of calls as tables of locals and
no more than the limit; there are frames exactly while it runs, and a due time and held text at most
then; a start is known exactly if it is not idle; time stands still exactly once it has ended; the
speed is finite and positive; and a refused request changes nothing. -/
theorem reachable_consistent (config : Config) (e : Engine) (reached : Engine.Reachable config e) :
    (Frame.calls e.thread.frames = e.world.scopes.depth ∧
      e.world.scopes.depth ≤ config.maxCallDepth) ∧
    (e.thread.frames ≠ [] ↔ e.status = .running) ∧
    (e.status ≠ .running → e.due = none) ∧
    (e.startedAt = none ↔ e.status = .idle) ∧
    (e.frozen.isSome = true ↔ e.status = .stopped ∨ e.status = .error) ∧
    (e.status = .stopped ∨ e.status = .error → ∀ span, (e.advance span).elapsed = e.elapsed) ∧
    (e.status ≠ .running → e.monitor.pending = "") ∧
    (e.speed.isFinite = true ∧ e.speed > 0.0) ∧
    (∀ source refusal, e.start source = .error refusal →
      HostOperation.apply e (.start source) = some e) ∧
    (∀ speed refusal, e.setSpeed speed = .error refusal →
      HostOperation.apply e (.setSpeed speed) = some e) := by
  have alive := reached.lifecycle
  refine ⟨⟨alive.balanced.calls_eq_depth, alive.balanced.depth_le⟩, alive.frames_iff, alive.due_none,
    alive.started_iff, alive.frozen_iff, ?_, alive.pending_empty, ⟨alive.speed_finite, alive.speed_pos⟩,
    ?_, ?_⟩
  · intro ended
    exact elapsed_advance_of_frozen (alive.frozen_iff.2 ended)
  · intro source refusal refused
    simp [HostOperation.apply, afterRequest, refused]
  · intro speed refusal refused
    simp [HostOperation.apply, afterRequest, refused]

theorem reachable_consistent_after_stop :
    let started := (ofConfig .standard).afterRequest ((ofConfig .standard).start "void loop() { }")
    Engine.Reachable .standard started.stop ∧ started.status = .running ∧
      started.stop.status = .stopped ∧ started.stop.frozen.isSome = true ∧
      ¬started.stop.thread.frames ≠ [] ∧ started.stop.due = none := by
  intro started
  have reached : Engine.Reachable .standard started.stop :=
    .host .stop (.host (.start "void loop() { }") .created rfl) rfl
  have stopped : started.stop.status = .stopped := rfl
  obtain ⟨-, frames, due, -, frozen, -⟩ := reachable_consistent .standard started.stop reached
  refine ⟨reached, rfl, stopped, frozen.2 (.inl stopped), ?_, due ?_⟩
  · rw [frames, stopped]
    simp
  · rw [stopped]
    simp

end Engine

end Breadboard
