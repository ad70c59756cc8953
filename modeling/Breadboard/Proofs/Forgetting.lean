import Breadboard.Proofs.Past

set_option autoImplicit false

/-!
Engines upon a past. Main statement: all that a host does with an engine comes to the same end and
tells the same news, whatever was told and kept before and whoever listens.
-/
namespace Breadboard

def Engine.upon (e : Engine) (past : Past) : Engine := { e with thread := e.thread.upon past }

namespace Engine

variable (e : Engine) (past : Past)

theorem setWorld_upon (w : World) : (e.upon past).setWorld (w.upon past) = (e.setWorld w).upon past := rfl

theorem status_upon : (e.upon past).status = e.status := rfl

theorem halt_upon : (e.upon past).halt = e.halt.upon past := by
  have flushed : (e.upon past).world.flush (e.upon past).reading.stamp =
      (e.world.flush e.reading.stamp).upon past := World.flush_upon e.world past e.reading.stamp
  simp only [halt, flushed]
  rfl

theorem setStatus_upon (status : Status) :
    (e.upon past).setStatus status = (e.setStatus status).upon past := rfl

theorem stop_upon : (e.upon past).stop = e.stop.upon past := by
  by_cases running : e.status = .running
  · simp only [stop, status_upon, running, if_true, halt_upon, setStatus_upon]
  · simp only [stop, status_upon, running, if_false]

theorem fail_upon (fault : Fault) : (e.upon past).fail fault = (e.fail fault).upon past := by
  have emitted := e.halt.world.emit_upon past (errorMark ++ fault.message) .error e.halt.reading.stamp
  simp only [fail, halt_upon]
  exact congrArg (fun w => (e.halt.setWorld w).setStatus .error) emitted

theorem start_upon (source : String) :
    (e.upon past).start source = (e.start source).map (·.upon past) := by
  by_cases running : e.status = .running
  · simp only [start, status_upon, running, if_true]
    rfl
  · simp only [start, status_upon, running, if_false]
    rfl

theorem reset_upon : (e.upon past).reset = e.reset.upon past := by
  have cleared : (e.stop.upon past).world.setBoard (e.stop.upon past).board.reset =
      (e.stop.world.setBoard e.stop.board.reset).upon past :=
    e.stop.world.pin_upon past .resetAll (by simp) (by simp)
  have wired (w : World) : { w.upon past with board := e.stop.registry.reconnect (w.upon past).board } =
      { w with board := e.stop.registry.reconnect w.board }.upon past :=
    congrArg (fun board => { w.upon past with board }) (e.stop.registry.reconnect_upon past w.board)
  have registry : (e.stop.upon past).registry = e.stop.registry := rfl
  simp only [reset, stop_upon, cleared, registry, wired, World.tell_upon]
  rfl

theorem step_upon : (e.upon past).step = e.step.map fun (last, e') => (last, e'.upon past) := by
  have run : (e.upon past).thread.run (e.upon past).setting = (e.thread.run e.setting).upon past :=
    Thread.run_upon e.setting past e.thread
  have due : (e.upon past).due.filter ((e.upon past).now < ·) = e.due.filter (e.now < ·) := rfl
  by_cases running : e.status = .running
  · simp only [step, status_upon, running, due, run]
    cases e.due.filter (e.now < ·) with
    | some due => rfl
    | none =>
      cases e.thread.run e.setting with
      | pause span thread =>
        have now : (e.upon past).now = e.now := rfl
        simp only [RunEnd.upon, now]
        cases Time.after? e.now span <;> rfl
      | fail fault thread =>
        have failed := fail_upon { e with thread } past fault
        exact congrArg (fun e => some (Progress.halted e.status, e)) failed
      | overflow => rfl
  · simp only [step, status_upon, ne_eq, running, not_false_eq_true, if_true]
    rfl

theorem pollFrom_upon (steps : Nat) (last : Progress) (e : Engine) :
    pollFrom steps last (e.upon past) =
      (pollFrom steps last e).map fun (last, e') => (last, e'.upon past) := by
  induction steps generalizing last e with
  | zero => rfl
  | succ steps ih =>
    cases last with
    | halted status => rfl
    | pending due =>
      have now : (e.upon past).now = e.now := rfl
      have config : (e.upon past).config = e.config := rfl
      simp only [pollFrom, step_upon, now, config]
      split
      · cases e.step with
        | none => rfl
        | some next => exact ih next.1 next.2
      · rfl

theorem poll_upon : (e.upon past).poll = e.poll.map fun (last, e') => (last, e'.upon past) := by
  simp only [poll, step_upon]
  cases e.step with
  | none => rfl
  | some next => exact pollFrom_upon past _ next.1 next.2

theorem setSpeed_upon (speed : Float) :
    (e.upon past).setSpeed speed = (e.setSpeed speed).map (·.upon past) := by
  unfold setSpeed
  split <;> rfl

theorem register_upon (p : Peripheral) : (e.upon past).register p = (e.register p).upon past := by
  have registered : (e.upon past).registry.register (e.upon past).board p =
      ((e.registry.register e.board p).1, (e.registry.register e.board p).2.upon past) :=
    e.registry.register_upon past e.board p
  simp only [register, registered]
  rfl

theorem remove_upon (id : String) :
    (e.upon past).remove id = ((e.remove id).1, (e.remove id).2.upon past) := by
  have removed : (e.upon past).registry.remove? (e.upon past).board id = _ :=
    e.registry.remove?_upon past e.board id
  simp only [remove, removed]
  cases e.registry.remove? e.board id <;> rfl

theorem attachCircuit_upon (c : Circuit) :
    (e.upon past).attachCircuit c = ((e.attachCircuit c).1, (e.attachCircuit c).2.upon past) := by
  simp only [attachCircuit]
  congr 1
  generalize c.wired = wired
  induction wired generalizing e with
  | nil => rfl
  | cons part rest ih =>
    simp only [List.foldl_cons, register_upon]
    exact ih _

theorem importCircuit_upon (json : String) :
    (e.upon past).importCircuit json = ((e.importCircuit json).1, (e.importCircuit json).2.upon past) := by
  unfold importCircuit
  split
  · rfl
  · exact congrArg (fun w => (none, e.setWorld w)) (e.world.emit_upon past _ .error e.reading.stamp)

theorem afterRequest_upon (request : Except Refusal Engine) :
    (e.upon past).afterRequest (request.map (·.upon past)) = (e.afterRequest request).upon past := by
  cases request <;> rfl

end Engine

-- What becomes of a past when a host subscribes, unsubscribes or takes the news.
def Past.through (past : Past) : HostOperation → Past
  | .pin .subscribe => { past with observers := past.observers.add.2 }
  | .pin (.unsubscribe id) => { past with observers := (past.observers.remove id).2 }
  | .listen => { past with listeners := past.listeners.add.2 }
  | .takeNews => { past with outbox := [] }
  | _ => past

theorem Past.outbox_through (past : Past) {op : HostOperation} (keeps : op ≠ .takeNews) :
    (past.through op).outbox = past.outbox := by
  cases op with
  | takeNews => exact absurd rfl keeps
  | pin op => cases op <;> rfl
  | _ => rfl

namespace HostOperation

theorem apply_upon (op : HostOperation) (e : Engine) (past : Past) :
    op.apply (e.upon past) = (op.apply e).map (·.upon (past.through op)) := by
  cases op with
  | start source =>
    simp only [apply, Engine.start_upon, Engine.afterRequest_upon]
    rfl
  | stop => exact congrArg some (e.stop_upon past)
  | reset => exact congrArg some (e.reset_upon past)
  | step =>
    simp only [apply, Engine.step_upon, Option.map_map]
    rfl
  | poll =>
    simp only [apply, Engine.poll_upon, Option.map_map]
    rfl
  | setSpeed speed =>
    simp only [apply, Engine.setSpeed_upon, Engine.afterRequest_upon]
    rfl
  | advance span => rfl
  | evaluate expr =>
    have drawn : (e.upon past).world.eval (e.upon past).reading (.read expr.toList) = _ :=
      e.world.eval_upon past e.reading (.read expr.toList)
    simp only [apply, Engine.snd_evaluate, drawn, Engine.setWorld_upon, Option.map_some, Past.through]
  | check cond =>
    have drawn : (e.upon past).world.holds (e.upon past).reading (.read cond.toList) = _ :=
      e.world.holds_upon past e.reading (.read cond.toList)
    simp only [apply, Engine.snd_check, drawn, Engine.setWorld_upon, Option.map_some, Past.through]
  | register p => exact congrArg some (e.register_upon past p)
  | remove id => exact congrArg (fun r => some r.2) (e.remove_upon past id)
  | importCircuit json => exact congrArg (fun r => some r.2) (e.importCircuit_upon past json)
  | attachCircuit c => exact congrArg (fun r => some r.2) (e.attachCircuit_upon past c)
  | pin op =>
    cases op with
    | subscribe | unsubscribe id => rfl
    | _ => exact congrArg (fun w => some (e.setWorld w)) (e.world.pin_upon past _ (by simp) (by simp))
  | listen => rfl
  | takeNews => rfl

theorem told_upon (op : HostOperation) (e e' : Engine) (past : Past) (done : op.apply e = some e') :
    (e.upon past).world.told (e'.upon (past.through op)).world = e.world.told e'.world := by
  by_cases hands : op = .takeNews
  · -- Once the news have been handed out, there are none left on either side.
    subst hands
    cases done
    simp [World.told, Engine.world, Engine.upon, Thread.upon, World.upon, Past.through, Engine.takeNews,
      Engine.setWorld]
  · exact World.told_upon _ past _ (past.outbox_through hands)

-- What an operation that lets the sketch go on answers.
def progress? (e : Engine) : HostOperation → Option Progress
  | .step => e.step.map Prod.fst
  | .poll => e.poll.map Prod.fst
  | _ => none

theorem progress?_upon (op : HostOperation) (e : Engine) (past : Past) :
    op.progress? (e.upon past) = op.progress? e := by
  cases op with
  | step =>
    simp only [progress?, Engine.step_upon, Option.map_map]
    rfl
  | poll =>
    simp only [progress?, Engine.poll_upon, Option.map_map]
    rfl
  | _ => rfl

end HostOperation

namespace Engine

-- What operations show of an engine: the answers, and the news that each of them tells.
def effects (e : Engine) : List HostOperation → List (Option Progress × List News)
  | [] => []
  | op :: ops =>
    match op.apply e with
    | some e' => (op.progress? e, e.world.told e'.world) :: e'.effects ops
    | none => []

theorem effects_upon (e : Engine) (past : Past) (ops : List HostOperation) :
    (e.upon past).effects ops = e.effects ops := by
  induction ops generalizing e past with
  | nil => rfl
  | cons op ops ih =>
    simp only [effects, HostOperation.apply_upon, HostOperation.progress?_upon]
    cases done : op.apply e with
    | none => rfl
    | some e' =>
      simp only [Option.map_some]
      rw [HostOperation.told_upon op e e' past done, ih]

theorem afterAll_upon (e : Engine) (past : Past) (ops : List HostOperation) :
    (e.upon past).afterAll ops = (e.afterAll ops).map (·.upon (ops.foldl Past.through past)) := by
  induction ops generalizing e past with
  | nil => rfl
  | cons op ops ih =>
    simp only [afterAll, HostOperation.apply_upon]
    cases op.apply e with
    | none => rfl
    | some e' => exact ih e' (past.through op)

end Engine

end Breadboard
