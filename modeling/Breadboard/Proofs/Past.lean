import Breadboard.Proofs.BoardTrace
import Breadboard.Proofs.SerialLog

set_option autoImplicit false

/-!
What a run does not look at: the events and news of before, and who listens. Main statement: a run of a
sketch upon a past takes the same steps, comes to the same end and tells the same news as without it.
-/
namespace Breadboard

open Breadboard.Random (Generator)

-- What no sketch can see: serial events, subscribers, and news that have not been handed out.
structure Past where
  recent : List Serial.Event
  listeners : Subscribers
  observers : Subscribers
  outbox : List News

def Board.upon (b : Board) (past : Past) : Board := { b with subscribers := past.observers }

def Serial.Monitor.upon (m : Serial.Monitor) (past : Past) : Serial.Monitor :=
  { m with
    recent := (m.recent ++ past.recent).take (max m.capacity 1)
    subscribers := past.listeners }

namespace World

def upon (w : World) (past : Past) : World :=
  { w with
    board := w.board.upon past
    monitor := w.monitor.upon past
    outbox := w.outbox ++ past.outbox }

end World

/-! Expressions -/

-- Environments in which names and pins have the same values at the same time.
structure Env.Alike (env env' : Env) : Prop where
  valueOf_eq : env.valueOf = env'.valueOf
  number?_eq : env.number? = env'.number?
  digitalLevel_eq : env.digitalLevel = env'.digitalLevel
  analogLevel_eq : env.analogLevel = env'.analogLevel
  time_eq : env.time = env'.time

section

variable {env env' : Env}

mutual

theorem Expr.eval_of_alike (alike : env.Alike env') :
    (e : Expr) → (g : Generator) → e.eval env g = e.eval env' g
  | .number _, g => by simp only [Expr.eval]
  | .text _, g => by simp only [Expr.eval]
  | .millis, g => by simp only [Expr.eval, alike.time_eq]
  | .micros, g => by simp only [Expr.eval, alike.time_eq]
  | .digitalRead pin, g => by
    simp only [Expr.eval, Expr.eval_of_alike alike pin g, alike.digitalLevel_eq]
  | .analogRead pin, g => by
    simp only [Expr.eval, Expr.eval_of_alike alike pin g, alike.analogLevel_eq]
  | .builtin f args, g => by simp only [Expr.eval, Expr.evalAll_of_alike alike args g]
  | .var _, g => by simp only [Expr.eval, alike.valueOf_eq]
  | .arithmetic _, g => by simp only [Expr.eval, alike.number?_eq]

theorem Expr.evalAll_of_alike (alike : env.Alike env') :
    (es : List Expr) → (g : Generator) → Expr.evalAll env es g = Expr.evalAll env' es g
  | [], g => by simp only [Expr.evalAll]
  | e :: es, g => by
    have others := Expr.evalAll_of_alike alike es
    simp only [Expr.evalAll, Expr.eval_of_alike alike e g, others]

end

mutual

theorem Cond.holds_of_alike (alike : env.Alike env') :
    (c : Cond) → (g : Generator) → c.holds env g = c.holds env' g
  | .all parts, g => by simp only [Cond.holds, Cond.allHold_of_alike alike parts g]
  | .any parts, g => by simp only [Cond.holds, Cond.anyHolds_of_alike alike parts g]
  | .not inner, g => by simp only [Cond.holds, Cond.holds_of_alike alike inner g]
  | .compare lhs op rhs, g => by simp only [Cond.holds, Expr.eval_of_alike alike]
  | .truth e, g => by simp only [Cond.holds, Expr.eval_of_alike alike]

theorem Cond.allHold_of_alike (alike : env.Alike env') :
    (cs : List Cond) → (g : Generator) → Cond.allHold env cs g = Cond.allHold env' cs g
  | [], g => by simp only [Cond.allHold]
  | c :: cs, g => by
    have others := Cond.allHold_of_alike alike cs
    simp only [Cond.allHold, Cond.holds_of_alike alike c g, others]

theorem Cond.anyHolds_of_alike (alike : env.Alike env') :
    (cs : List Cond) → (g : Generator) → Cond.anyHolds env cs g = Cond.anyHolds env' cs g
  | [], g => by simp only [Cond.anyHolds]
  | c :: cs, g => by
    have others := Cond.anyHolds_of_alike alike cs
    simp only [Cond.anyHolds, Cond.holds_of_alike alike c g, others]

end

end

/-! Boards and monitors -/

namespace Board

theorem write_upon (b : Board) (past : Past) (p : Pin) (f : PinState → PinState)
    (differs : PinState → PinState → Bool) :
    (b.upon past).write p f differs = ((b.write p f differs).1.upon past, (b.write p f differs).2) := by
  have state : (b.upon past).state? p = b.state? p := rfl
  unfold write
  rw [state]
  split
  · rfl
  · split <;> rfl

-- Subscriptions apart, an operation on the pins does the same for all observers.
theorem perform_upon (b : Board) (past : Past) (op : PinOperation) (plain : op ≠ .subscribe)
    (stays : ∀ id, op ≠ .unsubscribe id) :
    op.perform (b.upon past) = ((op.perform b).1.upon past, (op.perform b).2) := by
  cases op with
  | connect _ _ | disconnect _ | resetAll => rfl
  | subscribe => exact absurd rfl plain
  | unsubscribe id => exact absurd rfl (stays id)
  | _ => simp only [PinOperation.perform, setMode, writeDigital, writeAnalog, setAnalog, write_upon]

theorem connectAll_upon (past : Past) (pins : List Pin) (c : Connection) (b : Board) :
    (b.upon past).connectAll pins c = (b.connectAll pins c).upon past := by
  unfold connectAll
  induction pins generalizing b with
  | nil => rfl
  | cons pin pins ih => exact ih (b.connect pin c)

end Board

namespace Registry

theorem release_upon (past : Past) (id : String) (b : Board) (p : Pin) :
    release id (b.upon past) p = (release id b p).upon past := by
  have state : (b.upon past).state? p = b.state? p := rfl
  unfold release
  rw [state]
  split <;> rfl

theorem remove?_upon (r : Registry) (past : Past) (b : Board) (id : String) :
    r.remove? (b.upon past) id = (r.remove? b id).map fun (r, b) => (r, b.upon past) := by
  have released (pins : List Pin) (b : Board) :
      pins.foldl (release id) (b.upon past) = (pins.foldl (release id) b).upon past := by
    induction pins generalizing b with
    | nil => rfl
    | cons pin pins ih =>
      simp only [List.foldl_cons, release_upon]
      exact ih _
  unfold remove?
  cases r.find? id with
  | none => rfl
  | some p => simp [released]

theorem register_upon (r : Registry) (past : Past) (b : Board) (p : Peripheral) :
    r.register (b.upon past) p = ((r.register b p).1, (r.register b p).2.upon past) := by
  have removed : r.remove (b.upon past) p.id = ((r.remove b p.id).1, (r.remove b p.id).2.upon past) := by
    unfold remove
    rw [remove?_upon]
    cases r.remove? b p.id <;> rfl
  simp only [register, removed, Board.connectAll_upon]

theorem reconnect_upon (r : Registry) (past : Past) (b : Board) :
    r.reconnect (b.upon past) = (r.reconnect b).upon past := by
  obtain ⟨entries⟩ := r
  simp only [reconnect]
  induction entries generalizing b with
  | nil => rfl
  | cons p entries ih =>
    simp only [List.foldl_cons, Board.connectAll_upon]
    exact ih _

end Registry

namespace Serial.Monitor

theorem push_upon (m : Monitor) (past : Past) (e : Event) :
    (m.upon past).push e = (m.push e).upon past := by
  -- Of two windows of the same size the outer one decides.
  have window (n : Nat) (front back : List Event) :
      (e :: (front ++ back).take n).take n = ((e :: front).take n ++ back).take n := by
    cases n with
    | zero => rfl
    | succ n =>
      have rest : n - min n front.length = n - front.length := by omega
      have inner : (front.take n ++ back).take n = (front ++ back).take n := by
        rw [List.take_append, List.take_append, List.take_take, List.length_take, Nat.min_self, rest]
      simp only [List.take_succ_cons, List.cons_append, List.take_take, Nat.min_eq_left (Nat.le_succ n),
        inner]
  have recent := recent_push (m.upon past) e
  have same := window (max m.capacity 1) m.recent past.recent
  rw [← recent_push] at same
  have recents : ((m.upon past).push e).recent = ((m.push e).upon past).recent := recent.trans same
  simp only [push, upon] at recents ⊢
  rw [recents]

theorem emit_upon (m : Monitor) (past : Past) (text : String) (category : Category) (elapsed : Float) :
    (m.upon past).emit text category elapsed =
      ((m.emit text category elapsed).1.upon past, (m.emit text category elapsed).2) := by
  have pushed := push_upon { m with pending := "" } past ⟨m.pending ++ text, category, elapsed⟩
  exact congrArg (·, [_]) pushed

end Serial.Monitor

/-! Worlds -/

namespace World

variable (w : World) (past : Past)

theorem env_alike (time : Time.Reading) : ((w.upon past).env time).Alike (w.env time) :=
  ⟨rfl, rfl, rfl, rfl, rfl⟩

theorem eval_upon (time : Time.Reading) (e : Expr) :
    (w.upon past).eval time e = ((w.eval time e).1, (w.eval time e).2.upon past) := by
  simp only [eval, Expr.eval_of_alike (w.env_alike past time)]
  rfl

theorem evalAll_upon (time : Time.Reading) (es : List Expr) :
    (w.upon past).evalAll time es = ((w.evalAll time es).1, (w.evalAll time es).2.upon past) := by
  simp only [evalAll, Expr.evalAll_of_alike (w.env_alike past time)]
  rfl

theorem holds_upon (time : Time.Reading) (c : Cond) :
    (w.upon past).holds time c = ((w.holds time c).1, (w.holds time c).2.upon past) := by
  simp only [holds, Cond.holds_of_alike (w.env_alike past time)]
  rfl

theorem tell_upon (news : List News) : (w.upon past).tell news = (w.tell news).upon past := by
  simp [tell, upon]

theorem emit_upon (text : String) (category : Serial.Category) (stamp : Float) :
    (w.upon past).emit text category stamp = (w.emit text category stamp).upon past := by
  have emitted := Serial.Monitor.emit_upon w.monitor past text category stamp
  change (w.upon past).setMonitor ((w.monitor.upon past).emit text category stamp) = _
  rw [emitted]
  exact tell_upon { w with monitor := (w.monitor.emit text category stamp).1 } past _

theorem flush_upon (stamp : Float) : (w.upon past).flush stamp = (w.flush stamp).upon past := by
  by_cases held : w.monitor.pending = ""
  · rw [flush_of_empty held, flush_of_empty (w := w.upon past) held]
  · rw [flush_of_pending held, flush_of_pending (w := w.upon past) held, emit_upon]

theorem pin_upon (op : PinOperation) (plain : op ≠ .subscribe) (stays : ∀ id, op ≠ .unsubscribe id) :
    (w.upon past).setBoard (op.perform (w.upon past).board) =
      (w.setBoard (op.perform w.board)).upon past := by
  have performed : op.perform (w.upon past).board =
      ((op.perform w.board).1.upon past, (op.perform w.board).2) :=
    Board.perform_upon w.board past op plain stays
  rw [performed]
  exact tell_upon { w with board := (op.perform w.board).1 } past _

theorem told_upon (w' : World) {past' : Past} (outbox : past'.outbox = past.outbox) :
    (w.upon past).told (w'.upon past') = w.told w' := by
  have length : (w'.outbox ++ past'.outbox).length - (w.outbox ++ past.outbox).length =
      w'.outbox.length - w.outbox.length := by
    rw [List.length_append, List.length_append, outbox]
    omega
  simp only [told, upon, length]
  rw [List.take_append_of_le_length (by omega)]

end World

theorem Action.perform_upon (p : Pace) (w : World) (past : Past) (a : Action) :
    a.perform p (w.upon past) = ((a.perform p w).1.upon past, (a.perform p w).2) := by
  cases a with
  | delay ms => simp only [perform, World.eval_upon]
  | delayMicros us => simp only [perform, World.eval_upon]
  | serialBegin => simp only [perform, World.emit_upon]
  | print arg newline =>
    have text : printText p (w.upon past) arg =
        ((printText p w arg).1, (printText p w arg).2.upon past) := by
      cases arg with
      | value e => simp only [printText, World.eval_upon]
      | literal s => rfl
      | empty => rfl
    simp only [perform, text]
    cases newline
    · rfl
    · exact congrArg (·, Flow.next) (World.emit_upon _ past _ .println p.time.stamp)
  | printf template args =>
    simp only [perform, World.evalAll_upon]
    exact congrArg (·, Flow.next) (World.emit_upon _ past _ .printf p.time.stamp)
  | pinMode pin mode =>
    simp only [perform, World.eval_upon]
    split
    · split
      · rename_i mode known
        exact congrArg (·, Flow.next) (World.pin_upon _ past (.setMode _ mode) (by simp) (by simp))
      · rfl
    · rfl
  | digitalWrite pin value =>
    simp only [perform, World.eval_upon]
    split
    · exact congrArg (·, Flow.next) (World.pin_upon _ past (.writeDigital _ _) (by simp) (by simp))
    · rfl
  | analogWrite pin duty =>
    simp only [perform, World.eval_upon]
    split
    · exact congrArg (·, Flow.next) (World.pin_upon _ past (.writeAnalog _ _) (by simp) (by simp))
    · rfl
  | assign name op value =>
    simp only [perform, World.eval_upon]
    rfl
  | step name delta => rfl
  | ignored text => rfl

/-! Threads -/

def Thread.upon (t : Thread) (past : Past) : Thread := { t with world := t.world.upon past }

def Outcome.upon (past : Past) : Outcome → Outcome
  | .next t => .next (t.upon past)
  | .pause span t => .pause span (t.upon past)
  | .fail fault t => .fail fault (t.upon past)
  | .overflow => .overflow

def RunEnd.upon (past : Past) : RunEnd → RunEnd
  | .pause span t => .pause span (t.upon past)
  | .fail fault t => .fail fault (t.upon past)
  | .overflow => .overflow

namespace Thread

variable (s : Setting) (past : Past)

theorem choose_upon : (chain : Chain) → (t : Thread) →
    (t.upon past).choose s chain = (t.choose s chain).upon past
  | .done, _ => rfl
  | .otherwise _, _ => rfl
  | .branch cond body rest, t => by
    have held : (t.upon past).world.holds s.pace.time cond =
        ((t.world.holds s.pace.time cond).1, (t.world.holds s.pace.time cond).2.upon past) :=
      t.world.holds_upon past s.pace.time cond
    simp only [choose, held]
    split
    · rfl
    · exact choose_upon rest { t with world := (t.world.holds s.pace.time cond).2 }

theorem enter_upon (f : Function) (args : List Expr) (t : Thread) :
    (t.upon past).enter s f args = (t.enter s f args).upon past := by
  simp only [enter, upon, World.evalAll_upon]
  rfl

theorem execute_upon : (st : Stmt) → (t : Thread) →
    (t.upon past).execute s st = (t.execute s st).upon past
  | .act _ action, t => by
    simp only [execute, upon, Action.perform_upon]
    split <;> rfl
  | .call loc name args, t => by
    simp only [execute]
    split
    · rfl
    · rw [enter_upon]
      have depth : (t.upon past).depth = t.depth := rfl
      rw [depth]
      split <;> rfl
  | .choose _ chain, t => congrArg Outcome.next (choose_upon s past chain t)
  | .forLoop _ none _ _ _, _ => rfl
  | .forLoop _ (some init) cond step body, t => execute_upon init (t.push (.forTest cond step body))
  | .whileLoop _ _ _, _ => rfl

theorem yieldBody_upon (o : Outcome) : yieldBody (o.upon past) = (yieldBody o).upon past := by
  cases o <;> rfl

theorem step_upon (t : Thread) : (t.upon past).step s = (t.step s).upon past := by
  obtain ⟨frames, phase, location, world⟩ := t
  match frames with
  | [] => cases phase <;> rfl
  | .sequence [] :: fs => rfl
  | .sequence (st :: rest) :: fs =>
    exact execute_upon s past st ⟨.sequence rest :: fs, phase, st.location, world⟩
  | .forTest cond step body :: fs =>
    simp only [Thread.step, upon, World.holds_upon]
    rfl
  | .forStep cond none body :: fs => rfl
  | .forStep cond (some st) body :: fs =>
    have executed := execute_upon s past st ⟨.forTest cond (some st) body :: fs, phase, location, world⟩
    exact (congrArg yieldBody executed).trans (yieldBody_upon past _)
  | .whileTest cond body rounds :: fs =>
    simp only [Thread.step, upon, World.holds_upon]
    split
    · split <;> rfl
    · rfl
  | .call :: fs => rfl

theorem run_upon (t : Thread) : (t.upon past).run s = (t.run s).upon past := by
  induction t using run.induct s with
  | case1 t u step _ ih =>
    have uponStep : (t.upon past).step s = .next (u.upon past) := by rw [step_upon, step]; rfl
    rw [run_of_next step, run_of_next uponStep, ih]
  | case2 t span u step =>
    have uponStep : (t.upon past).step s = .pause span (u.upon past) := by rw [step_upon, step]; rfl
    rw [run_of_pause step, run_of_pause uponStep]
    rfl
  | case3 t fault u step =>
    have uponStep : (t.upon past).step s = .fail fault (u.upon past) := by rw [step_upon, step]; rfl
    rw [run_of_fail step, run_of_fail uponStep]
    rfl
  | case4 t step =>
    have uponStep : (t.upon past).step s = .overflow := by rw [step_upon, step]; rfl
    rw [run_of_overflow step, run_of_overflow uponStep]
    rfl

end Thread

end Breadboard
