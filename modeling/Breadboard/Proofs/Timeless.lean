import Breadboard.Engine.Thread

set_option autoImplicit false

/-!
Sketches that do not look at the time. Main statement: what such expressions, conditions and actions
do depends on the time only in the stamps of serial events.
-/
namespace Breadboard

open Breadboard.Random (Generator)

mutual

def Expr.isTimeless : Expr → Bool
  | .millis | .micros => false
  | .digitalRead pin => pin.isTimeless
  | .analogRead pin => pin.isTimeless
  | .builtin _ args => Expr.areTimeless args
  | .number _ | .text _ | .var _ | .arithmetic _ => true

def Expr.areTimeless : List Expr → Bool
  | [] => true
  | e :: es => e.isTimeless && Expr.areTimeless es

end

mutual

def Cond.isTimeless : Cond → Bool
  | .all parts => Cond.areTimeless parts
  | .any parts => Cond.areTimeless parts
  | .not inner => inner.isTimeless
  | .compare lhs _ rhs => lhs.isTimeless && rhs.isTimeless
  | .truth e => e.isTimeless

def Cond.areTimeless : List Cond → Bool
  | [] => true
  | c :: cs => c.isTimeless && Cond.areTimeless cs

end

def PrintArg.isTimeless : PrintArg → Bool
  | .value e => e.isTimeless
  | .literal _ | .empty => true

def Action.isTimeless : Action → Bool
  | .delay ms => ms.isTimeless
  | .delayMicros us => us.isTimeless
  | .print arg _ => arg.isTimeless
  | .printf _ args => Expr.areTimeless args
  | .pinMode pin mode => pin.isTimeless && mode.isTimeless
  | .digitalWrite pin value => pin.isTimeless && value.isTimeless
  | .analogWrite pin duty => pin.isTimeless && duty.isTimeless
  | .assign _ _ value => value.isTimeless
  | .serialBegin | .step _ _ | .ignored _ => true

mutual

def Stmt.isTimeless : Stmt → Bool
  | .act _ action => action.isTimeless
  | .call _ _ args => Expr.areTimeless args
  | .choose _ chain => chain.isTimeless
  | .forLoop _ init cond step body =>
    Stmt.clauseIsTimeless init && cond.isTimeless && Stmt.clauseIsTimeless step &&
      Stmt.areTimeless body
  | .whileLoop _ cond body => cond.isTimeless && Stmt.areTimeless body

def Chain.isTimeless : Chain → Bool
  | .done => true
  | .otherwise body => Stmt.areTimeless body
  | .branch cond body rest => cond.isTimeless && Stmt.areTimeless body && rest.isTimeless

def Stmt.areTimeless : List Stmt → Bool
  | [] => true
  | st :: rest => st.isTimeless && Stmt.areTimeless rest

def Stmt.clauseIsTimeless : Option Stmt → Bool
  | none => true
  | some st => st.isTimeless

end

-- No function of a program looks at the time.
def Program.FunctionsTimeless (p : Program) : Prop :=
  ∀ name f, p.functions.find? name = some f → Stmt.areTimeless f.body = true

section

variable (scopes : Scopes) (board : Board) (time time' : Time.Reading)

mutual

theorem Expr.eval_of_isTimeless :
    (e : Expr) → (g : Generator) → e.isTimeless = true →
      e.eval ⟨scopes, board, time⟩ g = e.eval ⟨scopes, board, time'⟩ g
  | .number _, g, _ => by simp only [Expr.eval]
  | .text _, g, _ => by simp only [Expr.eval]
  | .millis, g, timeless => by simp [Expr.isTimeless] at timeless
  | .micros, g, timeless => by simp [Expr.isTimeless] at timeless
  | .digitalRead pin, g, timeless => by
    have pinSame := Expr.eval_of_isTimeless pin g (by simpa [Expr.isTimeless] using timeless)
    simp only [Expr.eval, pinSame]
    rfl
  | .analogRead pin, g, timeless => by
    have pinSame := Expr.eval_of_isTimeless pin g (by simpa [Expr.isTimeless] using timeless)
    simp only [Expr.eval, pinSame]
    rfl
  | .builtin f args, g, timeless => by
    have argsSame := Expr.evalAll_of_areTimeless args g (by simpa [Expr.isTimeless] using timeless)
    simp only [Expr.eval, argsSame]
  | .var _, g, _ => by
    simp only [Expr.eval]
    rfl
  | .arithmetic _, g, _ => by
    simp only [Expr.eval]
    rfl

theorem Expr.evalAll_of_areTimeless :
    (es : List Expr) → (g : Generator) → Expr.areTimeless es = true →
      Expr.evalAll ⟨scopes, board, time⟩ es g = Expr.evalAll ⟨scopes, board, time'⟩ es g
  | [], g, _ => by simp only [Expr.evalAll]
  | e :: es, g, timeless => by
    simp only [Expr.areTimeless, Bool.and_eq_true] at timeless
    have first := Expr.eval_of_isTimeless e g timeless.1
    have others := Expr.evalAll_of_areTimeless es
    simp only [Expr.evalAll, first, others _ timeless.2]

end

mutual

theorem Cond.holds_of_isTimeless :
    (c : Cond) → (g : Generator) → c.isTimeless = true →
      c.holds ⟨scopes, board, time⟩ g = c.holds ⟨scopes, board, time'⟩ g
  | .all parts, g, timeless => by
    simp only [Cond.isTimeless] at timeless
    simp only [Cond.holds, Cond.allHold_of_areTimeless parts g timeless]
  | .any parts, g, timeless => by
    simp only [Cond.isTimeless] at timeless
    simp only [Cond.holds, Cond.anyHolds_of_areTimeless parts g timeless]
  | .not inner, g, timeless => by
    simp only [Cond.isTimeless] at timeless
    simp only [Cond.holds, Cond.holds_of_isTimeless inner g timeless]
  | .compare lhs op rhs, g, timeless => by
    simp only [Cond.isTimeless, Bool.and_eq_true] at timeless
    have left := Expr.eval_of_isTimeless scopes board time time' lhs g timeless.1
    have right (g : Generator) := Expr.eval_of_isTimeless scopes board time time' rhs g timeless.2
    simp only [Cond.holds, left, right]
  | .truth e, g, timeless => by
    simp only [Cond.isTimeless] at timeless
    simp only [Cond.holds, Expr.eval_of_isTimeless scopes board time time' e g timeless]

theorem Cond.allHold_of_areTimeless :
    (cs : List Cond) → (g : Generator) → Cond.areTimeless cs = true →
      Cond.allHold ⟨scopes, board, time⟩ cs g = Cond.allHold ⟨scopes, board, time'⟩ cs g
  | [], g, _ => by simp only [Cond.allHold]
  | c :: cs, g, timeless => by
    simp only [Cond.areTimeless, Bool.and_eq_true] at timeless
    have others (g : Generator) := Cond.allHold_of_areTimeless cs g timeless.2
    simp only [Cond.allHold, Cond.holds_of_isTimeless c g timeless.1, others]

theorem Cond.anyHolds_of_areTimeless :
    (cs : List Cond) → (g : Generator) → Cond.areTimeless cs = true →
      Cond.anyHolds ⟨scopes, board, time⟩ cs g = Cond.anyHolds ⟨scopes, board, time'⟩ cs g
  | [], g, _ => by simp only [Cond.anyHolds]
  | c :: cs, g, timeless => by
    simp only [Cond.areTimeless, Bool.and_eq_true] at timeless
    have others (g : Generator) := Cond.anyHolds_of_areTimeless cs g timeless.2
    simp only [Cond.anyHolds, Cond.holds_of_isTimeless c g timeless.1, others]

end

end

-- What is read of a clock that stands at zero.
def Time.still : Time.Reading := ⟨0.0, 0.0, 0.0⟩

def Serial.Event.unstamped (e : Serial.Event) : Serial.Event := { e with elapsed := 0.0 }

def Serial.Monitor.unstamped (m : Serial.Monitor) : Serial.Monitor :=
  { m with recent := m.recent.map Serial.Event.unstamped }

def News.unstamped : News → News
  | .serial e => .serial e.unstamped
  | news => news

namespace World

-- A world without the time stamps of its serial events.
def unstamped (w : World) : World :=
  { w with monitor := w.monitor.unstamped, outbox := w.outbox.map News.unstamped }

theorem eval_unstamped (w : World) (time : Time.Reading) {e : Expr} (timeless : e.isTimeless = true) :
    w.unstamped.eval Time.still e = ((w.eval time e).1, (w.eval time e).2.unstamped) := by
  have same := Expr.eval_of_isTimeless w.scopes w.board Time.still time e w.random timeless
  simp only [eval, env, unstamped, same]

theorem evalAll_unstamped (w : World) (time : Time.Reading) {es : List Expr}
    (timeless : Expr.areTimeless es = true) :
    w.unstamped.evalAll Time.still es = ((w.evalAll time es).1, (w.evalAll time es).2.unstamped) := by
  have same := Expr.evalAll_of_areTimeless w.scopes w.board Time.still time es w.random timeless
  simp only [evalAll, env, unstamped, same]

theorem holds_unstamped (w : World) (time : Time.Reading) {c : Cond} (timeless : c.isTimeless = true) :
    w.unstamped.holds Time.still c = ((w.holds time c).1, (w.holds time c).2.unstamped) := by
  have same := Cond.holds_of_isTimeless w.scopes w.board Time.still time c w.random timeless
  simp only [holds, env, unstamped, same]

theorem setBoard_unstamped (w : World) (change : Board × List Notice) :
    w.unstamped.setBoard change = (w.setBoard change).unstamped := by
  simp [setBoard, tell, unstamped, News.unstamped, Function.comp_def]

theorem emit_unstamped (w : World) (text : String) (category : Serial.Category) (stamp : Float) :
    w.unstamped.emit text category 0.0 = (w.emit text category stamp).unstamped := by
  simp only [emit, setMonitor, tell, unstamped, Serial.Monitor.emit, Serial.Monitor.push,
    Serial.Monitor.unstamped, List.length_map]
  split <;> simp [News.unstamped, Serial.Event.unstamped, List.map_take]

end World

-- An action that does not look at the time does the same at any time, but for the stamps.
theorem Action.perform_unstamped (p : Pace) (w : World) {a : Action} (timeless : a.isTimeless = true) :
    a.perform ⟨Time.still, p.speed⟩ w.unstamped = ((a.perform p w).1.unstamped, (a.perform p w).2) := by
  cases a with
  | delay ms => simp only [perform, World.eval_unstamped w p.time timeless]
  | delayMicros us => simp only [perform, World.eval_unstamped w p.time timeless]
  | serialBegin =>
    simp only [perform, Time.still, World.emit_unstamped w beginMessage .system p.time.stamp]
  | print arg newline =>
    have text : printText ⟨Time.still, p.speed⟩ w.unstamped arg =
        ((printText p w arg).1, (printText p w arg).2.unstamped) := by
      cases arg with
      | value e => simp only [printText, World.eval_unstamped w p.time timeless]
      | literal s => rfl
      | empty => rfl
    simp only [perform, text]
    cases newline
    · rfl
    · exact congrArg (·, Flow.next) (World.emit_unstamped _ _ .println p.time.stamp)
  | printf template args =>
    simp only [perform, World.evalAll_unstamped w p.time timeless]
    exact congrArg (·, Flow.next) (World.emit_unstamped _ _ .printf p.time.stamp)
  | pinMode pin mode =>
    simp only [isTimeless, Bool.and_eq_true] at timeless
    simp only [perform, World.eval_unstamped w p.time timeless.1,
      World.eval_unstamped _ p.time timeless.2]
    split
    · split
      · exact congrArg (·, Flow.next) (World.setBoard_unstamped _ _)
      · rfl
    · rfl
  | digitalWrite pin value =>
    simp only [isTimeless, Bool.and_eq_true] at timeless
    simp only [perform, World.eval_unstamped w p.time timeless.1,
      World.eval_unstamped _ p.time timeless.2]
    split
    · exact congrArg (·, Flow.next) (World.setBoard_unstamped _ _)
    · rfl
  | analogWrite pin duty =>
    simp only [isTimeless, Bool.and_eq_true] at timeless
    simp only [perform, World.eval_unstamped w p.time timeless.1,
      World.eval_unstamped _ p.time timeless.2]
    split
    · exact congrArg (·, Flow.next) (World.setBoard_unstamped _ _)
    · rfl
  | assign name op value =>
    simp only [perform, World.eval_unstamped w p.time timeless]
    rfl
  | step name delta => rfl
  | ignored text => rfl

end Breadboard
