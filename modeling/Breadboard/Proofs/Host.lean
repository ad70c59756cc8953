import Breadboard.Engine.Wiring

set_option autoImplicit false

/-!
What a host can do with an engine, and the engines that it can come to. The operations are those of
the engine itself; a refused request leaves the engine as it is, and an operation has no result if a
pause is too long to be held.
-/
namespace Breadboard

inductive PinOperation where
  | setMode (pin : Pin) (mode : Mode)
  | writeDigital (pin : Pin) (value : Float)
  | writeAnalog (pin : Pin) (duty : Float)
  | setAnalog (pin : Pin) (value : Float)
  | connect (pin : Pin) (connection : Connection)
  | disconnect (pin : Pin)
  | resetAll
  | subscribe
  | unsubscribe (id : Nat)

def PinOperation.perform (b : Board) : PinOperation → Board × List Notice
  | .setMode pin mode => b.setMode pin mode
  | .writeDigital pin value => b.writeDigital pin value
  | .writeAnalog pin duty => b.writeAnalog pin duty
  | .setAnalog pin value => b.setAnalog pin value
  | .connect pin connection => (b.connect pin connection, [])
  | .disconnect pin => (b.disconnect pin, [])
  | .resetAll => b.reset
  | .subscribe => (b.subscribe.2, [])
  | .unsubscribe id => ((b.unsubscribe id).2, [])

inductive HostOperation where
  | start (source : String)
  | stop
  | reset
  | step
  | poll
  | setSpeed (speed : Float)
  | advance (span : Nat)
  | evaluate (expr : String)
  | check (cond : String)
  | register (p : Peripheral)
  | remove (id : String)
  | importCircuit (json : String)
  | attachCircuit (c : Circuit)
  | pin (op : PinOperation)
  | listen
  | takeNews

-- The engine after a request: the new one, or the old one if the request was refused.
def Engine.afterRequest (e : Engine) : Except Refusal Engine → Engine
  | .ok e' => e'
  | .error _ => e

def HostOperation.apply (e : Engine) : HostOperation → Option Engine
  | .start source => some (e.afterRequest (e.start source))
  | .stop => some e.stop
  | .reset => some e.reset
  | .step => e.step.map Prod.snd
  | .poll => e.poll.map Prod.snd
  | .setSpeed speed => some (e.afterRequest (e.setSpeed speed))
  | .advance span => some (e.advance span)
  | .evaluate expr => some (e.evaluate expr).2
  | .check cond => some (e.check cond).2
  | .register p => some (e.register p)
  | .remove id => some (e.remove id).2
  | .importCircuit json => some (e.importCircuit json).2
  | .attachCircuit c => some (e.attachCircuit c).2
  | .pin op => some (e.onBoard op.perform)
  | .listen => some (e.setWorld { e.world with monitor := e.monitor.subscribe.2 })
  | .takeNews => some e.takeNews.2

-- Looking at a run from outside changes its world and nothing else.
theorem Engine.snd_evaluate (e : Engine) (expr : String) :
    (e.evaluate expr).2 = e.setWorld (e.world.eval e.reading (.read expr.toList)).2 := by
  simp only [evaluate]

theorem Engine.snd_check (e : Engine) (cond : String) :
    (e.check cond).2 = e.setWorld (e.world.holds e.reading (.read cond.toList)).2 := by
  simp only [check]

theorem Engine.snd_remove (e : Engine) (id : String) :
    (e.remove id).2 = { e with registry := (e.registry.remove e.board id).1 }.setWorld
      { e.world with board := (e.registry.remove e.board id).2 } := by
  simp only [remove, Registry.remove]
  cases e.registry.remove? e.board id <;> rfl

/-- What an operation makes of an engine if there is something to be done. A poll is made of steps, and
a circuit of the parts that are registered for it. -/
inductive Engine.Move (e : Engine) : HostOperation → Engine → Prop where
  | start {source : String} {e' : Engine} (started : e.start source = .ok e') : Move e (.start source) e'
  | stop : Move e .stop e.stop
  | reset : Move e .reset e.reset
  | step {last : Progress} {e' : Engine} (step : e.step = some (last, e')) : Move e .step e'
  | setSpeed {speed : Float} (valid : Engine.isValidSpeed speed = true) :
      Move e (.setSpeed speed) { e with speed }
  | advance (span : Nat) : Move e (.advance span) (e.advance span)
  | evaluate (expr : String) (g : Random.Generator) :
      Move e (.evaluate expr) (e.setWorld { e.world with random := g })
  | check (cond : String) (g : Random.Generator) :
      Move e (.check cond) (e.setWorld { e.world with random := g })
  | register (p : Peripheral) : Move e (.register p) (e.register p)
  | remove (id : String) :
      Move e (.remove id) ({ e with registry := (e.registry.remove e.board id).1 }.setWorld
        { e.world with board := (e.registry.remove e.board id).2 })
  | importCircuit {json : String} {err : CircuitError} (unread : Circuit.parse json = .error err) :
      Move e (.importCircuit json)
        (e.setWorld (e.world.emit (Engine.errorMark ++ err.message) .error e.reading.stamp))
  | pin (op : PinOperation) : Move e (.pin op) (e.onBoard op.perform)
  | listen : Move e .listen (e.setWorld { e.world with monitor := e.monitor.subscribe.2 })
  | takeNews : Move e .takeNews e.takeNews.2

-- What an operation is made of.
inductive HostOperation.IsPartOf : HostOperation → HostOperation → Prop where
  | all {op : HostOperation} : IsPartOf op op
  | step : IsPartOf .step .poll
  | register {p : Peripheral} {c : Circuit} : IsPartOf (.register p) (.attachCircuit c)

-- What every step keeps, a poll keeps.
theorem Engine.poll_of_step {P : Engine → Prop}
    (kept : ∀ (e e' : Engine) (last : Progress), P e → e.step = some (last, e') → P e') {e e' : Engine}
    {last : Progress} (good : P e) (h : e.poll = some (last, e')) : P e' := by
  have polled (steps : Nat) : ∀ (last final : Progress) (e : Engine), P e →
      pollFrom steps last e = some (final, e') → P e' := by
    induction steps with
    | zero =>
      intro last final e good h
      cases h
      exact good
    | succ steps ih =>
      intro last final e good h
      unfold pollFrom at h
      split at h
      · split at h
        · split at h
          · rename_i step
            exact ih _ _ _ (kept _ _ _ good step) h
          · cases h
        · cases h
          exact good
      · cases h
        exact good
  unfold poll at h
  split at h
  · rename_i step
    exact polled _ _ _ _ (kept _ _ _ good step) h
  · cases h

-- What every registration keeps, a circuit keeps.
theorem Engine.attachCircuit_of_register {P : Engine → Prop}
    (kept : ∀ (e : Engine) (p : Peripheral), P e → P (e.register p)) {e : Engine} (good : P e)
    (c : Circuit) : P (e.attachCircuit c).2 := by
  unfold attachCircuit
  generalize c.wired = wired
  induction wired generalizing e with
  | nil => exact good
  | cons part rest ih => exact ih (kept e _ good)

/-- What all the moves that an operation is made of keep, the operation keeps. -/
theorem HostOperation.apply_keeps {P : Engine → Prop} {op : HostOperation}
    (kept : ∀ (o : HostOperation) (e e' : Engine), o.IsPartOf op → e.Move o e' → P e → P e')
    {e e' : Engine} (good : P e) (done : op.apply e = some e') : P e' := by
  cases op with
  | start source =>
    cases done
    cases request : e.start source with
    | ok started => exact kept _ _ _ .all (.start request) good
    | error _ => exact good
  | stop =>
    cases done
    exact kept _ _ _ .all .stop good
  | reset =>
    cases done
    exact kept _ _ _ .all .reset good
  | step =>
    obtain ⟨⟨last, _⟩, step, rfl⟩ := Option.map_eq_some_iff.1 done
    exact kept _ _ _ .all (.step step) good
  | poll =>
    obtain ⟨⟨last, _⟩, poll, rfl⟩ := Option.map_eq_some_iff.1 done
    exact Engine.poll_of_step (fun _ _ _ good step => kept _ _ _ .step (.step step) good) good poll
  | setSpeed speed =>
    cases done
    unfold Engine.setSpeed
    split
    · rename_i valid
      exact kept _ _ _ .all (.setSpeed valid) good
    · exact good
  | advance span =>
    cases done
    exact kept _ _ _ .all (.advance span) good
  | evaluate expr =>
    obtain rfl : (e.evaluate expr).2 = e' := Option.some.inj done
    rw [Engine.snd_evaluate]
    exact kept _ _ _ .all (.evaluate expr _) good
  | check cond =>
    obtain rfl : (e.check cond).2 = e' := Option.some.inj done
    rw [Engine.snd_check]
    exact kept _ _ _ .all (.check cond _) good
  | register p =>
    cases done
    exact kept _ _ _ .all (.register p) good
  | remove id =>
    cases done
    rw [Engine.snd_remove]
    exact kept _ _ _ .all (.remove id) good
  | importCircuit json =>
    cases done
    unfold Engine.importCircuit
    split
    · exact good
    · rename_i unread
      exact kept _ _ _ .all (.importCircuit unread) good
  | attachCircuit c =>
    cases done
    exact Engine.attachCircuit_of_register (P := P) (fun _ p => kept _ _ _ .register (.register p)) good c
  | pin op =>
    cases done
    exact kept _ _ _ .all (.pin op) good
  | listen =>
    cases done
    exact kept _ _ _ .all .listen good
  | takeNews =>
    cases done
    exact kept _ _ _ .all .takeNews good

/-- The engines that a host can come to with a configuration. -/
inductive Engine.Reachable (config : Config) : Engine → Prop where
  | created : Reachable config (.ofConfig config)
  | host {e e' : Engine} (op : HostOperation) (earlier : Reachable config e)
      (done : op.apply e = some e') : Reachable config e'

-- A property that a new engine has and every operation keeps is one of all reachable engines.
theorem Engine.Reachable.invariant {config : Config} {P : Engine → Prop}
    (created : P (.ofConfig config))
    (kept : ∀ (op : HostOperation) (e e' : Engine), P e → op.apply e = some e' → P e')
    {e : Engine} (reached : Engine.Reachable config e) : P e := by
  induction reached with
  | created => exact created
  | host op _ done ih => exact kept op _ _ ih done

theorem Engine.Reachable.invariant_of_moves {config : Config} {P : Engine → Prop}
    (created : P (.ofConfig config))
    (kept : ∀ (op : HostOperation) (e e' : Engine), e.Move op e' → P e → P e') {e : Engine}
    (reached : Engine.Reachable config e) : P e :=
  reached.invariant created fun _ _ _ good => HostOperation.apply_keeps (fun o e e' _ => kept o e e') good

-- The engine after all operations of a host, if they all have a result.
def Engine.afterAll (e : Engine) : List HostOperation → Option Engine
  | [] => some e
  | op :: ops =>
    match op.apply e with
    | some e' => e'.afterAll ops
    | none => none

theorem Engine.afterAll_append (e : Engine) (ops more : List HostOperation) :
    e.afterAll (ops ++ more) = (e.afterAll ops).bind (·.afterAll more) := by
  induction ops generalizing e with
  | nil => rfl
  | cons op ops ih =>
    simp only [List.cons_append, afterAll]
    cases op.apply e with
    | none => rfl
    | some e' => exact ih e'

theorem Engine.Reachable.afterAll {config : Config} {ops : List HostOperation} {e e' : Engine}
    (reached : Engine.Reachable config e) (ran : e.afterAll ops = some e') : Engine.Reachable config e' := by
  induction ops generalizing e with
  | nil =>
    cases ran
    exact reached
  | cons op ops ih =>
    unfold Engine.afterAll at ran
    split at ran
    · rename_i next done
      exact ih (.host op reached done) ran
    · cases ran

end Breadboard
