import Breadboard.Proofs.CallStack
import Breadboard.Proofs.Drive
import Breadboard.Proofs.Suspension

set_option autoImplicit false

/-!
What sketches and hosts can do to a world. Main statement: a property of worlds that each of a few
changes keeps is kept by every action, run and step of a sketch, and by every operation of a host.
-/
namespace Breadboard

open Breadboard.Random (Generator)

-- The operations on pins that a sketch has actions for. None of them makes a pin a supply.
inductive PinOperation.FromSketch : PinOperation → Prop where
  | setMode (pin : Pin) {mode : Mode} (unpowered : mode ≠ .power) : FromSketch (.setMode pin mode)
  | writeDigital (pin : Pin) (value : Float) : FromSketch (.writeDigital pin value)
  | writeAnalog (pin : Pin) (duty : Float) : FromSketch (.writeAnalog pin duty)

def PinOperation.isWiring : PinOperation → Bool
  | .connect _ _ | .disconnect _ => true
  | _ => false

-- The operations on pins that an operation of a host may lead to.
def HostOperation.MayDo : HostOperation → PinOperation → Prop
  | .step, op | .poll, op => op.FromSketch
  | .pin op, op' => op' = op
  | .reset, op => op = .resetAll ∨ op.isWiring = true
  | .register _, op | .remove _, op | .attachCircuit _, op => op.isWiring = true
  | _, _ => False

-- News that are neither of pins nor of serial events.
def News.isNote : News → Bool
  | .status _ | .reset _ => true
  | .pin _ | .serial _ => false

theorem Mode.ne_power_of_ofKeyword? {keyword : String} {mode : Mode}
    (known : ofKeyword? keyword = some mode) : mode ≠ .power := by
  have listed : mode ∈ [input, output, inputPullup] := List.mem_of_find?_eq_some known
  rintro rfl
  simp at listed

/-- All that an action can do to a world, random numbers apart. -/
inductive Action.Effect (w : World) (stamp : Float) : World → Prop where
  | nothing : Effect w stamp w
  | print (text : String) : Effect w stamp (w.print text)
  | emit (text : String) {category : Serial.Category} (harmless : category ≠ .error) :
      Effect w stamp (w.emit text category stamp)
  | pin {op : PinOperation} (fromSketch : op.FromSketch) :
      Effect w stamp (w.setBoard (op.perform w.board))
  | assign (name : String) (v : Value) : Effect w stamp (w.assign name v)

theorem Action.effect_perform (p : Pace) (w : World) (a : Action) :
    ∃ g, Effect { w with random := g } p.time.stamp (a.perform p w).1 := by
  cases a with
  | delay ms => exact ⟨_, .nothing⟩
  | delayMicros us => exact ⟨_, .nothing⟩
  | serialBegin => exact ⟨w.random, .emit beginMessage (by simp)⟩
  | print arg newline =>
    obtain ⟨g, drawn⟩ : ∃ g, (printText p w arg).2 = { w with random := g } := by
      cases arg <;> exact ⟨_, rfl⟩
    refine ⟨g, ?_⟩
    simp only [perform]
    rw [← drawn]
    cases newline
    · exact .print _
    · exact .emit _ (by simp)
  | printf template args => exact ⟨_, .emit _ (by simp)⟩
  | pinMode pin mode =>
    simp only [perform]
    split
    · split
      · rename_i known
        exact ⟨_, .pin (.setMode _ (Mode.ne_power_of_ofKeyword? known))⟩
      · exact ⟨_, .nothing⟩
    · exact ⟨_, .nothing⟩
  | digitalWrite pin value =>
    simp only [perform]
    split
    · exact ⟨_, .pin (.writeDigital _ _)⟩
    · exact ⟨_, .nothing⟩
  | analogWrite pin duty =>
    simp only [perform]
    split
    · exact ⟨_, .pin (.writeAnalog _ _)⟩
    · exact ⟨_, .nothing⟩
  | assign name op value => exact ⟨_, .assign _ _⟩
  | step name delta => exact ⟨w.random, .assign _ _⟩
  | ignored text => exact ⟨w.random, .nothing⟩

/-- A property of worlds that is kept by all that can happen to a world, as far as the operations on
its pins are among `A`. An error is only reported while no text is held. -/
structure World.Kept (A : PinOperation → Prop) (P : World → Prop) : Prop where
  random : ∀ (w : World) (g : Generator), P w → P { w with random := g }
  scopes : ∀ (w : World) (scopes : Scopes), P w → P { w with scopes }
  print : ∀ (w : World) (text : String), P w → P (w.print text)
  emit : ∀ (w : World) (text : String) (category : Serial.Category) (stamp : Float),
    category ≠ .error → P w → P (w.emit text category stamp)
  report : ∀ (w : World) (message : String) (stamp : Float), w.monitor.pending = "" → P w →
    P (w.emit (Engine.errorMark ++ message) .error stamp)
  pin : ∀ (w : World) (op : PinOperation), A op → P w → P (w.setBoard (op.perform w.board))
  note : ∀ (w : World) (news : List News), news.all News.isNote = true → P w → P (w.tell news)
  clearPending : ∀ w : World, P w → P { w with monitor := w.monitor.clearPending }
  listen : ∀ w : World, P w → P { w with monitor := w.monitor.subscribe.2 }

namespace World.Kept

variable {A : PinOperation → Prop} {P : World → Prop} (kept : World.Kept A P)

include kept

section Sketch

variable (drives : ∀ op : PinOperation, op.FromSketch → A op)

include drives

theorem perform (p : Pace) (a : Action) {w : World} (good : P w) : P (a.perform p w).1 := by
  obtain ⟨g, effect⟩ := Action.effect_perform p w a
  have drawn := kept.random w g good
  generalize (a.perform p w).1 = w' at effect ⊢
  cases effect with
  | nothing => exact drawn
  | print text => exact kept.print _ text drawn
  | emit text harmless => exact kept.emit _ text _ _ harmless drawn
  | pin fromSketch => exact kept.pin _ _ (drives _ fromSketch) drawn
  | assign name v => exact kept.scopes _ _ drawn

omit drives in
theorem choose (s : Setting) : (chain : Chain) → (t : Thread) → P t.world → P (t.choose s chain).world
  | .done, _, good => good
  | .otherwise _, _, good => good
  | .branch cond body rest, t, good => by
    have tested : P (t.world.holds s.pace.time cond).2 := kept.random _ _ good
    simp only [Thread.choose]
    split
    · exact tested
    · exact choose s rest { t with world := (t.world.holds s.pace.time cond).2 } tested

theorem execute {s : Setting} : (st : Stmt) → {t u : Thread} → P t.world →
    (t.execute s st).thread? = some u → P u.world
  | .act _ action, t, u, good, h => by
    have performed : P (action.perform s.pace t.world).1 := kept.perform drives s.pace action good
    simp only [Thread.execute] at h
    split at h <;> cases h <;> exact performed
  | .call loc name args, t, u, good, h => by
    simp only [Thread.execute] at h
    split at h
    · cases h
      exact good
    · split at h
      · cases h
        exact good
      · cases h
        exact kept.scopes _ _ (kept.random _ _ good)
  | .choose _ chain, t, u, good, h => by
    cases h
    exact kept.choose s chain t good
  | .forLoop _ none _ _ _, t, u, good, h => by
    cases h
    exact good
  | .forLoop _ (some init) cond step body, t, u, good, h =>
    execute init (t := t.push (.forTest cond step body)) good h
  | .whileLoop _ _ _, t, u, good, h => by
    cases h
    exact good

theorem step {s : Setting} {t u : Thread} (good : P t.world) (h : (t.step s).thread? = some u) :
    P u.world := by
  obtain ⟨frames, phase, location, world⟩ := t
  match frames with
  | [] => cases phase <;> cases h <;> exact good
  | .sequence [] :: fs =>
    cases h
    exact good
  | .sequence (st :: rest) :: fs =>
    exact kept.execute drives st (t := ⟨.sequence rest :: fs, phase, st.location, world⟩) good h
  | .forTest cond step body :: fs =>
    cases h
    exact kept.random _ _ good
  | .forStep cond none body :: fs =>
    cases h
    exact good
  | .forStep cond (some st) body :: fs =>
    simp only [Thread.step, Thread.thread?_yieldBody] at h
    exact kept.execute drives st (t := ⟨.forTest cond (some st) body :: fs, phase, location, world⟩) good h
  | .whileTest cond body rounds :: fs =>
    simp only [Thread.step] at h
    split at h
    · split at h <;> cases h <;> exact kept.random _ _ good
    · cases h
      exact kept.random _ _ good
  | .call :: fs =>
    cases h
    exact kept.scopes _ _ good

theorem after {s : Setting} {t u : Thread} {n : Nat} (good : P t.world)
    (reached : t.after s n = some u) : P u.world := by
  induction n generalizing t with
  | zero =>
    cases reached
    exact good
  | succ n ih =>
    unfold Thread.after at reached
    split at reached
    · rename_i step
      exact ih (kept.step drives good (congrArg Outcome.thread? step)) reached
    · cases reached

-- The world in which a run ends is one that its last step comes to.
theorem run {s : Setting} {t u : Thread} (good : P t.world)
    (h : (∃ span, t.run s = .pause span u) ∨ ∃ fault, t.run s = .fail fault u) : P u.world := by
  have ended {n : Nat} {last : Thread} (reached : t.after s n = some last)
      (step : (last.step s).thread? = some u) : P u.world :=
    kept.step drives (kept.after drives good reached) step
  obtain ⟨span, run⟩ | ⟨fault, run⟩ := h
  · obtain ⟨n, last, reached, step⟩ := Thread.run_eq_iff.1 run
    exact ended reached (congrArg Outcome.thread? step)
  · obtain ⟨n, last, reached, step⟩ := Thread.run_eq_iff.1 run
    exact ended reached (congrArg Outcome.thread? step)

end Sketch

theorem flush (stamp : Float) {w : World} (good : P w) : P (w.flush stamp) := by
  by_cases held : w.monitor.pending = ""
  · rw [World.flush_of_empty held]
    exact good
  · rw [World.flush_of_pending held]
    exact kept.emit w "" .print stamp (by simp) good

theorem afterFailure (message : String) (stamp : Float) {w : World} (good : P w) :
    P (w.afterFailure (Engine.errorMark ++ message) stamp) := by
  have flushed := kept.flush stamp good
  have left := kept.scopes _ (w.flush stamp).scopes.exitAll flushed
  exact kept.note _ _ rfl (kept.report _ message stamp (Serial.Monitor.pending_flush _ _) left)

theorem stop {e : Engine} (good : P e.world) : P e.stop.world := by
  unfold Engine.stop
  split
  · exact kept.note _ _ rfl (kept.scopes _ _ (kept.flush _ good))
  · exact good

section Wiring

variable (wires : ∀ op : PinOperation, op.isWiring = true → A op)

include wires

theorem connectAll (connection : Connection) (pins : List Pin) {w : World} (good : P w) :
    P { w with board := w.board.connectAll pins connection } := by
  induction pins generalizing w with
  | nil => exact good
  | cons pin pins ih => exact ih (kept.pin w (.connect pin connection) (wires _ rfl) good)

theorem release (id : String) (pins : List Pin) {w : World} (good : P w) :
    P { w with board := pins.foldl (Registry.release id) w.board } := by
  induction pins generalizing w with
  | nil => exact good
  | cons pin pins ih =>
    have released : P { w with board := Registry.release id w.board pin } := by
      unfold Registry.release
      split
      · exact kept.pin w (.disconnect pin) (wires _ rfl) good
      · exact good
    exact ih released

theorem reconnect (registry : Registry) {w : World} (good : P w) :
    P { w with board := registry.reconnect w.board } := by
  obtain ⟨entries⟩ := registry
  simp only [Registry.reconnect]
  induction entries generalizing w with
  | nil => exact good
  | cons p entries ih => exact ih (kept.connectAll wires p.connection p.pins good)

theorem remove (registry : Registry) (id : String) {w : World} (good : P w) :
    P { w with board := (registry.remove w.board id).2 } := by
  simp only [Registry.remove, Registry.remove?]
  cases registry.find? id with
  | none => exact good
  | some p => exact kept.release wires id p.pins good

theorem register {e : Engine} (p : Peripheral) (good : P e.world) : P (e.register p).world :=
  kept.connectAll wires p.connection p.pins (kept.remove wires e.registry p.id good)

theorem reset {e : Engine} (resets : A .resetAll) (good : P e.world) : P e.reset.world := by
  have cleared := kept.pin _ .resetAll resets (kept.stop good)
  have wired := kept.reconnect wires e.stop.registry cleared
  have told := kept.note _ (e.stop.registry.hooks.map .reset) (by simp [News.isNote]) wired
  exact kept.note _ _ rfl (kept.clearPending _ (kept.scopes _ .empty told))

end Wiring

theorem engineStep (drives : ∀ op : PinOperation, op.FromSketch → A op) {e e' : Engine} {last : Progress}
    (good : P e.world) (h : e.step = some (last, e')) : P e'.world := by
  by_cases due : e.isDue = true
  · obtain ⟨span, thread, next, run, -, -, rfl⟩ | ⟨fault, thread, run, -, rfl⟩ := Engine.step_cases due h
    · exact kept.run drives good (.inl ⟨span, run⟩)
    · exact kept.afterFailure fault.message _ (kept.run drives good (.inr ⟨fault, run⟩))
  · obtain ⟨_, same⟩ := Engine.step_of_not_isDue (Bool.eq_false_iff.2 due)
    cases same.symm.trans h
    exact good

end World.Kept

-- What moves that an operation is made of may lead to, it may lead to.
theorem HostOperation.IsPartOf.mayDo {o op : HostOperation} (part : o.IsPartOf op) {pin : PinOperation}
    (may : o.MayDo pin) : op.MayDo pin := by
  cases part <;> exact may

theorem World.Kept.move {A : PinOperation → Prop} {P : World → Prop} (kept : World.Kept A P)
    {op : HostOperation} (allowed : ∀ o, op.MayDo o → A o) (read : ∀ json, op ≠ .importCircuit json)
    (held : op ≠ .takeNews) {e e' : Engine} (move : e.Move op e') (good : P e.world) : P e'.world := by
  cases move with
  | start started =>
    unfold Engine.start at started
    split at started
    · cases started
    · cases started
      exact kept.note _ _ rfl (kept.scopes _ _ good)
  | stop => exact kept.stop good
  | reset => exact kept.reset (fun o wiring => allowed o (.inr wiring)) (allowed _ (.inl rfl)) good
  | step step => exact kept.engineStep allowed good step
  | setSpeed | advance => exact good
  | evaluate | check => exact kept.random _ _ good
  | register p => exact kept.register allowed p good
  | remove id => exact kept.remove allowed e.registry id good
  | @importCircuit json => exact absurd rfl (read json)
  | pin op => exact kept.pin _ op (allowed op rfl) good
  | listen => exact kept.listen _ good
  | takeNews => exact absurd rfl held

/-- What is kept by all that can happen to a world is kept by every operation of a host, but for the
report of a circuit that cannot be read, and for news being handed out. -/
theorem World.Kept.apply {A : PinOperation → Prop} {P : World → Prop} (kept : World.Kept A P)
    {op : HostOperation} (allowed : ∀ o, op.MayDo o → A o) {e e' : Engine} (done : op.apply e = some e')
    (unread : ∀ json, op = .importCircuit json → P e.world → P (e.importCircuit json).2.world)
    (handed : op = .takeNews → P e.world → P e'.world) (good : P e.world) : P e'.world := by
  by_cases imports : ∃ json, op = .importCircuit json
  · obtain ⟨json, rfl⟩ := imports
    cases done
    exact unread json rfl good
  by_cases hands : op = .takeNews
  · exact handed hands good
  refine HostOperation.apply_keeps (P := fun e => P e.world) ?_ good done
  intro o _ _ part move
  refine kept.move (fun pin may => allowed pin (part.mayDo may)) ?_ ?_ move
  · rintro json rfl
    cases part
    exact imports ⟨json, rfl⟩
  · rintro rfl
    cases part
    exact hands rfl

end Breadboard
