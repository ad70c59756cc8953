import Breadboard.Proofs.BoardInvariant
import Breadboard.Proofs.Subscription

set_option autoImplicit false

/-!
Observers of the pins. Main statement: an observer that looks at the board when it subscribes and
takes in all that it is told knows the mode, level and duty of every pin at any moment; it is told once
of a change that can be seen, and of no other, and of every pin when all are made anew.
-/
namespace Breadboard

-- What can be seen of a pin.
def PinState.visible (s : PinState) : Mode × Bool × Nat := (s.mode, s.high, s.duty)

-- What an observer knows: the mode, the level and the duty of every pin.
abbrev View := Pin → Option (Mode × Bool × Nat)

def View.learn (v : View) (n : Notice) : View := fun p => if n.pin = p then some n.state.visible else v p

def View.learnAll (v : View) (notices : List Notice) : View := notices.foldl View.learn v

theorem View.learnAll_append (v : View) (a b : List Notice) :
    v.learnAll (a ++ b) = (v.learnAll a).learnAll b :=
  List.foldl_append

namespace Board

-- What can be seen of a board.
def view (b : Board) : View := fun p => (b.state? p).map PinState.visible

-- The news of a pin that looks different afterwards.
def newsAt (b b' : Board) (p : Pin) : List Notice :=
  if b'.view p = b.view p then [] else ((b'.state? p).map (Notice.mk p)).toList

end Board

/-- What an operation on the pins is news of: the pin that it is addressed to, if that looks different
afterwards, and all pins in the order of the board if it makes them anew. -/
def PinOperation.news (op : PinOperation) (b : Board) : List Notice :=
  match op with
  | .resetAll => Board.layout.map fun p => ⟨p, .ofPin p⟩
  | op => op.pin?.elim [] (b.newsAt (op.perform b).1)

namespace Board

theorem newsAt_of_same {b b' : Board} {p : Pin} (same : b'.view p = b.view p) : b.newsAt b' p = [] := by
  simp [newsAt, same]

-- A write whose comparison finds all changes that can be seen, and no other ones, tells of them.
theorem notices_write (b : Board) (p : Pin) {f : PinState → PinState} {differs : PinState → PinState → Bool}
    (finds : ∀ s, differs s (f s) = false ↔ s.visible = (f s).visible) :
    (b.write p f differs).2 = b.newsAt (b.write p f differs).1 p := by
  by_cases rail : p.isRail = true
  · simp [write, rail, newsAt]
  · cases present : b.state? p with
    | none => simp [write, rail, present, newsAt]
    | some s =>
      have written : (b.update p f).state? p = some (f s) := by
        rw [state?_update_self, present]
        rfl
      have done : b.write p f differs = (b.update p f, if differs s (f s) then [⟨p, f s⟩] else []) := by
        simp [write, rail, present]
      have same : (f s).visible = s.visible ↔ differs s (f s) = false := eq_comm.trans (finds s).symm
      simp only [done, newsAt, view, present, written, Option.map_some, Option.some.injEq, same]
      cases differs s (f s) <;> rfl

theorem newsAt_update {b : Board} {f : PinState → PinState} (p : Pin)
    (unseen : ∀ s, (f s).visible = s.visible) : b.newsAt (b.update p f) p = [] := by
  apply newsAt_of_same
  have same : PinState.visible ∘ f = PinState.visible := funext unseen
  rw [view, state?_update_self, Option.map_map, same]
  rfl

-- Observers are told of an operation what it is news of.
theorem notices_perform (op : PinOperation) (b : Board) : (op.perform b).2 = op.news b := by
  cases op with
  | resetAll => simp [PinOperation.perform, PinOperation.news, reset, freshPins]
  | connect pin connection =>
    exact (newsAt_update (f := fun s => { s with connection := some connection }) pin fun _ => rfl).symm
  | disconnect pin =>
    exact (newsAt_update (f := fun s => { s with connection := none }) pin fun _ => rfl).symm
  | subscribe | unsubscribe _ => rfl
  -- Each write compares only what it can change.
  | setMode pin mode =>
    refine notices_write b pin fun s => ?_
    simp [PinState.visible, PinState.setMode]
  | writeDigital pin value =>
    refine notices_write b pin fun s => ?_
    simp [PinState.visible, PinState.writeDigital]
  | writeAnalog pin duty =>
    refine notices_write b pin fun s => ?_
    simp [PinState.visible, PinState.writeAnalog, and_comm]
  | setAnalog pin value =>
    refine notices_write b pin fun s => ?_
    simp [PinState.visible, PinState.setAnalog]

-- One notice is all that there is to know of a change of one pin.
theorem learnAll_newsAt {b b' : Board} {p : Pin} (others : ∀ q, p ≠ q → b'.view q = b.view q)
    (stays : b'.state? p = none → b.state? p = none) : b.view.learnAll (b.newsAt b' p) = b'.view := by
  funext q
  by_cases same : b'.view p = b.view p
  · rw [newsAt_of_same same]
    by_cases here : p = q
    · subst here
      exact same.symm
    · exact (others q here).symm
  · cases present : b'.state? p with
    | none =>
      have unseen : b'.view p = b.view p := by rw [view, view, present, stays present]
      exact absurd unseen same
    | some s =>
      have told : b.newsAt b' p = [⟨p, s⟩] := by simp [newsAt, same, present]
      simp only [told, View.learnAll, List.foldl_cons, List.foldl_nil, View.learn]
      split
      · rename_i here
        subst here
        rw [view, present]
        rfl
      · rename_i elsewhere
        exact (others q elsewhere).symm

theorem learnAll_anew (pins : List Pin) (v : View) (q : Pin) :
    v.learnAll (pins.map fun p => ⟨p, .ofPin p⟩) q =
      if q ∈ pins then some (PinState.ofPin q).visible else v q := by
  induction pins generalizing v with
  | nil => simp [View.learnAll]
  | cons p pins ih =>
    have first : v.learnAll ((p :: pins).map fun p => ⟨p, .ofPin p⟩) =
        (v.learn ⟨p, .ofPin p⟩).learnAll (pins.map fun p => ⟨p, .ofPin p⟩) := rfl
    rw [first, ih]
    by_cases later : q ∈ pins
    · simp [later]
    · by_cases here : p = q
      · subst here
        simp [later, View.learn]
      · have absent : q ∉ p :: pins := by simp [later, Ne.symm here]
        simp [later, absent, View.learn, here]

theorem view_reset {b : Board} (sound : b.Sound) :
    b.reset.1.view = b.view.learnAll (layout.map fun p => ⟨p, .ofPin p⟩) := by
  funext q
  have listed := (b.reset.1.state?_isSome_iff q).trans (by rw [(sound_reset b).pins_eq])
  rw [learnAll_anew]
  split
  · rename_i present
    obtain ⟨s, made⟩ := Option.isSome_iff_exists.1 (listed.2 present)
    rw [view, made, b.state?_reset made]
    rfl
  · rename_i absent
    have before : b.state? q = none := by
      rw [← Option.not_isSome_iff_eq_none, state?_isSome_iff, sound.pins_eq]
      exact absent
    have after : b.reset.1.state? q = none := by
      rw [← Option.not_isSome_iff_eq_none, listed]
      exact absent
    rw [view, view, before, after]

theorem view_perform (op : PinOperation) {b : Board} (sound : b.Sound) :
    (op.perform b).1.view = b.view.learnAll (op.perform b).2 := by
  rw [notices_perform]
  by_cases anew : op = .resetAll
  · subst anew
    exact view_reset sound
  · have news : op.news b = op.pin?.elim [] (b.newsAt (op.perform b).1) := by
      cases op with
      | resetAll => exact absurd rfl anew
      | _ => rfl
    have others (q : Pin) (other : op.pin? ≠ some q) : (op.perform b).1.view q = b.view q := by
      rw [view, state?_perform anew]
      simp [PinOperation.reaches, other, view]
    rw [news]
    cases addressed : op.pin? with
    | none =>
      funext q
      exact others q (by simp [addressed])
    | some p =>
      refine (learnAll_newsAt ?_ ?_).symm
      · intro q other
        exact others q (by simpa [addressed] using other)
      · intro gone
        rw [state?_perform anew] at gone
        split at gone
        · exact Option.map_eq_none_iff.1 gone
        · exact gone

theorem view_after (ops : List PinOperation) {b : Board} (sound : b.Sound) :
    (b.after ops).view = b.view.learnAll (b.notices ops) := by
  induction ops generalizing b with
  | nil => rfl
  | cons op ops ih =>
    have later := ih (sound.perform op)
    rw [view_perform op sound, ← View.learnAll_append] at later
    exact later

theorem subscribers_write (b : Board) (p : Pin) (f : PinState → PinState)
    (differs : PinState → PinState → Bool) : (b.write p f differs).1.subscribers = b.subscribers := by
  unfold write
  split
  · rfl
  · split <;> rfl

theorem subscribers_perform (op : PinOperation) (b : Board) :
    (op.perform b).1.subscribers =
      match op with
      | .subscribe => b.subscribers.add.2
      | .unsubscribe id => (b.subscribers.remove id).2
      | _ => b.subscribers := by
  cases op with
  | connect _ _ | disconnect _ | resetAll | subscribe | unsubscribe _ => rfl
  | _ => exact subscribers_write b _ _ _

theorem distinct_perform (op : PinOperation) {b : Board} (distinct : b.subscribers.Distinct) :
    (op.perform b).1.subscribers.Distinct := by
  rw [subscribers_perform]
  cases op with
  | subscribe => exact distinct.add
  | unsubscribe id => exact distinct.remove id
  | _ => exact distinct

/-- A board of which the observer `id` is told. -/
structure Watched (id : Nat) (b : Board) : Prop where
  sound : b.Sound
  distinct : b.subscribers.Distinct
  active : id ∈ b.subscribers.active

variable {id : Nat} {b : Board}

theorem Watched.perform {op : PinOperation} (stays : op ≠ .unsubscribe id) (watched : b.Watched id) :
    (op.perform b).1.Watched id := by
  refine ⟨watched.sound.perform op, distinct_perform op watched.distinct, ?_⟩
  rw [subscribers_perform]
  cases op with
  | subscribe => exact List.mem_append_left _ watched.active
  | unsubscribe other =>
    have differs : id ≠ other := fun same => stays (by rw [same])
    exact List.mem_filter.2 ⟨watched.active, by simpa using differs⟩
  | _ => exact watched.active

theorem Watched.after {ops : List PinOperation} (stays : ∀ op ∈ ops, op ≠ .unsubscribe id)
    (watched : b.Watched id) : (b.after ops).Watched id :=
  after_invariant (fun op listed _ => Watched.perform (stays op listed)) watched

theorem Watched.heardBy_deliver (watched : b.Watched id) (notices : List Notice) :
    Subscribers.heardBy id (b.subscribers.deliver notices) = notices := by
  rw [Subscribers.heardBy_deliver watched.distinct, if_pos watched.active]

end Board

-- No operation ends a subscription but the one that is meant to.
theorem HostOperation.ne_unsubscribe {op : HostOperation} {id : Nat} (stays : op ≠ .pin (.unsubscribe id))
    {o : PinOperation} (may : op.MayDo o) : o ≠ .unsubscribe id := by
  rintro rfl
  cases op with
  | step | poll => cases may
  | pin op =>
    cases may
    exact stays rfl
  | reset => obtain may | may := may <;> cases may
  | register _ | remove _ | attachCircuit _ => cases may
  | _ => exact may

namespace Engine

-- Who is told what of the pins while a host drives an engine. An operation adds no observer and takes
-- none away before it tells them.
def heard (e : Engine) : List HostOperation → List (Nat × Notice)
  | [] => []
  | op :: ops =>
    match op.apply e with
    | some e' => e.board.subscribers.deliver (e.world.notices e'.world) ++ e'.heard ops
    | none => []

variable {id : Nat} {e e' : Engine}

theorem watched_apply {op : HostOperation} (stays : op ≠ .pin (.unsubscribe id))
    (watched : e.board.Watched id) (done : op.apply e = some e') :
    e'.board.Watched id ∧ e'.board.view = e.board.view.learnAll (e.world.notices e'.world) := by
  obtain ⟨ops, allowed, board, told⟩ := HostOperation.board_apply done
  rw [board, told]
  refine ⟨watched.after ?_, Board.view_after ops watched.sound⟩
  intro o listed
  exact HostOperation.ne_unsubscribe stays (allowed o listed)

theorem watched_afterAll {ops : List HostOperation} (stays : .pin (.unsubscribe id) ∉ ops)
    (watched : e.board.Watched id) (ran : e.afterAll ops = some e') :
    e'.board.Watched id ∧
      e'.board.view = e.board.view.learnAll (Subscribers.heardBy id (e.heard ops)) := by
  induction ops generalizing e with
  | nil =>
    cases ran
    exact ⟨watched, rfl⟩
  | cons op ops ih =>
    unfold afterAll at ran
    split at ran
    · rename_i next done
      obtain ⟨first, others⟩ := not_or.1 (List.mem_cons.not.1 stays)
      obtain ⟨later, seen⟩ := watched_apply (Ne.symm first) watched done
      obtain ⟨final, known⟩ := ih others later ran
      refine ⟨final, ?_⟩
      simp only [heard, done]
      rw [Subscribers.heardBy_append, watched.heardBy_deliver, View.learnAll_append, ← seen]
      exact known
    · cases ran

-- A sketch under way has told of all that it has done to the pins.
theorem watched_after {n : Nat} {t : Thread} (watched : e.board.Watched id)
    (reached : e.thread.after e.setting n = some t) :
    t.world.board.Watched id ∧
      t.world.board.view = e.board.view.learnAll (e.world.notices t.world) := by
  have kept := World.kept_leads PinOperation.FromSketch e.world
  obtain ⟨ops, fromSketch, follows⟩ := kept.after (fun _ drives => drives) (World.leads_refl _ e.world) reached
  rw [follows.board_eq, follows.notices_eq]
  refine ⟨watched.after ?_, Board.view_after ops watched.sound⟩
  rintro op listed rfl
  cases fromSketch _ listed

theorem Reachable.watched {config : Config} (reached : Engine.Reachable config e) :
    (e.onBoard PinOperation.subscribe.perform).board.Watched e.board.subscribe.1 where
  sound := reached.board_sound.perform .subscribe
  distinct := by
    have distinct : e.board.subscribers.Distinct :=
      reached.board_invariant (P := fun b => b.subscribers.Distinct) Subscribers.distinct_none
        fun op _ distinct => Board.distinct_perform op distinct
    exact distinct.add
  active := List.mem_append_right _ (List.mem_singleton.2 rfl)

/-- Let an observer look at the board of any engine that a host can come to, and subscribe. As long as
it does not unsubscribe, whatever the host does, it knows what can be seen of every pin: after every
operation of the host and at every step of a sketch. Of an operation on the pins, by the host or by an
action of the sketch, it is told what that is news of, and nothing else. -/
theorem observers_never_stale (config : Config) (e : Engine) (reached : Engine.Reachable config e)
    (ops : List HostOperation) (e' : Engine)
    (ran : (e.onBoard PinOperation.subscribe.perform).afterAll ops = some e')
    (stays : HostOperation.pin (.unsubscribe e.board.subscribe.1) ∉ ops) :
    let id := e.board.subscribe.1
    let heard := (e.onBoard PinOperation.subscribe.perform).heard ops
    e.board.view.learnAll (Subscribers.heardBy id heard) = e'.board.view ∧
    (∀ op : PinOperation, Subscribers.heardBy id (e'.heard [.pin op]) = op.news e'.board) ∧
    ∀ n t, e'.thread.after e'.setting n = some t →
      let meanwhile := e'.board.subscribers.deliver (e'.world.notices t.world)
      e.board.view.learnAll (Subscribers.heardBy id (heard ++ meanwhile)) = t.world.board.view ∧
      ∀ (p : Pace) (a : Action),
        let w := (a.perform p t.world).1
        let told := Subscribers.heardBy id (t.world.board.subscribers.deliver (t.world.notices w))
        (w.board = t.world.board ∧ told = []) ∨
          ∃ op : PinOperation, op.FromSketch ∧ w.board = (op.perform t.world.board).1 ∧
            told = op.news t.world.board := by
  intro id heard
  obtain ⟨watched, known⟩ := watched_afterAll stays reached.watched ran
  refine ⟨known.symm, ?_, ?_⟩
  · intro op
    have told : e'.world.notices (e'.onBoard op.perform).world = (op.perform e'.board).2 :=
      ((World.Follows.refl e'.world).pin op).notices_eq.trans (Board.notices_singleton _ op)
    have heard : e'.heard [.pin op] =
        e'.board.subscribers.deliver (e'.world.notices (e'.onBoard op.perform).world) ++ [] := rfl
    rw [heard, List.append_nil, watched.heardBy_deliver, told, Board.notices_perform]
  · intro n t running
    obtain ⟨watching, seen⟩ := watched_after watched running
    refine ⟨?_, ?_⟩
    · rw [Subscribers.heardBy_append, watched.heardBy_deliver, View.learnAll_append, seen, known]
      rfl
    · intro p a w told
      have all : told = t.world.notices w := watching.heardBy_deliver _
      rw [all]
      obtain follows | ⟨op, fromSketch, follows⟩ := Action.follows_perform p t.world a
      · exact .inl ⟨follows.board_eq, follows.notices_eq⟩
      · refine .inr ⟨op, fromSketch, follows.board_eq, ?_⟩
        rw [follows.notices_eq, Board.notices_singleton, Board.notices_perform]

-- A sketch drives a pin that the host then pulses with something that is no number.
def blinking : List HostOperation :=
  [.pin (.writeAnalog (.gpio 5) 9.0), .pin .subscribe,
    .start "String led = \"D5\";\nString out = \"OUTPUT\";\nvoid setup() { pinMode(led, out); digitalWrite(led, 0); }",
    .step, .pin (.writeAnalog (.gpio 5) (0.0 / 0.0)), .pin (.unsubscribe 1), .pin (.writeDigital (.gpio 5) 7.0)]

theorem observers_never_stale_blinking :
    let e := ofConfig .standard
    let watched := e.onBoard PinOperation.subscribe.perform
    Engine.Reachable .standard e ∧ HostOperation.pin (.unsubscribe 0) ∉ blinking ∧
      ∃ e', watched.afterAll blinking = some e' ∧
        (Subscribers.heardBy 0 (watched.heard blinking)).length = 5 ∧
        e.board.view.learnAll (Subscribers.heardBy 0 (watched.heard blinking)) (.gpio 5) =
          some (.output, true, 0) := by
  intro e watched
  have stays : HostOperation.pin (.unsubscribe 0) ∉ blinking := by simp [blinking]
  have shown : (watched.afterAll blinking).map (fun e' => e'.board.view (.gpio 5)) =
      some (some (.output, true, 0)) := by
    decide +kernel
  have told : (Subscribers.heardBy 0 (watched.heard blinking)).length = 5 := by decide +kernel
  obtain ⟨e', ran, seen⟩ := Option.map_eq_some_iff.1 shown
  obtain ⟨known, -⟩ := observers_never_stale .standard e .created blinking e' ran stays
  exact ⟨.created, stays, e', ran, told, (congrFun known (.gpio 5)).trans seen⟩

end Engine

end Breadboard
