import Breadboard.Proofs.Subscription
import Breadboard.Serial
import Mathlib.Data.List.DropRight

set_option autoImplicit false

/-!
What becomes of the text that a monitor is given. Main statement: over any sequence of requests to a
new monitor no text is lost, doubled or moved, the history holds the latest events, and a subscriber
hears of the events between its subscription and its end, and of no others.
-/
namespace Breadboard

namespace Serial

inductive Request where
  | print (text : String)
  | emit (text : String) (category : Category) (elapsed : Float)
  | flush (elapsed : Float)
  | subscribe
  | unsubscribe (id : Nat)
  deriving DecidableEq

namespace Request

def text : Request → List Char
  | print text | emit text _ _ => text.toList
  | _ => []

-- What a request adds to the lines of a monitor that has dropped nothing.
def shown : Request → List Char
  | print text => text.toList
  | emit text category _ => text.toList ++ if category.endsLine then ['\n'] else []
  | _ => []

end Request

def Event.shown (e : Event) : List Char :=
  e.text.toList ++ if e.category.endsLine then ['\n'] else []

-- What a subscriber hears, of all that is heard.
def received (id : Nat) (heard : List (Nat × Event)) : List Event :=
  (heard.filter (·.1 == id)).map Prod.snd

@[simp] theorem received_append (id : Nat) (a b : List (Nat × Event)) :
    received id (a ++ b) = received id a ++ received id b := by
  simp [received]

-- Every subscriber hears of every event once.
theorem received_deliver {s : Subscribers} (distinct : s.Distinct) (id : Nat) (events : List Event) :
    received id (s.deliver events) = if id ∈ s.active then events else [] :=
  Subscribers.heardBy_deliver distinct id events

namespace Monitor

-- Carries out a request and gives the events that it pushes.
def perform (m : Monitor) : Request → Monitor × List Event
  | .print text => (m.print text, [])
  | .emit text category elapsed => m.emit text category elapsed
  | .flush elapsed => m.flush elapsed
  | .subscribe => (m.subscribe.2, [])
  | .unsubscribe id => ((m.unsubscribe id).2, [])

def after (m : Monitor) : List Request → Monitor
  | [] => m
  | r :: rs => (m.perform r).1.after rs

-- All events that a sequence of requests pushes.
def pushed (m : Monitor) : List Request → List Event
  | [] => []
  | r :: rs => (m.perform r).2 ++ (m.perform r).1.pushed rs

-- All that is heard, and by whom: an event goes to those who are subscribed when it is pushed.
def heard (m : Monitor) : List Request → List (Nat × Event)
  | [] => []
  | r :: rs => m.subscribers.deliver (m.perform r).2 ++ (m.perform r).1.heard rs

section Runs

variable (m : Monitor) (r : Request) (rs : List Request)

theorem after_nil : m.after [] = m := rfl

theorem after_cons : m.after (r :: rs) = (m.perform r).1.after rs := rfl

theorem pushed_nil : m.pushed [] = [] := rfl

theorem pushed_cons : m.pushed (r :: rs) = (m.perform r).2 ++ (m.perform r).1.pushed rs := rfl

theorem heard_cons :
    m.heard (r :: rs) = m.subscribers.deliver (m.perform r).2 ++ (m.perform r).1.heard rs := rfl

end Runs

theorem after_append (m : Monitor) (a b : List Request) : m.after (a ++ b) = (m.after a).after b := by
  induction a generalizing m with
  | nil => rfl
  | cons r rs ih => exact ih (m.perform r).1

theorem pushed_append (m : Monitor) (a b : List Request) :
    m.pushed (a ++ b) = m.pushed a ++ (m.after a).pushed b := by
  induction a generalizing m with
  | nil => rfl
  | cons r rs ih => simp [pushed_cons, after_cons, ih]

theorem heard_append (m : Monitor) (a b : List Request) :
    m.heard (a ++ b) = m.heard a ++ (m.after a).heard b := by
  induction a generalizing m with
  | nil => rfl
  | cons r rs ih => simp [heard_cons, after_cons, ih]

/-! Text -/

theorem text_perform (m : Monitor) (r : Request) :
    m.pending.toList ++ r.text =
      (m.perform r).2.flatMap (·.text.toList) ++ (m.perform r).1.pending.toList := by
  cases r with
  | flush elapsed =>
    by_cases held : m.pending = ""
    · simp [perform, Request.text, flush_of_empty held]
    · simp [perform, Request.text, flush_of_pending held, emit, push]
  | _ => simp [perform, Request.text, print, emit, push, subscribe, unsubscribe]

-- What every single request conserves, a sequence of them does.
theorem conserved_after {f : Event → List Char} {g : Request → List Char}
    (conserved : ∀ (m : Monitor) (r : Request), m.pending.toList ++ g r =
      (m.perform r).2.flatMap f ++ (m.perform r).1.pending.toList) (m : Monitor) (rs : List Request) :
    m.pending.toList ++ rs.flatMap g = (m.pushed rs).flatMap f ++ (m.after rs).pending.toList := by
  induction rs generalizing m with
  | nil => simp [pushed_nil, after_nil]
  | cons r rs ih =>
    calc
      m.pending.toList ++ (r :: rs).flatMap g = (m.pending.toList ++ g r) ++ rs.flatMap g := by simp
      _ = (m.perform r).2.flatMap f ++ ((m.perform r).1.pending.toList ++ rs.flatMap g) := by
        rw [conserved, List.append_assoc]
      _ = (m.pushed (r :: rs)).flatMap f ++ (m.after (r :: rs)).pending.toList := by
        rw [ih]
        simp [pushed_cons, after_cons]

/-! History -/

/-- A monitor that keeps the latest of the events `log`. -/
structure Keeps (capacity : Nat) (log : List Event) (m : Monitor) : Prop where
  capacity_eq : m.capacity = max capacity 1
  recent_eq : m.recent = log.reverse.take (max capacity 1)

variable {capacity : Nat} {log : List Event} {m : Monitor}

theorem keeps_ofCapacity (capacity : Nat) : (ofCapacity capacity).Keeps capacity [] where
  capacity_eq := rfl
  recent_eq := by simp [ofCapacity]

-- Whether there is room or not, a new event goes in front and the front is kept.
theorem recent_push (m : Monitor) (e : Event) :
    (m.push e).recent = (e :: m.recent).take (max m.capacity 1) := by
  obtain ⟨room, size⟩ : ∃ room, max m.capacity 1 = room + 1 :=
    Nat.exists_eq_add_one_of_ne_zero (by omega)
  simp only [push, size, List.take_succ_cons]
  split
  · rw [List.take_of_length_le (by omega)]
  · have same : m.capacity - 1 = room := by omega
    rw [same]

theorem Keeps.push (keeps : m.Keeps capacity log) (e : Event) :
    (m.push e).Keeps capacity (log ++ [e]) := by
  refine ⟨keeps.capacity_eq, ?_⟩
  obtain ⟨room, size⟩ : ∃ room, max capacity 1 = room + 1 :=
    Nat.exists_eq_add_one_of_ne_zero (by omega)
  simp [recent_push, keeps.capacity_eq, size, keeps.recent_eq, List.take_take]

theorem Keeps.perform (keeps : m.Keeps capacity log) (r : Request) :
    (m.perform r).1.Keeps capacity (log ++ (m.perform r).2) := by
  have emitted (text : String) (category : Category) (elapsed : Float) :
      (m.emit text category elapsed).1.Keeps capacity (log ++ (m.emit text category elapsed).2) :=
    Keeps.push (m := { m with pending := "" }) ⟨keeps.capacity_eq, keeps.recent_eq⟩ _
  have unchanged {m' : Monitor} (same : m'.capacity = m.capacity) (recent : m'.recent = m.recent) :
      m'.Keeps capacity (log ++ []) := by
    rw [List.append_nil]
    exact ⟨same.trans keeps.capacity_eq, recent.trans keeps.recent_eq⟩
  cases r with
  | emit text category elapsed => exact emitted text category elapsed
  | flush elapsed =>
    by_cases held : m.pending = ""
    · simp only [Monitor.perform, flush_of_empty held]
      exact unchanged rfl rfl
    · simp only [Monitor.perform, flush_of_pending held]
      exact emitted _ _ _
  | print text => exact unchanged rfl rfl
  | subscribe => exact unchanged rfl rfl
  | unsubscribe id => exact unchanged rfl rfl

theorem Keeps.after (keeps : m.Keeps capacity log) (rs : List Request) :
    (m.after rs).Keeps capacity (log ++ m.pushed rs) := by
  induction rs generalizing m log with
  | nil => simpa [after_nil, pushed_nil] using keeps
  | cons r rs ih => simpa [after_cons, pushed_cons] using ih (keeps.perform r)

theorem Keeps.events_eq (keeps : m.Keeps capacity log) :
    m.events = log.rtake (min log.length (max capacity 1)) := by
  rw [events, keeps.recent_eq, ← List.rtake_eq_reverse_take_reverse, List.rtake, List.rtake]
  congr 1
  omega

theorem events_after (capacity : Nat) (rs : List Request) :
    ((ofCapacity capacity).after rs).events =
      ((ofCapacity capacity).pushed rs).rtake
        (min ((ofCapacity capacity).pushed rs).length (max capacity 1)) :=
  ((keeps_ofCapacity capacity).after rs).events_eq

/-! Lines -/

theorem shown_perform (m : Monitor) (r : Request) :
    m.pending.toList ++ r.shown =
      (m.perform r).2.flatMap Event.shown ++ (m.perform r).1.pending.toList := by
  cases r with
  | flush elapsed =>
    by_cases held : m.pending = ""
    · simp [perform, Request.shown, flush_of_empty held]
    · simp [perform, Request.shown, Event.shown, flush_of_pending held, emit, push, Category.endsLine]
  | _ => simp [perform, Request.shown, Event.shown, print, emit, push, subscribe, unsubscribe]

-- As long as nothing is dropped, the lines are told from the requests alone.
theorem transcript_after {capacity : Nat} {rs : List Request}
    (all : ((ofCapacity capacity).pushed rs).length ≤ max capacity 1) :
    ((ofCapacity capacity).after rs).transcript = rs.flatMap Request.shown := by
  have shown := conserved_after shown_perform (ofCapacity capacity) rs
  have kept : ((ofCapacity capacity).after rs).events = (ofCapacity capacity).pushed rs := by
    rw [events_after, List.rtake, Nat.min_eq_left all, Nat.sub_self, List.drop_zero]
  rw [transcript, kept]
  exact shown.symm

-- What a request pushes, and what is held after it, is told from what is held before.
theorem perform_of_pending {m n : Monitor} (same : m.pending = n.pending) (r : Request) :
    (m.perform r).2 = (n.perform r).2 ∧ (m.perform r).1.pending = (n.perform r).1.pending := by
  cases r with
  | flush elapsed =>
    by_cases held : n.pending = ""
    · simp [perform, flush_of_empty held, flush_of_empty (same.trans held), same]
    · simp [perform, flush_of_pending held, flush_of_pending (same ▸ held), emit, same]
  | _ => simp [perform, print, emit, subscribe, unsubscribe, same]

theorem pushed_of_pending {m n : Monitor} (same : m.pending = n.pending) (rs : List Request) :
    m.pushed rs = n.pushed rs := by
  induction rs generalizing m n with
  | nil => rfl
  | cons r rs ih =>
    obtain ⟨events, pending⟩ := perform_of_pending same r
    rw [pushed_cons, pushed_cons, events, ih pending]

theorem length_perform_le (m : Monitor) (r : Request) : (m.perform r).2.length ≤ 1 := by
  cases r with
  | flush elapsed =>
    by_cases held : m.pending = ""
    · simp [perform, flush_of_empty held]
    · simp [perform, flush_of_pending held, emit]
  | _ => simp [perform, emit]

-- Text that is held already makes one more event at most.
theorem length_pushed_le (m n : Monitor) (rs : List Request) :
    (m.pushed rs).length ≤ (n.pushed rs).length + 1 := by
  induction rs generalizing m n with
  | nil => simp [pushed_nil]
  | cons r rs ih =>
    -- Once an event has ended, nothing is held on either side.
    have ended (same : (m.perform r).1.pending = (n.perform r).1.pending) :
        (m.pushed (r :: rs)).length ≤ (n.pushed (r :: rs)).length + 1 := by
      have once := length_perform_le m r
      simp only [pushed_cons, pushed_of_pending same, List.length_append]
      omega
    cases r with
    | emit text category elapsed => exact ended rfl
    | flush elapsed => exact ended (by simp [perform])
    | print text => exact ih (m.print text) (n.print text)
    | subscribe => exact ih m.subscribe.2 n.subscribe.2
    | unsubscribe id => exact ih (m.unsubscribe id).2 (n.unsubscribe id).2

theorem length_pushed_without_flush (m : Monitor) (before later : List Request) (elapsed : Float) :
    (m.pushed (before ++ later)).length ≤ (m.pushed (before ++ .flush elapsed :: later)).length := by
  rw [pushed_append, pushed_append, List.length_append, List.length_append]
  apply Nat.add_le_add_left
  by_cases held : (m.after before).pending = ""
  · simp [pushed_cons, perform, flush_of_empty held]
  · have less := length_pushed_le (m.after before) ((m.after before).emit "" .print elapsed).1 later
    simpa [pushed_cons, perform, flush_of_pending held, emit] using less

/-! Subscribers -/

theorem subscribers_perform (m : Monitor) (r : Request) :
    (m.perform r).1.subscribers =
      match r with
      | .subscribe => m.subscribers.add.2
      | .unsubscribe id => (m.subscribers.remove id).2
      | _ => m.subscribers := by
  cases r with
  | flush elapsed =>
    by_cases held : m.pending = ""
    · simp [perform, flush_of_empty held]
    · simp [perform, flush_of_pending held, emit, push]
  | _ => rfl

theorem distinct_perform {m : Monitor} (distinct : m.subscribers.Distinct) (r : Request) :
    (m.perform r).1.subscribers.Distinct := by
  rw [subscribers_perform]
  cases r with
  | subscribe => exact distinct.add
  | unsubscribe id => exact distinct.remove id
  | _ => exact distinct

theorem distinct_after {m : Monitor} (distinct : m.subscribers.Distinct) (rs : List Request) :
    (m.after rs).subscribers.Distinct := by
  induction rs generalizing m with
  | nil => exact distinct
  | cons r rs ih => exact ih (distinct_perform distinct r)

theorem next_perform (m : Monitor) (r : Request) :
    m.subscribers.next ≤ (m.perform r).1.subscribers.next := by
  rw [subscribers_perform]
  cases r <;> simp [Subscribers.add, Subscribers.remove]

theorem next_after (m : Monitor) (rs : List Request) :
    m.subscribers.next ≤ (m.after rs).subscribers.next := by
  induction rs generalizing m with
  | nil => exact Nat.le_refl _
  | cons r rs ih => exact Nat.le_trans (next_perform m r) (ih _)

-- Nobody hears anything under a number that has not been given out yet.
theorem received_of_fresh {m : Monitor} (distinct : m.subscribers.Distinct) {id : Nat}
    {rs : List Request} (fresh : (m.after rs).subscribers.next ≤ id) :
    received id (m.heard rs) = [] := by
  induction rs generalizing m with
  | nil => rfl
  | cons r rs ih =>
    have absent : id ∉ m.subscribers.active := by
      intro active
      have given := distinct.given id active
      have later := next_after m (r :: rs)
      omega
    rw [heard_cons, received_append, received_deliver distinct, if_neg absent]
    exact ih (distinct_perform distinct r) fresh

-- A number that is out of use is never given out again.
theorem received_of_gone {m : Monitor} (distinct : m.subscribers.Distinct) {id : Nat}
    (given : id < m.subscribers.next) (gone : id ∉ m.subscribers.active) (rs : List Request) :
    received id (m.heard rs) = [] := by
  induction rs generalizing m with
  | nil => rfl
  | cons r rs ih =>
    have still : id ∉ (m.perform r).1.subscribers.active := by
      rw [subscribers_perform]
      cases r with
      | subscribe =>
        simp only [Subscribers.add, List.mem_append, List.mem_singleton, not_or]
        exact ⟨gone, Nat.ne_of_lt given⟩
      | unsubscribe other =>
        intro active
        exact gone (List.mem_filter.1 active).1
      | _ => exact gone
    rw [heard_cons, received_append, received_deliver distinct, if_neg gone]
    exact ih (distinct_perform distinct r) (Nat.lt_of_lt_of_le given (next_perform m r)) still

-- From here on a subscriber hears of all events up to the end of its subscription.
theorem received_of_active {m : Monitor} (distinct : m.subscribers.Distinct) {id : Nat}
    (active : id ∈ m.subscribers.active) (rs : List Request) :
    received id (m.heard rs) = m.pushed (rs.takeWhile (· ≠ .unsubscribe id)) := by
  induction rs generalizing m with
  | nil => rfl
  | cons r rs ih =>
    rw [heard_cons, received_append, received_deliver distinct, if_pos active]
    by_cases ends : r = .unsubscribe id
    · subst ends
      have gone : id ∉ (m.perform (.unsubscribe id)).1.subscribers.active := by
        simp [subscribers_perform, Subscribers.remove]
      have given := Nat.lt_of_lt_of_le (distinct.given id active) (next_perform m (.unsubscribe id))
      rw [received_of_gone (distinct_perform distinct _) given gone]
      simp [perform, pushed_nil]
    · have still : id ∈ (m.perform r).1.subscribers.active := by
        rw [subscribers_perform]
        cases r with
        | subscribe => exact List.mem_append_left _ active
        | unsubscribe other =>
          have differs : id ≠ other := fun same => ends (by rw [same])
          exact List.mem_filter.2 ⟨active, by simpa using differs⟩
        | _ => exact active
      rw [ih (distinct_perform distinct r) still, List.takeWhile_cons_of_pos (by simpa using ends), pushed_cons]

theorem received_after_subscribe (capacity : Nat) (before later : List Request) :
    let m := (ofCapacity capacity).after before
    received m.subscribe.1 ((ofCapacity capacity).heard (before ++ .subscribe :: later)) =
      m.subscribe.2.pushed (later.takeWhile (· ≠ .unsubscribe m.subscribe.1)) := by
  intro m
  have distinct : m.subscribers.Distinct := distinct_after Subscribers.distinct_none before
  have active : m.subscribe.1 ∈ m.subscribe.2.subscribers.active :=
    List.mem_append_right _ (List.mem_singleton.2 rfl)
  have unheard : received m.subscribe.1 ((ofCapacity capacity).heard before) = [] :=
    received_of_fresh Subscribers.distinct_none (Nat.le_refl _)
  rw [heard_append, received_append, unheard, heard_cons]
  simpa [perform] using received_of_active distinct.add active later

/-- For all requests to a new monitor: the texts of all events and the text that is still held are the
texts that were given, in order; the history is the latest of these events; a subscriber hears of
what is pushed between its subscription and its end, once and in order; and the lines are the same
without a flush if nothing has been dropped, and with one print in place of two. -/
theorem text_conserved (capacity : Nat) (rs : List Request) :
    let m := ofCapacity capacity
    let log := m.pushed rs
    (log.flatMap (·.text.toList) ++ (m.after rs).pending.toList = rs.flatMap Request.text) ∧
    ((m.after rs).events = log.rtake (min log.length (max capacity 1))) ∧
    (∀ before later, rs = before ++ .subscribe :: later →
      let id := (m.after before).subscribe.1
      received id (m.heard rs) =
        (m.after before).subscribe.2.pushed (later.takeWhile (· ≠ .unsubscribe id))) ∧
    (∀ before elapsed later, rs = before ++ .flush elapsed :: later → log.length ≤ max capacity 1 →
      (m.after rs).output = (m.after (before ++ later)).output) ∧
    (∀ before a b later, rs = before ++ .print (a ++ b) :: later →
      (m.after rs).output = (m.after (before ++ .print a :: .print b :: later)).output) := by
  intro m log
  refine ⟨?_, events_after capacity rs, ?_, ?_, ?_⟩
  · exact (conserved_after text_perform m rs).symm
  · rintro before later rfl
    exact received_after_subscribe capacity before later
  · rintro before elapsed later rfl all
    have fewer := length_pushed_without_flush m before later elapsed
    have lines : (m.after (before ++ .flush elapsed :: later)).transcript =
        (m.after (before ++ later)).transcript := by
      rw [transcript_after all, transcript_after (Nat.le_trans fewer all)]
      simp [Request.shown]
    rw [output, lines, output]
  · rintro before a b later rfl
    have joined : ((m.after before).print a).print b = (m.after before).print (a ++ b) := by
      simp [print, String.append_assoc]
    simp only [after_append, after_cons, perform, joined]

-- One subscriber hears of the first two of three events, all of which are kept.
theorem text_conserved_two_heard :
    let first : List Request := [.print "a"]
    let second : List Request := [.emit "b" .println 1.0, .print "c"]
    let third : List Request := [.print "d", .unsubscribe 0, .emit "e" .system 3.0]
    let rs := first ++ .subscribe :: (second ++ .flush 2.0 :: third)
    let m := ofCapacity 3
    (m.pushed rs).length ≤ 3 ∧
      received 0 (m.heard rs) = [⟨"ab", .println, 1.0⟩, ⟨"c", .print, 2.0⟩] ∧
      (m.after rs).output = (m.after (first ++ .subscribe :: (second ++ third))).output := by
  intro first second third rs m
  obtain ⟨-, -, heard, flushed, -⟩ := text_conserved 3 rs
  have all : (m.pushed rs).length ≤ 3 := by decide +kernel
  refine ⟨all, ?_, ?_⟩
  · refine (heard first (second ++ .flush 2.0 :: third) rfl).trans ?_
    decide +kernel
  · exact flushed (first ++ .subscribe :: second) 2.0 third rfl all

end Monitor

end Serial

end Breadboard
