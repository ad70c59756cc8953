import Breadboard.Proofs.Effects

set_option autoImplicit false

/-!
The operations on a board that a run amounts to. Main statement: whatever a host does with an engine,
its board goes through a list of operations on pins, and the observers of the board are told of these
operations and of nothing else.
-/
namespace Breadboard

namespace PinOperation

-- The pin that an operation is addressed to.
def pin? : PinOperation → Option Pin
  | .setMode pin _ | .writeDigital pin _ | .writeAnalog pin _ | .setAnalog pin _ | .connect pin _
  | .disconnect pin => some pin
  | .resetAll | .subscribe | .unsubscribe _ => none

-- What an operation makes of the state of its pin.
def change : PinOperation → PinState → PinState
  | .setMode _ mode => .setMode mode
  | .writeDigital _ value => .writeDigital value
  | .writeAnalog _ duty => .writeAnalog duty
  | .setAnalog _ value => .setAnalog value
  | .connect _ connection => fun s => { s with connection := some connection }
  | .disconnect _ => fun s => { s with connection := none }
  | .resetAll | .subscribe | .unsubscribe _ => id

-- Whether an operation is addressed to a pin and can change it. A rail can only be wired.
def reaches (op : PinOperation) (p : Pin) : Bool := op.pin? == some p && (op.isWiring || !p.isRail)

end PinOperation

namespace Board

theorem state?_update (b : Board) (p q : Pin) (f : PinState → PinState) :
    (b.update p f).state? q = if p = q then (b.state? q).map f else b.state? q := by
  split
  · rename_i same
    rw [same, state?_update_self]
  · rename_i other
    rw [state?_update_of_ne b f (Ne.symm other)]

theorem state?_write (b : Board) (p q : Pin) (f : PinState → PinState)
    (differs : PinState → PinState → Bool) :
    (b.write p f differs).1.state? q =
      if p = q ∧ q.isRail = false then (b.state? q).map f else b.state? q := by
  by_cases rail : p.isRail = true
  · have left : ¬(p = q ∧ q.isRail = false) := by
      rintro ⟨rfl, free⟩
      simp [rail] at free
    simp [write, rail, left]
  · cases present : b.state? p with
    | none =>
      by_cases same : p = q
      · subst same
        simp [write, rail, present]
      · simp [write, rail, present, same]
    | some s =>
      by_cases same : p = q
      · subst same
        simp [write, rail, present, state?_update]
      · simp [write, rail, present, state?_update, same]

-- All that an operation does to the pins, unless it makes them all anew.
theorem state?_perform {op : PinOperation} (keeps : op ≠ .resetAll) (b : Board) (q : Pin) :
    (op.perform b).1.state? q = if op.reaches q = true then (b.state? q).map op.change else b.state? q := by
  cases op with
  | resetAll => exact absurd rfl keeps
  | connect pin connection =>
    simp [PinOperation.perform, PinOperation.reaches, PinOperation.pin?, PinOperation.isWiring,
      PinOperation.change, connect, state?_update]
  | disconnect pin =>
    simp [PinOperation.perform, PinOperation.reaches, PinOperation.pin?, PinOperation.isWiring,
      PinOperation.change, disconnect, state?_update]
  | subscribe => rfl
  | unsubscribe id => rfl
  | _ =>
    simp [PinOperation.perform, PinOperation.reaches, PinOperation.pin?, PinOperation.isWiring,
      PinOperation.change, setMode, writeDigital, writeAnalog, setAnalog, state?_write]

def after (b : Board) : List PinOperation → Board
  | [] => b
  | op :: ops => (op.perform b).1.after ops

-- All that the observers of a board are told while operations are carried out on it.
def notices (b : Board) : List PinOperation → List Notice
  | [] => []
  | op :: ops => (op.perform b).2 ++ (op.perform b).1.notices ops

@[simp] theorem notices_singleton (b : Board) (op : PinOperation) : b.notices [op] = (op.perform b).2 :=
  List.append_nil _

theorem after_append (b : Board) (ops more : List PinOperation) :
    b.after (ops ++ more) = (b.after ops).after more := by
  induction ops generalizing b with
  | nil => rfl
  | cons op ops ih => exact ih (op.perform b).1

theorem notices_append (b : Board) (ops more : List PinOperation) :
    b.notices (ops ++ more) = b.notices ops ++ (b.after ops).notices more := by
  induction ops generalizing b with
  | nil => rfl
  | cons op ops ih => simp [notices, after, ih]

-- A property that the operations keep is one of the board after them.
theorem after_invariant {P : Board → Prop} {ops : List PinOperation}
    (kept : ∀ op ∈ ops, ∀ b, P b → P (op.perform b).1) {b : Board} (good : P b) : P (b.after ops) := by
  induction ops generalizing b with
  | nil => exact good
  | cons op ops ih =>
    obtain ⟨first, others⟩ := List.forall_mem_cons.1 kept
    exact ih others (first b good)

end Board

def News.notice? : News → Option Notice
  | .pin notice => some notice
  | _ => none

theorem News.notice?_of_isNote {news : List News} (notes : news.all News.isNote = true) :
    news.filterMap News.notice? = [] := by
  rw [List.filterMap_eq_nil_iff]
  intro n listed
  have note := List.all_eq_true.1 notes n listed
  cases n with
  | status _ | reset _ => rfl
  | pin _ | serial _ => cases note

namespace World

-- What the outside has been told between two worlds, the oldest first.
def told (w w' : World) : List News :=
  (w'.outbox.take (w'.outbox.length - w.outbox.length)).reverse

-- What the observers of the board have been told between two worlds.
def notices (w w' : World) : List Notice := (w.told w').filterMap News.notice?

theorem told_of_append {w w' : World} {news : List News} (outbox : w'.outbox = news.reverse ++ w.outbox) :
    w.told w' = news := by
  simp [told, outbox]

/-- The board of `w'` is that of `w` after `ops`, and its observers were told of `ops`. -/
structure Follows (w : World) (ops : List PinOperation) (w' : World) : Prop where
  board_eq : w'.board = w.board.after ops
  outbox_eq : ∃ news : List News, w'.outbox = news.reverse ++ w.outbox ∧
    news.filterMap News.notice? = w.board.notices ops

namespace Follows

theorem refl (w : World) : w.Follows [] w := ⟨rfl, [], rfl, rfl⟩

theorem notices_eq {w w' : World} {ops : List PinOperation} (follows : w.Follows ops w') :
    w.notices w' = w.board.notices ops := by
  obtain ⟨news, outbox, told⟩ := follows.outbox_eq
  rw [notices, told_of_append outbox, told]

-- Anything else may happen, and the outside may be told of it.
theorem tell {w w' w'' : World} {ops : List PinOperation} (follows : w.Follows ops w') (news : List News)
    (other : news.filterMap News.notice? = []) (board : w''.board = w'.board)
    (outbox : w''.outbox = news.reverse ++ w'.outbox) : w.Follows ops w'' := by
  obtain ⟨earlier, before, told⟩ := follows.outbox_eq
  refine ⟨board.trans follows.board_eq, earlier ++ news, ?_, ?_⟩
  · rw [outbox, before, List.reverse_append, List.append_assoc]
  · rw [List.filterMap_append, told, other, List.append_nil]

theorem pin {w w' : World} {ops : List PinOperation} (follows : w.Follows ops w') (op : PinOperation) :
    w.Follows (ops ++ [op]) (w'.setBoard (op.perform w'.board)) := by
  obtain ⟨earlier, before, told⟩ := follows.outbox_eq
  have news (notices : List Notice) : (notices.map News.pin).filterMap News.notice? = notices := by
    rw [List.filterMap_map]
    exact List.filterMap_some
  refine ⟨?_, earlier ++ ((op.perform w'.board).2.map .pin), ?_, ?_⟩
  · rw [Board.after_append, ← follows.board_eq]
    rfl
  · rw [List.reverse_append, List.append_assoc, ← before]
    rfl
  · rw [List.filterMap_append, told, news, Board.notices_append, ← follows.board_eq,
      Board.notices_singleton]

end Follows

/-- Some operations among `A` lead from the board of `w` to that of `w'`. -/
def Leads (A : PinOperation → Prop) (w w' : World) : Prop := ∃ ops, (∀ op ∈ ops, A op) ∧ w.Follows ops w'

theorem leads_refl (A : PinOperation → Prop) (w : World) : w.Leads A w := ⟨[], by simp, .refl w⟩

theorem Leads.tell {A : PinOperation → Prop} {w w' w'' : World} (leads : w.Leads A w') (news : List News)
    (other : news.filterMap News.notice? = []) (board : w''.board = w'.board)
    (outbox : w''.outbox = news.reverse ++ w'.outbox) : w.Leads A w'' := by
  obtain ⟨ops, allowed, follows⟩ := leads
  exact ⟨ops, allowed, follows.tell news other board outbox⟩

theorem Leads.emit {A : PinOperation → Prop} {w w' : World} (leads : w.Leads A w') (text : String)
    (category : Serial.Category) (stamp : Float) : w.Leads A (w'.emit text category stamp) :=
  leads.tell [.serial ⟨w'.monitor.pending ++ text, category, stamp⟩] rfl rfl rfl

theorem kept_leads (A : PinOperation → Prop) (w : World) : World.Kept A (w.Leads A) where
  random _ _ leads := leads.tell [] rfl rfl rfl
  scopes _ _ leads := leads.tell [] rfl rfl rfl
  print _ _ leads := leads.tell [] rfl rfl rfl
  emit _ text category stamp _ leads := leads.emit text category stamp
  report _ message stamp _ leads := leads.emit _ .error stamp
  pin w' op allowed leads := by
    obtain ⟨ops, among, follows⟩ := leads
    refine ⟨ops ++ [op], ?_, follows.pin op⟩
    simpa [or_imp, forall_and, allowed] using among
  note _ _ notes leads := leads.tell _ (News.notice?_of_isNote notes) rfl rfl
  clearPending _ leads := leads.tell [] rfl rfl rfl
  listen _ leads := leads.tell [] rfl rfl rfl

end World

-- An action carries out at most one operation on the pins.
theorem Action.follows_perform (p : Pace) (w : World) (a : Action) :
    w.Follows [] (a.perform p w).1 ∨ ∃ op : PinOperation, op.FromSketch ∧ w.Follows [op] (a.perform p w).1 := by
  obtain ⟨g, effect⟩ := effect_perform p w a
  have drawn : w.Follows [] { w with random := g } := (World.Follows.refl w).tell [] rfl rfl rfl
  generalize (a.perform p w).1 = w' at effect ⊢
  cases effect with
  | nothing => exact .inl drawn
  | print text => exact .inl (drawn.tell [] rfl rfl rfl)
  | @emit text category harmless =>
    exact .inl (drawn.tell [.serial ⟨w.monitor.pending ++ text, category, p.time.stamp⟩] rfl rfl rfl)
  | pin fromSketch => exact .inr ⟨_, fromSketch, drawn.pin _⟩
  | assign name v => exact .inl (drawn.tell [] rfl rfl rfl)

namespace HostOperation

variable {op : HostOperation} {e e' : Engine}

theorem leads_apply (keeps : op ≠ .takeNews) (done : op.apply e = some e') :
    e.world.Leads op.MayDo e'.world := by
  apply (World.kept_leads op.MayDo e.world).apply (fun _ => id) done
  · rintro json - leads
    unfold Engine.importCircuit
    split
    · exact leads
    · exact leads.emit _ .error _
  · intro hands
    exact absurd hands keeps
  · exact World.leads_refl _ _

/-- What a host does to the board of an engine: some operations that it may lead to, of which the
observers are told. -/
theorem board_apply (done : op.apply e = some e') :
    ∃ ops, (∀ o ∈ ops, op.MayDo o) ∧ e'.board = e.board.after ops ∧
      e.world.notices e'.world = e.board.notices ops := by
  by_cases hands : op = .takeNews
  · subst hands
    cases done
    have quiet : e.world.told e.takeNews.2.world = [] := by
      simp [World.told, Engine.takeNews, Engine.setWorld, Engine.world]
    exact ⟨[], by simp, rfl, by rw [World.notices, quiet]; rfl⟩
  · obtain ⟨ops, allowed, follows⟩ := leads_apply hands done
    exact ⟨ops, allowed, follows.board_eq, follows.notices_eq⟩

end HostOperation

-- What a fresh board has and every operation on pins keeps is true of the boards of all engines.
theorem Engine.Reachable.board_invariant {config : Config} {P : Board → Prop} (fresh : P .fresh)
    (kept : ∀ (op : PinOperation) (b : Board), P b → P (op.perform b).1) {e : Engine}
    (reached : Engine.Reachable config e) : P e.board := by
  refine reached.invariant (P := fun e => P e.board) fresh ?_
  intro op e e' good done
  obtain ⟨ops, -, board, -⟩ := HostOperation.board_apply done
  rw [board]
  exact Board.after_invariant (fun op _ => kept op) good

end Breadboard
