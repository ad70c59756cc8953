import Breadboard.Proofs.BoardInvariant
import Breadboard.Proofs.FreshStart

set_option autoImplicit false

/-!
The marks that parts leave on the pins. Main statements: whatever is done with parts and pins, a pin is
marked only by a part that is registered and lists it, and removing a part clears its own marks alone;
and a reset marks every pin for the last part that lists it, which is what was there before exactly if
no part has been taken off a pin that another part lists as well.
-/
namespace Breadboard

/-! Marks -/

namespace Board

def has (b : Board) (pin : Pin) : Bool := (b.state? pin).isSome

def connection? (b : Board) (pin : Pin) : Option Connection := (b.state? pin).bind (·.connection)

theorem has_update (b : Board) (p pin : Pin) (f : PinState → PinState) :
    (b.update p f).has pin = b.has pin := by
  rw [has, state?_update]
  split <;> simp [has]

theorem connection?_of_not_has {b : Board} {pin : Pin} (missing : b.has pin = false) :
    b.connection? pin = none := by
  rw [has, Option.isSome_eq_false_iff, Option.isNone_iff_eq_none] at missing
  rw [connection?, missing, Option.bind_none]

theorem connection?_connect (b : Board) (p pin : Pin) (c : Connection) :
    (b.connect p c).connection? pin =
      if p = pin ∧ b.has pin = true then some c else b.connection? pin := by
  rw [connection?, connect, state?_update]
  by_cases same : p = pin
  · cases present : b.state? pin <;> simp [same, has, connection?, present]
  · simp [same, connection?]

theorem has_connectAll (pins : List Pin) (c : Connection) (b : Board) (pin : Pin) :
    (b.connectAll pins c).has pin = b.has pin := by
  unfold connectAll
  induction pins generalizing b with
  | nil => rfl
  | cons p pins ih => exact (ih (b.connect p c)).trans (has_update b p pin _)

theorem connection?_connectAll (pins : List Pin) (c : Connection) (b : Board) (pin : Pin) :
    (b.connectAll pins c).connection? pin =
      if pin ∈ pins ∧ b.has pin = true then some c else b.connection? pin := by
  unfold connectAll
  induction pins generalizing b with
  | nil => simp
  | cons p pins ih =>
    have kept : (b.connect p c).has pin = b.has pin := has_update b p pin _
    rw [List.foldl_cons, ih, kept, connection?_connect]
    by_cases same : p = pin
    · cases present : b.has pin <;> simp [same]
    · simp [same, Ne.symm same]

theorem connection?_reset (b : Board) (pin : Pin) : b.reset.1.connection? pin = none := by
  cases present : b.reset.1.state? pin with
  | none => rw [connection?, present, Option.bind_none]
  | some s =>
    rw [connection?, present, b.state?_reset present]
    cases pin <;> rfl

-- No operation on pins but wiring them gives a pin another mark.
theorem connection?_perform {op : PinOperation} (unwired : op.isWiring = false) {b : Board} {pin : Pin}
    {c : Connection} (marked : (op.perform b).1.connection? pin = some c) : b.connection? pin = some c := by
  by_cases anew : op = .resetAll
  · subst anew
    rw [PinOperation.perform, connection?_reset] at marked
    cases marked
  · rw [connection?, state?_perform anew] at marked
    split at marked
    · rw [Option.bind_map] at marked
      rw [← marked, connection?]
      congr 1
      cases op with
      | connect _ _ | disconnect _ => cases unwired
      | _ => rfl
    · exact marked

end Board

namespace Registry

/-! Releasing -/

-- A pin that is marked by another part is left as it is.
theorem state?_release (id : String) (b : Board) (p pin : Pin)
    (other : (b.connection? pin).any (·.component == id) = false) :
    (release id b p).state? pin = b.state? pin := by
  unfold release
  split
  · rename_i own
    refine b.state?_update_of_ne _ ?_
    rintro rfl
    exact Bool.false_ne_true (other.symm.trans own)
  · rfl

theorem connection?_release (id : String) (b : Board) (p pin : Pin) :
    (release id b p).connection? pin =
      if p = pin then (b.connection? pin).filter (·.component != id) else b.connection? pin := by
  unfold release
  by_cases same : p = pin
  · subst same
    change (if (b.connection? p).any (·.component == id) = true then b.disconnect p else b).connection? p = _
    cases marked : b.connection? p with
    | none => simp [marked]
    | some c =>
      by_cases own : c.component = id
      · have present : (b.disconnect p).connection? p = none := by
          rw [Board.connection?, Board.disconnect, Board.state?_update_self]
          cases b.state? p <;> rfl
        simp [Option.filter, own, present]
      · simp [Option.filter, own, marked]
  · rw [if_neg same]
    split
    · rw [Board.connection?, Board.disconnect, b.state?_update_of_ne _ (Ne.symm same)]
      rfl
    · rfl

theorem state?_releaseAll (id : String) (pins : List Pin) (b : Board) (pin : Pin)
    (other : (b.connection? pin).any (·.component == id) = false) :
    (pins.foldl (release id) b).state? pin = b.state? pin := by
  induction pins generalizing b with
  | nil => rfl
  | cons p pins ih =>
    have left := state?_release id b p pin other
    rw [List.foldl_cons, ih, left]
    rwa [Board.connection?, left]

theorem connection?_releaseAll (id : String) (pins : List Pin) (b : Board) (pin : Pin) :
    (pins.foldl (release id) b).connection? pin =
      if pin ∈ pins then (b.connection? pin).filter (·.component != id) else b.connection? pin := by
  induction pins generalizing b with
  | nil => simp
  | cons p pins ih =>
    rw [List.foldl_cons, ih, connection?_release]
    by_cases same : p = pin
    · subst same
      simp [Option.filter_filter]
    · simp [same, Ne.symm same]

/-! Holders -/

-- The last part that lists a pin.
def holder? (r : Registry) (pin : Pin) : Option Peripheral := r.entries.findRev? (·.pins.contains pin)

theorem holder?_append (entries : List Peripheral) (p : Peripheral) (pin : Pin) :
    holder? ⟨entries ++ [p]⟩ pin = if pin ∈ p.pins then some p else holder? ⟨entries⟩ pin := by
  simp only [holder?, List.findRev?_eq_find?_reverse, List.reverse_append, List.reverse_singleton,
    List.singleton_append, List.find?_cons]
  by_cases listed : pin ∈ p.pins <;> simp [listed]

theorem mem_of_holder? {r : Registry} {pin : Pin} {p : Peripheral} (holder : r.holder? pin = some p) :
    p ∈ r.entries ∧ pin ∈ p.pins := by
  rw [holder?, List.findRev?_eq_find?_reverse] at holder
  exact ⟨List.mem_reverse.1 (List.mem_of_find?_eq_some holder), by simpa using List.find?_some holder⟩

theorem holder?_eq_none_iff {r : Registry} {pin : Pin} :
    r.holder? pin = none ↔ ∀ p ∈ r.entries, pin ∉ p.pins := by
  rw [holder?, List.findRev?_eq_find?_reverse]
  simp

theorem find?_of_mem {r : Registry} (distinct : r.ids.Nodup) {p : Peripheral} (listed : p ∈ r.entries) :
    r.find? p.id = some p := by
  obtain ⟨entries⟩ := r
  simp only [find?, ids] at distinct listed ⊢
  induction entries with
  | nil => cases listed
  | cons q entries ih =>
    rw [List.map_cons, List.nodup_cons] at distinct
    obtain rfl | later := List.mem_cons.1 listed
    · simp
    · have other : q.id ≠ p.id := by
        intro same
        exact distinct.1 (same ▸ List.mem_map_of_mem later)
      rw [List.find?_cons_of_neg (by simpa using other)]
      exact ih distinct.2 later

-- Taking off another part leaves the holder of a pin.
theorem holder?_remove {r : Registry} (b : Board) {id : String} {pin : Pin} {p : Peripheral}
    (holder : r.holder? pin = some p) (other : p.id ≠ id) : (r.remove b id).1.holder? pin = some p := by
  cases found : r.find? id with
  | none => simpa [remove, remove?, found] using holder
  | some q =>
    have removed : (r.remove b id).1 = ⟨r.entries.eraseP (·.id == id)⟩ := by simp [remove, remove?, found]
    rw [removed]
    rw [holder?, List.findRev?_eq_find?_reverse, List.find?_eq_some_iff_append] at holder ⊢
    obtain ⟨lists, later, before, split, unlisted⟩ := holder
    have entries : r.entries = before.reverse ++ p :: later.reverse := by
      rw [← List.reverse_reverse r.entries, split]
      simp
    refine ⟨lists, ?_⟩
    rw [entries, List.eraseP_append, List.eraseP_cons_of_neg (by simpa using other)]
    split
    · exact ⟨later, (before.reverse.eraseP (·.id == id)).reverse, by simp, unlisted⟩
    · refine ⟨(later.reverse.eraseP (·.id == id)).reverse, before, by simp, ?_⟩
      intro q listed
      exact unlisted q (by simpa using List.mem_of_mem_eraseP (List.mem_reverse.1 listed))

theorem connection?_reconnect (r : Registry) (b : Board) (pin : Pin) :
    (r.reconnect b).connection? pin =
      if b.has pin = true then ((r.holder? pin).map (·.connection)).or (b.connection? pin) else none := by
  obtain ⟨entries⟩ := r
  have kept (entries : List Peripheral) : (reconnect ⟨entries⟩ b).has pin = b.has pin := by
    induction entries using List.reverseRecOn with
    | nil => rfl
    | append_singleton entries p ih =>
      simp only [reconnect, List.foldl_append, List.foldl_cons, List.foldl_nil]
      rw [Board.has_connectAll]
      exact ih
  induction entries using List.reverseRecOn with
  | nil =>
    change b.connection? pin = _
    cases present : b.has pin with
    | false => simp [Board.connection?_of_not_has present]
    | true => rfl
  | append_singleton entries p ih =>
    have last : reconnect ⟨entries ++ [p]⟩ b = (reconnect ⟨entries⟩ b).connectAll p.pins p.connection := by
      simp [reconnect]
    rw [last, Board.connection?_connectAll, kept, ih, holder?_append]
    by_cases listed : pin ∈ p.pins
    · by_cases present : b.has pin = true <;> simp [listed, present]
    · simp [listed]

end Registry

/-! Benches -/

/-- A board and the parts around it. -/
structure Bench where
  registry : Registry
  board : Board

inductive PartOperation where
  | register (p : Peripheral)
  | remove (id : String)

namespace PartOperation

def perform (b : Bench) : PartOperation → Bench
  | .register p => ⟨(b.registry.register b.board p).1, (b.registry.register b.board p).2⟩
  | .remove id => ⟨(b.registry.remove b.board id).1, (b.registry.remove b.board id).2⟩

-- The part that is taken off first, if there is one of that name.
def id : PartOperation → String
  | .register p => p.id
  | .remove id => id

-- The part that is added then.
def part? : PartOperation → Option Peripheral
  | .register p => some p
  | .remove _ => none

end PartOperation

/-- What is done with a bench, other than wiring a pin by hand. -/
inductive BenchOperation where
  | part (op : PartOperation)
  | resetParts
  | pin (op : PinOperation) (unwired : op.isWiring = false)

namespace Bench

def fresh : Bench := ⟨.empty, .fresh⟩

def perform (b : Bench) : BenchOperation → Bench
  | .part op => op.perform b
  | .resetParts => { b with board := b.registry.reconnect b.board }
  | .pin op _ => { b with board := (op.perform b.board).1 }

def after (b : Bench) (ops : List BenchOperation) : Bench := ops.foldl perform b

/-- The names of parts are distinct, and only the last part that lists a pin marks it. -/
structure Wired (b : Bench) : Prop where
  distinct : b.registry.ids.Nodup
  held : ∀ pin c, b.board.connection? pin = some c → (b.registry.holder? pin).map (·.connection) = some c

variable {b : Bench}

theorem wired_fresh : fresh.Wired where
  distinct := List.nodup_nil
  held := by
    intro pin c marked
    have bare : Board.fresh.connection? pin = none := Board.connection?_reset .fresh pin
    rw [fresh, bare] at marked
    cases marked

theorem Wired.holder (wired : b.Wired) {pin : Pin} {c : Connection} (marked : b.board.connection? pin = some c) :
    ∃ p, b.registry.holder? pin = some p ∧ p.connection = c ∧ b.registry.find? c.component = some p ∧
      pin ∈ p.pins := by
  obtain ⟨p, holder, rfl⟩ := Option.map_eq_some_iff.1 (wired.held pin c marked)
  obtain ⟨registered, listed⟩ := Registry.mem_of_holder? holder
  exact ⟨p, holder, rfl, Registry.find?_of_mem wired.distinct registered, listed⟩

-- A part lists all the pins that it marks, so that no mark of its own stays.
theorem Wired.connection?_remove (wired : b.Wired) (id : String) (pin : Pin) :
    (b.registry.remove b.board id).2.connection? pin =
      (b.board.connection? pin).filter (·.component != id) := by
  cases found : b.registry.find? id with
  | none =>
    simp only [Registry.remove, Registry.remove?, found, Option.map_none, Option.getD_none]
    cases marked : b.board.connection? pin with
    | none => rfl
    | some c =>
      obtain ⟨p, -, -, registered, -⟩ := wired.holder marked
      have other : c.component ≠ id := by
        rintro rfl
        cases registered.symm.trans found
      simp [Option.filter, other]
  | some q =>
    simp only [Registry.remove, Registry.remove?, found, Option.map_some, Option.getD_some,
      Registry.connection?_releaseAll]
    split
    · rfl
    · rename_i unlisted
      cases marked : b.board.connection? pin with
      | none => rfl
      | some c =>
        obtain ⟨p, -, -, registered, listed⟩ := wired.holder marked
        have other : c.component ≠ id := by
          rintro rfl
          cases registered.symm.trans found
          exact unlisted listed
        simp [Option.filter, other]

theorem state?_remove (b : Bench) (id : String) {pin : Pin} {c : Connection}
    (marked : b.board.connection? pin = some c) (other : c.component ≠ id) :
    (b.registry.remove b.board id).2.state? pin = b.board.state? pin := by
  unfold Registry.remove Registry.remove?
  cases b.registry.find? id with
  | none => rfl
  | some p => exact Registry.state?_releaseAll id p.pins b.board pin (by simp [marked, other])

theorem has_remove (b : Bench) (id : String) (pin : Pin) :
    (b.registry.remove b.board id).2.has pin = b.board.has pin := by
  have released (pins : List Pin) (board : Board) :
      (pins.foldl (Registry.release id) board).has pin = board.has pin := by
    induction pins generalizing board with
    | nil => rfl
    | cons p pins ih =>
      rw [List.foldl_cons, ih, Registry.release]
      split
      · exact Board.has_update board p pin _
      · rfl
  unfold Registry.remove Registry.remove?
  cases b.registry.find? id with
  | none => rfl
  | some p => exact released p.pins b.board

theorem Wired.remove (wired : b.Wired) (id : String) : (PartOperation.remove id |>.perform b).Wired where
  distinct := by
    change (b.registry.remove b.board id).1.ids.Nodup
    rw [Registry.ids_remove]
    exact wired.distinct.erase id
  held := by
    intro pin c marked
    rw [PartOperation.perform, wired.connection?_remove, Option.filter_eq_some_iff] at marked
    obtain ⟨before, other⟩ := marked
    obtain ⟨p, holder, rfl, -, -⟩ := wired.holder before
    rw [PartOperation.perform, Registry.holder?_remove b.board holder (by simpa [Peripheral.connection] using other)]
    rfl

-- What an operation on parts makes of the mark of a pin.
theorem Wired.connection?_perform (wired : b.Wired) (op : PartOperation) (pin : Pin) :
    (op.perform b).board.connection? pin =
      if b.board.has pin = true ∧ ∃ p ∈ op.part?, pin ∈ p.pins then op.part?.map (·.connection)
      else (b.board.connection? pin).filter (·.component != op.id) := by
  cases op with
  | remove id =>
    rw [if_neg (by rintro ⟨-, p, added, -⟩; cases added)]
    exact wired.connection?_remove id pin
  | register p =>
    change ((b.registry.remove b.board p.id).2.connectAll p.pins p.connection).connection? pin = _
    rw [Board.connection?_connectAll, has_remove, wired.connection?_remove]
    simp [PartOperation.part?, PartOperation.id, and_comm]

theorem Wired.part (wired : b.Wired) (op : PartOperation) : (op.perform b).Wired := by
  cases op with
  | remove id => exact wired.remove id
  | register p =>
    refine ⟨Registry.nodup_register wired.distinct b.board p, ?_⟩
    intro pin c marked
    rw [wired.connection?_perform] at marked
    change ((Registry.holder? ⟨(b.registry.remove b.board p.id).1.entries ++ [p]⟩ pin).map _) = _
    rw [Registry.holder?_append]
    by_cases listed : pin ∈ p.pins
    · by_cases present : b.board.has pin = true
      · simpa [PartOperation.part?, listed, present] using marked
      · rw [Bool.not_eq_true] at present
        simp [present, Board.connection?_of_not_has present] at marked
    · rw [if_neg listed]
      apply (wired.remove p.id).held
      rw [PartOperation.perform, wired.connection?_remove]
      simpa [PartOperation.part?, PartOperation.id, listed] using marked

theorem Wired.perform (wired : b.Wired) (op : BenchOperation) : (b.perform op).Wired := by
  cases op with
  | part op => exact wired.part op
  | resetParts =>
    refine ⟨wired.distinct, ?_⟩
    intro pin c marked
    rw [Bench.perform, Registry.connection?_reconnect] at marked
    split at marked
    · obtain held | ⟨-, before⟩ := Option.or_eq_some_iff.1 marked
      · exact held
      · exact wired.held pin c before
    · cases marked
  | pin op unwired =>
    refine ⟨wired.distinct, ?_⟩
    intro pin c marked
    exact wired.held pin c (Board.connection?_perform unwired marked)

theorem Wired.after (wired : b.Wired) (ops : List BenchOperation) : (b.after ops).Wired := by
  induction ops generalizing b with
  | nil => exact wired
  | cons op ops ih => exact ih (wired.perform op)

/-- Whatever is done with a fresh board and the parts around it, other than wiring pins by hand: the
names of the parts are distinct, and a pin that is marked for a part is listed by the registered part
of that name and kind. Removing a part leaves no pin marked for it and changes no pin that is marked for
another. -/
theorem no_dangling_wiring (ops : List BenchOperation) :
    let b := fresh.after ops
    b.registry.ids.Nodup ∧
    (∀ pin component label, b.board.connection? pin = some ⟨component, label⟩ →
      ∃ p, b.registry.find? component = some p ∧ p.kind = label ∧ pin ∈ p.pins) ∧
    ∀ id, (∀ pin c, (b.registry.remove b.board id).2.connection? pin = some c → c.component ≠ id) ∧
      ∀ pin c, b.board.connection? pin = some c → c.component ≠ id →
        (b.registry.remove b.board id).2.state? pin = b.board.state? pin := by
  intro b
  have wired : b.Wired := wired_fresh.after ops
  refine ⟨wired.distinct, ?_, ?_⟩
  · intro pin component label marked
    obtain ⟨p, -, same, registered, listed⟩ := wired.holder marked
    exact ⟨p, registered, congrArg Connection.label same, listed⟩
  · intro id
    refine ⟨?_, fun pin c => state?_remove b id⟩
    intro pin c marked
    rw [wired.connection?_remove, Option.filter_eq_some_iff] at marked
    simpa using marked.2

/-! Stranded pins -/

-- Every pin that a part lists is marked.
def Marked (b : Bench) : Prop :=
  ∀ pin, b.board.has pin = true → ∀ p ∈ b.registry.entries, pin ∈ p.pins → b.board.connection? pin ≠ none

/-- An operation takes a part off a pin that it marks, while another part lists that pin as well. -/
def Strands (b : Bench) (op : PartOperation) (pin : Pin) : Prop :=
  (∃ c, b.board.connection? pin = some c ∧ c.component = op.id) ∧ (∀ p ∈ op.part?, pin ∉ p.pins) ∧
    ∃ q ∈ b.registry.entries, q.id ≠ op.id ∧ pin ∈ q.pins

theorem Wired.mem_entries_perform (wired : b.Wired) (op : PartOperation) (q : Peripheral) :
    q ∈ (op.perform b).registry.entries ↔ (q ∈ b.registry.entries ∧ q.id ≠ op.id) ∨ q ∈ op.part? := by
  have removed (id : String) :
      q ∈ (b.registry.remove b.board id).1.entries ↔ q ∈ b.registry.entries ∧ q.id ≠ id := by
    cases found : b.registry.find? id with
    | none =>
      have absent := Registry.find?_eq_none_iff.1 found
      have same : (b.registry.remove b.board id).1 = b.registry := by
        simp [Registry.remove, Registry.remove?, found]
      rw [same, iff_self_and]
      rintro listed rfl
      exact absent (List.mem_map_of_mem listed)
    | some p =>
      have erased : (b.registry.remove b.board id).1.entries = b.registry.entries.eraseP (·.id == id) := by
        simp [Registry.remove, Registry.remove?, found]
      have gone : id ∉ (b.registry.remove b.board id).1.ids := by
        rw [Registry.ids_remove]
        exact wired.distinct.not_mem_erase
      constructor
      · intro listed
        refine ⟨List.mem_of_mem_eraseP (erased ▸ listed), ?_⟩
        rintro rfl
        exact gone (List.mem_map_of_mem listed)
      · rintro ⟨listed, other⟩
        rw [erased]
        exact (List.mem_eraseP_of_neg (by simpa using other)).2 listed
  cases op with
  | remove id => simpa [PartOperation.part?, PartOperation.id, PartOperation.perform] using removed id
  | register p =>
    change q ∈ (b.registry.remove b.board p.id).1.entries ++ [p] ↔ _
    rw [List.mem_append, removed, List.mem_singleton]
    simp [PartOperation.part?, PartOperation.id, eq_comm]

theorem has_perform (b : Bench) (op : PartOperation) (pin : Pin) :
    (op.perform b).board.has pin = b.board.has pin := by
  cases op with
  | remove id => exact has_remove b id pin
  | register p => exact (Board.has_connectAll p.pins p.connection _ pin).trans (has_remove b p.id pin)

theorem Wired.not_marked_of_strands (wired : b.Wired) {op : PartOperation} {pin : Pin}
    (strands : b.Strands op pin) : ¬(op.perform b).Marked := by
  obtain ⟨⟨c, marked, own⟩, unlisted, q, registered, other, listed⟩ := strands
  have present : b.board.has pin = true := by
    rw [← Bool.not_eq_false]
    intro missing
    cases (Board.connection?_of_not_has missing).symm.trans marked
  intro all
  have left := (wired.mem_entries_perform op q).2 (.inl ⟨registered, other⟩)
  apply all pin (by rwa [has_perform]) q left listed
  rw [wired.connection?_perform, if_neg, marked]
  · simp [Option.filter, own]
  · rintro ⟨-, p, added, again⟩
    exact unlisted p added again

theorem Wired.marked_perform (wired : b.Wired) (marked : b.Marked) {op : PartOperation}
    (clean : ∀ pin, ¬b.Strands op pin) : (op.perform b).Marked := by
  intro pin present q registered listed
  rw [has_perform] at present
  rw [wired.connection?_perform]
  split
  · rename_i added
    obtain ⟨-, p, added, -⟩ := added
    rw [added]
    exact nofun
  · rename_i unlisted
    have others : ∀ p ∈ op.part?, pin ∉ p.pins := fun p added again => unlisted ⟨present, p, added, again⟩
    obtain ⟨before, other⟩ | added := (wired.mem_entries_perform op q).1 registered
    · obtain ⟨c, mark⟩ := Option.ne_none_iff_exists'.1 (marked pin present q before listed)
      have foreign : c.component ≠ op.id := by
        intro own
        exact clean pin ⟨⟨c, mark, own⟩, others, q, before, other, listed⟩
      simp [mark, Option.filter, foreign]
    · exact absurd listed (others q added)

end Bench

/-! Resets -/

def PartOperation.apply (e : Engine) : PartOperation → Engine
  | .register p => e.register p
  | .remove id => (e.remove id).2

def News.hook? : News → Option String
  | .reset id => some id
  | _ => none

namespace Engine

def bench (e : Engine) : Bench := ⟨e.registry, e.board⟩

-- A new engine with parts.
def fitted (config : Config) (ops : List PartOperation) : Engine :=
  ops.foldl PartOperation.apply (ofConfig config)

def RestoresWiring (e : Engine) : Prop :=
  ∀ pin, e.reset.board.connection? pin = e.board.connection? pin

theorem bench_apply (e : Engine) (op : PartOperation) : (op.apply e).bench = op.perform e.bench := by
  cases op with
  | register p => rfl
  | remove id =>
    rw [PartOperation.apply, snd_remove]
    rfl

theorem status_apply (e : Engine) (op : PartOperation) : (op.apply e).status = e.status := by
  cases op with
  | register p => rfl
  | remove id =>
    rw [PartOperation.apply, snd_remove]
    rfl

theorem status_fitted (config : Config) (ops : List PartOperation) : (fitted config ops).status = .idle := by
  induction ops using List.reverseRecOn with
  | nil => rfl
  | append_singleton ops op ih =>
    rw [fitted, List.foldl_append, List.foldl_cons, List.foldl_nil, status_apply]
    exact ih

theorem reachable_fitted (config : Config) (ops : List PartOperation) :
    Engine.Reachable config (fitted config ops) := by
  induction ops using List.reverseRecOn with
  | nil => exact .created
  | append_singleton ops op ih =>
    rw [fitted, List.foldl_append, List.foldl_cons, List.foldl_nil]
    cases op with
    | register p => exact .host (.register p) ih rfl
    | remove id => exact .host (.remove id) ih rfl

theorem bench_fitted_append (config : Config) (ops : List PartOperation) (op : PartOperation) :
    (fitted config (ops ++ [op])).bench = op.perform (fitted config ops).bench := by
  rw [fitted, List.foldl_append, List.foldl_cons, List.foldl_nil, bench_apply]
  rfl

theorem wired_fitted (config : Config) (ops : List PartOperation) : (fitted config ops).bench.Wired := by
  induction ops using List.reverseRecOn with
  | nil => exact Bench.wired_fresh
  | append_singleton ops op ih =>
    rw [bench_fitted_append]
    exact ih.part op

-- A reset marks every pin for the last part that lists it.
theorem connection?_reset {config : Config} {e : Engine} (reached : Engine.Reachable config e) (pin : Pin) :
    e.reset.board.connection? pin =
      if e.board.has pin = true then (e.registry.holder? pin).map (·.connection) else none := by
  obtain ⟨-, -, registry, -, -⟩ := e.stop_keeps
  have wired : e.reset.board = e.stop.registry.reconnect e.stop.board.reset.1 := rfl
  have same : e.stop.board.reset.1.has pin = e.board.has pin := by
    rw [Bool.eq_iff_iff, Board.has, Board.has, Board.state?_isSome_iff, Board.state?_isSome_iff,
      (Board.sound_reset e.stop.board).pins_eq, reached.board_sound.pins_eq]
  rw [wired, Registry.connection?_reconnect, same, registry, Board.connection?_reset, Option.or_none]

theorem restoresWiring_iff {config : Config} {e : Engine} (reached : Engine.Reachable config e)
    (wired : e.bench.Wired) : e.RestoresWiring ↔ e.bench.Marked := by
  constructor
  · intro restores pin present p registered listed unmarked
    have anew := restores pin
    rw [connection?_reset reached, if_pos (show e.board.has pin = true from present)] at anew
    have unheld := Option.map_eq_none_iff.1 (anew.trans unmarked)
    exact Registry.holder?_eq_none_iff.1 unheld p registered listed
  · intro marked pin
    rw [connection?_reset reached]
    split
    · rename_i present
      cases mark : e.board.connection? pin with
      | some c => exact wired.held pin c mark
      | none =>
        rw [Option.map_eq_none_iff, Registry.holder?_eq_none_iff]
        intro p registered listed
        exact marked pin present p registered listed mark
    · rename_i missing
      rw [Board.connection?_of_not_has (by simpa using missing)]

-- The parts that want to be told of a reset are told, behind the observers of the pins.
theorem told_reset {e : Engine} (halted : e.status ≠ .running) :
    e.world.told e.reset.world = e.board.reset.2.map .pin ++ e.registry.hooks.map .reset ++ [.status .idle] := by
  have stopped : e.stop = e := if_neg halted
  apply World.told_of_append
  rw [reset, stopped]
  simp [setStatus, setWorld, world, World.tell, World.setBoard]

theorem hooks_reset {e : Engine} (halted : e.status ≠ .running) :
    (e.world.told e.reset.world).filterMap News.hook? = e.registry.hooks := by
  have pins (notices : List Notice) : (notices.map News.pin).filterMap News.hook? = [] := by
    rw [List.filterMap_map, List.filterMap_eq_nil_iff]
    exact fun _ _ => rfl
  have hooks (ids : List String) : (ids.map News.reset).filterMap News.hook? = ids := by
    rw [List.filterMap_map]
    exact List.filterMap_some
  rw [told_reset halted, List.filterMap_append, List.filterMap_append, pins, hooks]
  simp [News.hook?]

/-- However parts are registered and removed on a new engine: resets at all moments leave the wiring as
it was exactly if no part is ever taken off a pin that another part lists as well. A reset marks every
pin for the last registered part that lists it, and tells every part that wants it once, in the order
of their registration. -/
theorem reset_restores_wiring_iff (config : Config) (ops : List PartOperation) :
    ((∀ before later, ops = before ++ later → (fitted config before).RestoresWiring) ↔
      ¬∃ before op later pin, ops = before ++ op :: later ∧ (fitted config before).bench.Strands op pin) ∧
    let e := fitted config ops
    (∀ pin, e.reset.board.connection? pin =
      if e.board.has pin = true then (e.registry.holder? pin).map (·.connection) else none) ∧
    (e.world.told e.reset.world).filterMap News.hook? = (e.registry.entries.filter (·.hook)).map (·.id) ∧
    (e.registry.entries.map (·.id)).Nodup := by
  have restores (ops : List PartOperation) :=
    restoresWiring_iff (reachable_fitted config ops) (wired_fitted config ops)
  refine ⟨⟨?_, ?_⟩, connection?_reset (reachable_fitted config ops), ?_, (wired_fitted config ops).distinct⟩
  · rintro all ⟨before, op, later, pin, rfl, strands⟩
    have marked := (restores (before ++ [op])).1 (all (before ++ [op]) later (by simp))
    rw [bench_fitted_append] at marked
    exact (wired_fitted config before).not_marked_of_strands strands marked
  · rintro clean before later rfl
    rw [restores]
    -- By induction over the operations so far, of which none strands a pin.
    induction before using List.reverseRecOn generalizing later with
    | nil =>
      intro pin present p registered
      cases registered
    | append_singleton before op ih =>
      rw [bench_fitted_append]
      apply (wired_fitted config before).marked_perform
      · apply ih (op :: later)
        simpa using clean
      · intro pin strands
        exact clean ⟨before, op, later, pin, by simp, strands⟩
  · apply hooks_reset
    rw [status_fitted]
    exact nofun

-- A part takes over a pin and is removed: the pin is free, until a reset marks it for the part before.
example :
    let e := fitted .standard [.register ⟨"led", "LED", [.gpio 2], true⟩,
      .register ⟨"key", "Button", [.gpio 2, .gpio 4], true⟩, .remove "key"]
    e.board.connection? (.gpio 2) = none ∧
      e.reset.board.connection? (.gpio 2) = some ⟨"led", "LED"⟩ := by
  decide +kernel

end Engine

end Breadboard
