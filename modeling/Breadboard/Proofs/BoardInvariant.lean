import Breadboard.Proofs.BoardTrace

set_option autoImplicit false

/-!
What stays true of a board. Main statement: whatever is done with the pins, from outside or by a
sketch, they are the same pins with the same converters, their values stay in range and the rails stay
as they are; and a sketch changes neither readings nor wiring and makes no pin a supply.
-/
namespace Breadboard

namespace PinState

/-- What is true of the state of a pin at any time. -/
structure Sound (p : Pin) (s : PinState) : Prop where
  hasAdc_eq : s.hasAdc = (ofPin p).hasAdc
  hasDac_eq : s.hasDac = (ofPin p).hasDac
  analog_le : s.analog ≤ maxAnalog
  duty_le : s.duty ≤ maxDuty
  rail : p.isRail = true → s.mode = .power ∧ s.high = (ofPin p).high ∧
    s.analog = (ofPin p).analog ∧ s.duty = (ofPin p).duty

theorem sound_ofPin : (p : Pin) → (ofPin p).Sound p
  | .gpio n => ⟨rfl, rfl, Nat.zero_le _, Nat.zero_le _, fun rail => by cases rail⟩
  | .rail r => by
    refine ⟨rfl, rfl, ?_, Nat.zero_le _, fun _ => ⟨rfl, rfl, rfl, rfl⟩⟩
    cases r <;> decide

theorem Sound.change {p : Pin} {s : PinState} (sound : s.Sound p) {op : PinOperation}
    (reaches : op.reaches p = true) : (op.change s).Sound p := by
  have free (electrical : op.isWiring = false) : p.isRail ≠ true := by
    intro rail
    simp [PinOperation.reaches, electrical, rail] at reaches
  cases op with
  | setMode pin mode => exact { sound with rail := fun rail => absurd rail (free rfl) }
  | writeDigital pin value => exact { sound with rail := fun rail => absurd rail (free rfl) }
  | writeAnalog pin duty =>
    exact { sound with
      duty_le := duty_writeAnalog_le duty s
      rail := fun rail => absurd rail (free rfl) }
  | setAnalog pin value =>
    exact { sound with
      analog_le := analog_setAnalog_le value s
      rail := fun rail => absurd rail (free rfl) }
  | connect pin connection => exact { sound with }
  | disconnect pin => exact { sound with }
  | resetAll | subscribe | unsubscribe _ => cases reaches

/-- What a sketch leaves alone in the state of a pin. -/
structure Driven (s s' : PinState) : Prop where
  analog_eq : s'.analog = s.analog
  connection_eq : s'.connection = s.connection
  power : s'.mode = .power → s.mode = .power

theorem Driven.refl (s : PinState) : s.Driven s := ⟨rfl, rfl, id⟩

theorem Driven.trans {s s' s'' : PinState} (first : s.Driven s') (second : s'.Driven s'') :
    s.Driven s'' where
  analog_eq := second.analog_eq.trans first.analog_eq
  connection_eq := second.connection_eq.trans first.connection_eq
  power := fun power => first.power (second.power power)

theorem driven_change {op : PinOperation} (fromSketch : op.FromSketch) (s : PinState) :
    s.Driven (op.change s) := by
  cases fromSketch with
  | setMode pin unpowered => exact ⟨rfl, rfl, fun power => absurd power unpowered⟩
  | writeDigital pin value => exact ⟨rfl, rfl, id⟩
  | writeAnalog pin duty => exact ⟨rfl, rfl, id⟩

end PinState

namespace Board

structure Sound (b : Board) : Prop where
  pins_eq : b.pins.map Prod.fst = layout
  states : ∀ p s, b.state? p = some s → s.Sound p

theorem state?_isSome_iff (b : Board) (p : Pin) :
    (b.state? p).isSome = true ↔ p ∈ b.pins.map Prod.fst := by
  rw [state?, List.lookup_isSome_iff, List.mem_map]
  constructor
  · rintro ⟨e, listed, same⟩
    exact ⟨e, listed, (eq_of_beq same).symm⟩
  · rintro ⟨e, listed, rfl⟩
    exact ⟨e, listed, beq_self_eq_true _⟩

theorem map_fst_write (b : Board) (p : Pin) (f : PinState → PinState)
    (differs : PinState → PinState → Bool) :
    (b.write p f differs).1.pins.map Prod.fst = b.pins.map Prod.fst := by
  unfold write
  split
  · rfl
  · split
    · rfl
    · exact map_fst_update b p f

theorem map_fst_freshPins : freshPins.map Prod.fst = layout := by
  rw [freshPins, List.map_map]
  exact List.map_id _

theorem state?_reset (b : Board) {p : Pin} {s : PinState} (present : b.reset.1.state? p = some s) :
    s = .ofPin p := by
  obtain ⟨before, later, pins, -⟩ := List.lookup_eq_some_iff.1 present
  have listed : (p, s) ∈ freshPins := by
    change freshPins = _ at pins
    simp [pins]
  obtain ⟨q, -, made⟩ := List.mem_map.1 listed
  cases made
  rfl

theorem sound_reset (b : Board) : b.reset.1.Sound where
  pins_eq := map_fst_freshPins
  states := by
    intro p s present
    rw [b.state?_reset present]
    exact PinState.sound_ofPin p

theorem map_fst_perform {op : PinOperation} (keeps : op ≠ .resetAll) (b : Board) :
    (op.perform b).1.pins.map Prod.fst = b.pins.map Prod.fst := by
  cases op with
  | resetAll => exact absurd rfl keeps
  | connect pin connection => exact map_fst_update b pin _
  | disconnect pin => exact map_fst_update b pin _
  | subscribe | unsubscribe _ => rfl
  | _ => exact map_fst_write b _ _ _

theorem Sound.perform (op : PinOperation) {b : Board} (sound : b.Sound) : (op.perform b).1.Sound := by
  by_cases anew : op = .resetAll
  · subst anew
    exact sound_reset b
  · refine ⟨(map_fst_perform anew b).trans sound.pins_eq, ?_⟩
    intro p s' present
    rw [state?_perform anew] at present
    split at present
    · rename_i reaches
      obtain ⟨s, before, rfl⟩ := Option.map_eq_some_iff.1 present
      exact (sound.states p s before).change reaches
    · exact sound.states p s' present

theorem Sound.state?_rail {b : Board} (sound : b.Sound) (r : Rail) :
    ∃ s, b.state? (.rail r) = some s := by
  apply Option.isSome_iff_exists.1
  rw [state?_isSome_iff, sound.pins_eq]
  cases r <;> decide

theorem update_of_absent {b : Board} {p : Pin} (absent : p ∉ b.pins.map Prod.fst)
    (f : PinState → PinState) : b.update p f = b := by
  have same : b.pins.map (fun e => if e.1 = p then (e.1, f e.2) else e) = b.pins := by
    refine (List.map_congr_left ?_).trans (List.map_id _)
    intro e listed
    have other : e.1 ≠ p := by
      rintro rfl
      exact absent (List.mem_map_of_mem listed)
    simp [other]
  rw [update, same]

theorem write_of_absent {b : Board} {p : Pin} (absent : p ∉ b.pins.map Prod.fst)
    (f : PinState → PinState) (differs : PinState → PinState → Bool) :
    b.write p f differs = (b, []) := by
  have missing : b.state? p = none := by
    rw [← Option.not_isSome_iff_eq_none, state?_isSome_iff]
    exact absent
  simp [write, missing]

theorem perform_of_absent {b : Board} {op : PinOperation} {p : Pin} (addressed : op.pin? = some p)
    (absent : p ∉ b.pins.map Prod.fst) : op.perform b = (b, []) := by
  cases op with
  | resetAll | subscribe | unsubscribe _ => cases addressed
  | connect pin connection =>
    cases addressed
    rw [PinOperation.perform, connect, update_of_absent absent]
  | disconnect pin =>
    cases addressed
    rw [PinOperation.perform, disconnect, update_of_absent absent]
  | _ =>
    cases addressed
    simp only [PinOperation.perform, setMode, writeDigital, writeAnalog, setAnalog, write_of_absent absent]

/-- Every pin is as a sketch can have left it, if it was as in `b`. -/
def Driven (b b' : Board) : Prop :=
  ∀ p s', b'.state? p = some s' → ∃ s, b.state? p = some s ∧ s.Driven s'

theorem driven_perform (b : Board) {op : PinOperation} (fromSketch : op.FromSketch) :
    b.Driven (op.perform b).1 := by
  intro p s' present
  rw [state?_perform (by rintro rfl; cases fromSketch)] at present
  split at present
  · obtain ⟨s, before, rfl⟩ := Option.map_eq_some_iff.1 present
    exact ⟨s, before, PinState.driven_change fromSketch s⟩
  · exact ⟨s', present, .refl s'⟩

theorem Driven.trans {b b' b'' : Board} (first : b.Driven b') (second : b'.Driven b'') : b.Driven b'' := by
  intro p s'' present
  obtain ⟨s', middle, later⟩ := second p s'' present
  obtain ⟨s, before, earlier⟩ := first p s' middle
  exact ⟨s, before, earlier.trans later⟩

theorem driven_after {ops : List PinOperation} (fromSketch : ∀ op ∈ ops, op.FromSketch) (b : Board) :
    b.Driven (b.after ops) := by
  refine after_invariant (P := b.Driven) ?_ fun p s present => ⟨s, present, .refl s⟩
  intro op listed b' driven
  exact driven.trans (driven_perform b' (fromSketch op listed))

end Board

namespace Engine

variable {config : Config} {e : Engine}

theorem Reachable.board_sound (reached : Engine.Reachable config e) : e.board.Sound :=
  reached.board_invariant (Board.sound_reset .fresh) fun op _ sound => sound.perform op

theorem driven_of_apply {op : HostOperation} (goesOn : op = .step ∨ op = .poll) {e' : Engine}
    (done : op.apply e = some e') : e.board.Driven e'.board := by
  obtain ⟨ops, allowed, board, -⟩ := HostOperation.board_apply done
  rw [board]
  obtain rfl | rfl := goesOn <;> exact Board.driven_after allowed e.board

/-- In every engine that a host can come to, the board has the pins and converters of a fresh one,
levels, readings and duties are in range, and the rails are as in the beginning; an operation on a pin
that is not there changes nothing and tells nobody; and steps and polls change no reading and no
connection, and make no pin a supply. -/
theorem reachable_board_sound (config : Config) (e : Engine) (reached : Engine.Reachable config e) :
    (e.board.pins.map Prod.fst = Board.fresh.pins.map Prod.fst) ∧
    (∀ p s, e.board.state? p = some s →
      s.hasAdc = (PinState.ofPin p).hasAdc ∧ s.hasDac = (PinState.ofPin p).hasDac ∧
      (s.digital = 0 ∨ s.digital = 1) ∧ s.analog ≤ 4095 ∧ s.duty ≤ 255) ∧
    (∀ r : Rail, ∃ s, e.board.state? (.rail r) = some s ∧ s.mode = .power ∧
      s.digital = (PinState.ofRail r).digital ∧ s.analog = (PinState.ofRail r).analog ∧
      s.duty = (PinState.ofRail r).duty) ∧
    (∀ (op : PinOperation) (p : Pin), op.pin? = some p → e.board.state? p = none →
      op.perform e.board = (e.board, [])) ∧
    (∀ op e', op = .step ∨ op = .poll → HostOperation.apply e op = some e' →
      ∀ p s', e'.board.state? p = some s' → ∃ s, e.board.state? p = some s ∧
        s'.analog = s.analog ∧ s'.connection = s.connection ∧
        (s'.mode = .power → s.mode = .power)) := by
  have sound := reached.board_sound
  refine ⟨sound.pins_eq.trans Board.map_fst_freshPins.symm, ?_, ?_, ?_, ?_⟩
  · intro p s present
    obtain ⟨hasAdc, hasDac, analog, duty, -⟩ := sound.states p s present
    have level : s.digital = 0 ∨ s.digital = 1 := by
      cases high : s.high <;> simp [PinState.digital, high]
    exact ⟨hasAdc, hasDac, level, analog, duty⟩
  · intro r
    obtain ⟨s, present⟩ := sound.state?_rail r
    obtain ⟨mode, high, analog, duty⟩ := (sound.states _ s present).rail rfl
    refine ⟨s, present, mode, ?_, analog, duty⟩
    rw [PinState.digital, high]
    rfl
  · intro op p addressed missing
    apply Board.perform_of_absent addressed
    rw [← Board.state?_isSome_iff, missing]
    simp
  · intro op e' goesOn done p s' present
    obtain ⟨s, before, driven⟩ := driven_of_apply goesOn done p s' present
    exact ⟨s, before, driven.analog_eq, driven.connection_eq, driven.power⟩

-- A host and a sketch that ask for duties, readings and modes that there are not.
def overdriving : List HostOperation :=
  [.pin (.writeAnalog (.gpio 25) (0.0 / 0.0)), .pin (.setAnalog (.gpio 34) 1e300),
    .pin (.setMode (.rail .gnd) .output), .pin (.connect (.gpio 5) ⟨"led", "A"⟩),
    .start "String led = \"D5\";\nString gnd = \"GND\";\nvoid setup() { analogWrite(led, 999); digitalWrite(gnd, 1); }"]

theorem reachable_board_sound_overdriving :
    ∃ e e' s s', Engine.Reachable .standard e ∧ HostOperation.apply e .step = some e' ∧
      e.board.state? (.gpio 34) = some s ∧ s.analog ≤ 4095 ∧
      e'.board.state? (.gpio 5) = some s' ∧ s'.duty = 255 ∧
      ∃ before, e.board.state? (.gpio 5) = some before ∧ s'.connection = before.connection := by
  have computed : (((ofConfig .standard).afterAll overdriving).bind fun e =>
      (HostOperation.apply e .step).map fun e' =>
        ((e.board.state? (.gpio 34)).isSome, (e'.board.state? (.gpio 5)).map (·.duty))) =
      some (true, some 255) := by
    decide +kernel
  obtain ⟨e, ran, stepped⟩ := Option.bind_eq_some_iff.1 computed
  obtain ⟨e', done, shown⟩ := Option.map_eq_some_iff.1 stepped
  obtain ⟨present, driven⟩ := Prod.mk.inj shown
  obtain ⟨s, read⟩ := Option.isSome_iff_exists.1 present
  obtain ⟨s', written, duty⟩ := Option.map_eq_some_iff.1 driven
  have reached : Engine.Reachable .standard e := Reachable.created.afterAll ran
  obtain ⟨-, states, -, -, kept⟩ := reachable_board_sound .standard e reached
  obtain ⟨-, -, -, analog, -⟩ := states _ s read
  obtain ⟨before, earlier, -, connection, -⟩ := kept .step e' (.inl rfl) done _ s' written
  exact ⟨e, e', s, s', reached, done, read, analog, written, duty, before, earlier, connection⟩

end Engine

end Breadboard
