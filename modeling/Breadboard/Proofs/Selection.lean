import Breadboard.Proofs.BoardInvariant
import Breadboard.Proofs.Scrolling
import Breadboard.Session.Key

set_option autoImplicit false

/-!
What a session has in sight. Main statement: whatever keys are pressed and at whatever size the screen is drawn, the
selected pin is one of the board, and the line that runs, the selected pin and the newest output are shown.
-/
namespace Breadboard

open Screen

namespace Session

/-- What happens to a session. -/
inductive Turn where
  | draw (width height : Nat)
  | frame (width height : Nat)
  | press (save : Export → Option File.Fault) (key : Key)
  /-- The engine is used from outside of the session, or time passes. -/
  | engine (op : HostOperation)

def turn (s : Session) : Turn → Option Session
  | .draw width height => some (s.draw width height).2
  | .frame width height => (s.frame width height).map Prod.snd
  | .press save key => some (s.press save key)
  | .engine op => (op.apply s.engine).map fun engine => { s with engine }

/-- The session after all turns, if they all have a result. -/
def turns : List Turn → Session → Option Session
  | [], s => some s
  | t :: rest, s => (s.turn t).bind (turns rest)

/-- Whether the engine of a session is one that a host can come to, and the selected row one of the pins. -/
structure Sound (config : Config) (s : Session) : Prop where
  reached : Engine.Reachable config s.engine
  selected : s.selected < Board.layout.length

namespace Sound

variable {config : Config} {s : Session}

theorem ofEngine {e : Engine} (reached : Engine.Reachable config e) (source : String)
    (circuit : Option LoadedCircuit) : (Session.ofEngine e source circuit).Sound config where
  reached := .host .takeNews reached rfl
  selected := by
    have some_ : 0 < Board.layout.length := by decide
    exact some_

theorem length_pins (sound : s.Sound config) : s.engine.board.pins.length = Board.layout.length := by
  have pins := congrArg List.length sound.reached.board_sound.pins_eq
  rwa [List.length_map] at pins

theorem exists_selectedPin (sound : s.Sound config) : ∃ pin state, s.selectedPin? = some (pin, state) := by
  have inside : s.selected < s.engine.board.pins.length := sound.length_pins ▸ sound.selected
  exact ⟨_, _, List.getElem?_eq_getElem inside⟩

-- An operation on the engine keeps the selection, whatever is said of it.
theorem operate (sound : s.Sound config) (op : HostOperation) {engine : Engine}
    (done : op.apply s.engine = some engine) (message : String) :
    ({ s with engine, message } : Session).Sound config :=
  ⟨.host op sound.reached done, sound.selected⟩

theorem say (sound : s.Sound config) (message : String) : (s.say message).Sound config :=
  ⟨sound.reached, sound.selected⟩

theorem hear (sound : s.Sound config) : s.hear.Sound config := by
  have told : Engine.Reachable config s.engine.takeNews.2 := .host .takeNews sound.reached rfl
  simp only [Session.hear]
  split
  · exact ⟨told, sound.selected⟩
  · exact ⟨told, sound.selected⟩

theorem draw (sound : s.Sound config) (width height : Nat) : (s.draw width height).2.Sound config :=
  ⟨sound.reached, sound.selected⟩

theorem frame (sound : s.Sound config) {width height : Nat} {shown : Picture × Session}
    (drawn : s.frame width height = some shown) : shown.2.Sound config := by
  obtain ⟨⟨progress, engine⟩, polled, made⟩ := Option.bind_eq_some_iff.1 drawn
  obtain rfl := Option.some.inj made
  have done : HostOperation.poll.apply s.engine = some engine := by rw [HostOperation.apply, polled]; rfl
  exact (sound.operate _ done s.message).hear.draw width height

theorem toggleRun (sound : s.Sound config) : s.toggleRun.Sound config := by
  unfold Session.toggleRun
  split
  · exact (sound.operate .stop rfl s.message).hear
  · split
    · rename_i engine started
      have done : (HostOperation.start s.source).apply s.engine = some engine := by
        rw [HostOperation.apply, started]
        rfl
      exact (sound.operate _ done s.message).hear
    · exact (sound.say _).hear

theorem scaleSpeed (sound : s.Sound config) (factor : Float) : (s.scaleSpeed factor).Sound config := by
  unfold Session.scaleSpeed
  dsimp only
  split
  · rename_i engine set
    have done {speed : Float} (set : s.engine.setSpeed speed = .ok engine) :
        (HostOperation.setSpeed speed).apply s.engine = some engine := by
      rw [HostOperation.apply, set]
      rfl
    exact sound.operate _ (done set) _
  · exact sound.say _

theorem togglePin (sound : s.Sound config) : s.togglePin.Sound config := by
  unfold Session.togglePin
  split
  · exact sound
  · split
    · exact sound.say _
    · exact sound.operate (.pin (.writeDigital _ _)) rfl _

theorem moveAnalog (sound : s.Sound config) (change : Nat → Nat) : (s.moveAnalog change).Sound config := by
  unfold Session.moveAnalog
  split
  · exact sound
  · split
    · exact sound.say _
    · exact sound.operate (.pin (.setAnalog _ _)) rfl _

theorem moveUp (sound : s.Sound config) : s.moveUp.Sound config := by
  have selected := sound.selected
  unfold Session.moveUp
  split
  · exact ⟨sound.reached, selected⟩
  · exact ⟨sound.reached, Nat.lt_of_le_of_lt (Nat.sub_le ..) selected⟩
  · exact ⟨sound.reached, selected⟩

-- The selection stops at the last pin.
theorem moveDown (sound : s.Sound config) : s.moveDown.Sound config := by
  have selected := sound.selected
  unfold Session.moveDown
  split
  · exact ⟨sound.reached, selected⟩
  · refine ⟨sound.reached, ?_⟩
    dsimp only
    rw [sound.length_pins]
    omega
  · exact ⟨sound.reached, selected⟩

theorem react (sound : s.Sound config) (key : Key) : (s.react key).Sound config := by
  unfold Session.react
  split
  · exact ⟨sound.reached, sound.selected⟩
  · exact ⟨sound.reached, sound.selected⟩
  · exact sound.toggleRun
  · exact (sound.operate .reset rfl s.message).hear
  · exact sound.scaleSpeed _
  · exact sound.scaleSpeed _
  · exact sound.scaleSpeed _
  · exact sound.togglePin
  · exact sound.moveAnalog _
  · exact sound.moveAnalog _
  · exact ⟨sound.reached, sound.selected⟩
  · exact ⟨sound.reached, sound.selected⟩
  · exact sound.moveUp
  · exact sound.moveDown
  · exact ⟨sound.reached, sound.selected⟩
  · exact sound
  · exact sound

theorem press (sound : s.Sound config) (save : Export → Option File.Fault) (key : Key) :
    (s.press save key).Sound config := by
  unfold Session.press
  split
  · unfold Session.report
    split <;> exact sound.say _
  · split
    · exact sound.say _
    · exact sound.react key

theorem turn (sound : s.Sound config) {t : Turn} {s' : Session} (done : s.turn t = some s') : s'.Sound config := by
  cases t with
  | draw width height =>
    cases done
    exact sound.draw width height
  | frame width height =>
    obtain ⟨shown, drawn, rfl⟩ := Option.map_eq_some_iff.1 done
    exact sound.frame drawn
  | press save key =>
    cases done
    exact sound.press save key
  | engine op =>
    obtain ⟨engine, ran, rfl⟩ := Option.map_eq_some_iff.1 done
    exact sound.operate op ran s.message

theorem turns (sound : s.Sound config) {ts : List Turn} {s' : Session} (done : Session.turns ts s = some s') :
    s'.Sound config := by
  induction ts generalizing s with
  | nil =>
    cases done
    exact sound
  | cons t ts ih =>
    obtain ⟨next, first, rest⟩ := Option.bind_eq_some_iff.1 done
    exact ih (sound.turn first) rest

end Sound

end Session

section Sight

/-- What matters is in sight, at any size and wherever the panes were scrolled. The source pane hands on the line
that was executed last, if the source has it, and as many lines as it has rows if the source has more. The rows of the
pins pane are around the selected pin. The serial monitor is scrolled no further than its last page once there is
output, and not at all before; the farthest scroll shows the newest line. What is handed on stands in the picture,
unless the pane has no room between its edges. And in a session the selected pin is a pin of the board, whatever keys
are pressed and whatever happens to its engine. -/
theorem what_matters_is_shown :
    (∀ (p : SourcePane) (scroll : SourceScroll) (width height : Nat), 0 < p.current → p.current ≤ p.lines.length →
      (∃ text, p.lines[p.current - 1]? = some text ∧ (p.current, text) ∈ p.shown scroll height ∧
        (3 ≤ height → p.rowOf width (p.current, text) ∈ (p.draw scroll width height).1)) ∧
      (textRows height < p.lines.length → (p.shown scroll height).length = textRows height)) ∧
    (∀ (p : PinsPane) (scroll width height : Nat),
      ((p.draw scroll width height).2 ≤ p.selected ∧
        p.selected < (p.draw scroll width height).2 + PinsPane.pinRows height) ∧
      ∀ entry, p.pins[p.selected]? = some entry → (entry, p.selected) ∈ p.shown scroll height ∧
        (4 ≤ height → p.rowOf width (entry, p.selected) ∈ (p.draw scroll width height).1)) ∧
    (∀ (p : LogPane) (scroll width height : Nat),
      (p.lines ≠ [] → (p.draw scroll width height).2 ≤ p.lines.length - textRows height) ∧
      (p.lines = [] → (p.draw scroll width height).2 = scroll) ∧
      ∀ newest, p.lines.getLast? = some newest → p.lines.length ≤ farthest →
        (p.shown farthest height).getLast? = some newest ∧
        (3 ≤ height → p.rowOf width newest ∈ (p.draw farthest width height).1)) ∧
    ∀ (config : Config) (e : Engine) (source : String) (circuit : Option LoadedCircuit) (turns : List Session.Turn)
      (s : Session), Engine.Reachable config e → Session.turns turns (.ofEngine e source circuit) = some s →
        ∃ pin state, s.selectedPin? = some (pin, state) := by
  refine ⟨?_, ?_, ?_, ?_⟩
  · intro p scroll width height first last
    obtain ⟨text, known, shown⟩ := p.current_shown scroll height first last
    have drawn (tall : 3 ≤ height) := p.mem_draw scroll width height tall shown
    exact ⟨⟨text, known, shown, drawn⟩, fun long => p.length_shown scroll height first last (Nat.le_of_lt long)⟩
  · intro p scroll width height
    refine ⟨p.scrolled_le scroll height, fun entry known => ?_⟩
    have shown := p.selected_shown scroll height known
    exact ⟨shown, fun tall => p.mem_draw scroll width height tall shown⟩
  · intro p scroll width height
    refine ⟨p.scrolled_le scroll height, p.scrolled_of_none scroll height, fun newest last few => ?_⟩
    have shown := p.newest_shown height last few
    exact ⟨shown, fun tall => p.mem_draw farthest width height tall (List.mem_of_getLast? shown)⟩
  · intro config e source circuit turns s reached done
    exact ((Session.Sound.ofEngine reached source circuit).turns done).exists_selectedPin

-- A source that is longer than its pane, a pin far down the table, text that has not ended its line, and a session
-- in which the second pin is selected.
theorem what_matters_is_shown_scrolled :
    let p : SourcePane := ⟨"a\nb\nc\nd\ne\nf", 4, false, true⟩
    let q : PinsPane := ⟨Board.fresh.pins, 20, true⟩
    let r : LogPane := ⟨{ Serial.Monitor.ofCapacity 10 with pending := "half" }, false⟩
    let turns : List Session.Turn := [.press (fun _ => none) .backTab, .press (fun _ => none) .down, .draw 80 24]
    ((4, ['d']) ∈ p.shown .top 5 ∧ p.rowOf 40 (4, ['d']) ∈ (p.draw .top 40 5).1 ∧ (p.shown .top 5).length = 3) ∧
    ((20 < (q.draw 0 60 10).2 + 7) ∧ ((.gpio 25, .ofPin (.gpio 25)), 20) ∈ q.shown 0 10 ∧
      q.rowOf 60 ((.gpio 25, .ofPin (.gpio 25)), 20) ∈ (q.draw 0 60 10).1) ∧
    ((r.draw 7 40 5).2 ≤ 0 ∧ (r.shown farthest 5).getLast?.isSome) ∧
    ∃ s pin state, Session.turns turns (.ofEngine (.ofConfig .standard) "" none) = some s ∧ s.selected = 1 ∧
      s.selectedPin? = some (pin, state) := by
  intro p q r turns
  obtain ⟨source, pins, log, session⟩ := what_matters_is_shown
  obtain ⟨⟨text, known, shown, drawn⟩, filled⟩ := source p .top 40 5 (by decide) (by decide)
  obtain ⟨⟨-, below⟩, selected⟩ := pins q 0 60 10
  obtain ⟨shownPin, drawnPin⟩ := selected (.gpio 25, .ofPin (.gpio 25)) (by decide)
  obtain ⟨page, -, newest⟩ := log r 7 40 5
  obtain ⟨last, -⟩ := newest _ rfl (by decide)
  obtain ⟨pin, state, named⟩ := session .standard (.ofConfig .standard) "" none turns _ .created rfl
  have line : text = ['d'] := Option.some.inj (known.symm.trans (by decide))
  subst line
  refine ⟨⟨shown, drawn (by decide), filled (by decide)⟩, ⟨below, shownPin, drawnPin (by decide)⟩, ⟨?_, ?_⟩, ?_⟩
  · exact page (List.cons_ne_nil _ _)
  · rw [last]
    rfl
  · exact ⟨_, pin, state, rfl, rfl, named⟩

-- Without output there is no page, and the scroll stays where it is.
theorem offset_stays_without_output :
    ¬∀ (p : LogPane) (scroll width height : Nat),
      (p.draw scroll width height).2 ≤ p.lines.length - textRows height := by
  intro bounded
  exact absurd (bounded ⟨.ofCapacity 1000, false⟩ 5 40 10) (by decide)

end Sight

end Breadboard
