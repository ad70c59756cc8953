import Breadboard.Proofs.Effects
import Breadboard.Proofs.Lifecycle
import Mathlib.Tactic.ByContra

set_option autoImplicit false

/-!
How errors are reported. Main statement: every error of the history opens with its mark at any moment
of a run, unless a circuit that cannot be read is imported while a sketch has printed text that is
still held: then the report goes behind that text. The report of a failed run never does.
-/
namespace Breadboard

-- An error can be told by its opening.
def Serial.Event.Recognisable (event : Serial.Event) : Prop :=
  event.category = .error → "ERROR: ".toList <+: event.text.toList

-- The mark overlaps with itself nowhere, so that it opens a text only if nothing is in front of it or
-- if what is in front opens with it.
theorem mark_opens_iff (held rest : List Char) :
    "ERROR: ".toList <+: held ++ ("ERROR: ".toList ++ rest) ↔ held = [] ∨ "ERROR: ".toList <+: held := by
  constructor
  · intro opens
    by_cases long : 7 ≤ held.length
    · exact .inr (List.prefix_of_prefix_length_le opens (List.prefix_append _ _) long)
    · left
      by_contra front
      have shifted : 0 < held.length := List.length_pos_iff.2 front
      obtain ⟨tail, whole⟩ := opens
      -- The blank at the end of the mark would have to stand further in front.
      have blank : (held ++ ("ERROR: ".toList ++ rest))[6]? = some ' ' := by
        rw [← whole]
        rfl
      have earlier : "ERROR: ".toList[6 - held.length]? = some ' ' := by
        rw [List.getElem?_append_right (by omega), List.getElem?_append_left] at blank
        · exact blank
        · have seven : "ERROR: ".toList.length = 7 := rfl
          omega
      have word : ∀ n < 6, "ERROR: ".toList[n]? ≠ some ' ' := by decide
      exact word _ (by omega) earlier
  · rintro (rfl | opens)
    · exact List.prefix_append _ _
    · exact opens.trans (List.prefix_append _ _)

namespace World

def ReportsMarked (w : World) : Prop := ∀ event ∈ w.monitor.recent, event.Recognisable

theorem mem_recent_push {m : Serial.Monitor} {e event : Serial.Event} (kept : event ∈ (m.push e).recent) :
    event = e ∨ event ∈ m.recent := by
  unfold Serial.Monitor.push at kept
  split at kept
  · exact List.mem_cons.1 kept
  · exact (List.mem_cons.1 kept).imp_right List.mem_of_mem_take

theorem ReportsMarked.emit {w : World} (marked : w.ReportsMarked) {text : String}
    {category : Serial.Category} {stamp : Float}
    (recognisable : Serial.Event.Recognisable ⟨w.monitor.pending ++ text, category, stamp⟩) :
    (w.emit text category stamp).ReportsMarked := by
  intro event kept
  obtain rfl | earlier := mem_recent_push kept
  · exact recognisable
  · exact marked event earlier

theorem kept_reportsMarked : World.Kept (fun _ => True) ReportsMarked where
  random _ _ marked := marked
  scopes _ _ marked := marked
  print _ _ marked := marked
  emit _ _ _ _ harmless marked := marked.emit fun error => absurd error harmless
  report w message stamp empty marked := by
    apply marked.emit
    intro _
    rw [empty, String.toList_append, String.toList_append]
    exact List.prefix_append _ _
  pin _ _ _ marked := marked
  note _ _ _ marked := marked
  clearPending _ marked := marked
  listen _ marked := marked

end World

namespace Engine

-- Every error of the history opens with its mark.
def ReportsMarked (e : Engine) : Prop := ∀ event ∈ e.monitor.events, event.Recognisable

/-- The operation imports a circuit that cannot be read while text is held that does not itself open
with the mark. -/
def Garbles (e : Engine) (op : HostOperation) : Prop :=
  ∃ json err, op = .importCircuit json ∧ Circuit.parse json = .error err ∧
    e.monitor.pending ≠ "" ∧ ¬"ERROR: ".toList <+: e.monitor.pending.toList

variable {e e' : Engine} {op : HostOperation}

theorem reportsMarked_iff (e : Engine) : e.ReportsMarked ↔ e.world.ReportsMarked := by
  simp [ReportsMarked, World.ReportsMarked, Serial.Monitor.events, monitor]

theorem recognisable_report_iff (held : String) (message : String) (stamp : Float) :
    Serial.Event.Recognisable ⟨held ++ (errorMark ++ message), .error, stamp⟩ ↔
      held = "" ∨ "ERROR: ".toList <+: held.toList := by
  simp only [Serial.Event.Recognisable, true_imp_iff, String.toList_append]
  rw [errorMark, mark_opens_iff, String.toList_eq_nil_iff]

theorem reportsMarked_apply (clean : ¬e.Garbles op) (marked : e.world.ReportsMarked)
    (done : op.apply e = some e') : e'.world.ReportsMarked := by
  apply World.kept_reportsMarked.apply (fun _ _ => trivial) done
  · rintro json rfl marked
    unfold importCircuit
    split
    · exact marked
    · rename_i err unread
      apply marked.emit
      rw [recognisable_report_iff]
      by_contra glued
      obtain ⟨held, unmarked⟩ := not_or.1 glued
      exact clean ⟨json, err, rfl, unread, held, unmarked⟩
  · rintro rfl marked
    cases done
    exact marked
  · exact marked

-- What becomes of an import that garbles its report.
theorem Garbles.report (garbles : e.Garbles op) :
    ∃ err e', op.apply e = some e' ∧ e'.monitor.events.getLast? =
      some ⟨e.monitor.pending ++ ("ERROR: " ++ CircuitError.message err), .error, e.reading.stamp⟩ ∧
      ¬e'.ReportsMarked := by
  obtain ⟨json, err, rfl, unread, held, unmarked⟩ := garbles
  let event : Serial.Event := ⟨e.monitor.pending ++ (errorMark ++ err.message), .error, e.reading.stamp⟩
  have imported : (e.importCircuit json).2.monitor = { e.monitor with pending := "" }.push event := by
    simp only [importCircuit, unread]
    rfl
  have last : (e.importCircuit json).2.monitor.events.getLast? = some event := by
    rw [imported, Serial.Monitor.events, List.getLast?_reverse, Serial.Monitor.push]
    simp only
    split <;> rfl
  refine ⟨err, _, rfl, last, ?_⟩
  intro marked
  have glued := (recognisable_report_iff _ _ _).1 (marked event (List.mem_of_getLast? last))
  exact glued.elim held unmarked

-- Without such an import all reports stay marked.
theorem reportsMarked_afterAll {ops : List HostOperation} (marked : e.world.ReportsMarked)
    (clean : ∀ before op later x, ops = before ++ op :: later → e.afterAll before = some x →
      ¬x.Garbles op) (ran : e.afterAll ops = some e') : e'.world.ReportsMarked := by
  induction ops generalizing e with
  | nil =>
    cases ran
    exact marked
  | cons op ops ih =>
    unfold afterAll at ran
    split at ran
    · rename_i next done
      have first := reportsMarked_apply (clean [] op ops e rfl rfl) marked done
      refine ih first ?_ ran
      rintro before op' later x rfl reached
      exact clean (op :: before) op' later x rfl (by simpa [afterAll, done] using reached)
    · cases ran

/-- However a host drives a new engine: every error of its history opens with the mark at every moment
exactly if no circuit that cannot be read is imported while text is held that does not open with the
mark. Such an import can only come during a run, and it leaves the held text in front of its report. -/
theorem errors_marked_iff (config : Config) (ops : List HostOperation) :
    ((∀ before later e, ops = before ++ later → (ofConfig config).afterAll before = some e →
        e.ReportsMarked) ↔
      ¬∃ before op later e, ops = before ++ op :: later ∧ (ofConfig config).afterAll before = some e ∧
        e.Garbles op) ∧
    ∀ before op later e, ops = before ++ op :: later → (ofConfig config).afterAll before = some e →
      e.Garbles op → e.status = .running ∧ ∃ err e', op.apply e = some e' ∧
        e'.monitor.events.getLast? = some
          ⟨e.monitor.pending ++ ("ERROR: " ++ CircuitError.message err), .error, e.reading.stamp⟩ := by
  refine ⟨⟨?_, ?_⟩, ?_⟩
  · rintro marked ⟨before, op, later, e, rfl, reached, garbles⟩
    obtain ⟨_, e', done, -, unmarked⟩ := garbles.report
    have next : (ofConfig config).afterAll (before ++ [op]) = some e' := by
      simp [afterAll_append, reached, afterAll, done]
    exact unmarked (marked (before ++ [op]) later e' (by simp) next)
  · rintro clean before later e rfl reached
    rw [reportsMarked_iff]
    refine reportsMarked_afterAll (by simp [World.ReportsMarked, ofConfig, world, Serial.Monitor.ofCapacity]) ?_ reached
    rintro earlier op later' x rfl came garbles
    exact clean ⟨earlier, op, later' ++ later, x, by simp, came, garbles⟩
  · rintro before op later e rfl reached garbles
    obtain ⟨err, e', done, last, -⟩ := garbles.report
    refine ⟨?_, err, e', done, last⟩
    obtain ⟨_, _, -, -, held, -⟩ := garbles
    by_contra halted
    exact held ((Reachable.created.afterAll reached).lifecycle.pending_empty halted)

-- A sketch prints something and pauses, and the host imports what is no circuit.
example : ((ofConfig .standard).afterAll
    [.start "String s = \"half\";\nvoid setup() { Serial.print(s); delay(50); }", .step,
      .importCircuit "["]).map (fun e => e.monitor.events.map (·.text)) =
    some ["halfERROR: Invalid circuit JSON: the text does not describe a circuit"] := by
  decide +kernel

end Engine

end Breadboard
