import Breadboard.Proofs.Effects
import Breadboard.Proofs.Suspension

set_option autoImplicit false

/-!
What happens to an engine, one step of its frames at a time. All that a host can do, but for ending the
run, is made of such steps and of things that leave the frames and the variables alone.
-/
namespace Breadboard

-- What a host does besides letting the run go on and ending it.
def HostOperation.isAside : HostOperation → Bool
  | .step | .poll | .stop | .reset => false
  | _ => true

/-- One thing that happens to an engine: its run goes one step on, if it is due, or its host does
something. -/
inductive Happening where
  | step
  | host (op : HostOperation)

def Engine.stepOnce (e : Engine) : Option Engine :=
  if e.isDue then
    match e.thread.step e.setting with
    | .next thread => some { e with thread }
    | .pause span thread => (Time.after? e.now span).map fun due => { e with thread, due := some due }
    | .fail fault thread => some ({ e with thread }.fail fault)
    | .overflow => none
  else some e

namespace Happening

def apply (e : Engine) : Happening → Option Engine
  | .step => e.stepOnce
  | .host op => op.apply e

def isAside : Happening → Bool
  | .step => true
  | .host op => op.isAside

end Happening

namespace Engine

-- The engine after all that happens to it, if all of it has a result.
def undergo (e : Engine) : List Happening → Option Engine
  | [] => some e
  | h :: hs => (h.apply e).bind (·.undergo hs)

theorem undergo_append (e : Engine) (hs more : List Happening) :
    e.undergo (hs ++ more) = (e.undergo hs).bind (·.undergo more) := by
  induction hs generalizing e with
  | nil => rfl
  | cons h hs ih => cases done : h.apply e <;> simp [undergo, done, ih]

theorem undergo_singleton (e : Engine) (h : Happening) : e.undergo [h] = h.apply e := by
  cases done : h.apply e <;> simp [undergo, done]

/-- All that a step that is due can lead to: the run goes on or pauses, or it fails. -/
theorem stepOnce_cases {e e' : Engine} (due : e.isDue = true) (step : e.stepOnce = some e') :
    ((e.thread.step e.setting).thread? = some e'.thread ∧ e'.status = .running) ∨
      (∃ fault thread, e.thread.step e.setting = .fail fault thread) ∧ e'.status = .error := by
  have running := ((isDue_iff e).1 due).1
  simp only [stepOnce, due, if_true] at step
  split at step
  · rename_i thread next
    cases step
    exact .inl ⟨by rw [next]; rfl, running⟩
  · rename_i span thread pause
    obtain ⟨next, -, rfl⟩ := Option.map_eq_some_iff.1 step
    exact .inl ⟨by rw [pause]; rfl, running⟩
  · rename_i fault thread fails
    cases step
    exact .inr ⟨⟨fault, thread, fails⟩, rfl⟩
  · cases step

/-- `Comes e e'`: things that do not end a run lead from `e` to `e'`. -/
def Comes (e e' : Engine) : Prop := ∃ hs, hs.all Happening.isAside = true ∧ e.undergo hs = some e'

theorem Comes.refl (e : Engine) : e.Comes e := ⟨[], rfl, rfl⟩

theorem Comes.trans {e e' e'' : Engine} (first : e.Comes e') (second : e'.Comes e'') : e.Comes e'' := by
  obtain ⟨hs, aside, done⟩ := first
  obtain ⟨more, aside', done'⟩ := second
  exact ⟨hs ++ more, by simp [aside, aside'], by simp [undergo_append, done, done']⟩

theorem Comes.of_apply {e e' : Engine} {h : Happening} (aside : h.isAside = true)
    (done : h.apply e = some e') : e.Comes e' :=
  ⟨[h], by simp [aside], by rw [undergo_singleton, done]⟩

theorem comes_aside {op : HostOperation} (aside : op.isAside = true) {e e' : Engine}
    (done : op.apply e = some e') : e.Comes e' := .of_apply (h := .host op) aside done

theorem comes_after {e : Engine} {t : Thread} {n : Nat} (due : e.isDue = true)
    (reached : e.thread.after e.setting n = some t) : e.Comes { e with thread := t } := by
  induction n generalizing e with
  | zero =>
    cases reached
    exact .refl e
  | succ n ih =>
    unfold Thread.after at reached
    split at reached
    · rename_i u step
      have once : Happening.step.apply e = some { e with thread := u } := by
        simp [Happening.apply, stepOnce, due, step]
      exact (Comes.of_apply rfl once).trans (ih (e := { e with thread := u }) due reached)
    · cases reached

theorem comes_step {e e' : Engine} {last : Progress} (step : e.step = some (last, e')) : e.Comes e' := by
  by_cases due : e.isDue = true
  · rw [step_of_isDue due] at step
    obtain ⟨n, t, reached, ends⟩ := Thread.run_eq_iff.1 (rfl : e.thread.run e.setting = _)
    refine (comes_after due reached).trans (.of_apply (h := .step) rfl ?_)
    have due' : isDue { e with thread := t } = true := due
    have same : setting { e with thread := t } = e.setting := rfl
    -- The last step of the run ends as the run does.
    simp only [Happening.apply, stepOnce, due', if_true, same, ends]
    cases run : e.thread.run e.setting with
    | pause span u =>
      rw [run] at step
      obtain ⟨next, inTime, made⟩ := Option.map_eq_some_iff.1 step
      cases made
      simp [Thread.lastOutcome, inTime]
    | fail fault u =>
      rw [run] at step
      cases step
      rfl
    | overflow =>
      rw [run] at step
      cases step
  · obtain ⟨_, same⟩ := step_of_not_isDue (Bool.eq_false_iff.2 due)
    cases same.symm.trans step
    exact .refl e

/-- What a host does is made of steps and of what it does aside, unless it ends the run. -/
theorem comes_operation {op : HostOperation} (lasting : op ≠ .stop) (kept : op ≠ .reset) {e e' : Engine}
    (done : op.apply e = some e') : e.Comes e' := by
  cases op with
  | step =>
    obtain ⟨⟨last, _⟩, step, rfl⟩ := Option.map_eq_some_iff.1 done
    exact comes_step step
  | poll =>
    obtain ⟨⟨last, _⟩, poll, rfl⟩ := Option.map_eq_some_iff.1 done
    exact poll_of_step (fun _ _ _ come step => come.trans (comes_step step)) (.refl e) poll
  | stop => exact absurd rfl lasting
  | reset => exact absurd rfl kept
  | _ => exact comes_aside rfl done

/-- Whether two engines run the same frames on the same variables. -/
structure SameRun (e e' : Engine) : Prop where
  running : e'.status = .running
  frames : e'.thread.frames = e.thread.frames
  scopes : e'.world.scopes = e.world.scopes

theorem SameRun.move {e x x' : Engine} (same : e.SameRun x) {op : HostOperation}
    (aside : op.isAside = true) (move : x.Move op x') : e.SameRun x' := by
  cases move with
  | step | stop | reset => cases aside
  | start started =>
    -- A run that is under way is not started again.
    rw [start, if_pos same.running] at started
    cases started
  | _ => exact ⟨same.running, same.frames, same.scopes⟩

/-- What a host does aside leaves the frames and the variables of a run alone. -/
theorem sameRun_of_isAside {op : HostOperation} (aside : op.isAside = true) {e e' : Engine}
    (running : e.status = .running) (done : op.apply e = some e') : e.SameRun e' := by
  refine HostOperation.apply_keeps ?_ ⟨running, rfl, rfl⟩ done
  intro o _ _ part move same
  refine same.move ?_ move
  cases part with
  | all => exact aside
  | step => cases aside
  | register => rfl

end Engine

end Breadboard
