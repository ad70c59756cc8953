import Breadboard.Engine.Run

set_option autoImplicit false

/-!
Where a run ends. Main statement: after at most as many steps as its rank a run pauses, or fails at a
call that is nested too deeply, or has come to a delay that is too long to be held; each of the three
is told from the frames and the world before the last step.
-/
namespace Breadboard

-- The statement that is carried out when a statement is started.
def Stmt.first : Stmt → Stmt
  | .forLoop _ (some init) _ _ _ => init.first
  | st => st

-- Whether an action is a delay whose pause cannot be held.
def Action.isOverlong (p : Pace) (w : World) : Action → Bool
  | .delay ms => (Time.pause? (w.eval p.time ms).1.toNumber p.speed).isNone
  | .delayMicros us => (Time.pause? ((w.eval p.time us).1.toNumber / 1000.0) p.speed).isNone
  | _ => false

theorem Action.perform_overflow_iff (p : Pace) (w : World) (a : Action) :
    (a.perform p w).2 = .overflow ↔ a.isOverlong p w = true := by
  have ofPause (span : Option Nat) : Flow.ofPause span = .overflow ↔ span.isNone = true := by
    cases span <;> simp [Flow.ofPause]
  cases a with
  | delay ms => exact ofPause _
  | delayMicros us => exact ofPause _
  | pinMode pin mode =>
    simp only [perform, isOverlong]
    split
    · split <;> simp
    · simp
  | digitalWrite pin value =>
    simp only [perform, isOverlong]
    split <;> simp
  | analogWrite pin duty =>
    simp only [perform, isOverlong]
    split <;> simp
  | _ => simp [perform, isOverlong]

namespace Thread

def upcoming (t : Thread) : Option Stmt :=
  match t.frames with
  | .sequence (st :: _) :: _ => some st.first
  | .forStep _ (some st) _ :: _ => some st.first
  | _ => none

/-- Whether the next step comes to a delay that is too long. -/
def AtOverlongDelay (s : Setting) (t : Thread) : Prop :=
  ∃ loc action, t.upcoming = some (.act loc action) ∧ action.isOverlong s.pace t.world = true

-- Whether the next step comes to a call that would be nested too deeply.
def AtDeepCall (s : Setting) (name : String) (loc : Location) (t : Thread) : Prop :=
  ∃ args f, t.upcoming = some (.call loc name args) ∧ s.program.functions.find? name = some f ∧
    s.limit ≤ t.depth

/-- The thread after a number of steps that all go on. -/
def after (s : Setting) : Nat → Thread → Option Thread
  | 0, t => some t
  | n + 1, t =>
    match t.step s with
    | .next t' => after s n t'
    | _ => none

theorem execute_overflow_iff (s : Setting) : (st : Stmt) → (t : Thread) →
    (t.execute s st = .overflow ↔
      ∃ loc action, st.first = .act loc action ∧ action.isOverlong s.pace t.world = true)
  | .act loc action, t => by
    have performed := Action.perform_overflow_iff s.pace t.world action
    simp only [execute, Stmt.first, Stmt.act.injEq]
    constructor
    · intro h
      refine ⟨loc, action, ⟨rfl, rfl⟩, performed.1 ?_⟩
      split at h <;> simp_all
    · rintro ⟨_, _, ⟨rfl, rfl⟩, overlong⟩
      rw [performed.2 overlong]
  | .call loc name args, t => by
    simp only [execute, Stmt.first]
    split
    · simp
    · split <;> simp
  | .choose _ _, t => by simp [execute, Stmt.first]
  | .forLoop _ none _ _ _, t => by simp [execute, Stmt.first]
  | .forLoop _ (some init) cond step body, t => by
    simpa [execute, Stmt.first, push] using execute_overflow_iff s init (t.push (.forTest cond step body))
  | .whileLoop _ _ _, t => by simp [execute, Stmt.first]

theorem execute_fail_iff (s : Setting) (fault : Fault) : (st : Stmt) → (t : Thread) →
    ((∃ u, t.execute s st = .fail fault u) ↔
      ∃ loc name args f, st.first = .call loc name args ∧ s.program.functions.find? name = some f ∧
        s.limit ≤ t.depth ∧ fault = .callDepth name s.limit loc)
  | .act loc action, t => by
    simp only [execute, Stmt.first]
    split <;> simp
  | .call loc name args, t => by
    simp only [execute, Stmt.first, Stmt.call.injEq]
    split
    · rename_i unknown
      simp [unknown]
    · rename_i f known
      by_cases deep : s.limit ≤ t.depth
      · simp only [deep, if_true, Outcome.fail.injEq]
        constructor
        · rintro ⟨_, rfl, -⟩
          exact ⟨loc, name, args, f, ⟨rfl, rfl, rfl⟩, known, trivial, rfl⟩
        · rintro ⟨_, _, _, _, ⟨rfl, rfl, rfl⟩, -, -, rfl⟩
          exact ⟨t, rfl, rfl⟩
      · simp [deep]
  | .choose _ _, t => by simp [execute, Stmt.first]
  | .forLoop _ none _ _ _, t => by simp [execute, Stmt.first]
  | .forLoop _ (some init) cond step body, t => by
    simpa [execute, Stmt.first, push, depth] using
      execute_fail_iff s fault init (t.push (.forTest cond step body))
  | .whileLoop _ _ _, t => by simp [execute, Stmt.first]

theorem yieldBody_overflow_iff (o : Outcome) : yieldBody o = .overflow ↔ o = .overflow := by
  cases o <;> simp [yieldBody]

theorem yieldBody_fail_iff (o : Outcome) (fault : Fault) (u : Thread) :
    yieldBody o = .fail fault u ↔ o = .fail fault u := by
  cases o <;> simp [yieldBody]

-- A step starts a statement, and then its outcome is that of the statement, or it goes on or pauses
-- by itself.
theorem step_starts_or_goes_on (s : Setting) (t : Thread) :
    (∃ (st : Stmt) (u : Thread), t.upcoming = some st.first ∧ u.world = t.world ∧
      (t.step s = u.execute s st ∨ t.step s = yieldBody (u.execute s st))) ∨
    (t.upcoming = none ∧ ∃ u, t.step s = .next u ∨ ∃ span, t.step s = .pause span u) := by
  obtain ⟨frames, phase, location, world⟩ := t
  match frames with
  | [] => cases phase <;> simp [step, upcoming]
  | .sequence [] :: fs => simp [step, upcoming]
  | .sequence (st :: rest) :: fs =>
    exact .inl ⟨st, ⟨.sequence rest :: fs, phase, st.location, world⟩, rfl, rfl, .inl rfl⟩
  | .forTest cond step body :: fs => simp [Thread.step, upcoming]
  | .forStep cond none body :: fs => simp [step, upcoming]
  | .forStep cond (some st) body :: fs =>
    exact .inl ⟨st, ⟨.forTest cond (some st) body :: fs, phase, location, world⟩, rfl, rfl, .inr rfl⟩
  | .whileTest cond body rounds :: fs =>
    right
    refine ⟨rfl, ?_⟩
    simp only [step]
    split
    · split
      · exact ⟨_, .inr ⟨_, rfl⟩⟩
      · exact ⟨_, .inl rfl⟩
    · exact ⟨_, .inl rfl⟩
  | .call :: fs => simp [step, upcoming]

theorem step_overflow_iff (s : Setting) (t : Thread) :
    t.step s = .overflow ↔ t.AtOverlongDelay s := by
  obtain ⟨st, u, up, same, step⟩ | ⟨up, u, step | ⟨span, step⟩⟩ := step_starts_or_goes_on s t
  · have started : t.step s = .overflow ↔ u.execute s st = .overflow := by
      obtain step | step := step <;> simp [step, yieldBody_overflow_iff]
    simp [started, execute_overflow_iff, AtOverlongDelay, up, same]
  · simp [step, AtOverlongDelay, up]
  · simp [step, AtOverlongDelay, up]

theorem step_fail_iff (s : Setting) (t : Thread) (fault : Fault) :
    (∃ u, t.step s = .fail fault u) ↔
      ∃ name loc, fault = .callDepth name s.limit loc ∧ t.AtDeepCall s name loc := by
  obtain ⟨st, u, up, same, step⟩ | ⟨up, u, step | ⟨span, step⟩⟩ := step_starts_or_goes_on s t
  · have started : (∃ v, t.step s = .fail fault v) ↔ ∃ v, u.execute s st = .fail fault v := by
      obtain step | step := step <;> simp [step, yieldBody_fail_iff]
    have depth : u.depth = t.depth := by rw [Thread.depth, same, Thread.depth]
    simp only [started, execute_fail_iff, AtDeepCall, up, depth, Option.some.injEq]
    constructor
    · rintro ⟨loc, name, args, f, call, known, deep, rfl⟩
      exact ⟨name, loc, rfl, args, f, call, known, deep⟩
    · rintro ⟨name, loc, rfl, args, f, call, known, deep⟩
      exact ⟨loc, name, args, f, call, known, deep, rfl⟩
  · simp [step, AtDeepCall, up]
  · simp [step, AtDeepCall, up]

/-- Whether a run that has come here hands control back at the next step: it pauses, or it fails at
a call that would be nested too deeply. -/
def HandsBack (s : Setting) (t : Thread) : Prop :=
  (∃ span u, t.step s = .pause span u) ∨
    ∃ name loc u, t.AtDeepCall s name loc ∧ t.step s = .fail (.callDepth name s.limit loc) u

theorem last_step_cases (s : Setting) (t : Thread) (last : ∀ u, t.step s ≠ .next u) :
    t.HandsBack s ∨ t.AtOverlongDelay s := by
  cases step : t.step s with
  | next u => exact absurd step (last u)
  | pause span u => exact .inl (.inl ⟨span, u, step⟩)
  | fail fault u =>
    obtain ⟨name, loc, rfl, deep⟩ := (step_fail_iff s t fault).1 ⟨u, step⟩
    exact .inl (.inr ⟨name, loc, u, deep, step⟩)
  | overflow => exact .inr ((step_overflow_iff s t).1 step)

theorem HandsBack.last {s : Setting} {t : Thread} (back : t.HandsBack s) (u : Thread) :
    t.step s ≠ .next u := by
  obtain ⟨_, _, step⟩ | ⟨_, _, _, _, step⟩ := back <;> simp [step]

-- Every run takes its last step, at the latest when its rank is used up.
theorem exists_last_step (s : Setting) (t : Thread) :
    ∃ n last, n ≤ t.rank s ∧ t.after s n = some last ∧ ∀ u, last.step s ≠ .next u := by
  induction t using run.induct s with
  | case1 t u step lower ih =>
    obtain ⟨n, last, within, reached, ends⟩ := ih
    refine ⟨n + 1, last, by omega, ?_, ends⟩
    simpa [after, step] using reached
  | case2 t span u step => exact ⟨0, t, by omega, rfl, by simp [step]⟩
  | case3 t fault u step => exact ⟨0, t, by omega, rfl, by simp [step]⟩
  | case4 t step => exact ⟨0, t, by omega, rfl, by simp [step]⟩

theorem last_step_unique {s : Setting} {t a b : Thread} {n m : Nat} (toA : t.after s n = some a)
    (lastA : ∀ u, a.step s ≠ .next u) (toB : t.after s m = some b)
    (lastB : ∀ u, b.step s ≠ .next u) : a = b := by
  -- A thread has one next thread, so that neither run can outlast the other.
  induction n generalizing t m with
  | zero =>
    cases toA
    cases m with
    | zero => exact Option.some.inj toB
    | succ m =>
      unfold after at toB
      split at toB
      · rename_i u step
        exact absurd step (lastA u)
      · cases toB
  | succ n ih =>
    unfold after at toA
    split at toA
    · rename_i u step
      cases m with
      | zero =>
        cases toB
        exact absurd step (lastB u)
      | succ m => exact ih toA (by simpa [after, step] using toB)
    · cases toA

theorem run_of_after {s : Setting} {t u : Thread} {n : Nat} (reached : t.after s n = some u) :
    t.run s = u.run s := by
  induction n generalizing t with
  | zero =>
    cases reached
    rfl
  | succ n ih =>
    unfold after at reached
    split at reached
    · rename_i step
      rw [run_of_next step]
      exact ih reached
    · cases reached

-- The outcome of the step with which a run ends.
def lastOutcome : RunEnd → Outcome
  | .pause span t => .pause span t
  | .fail fault t => .fail fault t
  | .overflow => .overflow

theorem run_of_lastOutcome {s : Setting} {t : Thread} {end_ : RunEnd}
    (step : t.step s = lastOutcome end_) : t.run s = end_ := by
  cases end_ with
  | pause span u => exact run_of_pause step
  | fail fault u => exact run_of_fail step
  | overflow => exact run_of_overflow step

-- A run ends as its last step does.
theorem run_eq_iff {s : Setting} {t : Thread} {end_ : RunEnd} :
    t.run s = end_ ↔ ∃ n last, t.after s n = some last ∧ last.step s = lastOutcome end_ := by
  constructor
  · rintro rfl
    obtain ⟨n, last, -, reached, ends⟩ := exists_last_step s t
    refine ⟨n, last, reached, ?_⟩
    rw [run_of_after reached]
    cases step : last.step s with
    | next u => exact absurd step (ends u)
    | pause span u => rw [run_of_pause step]; rfl
    | fail fault u => rw [run_of_fail step]; rfl
    | overflow => rw [run_of_overflow step]; rfl
  · rintro ⟨n, last, reached, step⟩
    rw [run_of_after reached]
    exact run_of_lastOutcome step

/-- Every run ends within as many steps as its rank, and it ends by handing control back unless it
comes to a delay that is too long to be held. -/
theorem run_hands_back_iff (s : Setting) (t : Thread) :
    (∃ n last, n ≤ t.rank s ∧ t.after s n = some last ∧ ∀ u, last.step s ≠ .next u) ∧
      ((∃ n last, n ≤ t.rank s ∧ t.after s n = some last ∧ last.HandsBack s) ↔
        ¬∃ n last, t.after s n = some last ∧ last.AtOverlongDelay s) := by
  have ends := exists_last_step s t
  refine ⟨ends, ?_, ?_⟩
  -- The last step of a run is only one, and what it comes to decides.
  · rintro ⟨n, a, -, toA, back⟩ ⟨m, b, toB, overlong⟩
    have overflow := (step_overflow_iff s b).2 overlong
    have same := last_step_unique toA back.last toB (by simp [overflow])
    subst same
    obtain ⟨_, _, step⟩ | ⟨_, _, _, _, step⟩ := back <;> simp [step] at overflow
  · intro none
    obtain ⟨n, last, within, reached, end_⟩ := ends
    refine ⟨n, last, within, reached, ?_⟩
    exact (last_step_cases s last end_).resolve_right fun overlong => none ⟨n, last, reached, overlong⟩

end Thread

end Breadboard
