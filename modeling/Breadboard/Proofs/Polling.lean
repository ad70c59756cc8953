import Breadboard.Proofs.Drive

set_option autoImplicit false

/-!
A poll is repeated steps. Main statement: whatever the clock shows in the meantime, a poll comes to what
some steps in a row come to, at least one and no more than a poll may take; and with the clock standing
still, a poll that has time and takes fewer leaves nothing that is due, so that asking again changes
nothing.
-/
namespace Breadboard

-- Whether a poll that began at `started` takes another step at `now`.
def Progress.goesOn (slice started now : Nat) : Progress → Bool
  | .pending due => due ≤ now && now - started < slice
  | .halted _ => false

namespace Engine

def showing (e : Engine) (time : Nat) : Engine := { e with now := time }

/-- What the last of `n` steps in a row comes to if the clock shows `times i` at the one with number
`i`, the first being number zero. -/
def steps (e : Engine) (times : Nat → Nat) : Nat → Option (Progress × Engine)
  | 0 => none
  | 1 => (e.showing (times 0)).step
  | n + 2 => (e.steps times (n + 1)).bind fun sofar => (sofar.2.showing (times (n + 1))).step

-- A poll looks at the clock when it begins and behind every step, and so does each step when it runs.
def stepTimes (clock : Nat → Nat) (i : Nat) : Nat := clock (2 * i + 1)

/-- Goes on with a poll that has `taken` steps behind it, while the clock shows `clock i` at the look
with number `i`. -/
def pollByFrom (clock : Nat → Nat) : Nat → Nat → Progress → Engine → Option (Progress × Engine)
  | 0, _, last, e => some (last, e)
  | more + 1, taken, last, e =>
    if last.goesOn e.config.pollSlice (clock 0) (clock (2 * taken)) then
      match (e.showing (stepTimes clock taken)).step with
      | some (last, e) => pollByFrom clock more (taken + 1) last e
      | none => none
    else some (last, e)

/-- A poll during which the clock moves. -/
def pollBy (e : Engine) (clock : Nat → Nat) : Option (Progress × Engine) :=
  match (e.showing (stepTimes clock 0)).step with
  | some (last, e) => pollByFrom clock (maxStepsPerPoll - 1) 1 last e
  | none => none

section Steps

variable {e e' : Engine} {last : Progress} {times : Nat → Nat}

theorem step_keeps (step : e.step = some (last, e')) : e'.now = e.now ∧ e'.config = e.config := by
  cases due : e.isDue with
  | false =>
    obtain ⟨last', same⟩ := step_of_not_isDue due
    rw [same] at step
    cases step
    exact ⟨rfl, rfl⟩
  | true => obtain ⟨_, _, _, -, -, -, rfl⟩ | ⟨_, _, -, -, rfl⟩ := step_cases due step <;> exact ⟨rfl, rfl⟩

theorem steps_succ {n : Nat} (some_ : 1 ≤ n) :
    e.steps times (n + 1) = (e.steps times n).bind fun sofar => (sofar.2.showing (times n)).step := by
  cases n with
  | zero => cases some_
  | succ n => rfl

-- Steps in a row end with one on an engine of the same configuration.
theorem last_of_steps {n : Nat} (ran : e.steps times n = some (last, e')) :
    ∃ (before : Engine) (i : Nat), before.config = e.config ∧ (before.showing (times i)).step = some (last, e') := by
  induction n generalizing last e' with
  | zero => cases ran
  | succ n ih =>
    cases n with
    | zero => exact ⟨e, 0, rfl, ran⟩
    | succ n =>
      obtain ⟨⟨earlier, before⟩, sofar, step⟩ := Option.bind_eq_some_iff.1 ran
      obtain ⟨_, _, config, latest⟩ := ih sofar
      exact ⟨before, n + 1, (step_keeps latest).2.trans config, step⟩

theorem config_steps {n : Nat} (ran : e.steps times n = some (last, e')) : e'.config = e.config := by
  obtain ⟨before, i, config, step⟩ := last_of_steps ran
  exact (step_keeps step).2.trans config

-- As long as its time has not come, a running engine stays as it is.
theorem step_waits {due : Nat} (running : e.status = .running) (set : e.due = some due)
    (early : e.now < due) : e.step = some (.pending due, e) := by
  simp [step, running, set, Option.filter, early]

-- What a result of a step says about the engine that it leaves.
theorem step_result (step : e.step = some (last, e')) :
    (last = .halted e'.status ∧ e'.status ≠ .running) ∨
    (∃ due, last = .pending due ∧ e'.status = .running ∧ e'.due = some due) := by
  by_cases running : e.status = .running
  · cases due : e.isDue with
    | true =>
      obtain ⟨_, _, next, -, -, rfl, rfl⟩ | ⟨_, _, -, rfl, rfl⟩ := step_cases due step
      · exact .inr ⟨next, rfl, running, rfl⟩
      · exact .inl ⟨rfl, by simp [fail_eq]⟩
    | false =>
      obtain ⟨next, set, early⟩ : ∃ next, e.due = some next ∧ e.now < next := by
        cases set : e.due with
        | none => simp [isDue, running, set] at due
        | some next => exact ⟨next, rfl, by simpa [isDue, running, set] using due⟩
      rw [step_waits running set early] at step
      cases step
      exact .inr ⟨next, rfl, running, set⟩
  · rw [step_of_halted running] at step
    cases step
    exact .inl ⟨rfl, running⟩

theorem poll_waits {due : Nat} (running : e.status = .running) (set : e.due = some due)
    (early : e.now < due) : e.poll = some (.pending due, e) := by
  have later : ¬due ≤ e.now := by omega
  simp [poll, step_waits running set early, maxStepsPerPoll, pollFrom, later]

end Steps

/-- A poll comes to what `n` steps come to: behind each of them but the last the poll goes on, and
behind the last it does not, unless it has taken all the steps that it may. -/
structure TakesSteps (e : Engine) (clock : Nat → Nat) (n : Nat) : Prop where
  pos : 1 ≤ n
  le_max : n ≤ maxStepsPerPoll
  result : e.pollBy clock = e.steps (stepTimes clock) n
  went_on : ∀ k, 1 ≤ k → k < n → ∃ last e', e.steps (stepTimes clock) k = some (last, e') ∧
    last.goesOn e.config.pollSlice (clock 0) (clock (2 * k)) = true
  stopped : n < maxStepsPerPoll → ∀ last e', e.steps (stepTimes clock) n = some (last, e') →
    last.goesOn e.config.pollSlice (clock 0) (clock (2 * n)) = false

section Polls

variable (clock : Nat → Nat) {e : Engine}

-- One round of a poll is one step more; the rounds to come and the steps taken add up to the bound.
theorem pollByFrom_takes {more taken : Nat} {last : Progress} {now : Engine}
    (sofar : e.steps (stepTimes clock) taken = some (last, now)) (pos : 1 ≤ taken)
    (bound : taken + more = maxStepsPerPoll)
    (went_on : ∀ k, 1 ≤ k → k < taken → ∃ last e', e.steps (stepTimes clock) k = some (last, e') ∧
      last.goesOn e.config.pollSlice (clock 0) (clock (2 * k)) = true)
    (whole : e.pollBy clock = pollByFrom clock more taken last now) : ∃ n, e.TakesSteps clock n := by
  induction more generalizing taken last now with
  | zero =>
    have full : taken = maxStepsPerPoll := bound
    exact ⟨taken, pos, Nat.le_of_eq full, whole.trans sofar.symm, went_on, fun fewer => by omega⟩
  | succ more ih =>
    have config := config_steps sofar
    rw [pollByFrom, config] at whole
    split at whole
    · rename_i goes
      have next : e.steps (stepTimes clock) (taken + 1) = (now.showing (stepTimes clock taken)).step := by
        rw [steps_succ pos, sofar]
        rfl
      have so_on (k : Nat) (first : 1 ≤ k) (before : k < taken + 1) :
          ∃ last e', e.steps (stepTimes clock) k = some (last, e') ∧
            last.goesOn e.config.pollSlice (clock 0) (clock (2 * k)) = true := by
        by_cases latest : k = taken
        · subst latest
          exact ⟨last, now, sofar, goes⟩
        · exact went_on k first (by omega)
      split at whole
      · rename_i last' now' step
        exact ih (next.trans step) (by omega) (by omega) so_on whole
      · rename_i step
        have none_ : e.steps (stepTimes clock) (taken + 1) = none := next.trans step
        refine ⟨taken + 1, by omega, by omega, whole.trans none_.symm, so_on, ?_⟩
        intro _ last' e' ran
        rw [none_] at ran
        cases ran
    · rename_i stops
      refine ⟨taken, pos, by omega, whole.trans sofar.symm, went_on, ?_⟩
      intro _ last' e' ran
      rw [sofar] at ran
      cases ran
      simpa using stops

theorem exists_takesSteps (e : Engine) : ∃ n, e.TakesSteps clock n := by
  have one : e.steps (stepTimes clock) 1 = (e.showing (stepTimes clock 0)).step := rfl
  cases first : (e.showing (stepTimes clock 0)).step with
  | none =>
    have nothing : e.pollBy clock = none := by rw [pollBy, first]
    refine ⟨1, Nat.le_refl 1, by decide, ?_, fun k low high => by omega, ?_⟩
    · rw [nothing, one, first]
    · intro _ last e' ran
      rw [one, first] at ran
      cases ran
  | some result =>
    obtain ⟨last, now⟩ := result
    have whole : e.pollBy clock = pollByFrom clock (maxStepsPerPoll - 1) 1 last now := by
      rw [pollBy, first]
    exact pollByFrom_takes clock (one.trans first) (Nat.le_refl 1) (by decide)
      (fun k low high => by omega) whole

theorem pollByFrom_still (time more taken : Nat) (last : Progress) (at_ : e.now = time) :
    pollByFrom (fun _ => time) more taken last e = pollFrom more last e := by
  induction more generalizing taken last e with
  | zero => rfl
  | succ more ih =>
    have same : e.showing (stepTimes (fun _ => time) taken) = e := by
      rw [← at_]
      rfl
    rw [pollByFrom, same]
    cases last with
    | halted status => rfl
    | pending due =>
      simp only [Progress.goesOn, Nat.sub_self, Bool.and_eq_true, decide_eq_true_eq, pollFrom, at_]
      split
      · cases step : e.step with
        | none => rfl
        | some result =>
          obtain ⟨last', e'⟩ := result
          exact ih (taken + 1) last' ((step_keeps step).1.trans at_)
      · rfl

/-- A poll is one during which the clock shows what the engine shows. -/
theorem pollBy_still (e : Engine) : e.pollBy (fun _ => e.now) = e.poll := by
  have same : e.showing (stepTimes (fun _ => e.now) 0) = e := rfl
  rw [pollBy, same, poll]
  cases step : e.step with
  | none => rfl
  | some result =>
    obtain ⟨last, e'⟩ := result
    exact pollByFrom_still e.now _ _ last (step_keeps step).1

end Polls

/-- Whatever the clock shows at each look, a poll comes to what some number of steps in a row come to,
at least one and no more than a poll may take. If the clock stands still and the poll has time, then
fewer steps than that mean that the run has ended, or that nothing is due yet and neither a step nor a
poll at this time changes anything. -/
theorem poll_repeats_steps (e : Engine) :
    (∀ clock : Nat → Nat, ∃ n, e.TakesSteps clock n) ∧ e.pollBy (fun _ => e.now) = e.poll ∧
    ∃ n, 1 ≤ n ∧ n ≤ maxStepsPerPoll ∧ e.poll = e.steps (fun _ => e.now) n ∧
      (∀ k, 1 ≤ k → k < n → ∃ due e', e.steps (fun _ => e.now) k = some (.pending due, e') ∧ due ≤ e.now) ∧
      (0 < e.config.pollSlice → n < maxStepsPerPoll → ∀ last e', e.poll = some (last, e') →
        (last = .halted e'.status ∧ e'.status ≠ .running) ∨
        ∃ due, last = .pending due ∧ e'.now = e.now ∧ e.now < due ∧
          e'.step = some (.pending due, e') ∧ e'.poll = some (.pending due, e')) := by
  refine ⟨fun clock => exists_takesSteps clock e, pollBy_still e, ?_⟩
  obtain ⟨n, takes⟩ := exists_takesSteps (fun _ => e.now) e
  have result : e.poll = e.steps (fun _ => e.now) n := (pollBy_still e).symm.trans takes.result
  refine ⟨n, takes.pos, takes.le_max, result, ?_, ?_⟩
  · intro k first before
    obtain ⟨last, e', ran, goes⟩ := takes.went_on k first before
    cases last with
    | halted status => cases goes
    | pending due =>
      have come : due ≤ e.now := by
        simp only [Progress.goesOn, Bool.and_eq_true, decide_eq_true_eq] at goes
        exact goes.1
      exact ⟨due, e', ran, come⟩
  · intro slice fewer last e' polled
    have ran : e.steps (fun _ => e.now) n = some (last, e') := result.symm.trans polled
    have stopped := takes.stopped fewer last e' ran
    obtain ⟨before, i, -, step⟩ := last_of_steps ran
    have still : e'.now = e.now := (step_keeps step).1
    obtain halted | ⟨due, rfl, running, set⟩ := step_result step
    · exact .inl halted
    · have early : e.now < due := by
        simpa [Progress.goesOn, slice] using stopped
      have early' : e'.now < due := still ▸ early
      exact .inr ⟨due, rfl, still, early, step_waits running set early', poll_waits running set early'⟩

-- A sketch that gives control back twice without a pause and then waits.
def pausing : String := "void setup() { delay(0); delay(0); delay(5); }"

theorem poll_repeats_steps_pausing :
    let e := (ofConfig .standard).afterRequest ((ofConfig .standard).start pausing)
    0 < e.config.pollSlice ∧ ∃ n e', n < maxStepsPerPoll ∧ e.poll = e.steps (fun _ => e.now) n ∧
      e.poll = some (.pending 5000000, e') ∧ e.now < 5000000 ∧
      e'.step = some (.pending 5000000, e') ∧ e'.poll = some (.pending 5000000, e') := by
  intro e
  have slice : 0 < e.config.pollSlice := by decide
  obtain ⟨-, -, n, -, -, result, went_on, quiet⟩ := poll_repeats_steps e
  have third : (e.steps (fun _ => e.now) 3).map Prod.fst = some (.pending 5000000) := by decide +kernel
  have polled : e.poll.map Prod.fst = some (.pending 5000000) := by decide +kernel
  -- Behind the third step nothing is due, so the poll has taken no other.
  have few : n ≤ 3 := by
    refine Nat.le_of_not_lt fun more => ?_
    obtain ⟨due, e', ran, come⟩ := went_on 3 (by decide) (by omega)
    rw [ran] at third
    cases third
    exact absurd come (by decide)
  have fewer : n < maxStepsPerPoll := Nat.lt_of_le_of_lt few (by decide)
  obtain ⟨⟨last, e'⟩, reached, rfl⟩ := Option.map_eq_some_iff.1 polled
  obtain ⟨halted, -⟩ | ⟨due, pending, -, early, step, poll⟩ := quiet slice fewer _ e' reached
  · cases halted
  · cases pending
    exact ⟨slice, n, e', fewer, result, reached, early, step, poll⟩

end Engine

end Breadboard
