import Breadboard.Proofs.CallStack
import Breadboard.Proofs.Refinement

set_option autoImplicit false

/-!
Threads that do not look at the time. Main statement: two of them that agree but for the time stamps
of serial events, run at any two times and speeds, come to the same end but for time stamps and the
length of the pause, unless one of the two comes to a pause that is too long to be held.
-/
namespace Breadboard

def Frame.isTimeless : Frame → Bool
  | .sequence rest => Stmt.areTimeless rest
  | .forTest cond step body | .forStep cond step body =>
    cond.isTimeless && Stmt.clauseIsTimeless step && Stmt.areTimeless body
  | .whileTest cond body _ => cond.isTimeless && Stmt.areTimeless body
  | .call => true

-- No statement of a program looks at the time.
structure Program.IsTimeless (p : Program) : Prop where
  setup : Stmt.areTimeless p.setup = true
  loop : Stmt.areTimeless p.loop = true
  functions : p.FunctionsTimeless

/-- Threads that agree but for the time stamps of serial events. -/
structure Thread.Twins (t u : Thread) : Prop where
  frames_eq : t.frames = u.frames
  phase_eq : t.phase = u.phase
  location_eq : t.location = u.location
  world_eq : t.world.unstamped = u.world.unstamped

/-- Outcomes that agree but for time stamps and the length of a pause. A pause that is too long has no
thread, and agrees with anything. -/
inductive Outcome.Twins : Outcome → Outcome → Prop where
  | next {t u : Thread} (twins : t.Twins u) : Twins (.next t) (.next u)
  | pause {span span' : Nat} {t u : Thread} (twins : t.Twins u) : Twins (.pause span t) (.pause span' u)
  | fail {fault : Fault} {t u : Thread} (twins : t.Twins u) : Twins (.fail fault t) (.fail fault u)
  | overflowLeft {o : Outcome} : Twins .overflow o
  | overflowRight {o : Outcome} : Twins o .overflow

inductive RunEnd.Twins : RunEnd → RunEnd → Prop where
  | pause {span span' : Nat} {t u : Thread} (twins : t.Twins u) : Twins (.pause span t) (.pause span' u)
  | fail {fault : Fault} {t u : Thread} (twins : t.Twins u) : Twins (.fail fault t) (.fail fault u)
  | overflowLeft {o : RunEnd} : Twins .overflow o
  | overflowRight {o : RunEnd} : Twins o .overflow

-- The speed decides how long a pause is, and nothing else.
theorem Action.perform_speed (time : Time.Reading) (speed speed' : Float) (w : World) (a : Action) :
    (a.perform ⟨time, speed⟩ w).1 = (a.perform ⟨time, speed'⟩ w).1 ∧
      ((a.perform ⟨time, speed⟩ w).2 = .next ↔ (a.perform ⟨time, speed'⟩ w).2 = .next) := by
  have ofPause (span : Option Nat) : Flow.ofPause span ≠ .next := by
    cases span <;> simp [Flow.ofPause]
  cases a with
  | delay ms => simp [perform, ofPause]
  | delayMicros us => simp [perform, ofPause]
  | print arg newline => cases arg <;> exact ⟨rfl, Iff.rfl⟩
  | _ => exact ⟨rfl, Iff.rfl⟩

theorem World.perform_twins {w v : World} (p p' : Pace) {a : Action} (timeless : a.isTimeless = true)
    (same : w.unstamped = v.unstamped) :
    ((a.perform p w).2 = .next ↔ (a.perform p' v).2 = .next) ∧
      (a.perform p w).1.unstamped = (a.perform p' v).1.unstamped := by
  obtain ⟨flow, after⟩ := perform_alike p ⟨p'.time, p.speed⟩ timeless rfl same
  obtain ⟨worlds, flows⟩ := Action.perform_speed p'.time p.speed p'.speed v a
  exact ⟨by rw [flow, flows], by rw [after, worlds]⟩

theorem World.holds_twins {w v : World} (time time' : Time.Reading) {cond : Cond}
    (timeless : cond.isTimeless = true) (same : w.unstamped = v.unstamped) :
    ∃ b w' v', w.holds time cond = (b, w') ∧ v.holds time' cond = (b, v') ∧
      w'.unstamped = v'.unstamped := by
  obtain ⟨⟨b, v'⟩, answer⟩ : ∃ answer, v.holds time' cond = answer := ⟨_, rfl⟩
  obtain ⟨w', holds, after⟩ := holds_alike time timeless same answer
  exact ⟨b, w', v', holds, answer, after⟩

namespace Thread

def IsTimeless (t : Thread) : Prop := t.frames.all Frame.isTimeless = true

theorem IsTimeless.choose (s : Setting) : (chain : Chain) → (t : Thread) →
    chain.isTimeless = true → t.IsTimeless → (t.choose s chain).IsTimeless
  | .done, _, _, timeless => timeless
  | .otherwise body, t, chain, timeless => by
    simp only [Chain.isTimeless] at chain
    simpa [IsTimeless, Thread.choose, push, Frame.isTimeless, chain] using timeless
  | .branch cond body rest, t, chain, timeless => by
    simp only [Chain.isTimeless, Bool.and_eq_true] at chain
    simp only [Thread.choose]
    split
    · simpa [IsTimeless, push, Frame.isTimeless, chain.1.2] using timeless
    · exact IsTimeless.choose s rest _ chain.2 timeless

theorem IsTimeless.execute {s : Setting} (functions : s.program.FunctionsTimeless) :
    (st : Stmt) → {t u : Thread} → st.isTimeless = true → t.IsTimeless →
      (t.execute s st).thread? = some u → u.IsTimeless
  | .act _ action, t, u, _, timeless, h => by
    simp only [Thread.execute] at h
    split at h <;> cases h <;> exact timeless
  | .call loc name args, t, u, _, timeless, h => by
    simp only [Thread.execute] at h
    split at h
    · cases h
      exact timeless
    · rename_i f known
      split at h
      · cases h
        exact timeless
      · cases h
        simpa [IsTimeless, enter, Frame.isTimeless, functions name f known] using timeless
  | .choose _ chain, t, u, st, timeless, h => by
    cases h
    exact timeless.choose s chain t st
  | .forLoop _ init cond step body, t, u, st, timeless, h => by
    simp only [Stmt.isTimeless, Bool.and_eq_true] at st
    obtain ⟨⟨⟨first, cond_⟩, step_⟩, body_⟩ := st
    have pushed : (t.push (.forTest cond step body)).IsTimeless := by
      simpa [IsTimeless, push, Frame.isTimeless, cond_, step_, body_] using timeless
    cases init with
    | none =>
      cases h
      exact pushed
    | some init => exact IsTimeless.execute functions init first pushed h
  | .whileLoop _ cond body, t, u, st, timeless, h => by
    simp only [Stmt.isTimeless, Bool.and_eq_true] at st
    cases h
    simpa [IsTimeless, push, Frame.isTimeless, st] using timeless

theorem IsTimeless.step {s : Setting} (program : s.program.IsTimeless) {t u : Thread}
    (timeless : t.IsTimeless) (h : (t.step s).thread? = some u) : u.IsTimeless := by
  obtain ⟨frames, phase, location, world⟩ := t
  simp only [IsTimeless] at timeless
  match frames with
  | [] =>
    have loop : [Frame.sequence s.program.loop].all Frame.isTimeless = true := by
      simp [Frame.isTimeless, program.loop]
    cases phase <;> cases h <;> exact loop
  | .sequence [] :: fs =>
    simp only [List.all_cons, Bool.and_eq_true] at timeless
    cases h
    exact timeless.2
  | .sequence (st :: rest) :: fs =>
    simp only [List.all_cons, Frame.isTimeless, Stmt.areTimeless, Bool.and_eq_true] at timeless
    have started : IsTimeless ⟨.sequence rest :: fs, phase, st.location, world⟩ := by
      simpa [IsTimeless, Frame.isTimeless, timeless.1.2] using timeless.2
    exact started.execute program.functions st timeless.1.1 h
  | .forTest cond step body :: fs =>
    have entered : (Frame.sequence body :: .forStep cond step body :: fs).all Frame.isTimeless = true := by
      simp_all [Frame.isTimeless]
    simp only [List.all_cons, Bool.and_eq_true] at timeless
    simp only [Thread.step] at h
    split at h <;> cases h
    · exact entered
    · exact timeless.2
  | .forStep cond none body :: fs =>
    cases h
    exact timeless
  | .forStep cond (some st) body :: fs =>
    have started : IsTimeless ⟨.forTest cond (some st) body :: fs, phase, location, world⟩ := timeless
    simp only [List.all_cons, Frame.isTimeless, Stmt.clauseIsTimeless, Bool.and_eq_true] at timeless
    simp only [Thread.step, thread?_yieldBody] at h
    exact started.execute program.functions st timeless.1.1.2 h
  | .whileTest cond body rounds :: fs =>
    have entered :
        (Frame.sequence body :: .whileTest cond body (rounds + 1) :: fs).all Frame.isTimeless = true := by
      simp_all [Frame.isTimeless]
    simp only [List.all_cons, Bool.and_eq_true] at timeless
    simp only [Thread.step] at h
    split at h
    · split at h <;> cases h <;> exact entered
    · cases h
      exact timeless.2
  | .call :: fs =>
    simp only [List.all_cons, Bool.and_eq_true] at timeless
    cases h
    exact timeless.2

theorem IsTimeless.run {s : Setting} (program : s.program.IsTimeless) {t u : Thread} {span : Nat}
    (timeless : t.IsTimeless) (h : t.run s = .pause span u) : u.IsTimeless := by
  induction t using run.induct s with
  | case1 t v step lower ih =>
    rw [run_of_next step] at h
    exact ih (timeless.step program (by rw [step]; rfl)) h
  | case2 t span' v step =>
    rw [run_of_pause step] at h
    cases h
    exact timeless.step program (by rw [step]; rfl)
  | case3 t fault v step =>
    rw [run_of_fail step] at h
    cases h
  | case4 t step =>
    rw [run_of_overflow step] at h
    cases h

section

variable {program : Program} {limit : Nat} {p p' : Pace}

theorem Twins.setWorld {t u : Thread} (twins : t.Twins u) {w v : World}
    (same : w.unstamped = v.unstamped) : { t with world := w }.Twins { u with world := v } :=
  { twins with world_eq := same }

theorem Twins.push {t u : Thread} (twins : t.Twins u) (f : Frame) : (t.push f).Twins (u.push f) :=
  { twins with frames_eq := congrArg (f :: ·) twins.frames_eq }

theorem Twins.choose : (chain : Chain) → {t u : Thread} → t.Twins u → chain.isTimeless = true →
    (t.choose ⟨program, limit, p⟩ chain).Twins (u.choose ⟨program, limit, p'⟩ chain)
  | .done, _, _, twins, _ => twins
  | .otherwise body, _, _, twins, _ => twins.push (.sequence body)
  | .branch cond body rest, t, u, twins, timeless => by
    simp only [Chain.isTimeless, Bool.and_eq_true] at timeless
    obtain ⟨b, w, v, left, right, after⟩ :=
      World.holds_twins p.time p'.time timeless.1.1 twins.world_eq
    simp only [Thread.choose, left, right]
    split
    · exact (twins.setWorld after).push (.sequence body)
    · exact Twins.choose rest (twins.setWorld after) timeless.2

theorem Twins.enter {t u : Thread} (twins : t.Twins u) (f : Function) {args : List Expr}
    (timeless : Expr.areTimeless args = true) :
    (t.enter ⟨program, limit, p⟩ f args).Twins (u.enter ⟨program, limit, p'⟩ f args) := by
  rw [enter_eq, enter_eq]
  have entered := World.enterCall_alike p.time p'.time f timeless twins.world_eq
  exact ⟨by rw [twins.frames_eq], twins.phase_eq, twins.location_eq, entered⟩

theorem Twins.depth_eq {t u : Thread} (twins : t.Twins u) : t.depth = u.depth := by
  rw [Thread.depth, World.scopes_eq_of_unstamped twins.world_eq, Thread.depth]

theorem Twins.execute : (st : Stmt) → {t u : Thread} → t.Twins u → st.isTimeless = true →
    Outcome.Twins (t.execute ⟨program, limit, p⟩ st) (u.execute ⟨program, limit, p'⟩ st)
  | .act _ action, t, u, twins, timeless => by
    obtain ⟨flows, after⟩ := World.perform_twins p p' timeless twins.world_eq
    simp only [Thread.execute]
    split <;> split
    all_goals first
      | exact .next (twins.setWorld after)
      | exact .pause (twins.setWorld after)
      | exact .overflowLeft
      | exact .overflowRight
      | simp_all
  | .call loc name args, t, u, twins, timeless => by
    simp only [Thread.execute, twins.depth_eq]
    split
    · exact .next twins
    · split
      · exact .fail twins
      · exact .next (twins.enter _ timeless)
  | .choose _ chain, t, u, twins, timeless => .next (twins.choose chain timeless)
  | .forLoop _ none cond step body, t, u, twins, _ => .next (twins.push (.forTest cond step body))
  | .forLoop _ (some init) cond step body, t, u, twins, timeless => by
    simp only [Stmt.isTimeless, Stmt.clauseIsTimeless, Bool.and_eq_true] at timeless
    exact Twins.execute init (twins.push (.forTest cond step body)) timeless.1.1.1
  | .whileLoop _ cond body, t, u, twins, _ => .next (twins.push (.whileTest cond body 0))

theorem twins_yieldBody {o o' : Outcome} (twins : o.Twins o') :
    (yieldBody o).Twins (yieldBody o') := by
  cases twins with
  | next twins => exact .pause twins
  | pause twins => exact .pause twins
  | fail twins => exact .fail twins
  | overflowLeft => exact .overflowLeft
  | overflowRight => exact .overflowRight

-- Steps of twins at any two times and speeds have the same outcome but for stamps and spans.
theorem Twins.step {t u : Thread} (twins : t.Twins u) (timeless : t.IsTimeless) :
    Outcome.Twins (t.step ⟨program, limit, p⟩) (u.step ⟨program, limit, p'⟩) := by
  obtain ⟨frames, phase, location, w⟩ := t
  obtain ⟨frames', phase', location', v⟩ := u
  obtain ⟨rfl, rfl, rfl, same⟩ := twins
  have at_ (frames : List Frame) (location : Location) :
      Twins ⟨frames, phase, location, w⟩ ⟨frames, phase, location, v⟩ := ⟨rfl, rfl, rfl, same⟩
  simp only [IsTimeless] at timeless
  match frames with
  | [] =>
    cases phase
    · exact .next ⟨rfl, rfl, rfl, same⟩
    · exact .pause (at_ _ _)
  | .sequence [] :: fs => exact .next (at_ fs _)
  | .sequence (st :: rest) :: fs =>
    simp only [List.all_cons, Frame.isTimeless, Stmt.areTimeless, Bool.and_eq_true] at timeless
    exact (at_ (.sequence rest :: fs) st.location).execute st timeless.1.1
  | .forTest cond step body :: fs =>
    simp only [List.all_cons, Frame.isTimeless, Bool.and_eq_true] at timeless
    obtain ⟨b, w', v', left, right, after⟩ := World.holds_twins p.time p'.time timeless.1.1.1 same
    simp only [Thread.step, left, right]
    exact .next ⟨rfl, rfl, rfl, after⟩
  | .forStep cond none body :: fs => exact .pause (at_ (.forTest cond none body :: fs) _)
  | .forStep cond (some st) body :: fs =>
    simp only [List.all_cons, Frame.isTimeless, Stmt.clauseIsTimeless, Bool.and_eq_true] at timeless
    exact twins_yieldBody ((at_ (.forTest cond (some st) body :: fs) _).execute st timeless.1.1.2)
  | .whileTest cond body rounds :: fs =>
    simp only [List.all_cons, Frame.isTimeless, Bool.and_eq_true] at timeless
    obtain ⟨b, w', v', left, right, after⟩ := World.holds_twins p.time p'.time timeless.1.1 same
    simp only [Thread.step, left, right]
    split
    · split
      · exact .pause ⟨rfl, rfl, rfl, after⟩
      · exact .next ⟨rfl, rfl, rfl, after⟩
    · exact .next ⟨rfl, rfl, rfl, after⟩
  | .call :: fs => exact .next ⟨rfl, rfl, rfl, congrArg World.leaveCall same⟩

-- A run goes on from the outcome of its first step.
def resume (s : Setting) : Outcome → RunEnd
  | .next t => t.run s
  | .pause span t => .pause span t
  | .fail fault t => .fail fault t
  | .overflow => .overflow

theorem run_eq_resume (s : Setting) (t : Thread) : t.run s = resume s (t.step s) := by
  cases step : t.step s with
  | next u => exact run_of_next step
  | pause span u => exact run_of_pause step
  | fail fault u => exact run_of_fail step
  | overflow => exact run_of_overflow step

theorem twins_resume {s s' : Setting} {o o' : Outcome} (outcomes : o.Twins o')
    (later : ∀ t u, o = .next t → t.Twins u → RunEnd.Twins (t.run s) (u.run s')) :
    RunEnd.Twins (resume s o) (resume s' o') := by
  cases outcomes with
  | next twins => exact later _ _ rfl twins
  | pause twins => exact .pause twins
  | fail twins => exact .fail twins
  | overflowLeft => exact .overflowLeft
  | overflowRight => exact .overflowRight

theorem Twins.run (timelessProgram : program.IsTimeless) {t u : Thread} (twins : t.Twins u)
    (timeless : t.IsTimeless) :
    RunEnd.Twins (t.run ⟨program, limit, p⟩) (u.run ⟨program, limit, p'⟩) := by
  -- Every step of the one run lowers its rank and takes the other run along.
  induction rank : t.rank ⟨program, limit, p⟩ using Nat.strongRecOn generalizing t u with
  | ind _ ih =>
    subst rank
    rw [run_eq_resume, run_eq_resume]
    apply twins_resume (twins.step timeless)
    intro t' u' step twins'
    have kept := timeless.step timelessProgram (congrArg Outcome.thread? step)
    exact ih _ (rank_step_lt step) twins' kept rfl

end

end Thread

end Breadboard
