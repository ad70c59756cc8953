import Breadboard.Proofs.Structured
import Breadboard.Proofs.Suspension
import Breadboard.Proofs.Timeless

set_option autoImplicit false

/-!
The machine of frames does what statements mean. Main statement: if doing a block leads from one scene
to another, then running the frames again and again, with the block on top of others and the clock
moving on at every pause, comes to the others alone, with the same scene but for time stamps.
-/
namespace Breadboard

def Setting.withTime (s : Setting) (time : Time.Reading) : Setting :=
  { s with pace := { s.pace with time } }

def Task.isTimeless : Task → Bool
  | .block body => Stmt.areTimeless body
  | .stmt st => st.isTimeless
  | .clause st => Stmt.clauseIsTimeless st
  | .chain c => c.isTimeless
  | .rounds cond step body => cond.isTimeless && Stmt.clauseIsTimeless step && Stmt.areTimeless body

namespace World

theorem scopes_eq_of_unstamped {w v : World} (same : w.unstamped = v.unstamped) :
    w.scopes = v.scopes := by
  have scopes : w.unstamped.scopes = v.unstamped.scopes := by rw [same]
  exact scopes

theorem holds_alike {w v v' : World} (time : Time.Reading) {time' : Time.Reading} {cond : Cond}
    {b : Bool} (timeless : cond.isTimeless = true) (same : w.unstamped = v.unstamped)
    (holds : v.holds time' cond = (b, v')) :
    ∃ w', w.holds time cond = (b, w') ∧ w'.unstamped = v'.unstamped := by
  have left := holds_unstamped w time timeless
  have right := holds_unstamped v time' timeless
  rw [same, right, holds] at left
  obtain ⟨truth, after⟩ := Prod.mk.inj left
  exact ⟨(w.holds time cond).2, Prod.ext truth.symm rfl, after.symm⟩

theorem enterCall_unstamped (w : World) (time : Time.Reading) (f : Function) {args : List Expr}
    (timeless : Expr.areTimeless args = true) :
    w.unstamped.enterCall Time.still f args = (w.enterCall time f args).unstamped := by
  simp only [enterCall, evalAll_unstamped w time timeless]
  rfl

theorem enterCall_alike {w v : World} (time time' : Time.Reading) (f : Function) {args : List Expr}
    (timeless : Expr.areTimeless args = true) (same : w.unstamped = v.unstamped) :
    (w.enterCall time f args).unstamped = (v.enterCall time' f args).unstamped := by
  rw [← enterCall_unstamped w time f timeless, ← enterCall_unstamped v time' f timeless, same]

theorem perform_alike {w v : World} (p p' : Pace) {a : Action} (timeless : a.isTimeless = true)
    (speed : p.speed = p'.speed) (same : w.unstamped = v.unstamped) :
    (a.perform p w).2 = (a.perform p' v).2 ∧
      (a.perform p w).1.unstamped = (a.perform p' v).1.unstamped := by
  have left := Action.perform_unstamped p w timeless
  have right := Action.perform_unstamped p' v timeless
  rw [same, speed, right] at left
  obtain ⟨after, flow⟩ := Prod.mk.inj left
  exact ⟨flow.symm, after.symm⟩

end World

namespace Thread

/-- A thread and a scene that agree but for the time stamps of serial events. -/
structure Alike (t : Thread) (x : Scene) : Prop where
  location_eq : t.location = x.location
  world_eq : t.world.unstamped = x.world.unstamped

/-- One step of a run that is resumed after every pause. The clock is read once between two pauses,
and the steps carry the number of pauses so far. -/
def advance (s : Setting) (clock : Nat → Time.Reading) : Nat × Thread → Option (Nat × Thread)
  | (pauses, t) =>
    match t.step (s.withTime (clock pauses)) with
    | .next u => some (pauses, u)
    | .pause _ u => some (pauses + 1, u)
    | .fail _ _ => none
    | .overflow => none

-- Steps that lead from one state to another and leave the frames `base` where they are.
inductive Reaches (s : Setting) (clock : Nat → Time.Reading) (base : List Frame) :
    Nat × Thread → Nat × Thread → Prop where
  | here {x : Nat × Thread} : Reaches s clock base x x
  | step {x y z : Nat × Thread} (first : advance s clock x = some y) (untouched : base <:+ y.2.frames)
      (others : Reaches s clock base y z) : Reaches s clock base x z

/-- Running the frames again and again comes through a thread. -/
inductive Passes (s : Setting) (clock : Nat → Time.Reading) : Nat × Thread → Nat × Thread → Prop where
  | within {pauses n : Nat} {t u : Thread}
      (reached : t.after (s.withTime (clock pauses)) n = some u) :
      Passes s clock (pauses, t) (pauses, u)
  | resumed {pauses span : Nat} {t u : Thread} {z : Nat × Thread}
      (run : t.run (s.withTime (clock pauses)) = .pause span u)
      (later : Passes s clock (pauses + 1, u) z) : Passes s clock (pauses, t) z

variable {s : Setting} {clock : Nat → Time.Reading}

theorem Reaches.trans {base : List Frame} {x y z : Nat × Thread} (first : Reaches s clock base x y)
    (second : Reaches s clock base y z) : Reaches s clock base x z := by
  induction first with
  | here => exact second
  | step advanced untouched _ ih => exact .step advanced untouched (ih second)

theorem Reaches.mono {base base' : List Frame} {x y : Nat × Thread} (lower : base' <:+ base)
    (reached : Reaches s clock base x y) : Reaches s clock base' x y := by
  induction reached with
  | here => exact .here
  | step advanced untouched _ ih => exact .step advanced (lower.trans untouched) ih

theorem Reaches.passes {base : List Frame} {x y : Nat × Thread} (reached : Reaches s clock base x y) :
    Passes s clock x y := by
  induction reached with
  | here => exact .within (n := 0) rfl
  | @step x y z advanced _ _ ih =>
    obtain ⟨pauses, t⟩ := x
    cases step : t.step (s.withTime (clock pauses)) with
    | next u =>
      simp only [advance, step, Option.some.injEq] at advanced
      subst advanced
      cases ih with
      | @within _ n _ v reached => exact .within (n := n + 1) (by simpa [after, step] using reached)
      | resumed run later => exact .resumed (by rwa [run_of_next step]) later
    | pause span u =>
      simp only [advance, step, Option.some.injEq] at advanced
      subst advanced
      exact .resumed (run_of_pause step) ih
    | fail fault u => simp [advance, step] at advanced
    | overflow => simp [advance, step] at advanced

-- From here the frames above `base` are done, and then the scene is `y`.
def Finishes (s : Setting) (clock : Nat → Time.Reading) (base : List Frame) (phase : Phase)
    (x : Nat × Thread) (y : Scene) : Prop :=
  ∃ pauses u, Reaches s clock base x (pauses, u) ∧ u.frames = base ∧ u.phase = phase ∧ u.Alike y

theorem Finishes.now {t : Thread} {base : List Frame} {pauses : Nat} {y : Scene}
    (frames : t.frames = base) (alike : t.Alike y) :
    Finishes s clock base t.phase (pauses, t) y :=
  ⟨pauses, t, .here, frames, rfl, alike⟩

theorem Finishes.later {base : List Frame} {phase : Phase} {x x' : Nat × Thread} {y : Scene}
    (advanced : advance s clock x = some x') (untouched : base <:+ x'.2.frames)
    (finishes : Finishes s clock base phase x' y) : Finishes s clock base phase x y := by
  obtain ⟨pauses, u, reached, rest⟩ := finishes
  exact ⟨pauses, u, .step advanced untouched reached, rest⟩

-- What is done above `base` may be done in two parts.
theorem Finishes.bind {base upper : List Frame} {phase : Phase} {x : Nat × Thread} {y z : Scene}
    (lower : base <:+ upper) (first : Finishes s clock upper phase x y)
    (second : ∀ pauses u, u.frames = upper → u.phase = phase → u.Alike y →
      Finishes s clock base phase (pauses, u) z) : Finishes s clock base phase x z := by
  obtain ⟨pauses, u, reached, frames, samePhase, alike⟩ := first
  obtain ⟨pauses', v, reached', rest⟩ := second pauses u frames samePhase alike
  exact ⟨pauses', v, (reached.mono lower).trans reached', rest⟩

-- An outcome that goes on with a thread, at once or after a pause.
def GoesOn (o : Outcome) (u : Thread) : Prop := o = .next u ∨ ∃ span, o = .pause span u

theorem GoesOn.advance (t : Thread) {u : Thread} {pauses : Nat}
    (on : GoesOn (t.step (s.withTime (clock pauses))) u) :
    ∃ pauses', advance s clock (pauses, t) = some (pauses', u) := by
  obtain next | ⟨span, pause⟩ := on
  · exact ⟨pauses, by simp [Thread.advance, next]⟩
  · exact ⟨pauses + 1, by simp [Thread.advance, pause]⟩

theorem GoesOn.yieldBody {o : Outcome} {u : Thread} (on : GoesOn o u) :
    GoesOn (yieldBody o) u := by
  obtain rfl | ⟨span, rfl⟩ := on
  · exact .inr ⟨_, rfl⟩
  · exact .inr ⟨span, rfl⟩

-- Starting a statement goes on, and then all that it has put on the frames gets done.
def SimulatesStmt (s : Setting) (clock : Nat → Time.Reading) (st : Stmt) (x y : Scene) : Prop :=
  ∀ (time : Time.Reading) (t : Thread), t.Alike x →
    ∃ u, GoesOn (t.execute (s.withTime time) st) u ∧ t.frames <:+ u.frames ∧
      ∀ pauses, Finishes s clock t.frames t.phase (pauses, u) y

/-- What the machine makes of a task that leads from `x` to `y`. -/
def Simulates (s : Setting) (clock : Nat → Time.Reading) : Task → Scene → Scene → Prop
  | .block body, x, y => ∀ (pauses : Nat) (t : Thread) (base : List Frame),
    t.frames = .sequence body :: base → t.Alike x → Finishes s clock base t.phase (pauses, t) y
  | .stmt st, x, y => SimulatesStmt s clock st x y
  | .clause none, x, y => x = y
  | .clause (some st), x, y => SimulatesStmt s clock st x y
  | .chain c, x, y => ∀ (time : Time.Reading) (t : Thread), t.Alike x →
    t.frames <:+ (t.choose (s.withTime time) c).frames ∧
      ∀ pauses, Finishes s clock t.frames t.phase (pauses, t.choose (s.withTime time) c) y
  | .rounds cond step body, x, y => ∀ (pauses : Nat) (t : Thread) (base : List Frame),
    (t.frames = .forTest cond step body :: base ∨
      step = none ∧ ∃ n, t.frames = .whileTest cond body n :: base) →
    t.Alike x → Finishes s clock base t.phase (pauses, t) y

theorem simulates_nil (x : Scene) : Simulates s clock (.block []) x x := by
  rintro pauses ⟨_, phase, location, w⟩ base rfl alike
  have ended : Finishes s clock base phase (pauses, ⟨base, phase, location, w⟩) x :=
    .now rfl ⟨alike.location_eq, alike.world_eq⟩
  exact .later rfl List.suffix_rfl ended

theorem simulates_cons {st : Stmt} {rest : List Stmt} {x y z : Scene}
    (first : Simulates s clock (.stmt st) { x with location := st.location } y)
    (others : Simulates s clock (.block rest) y z) :
    Simulates s clock (.block (st :: rest)) x z := by
  rintro pauses ⟨_, phase, location, w⟩ base rfl alike
  -- The statement runs on top of what is left of its block.
  have started : Alike ⟨.sequence rest :: base, phase, st.location, w⟩
      { x with location := st.location } := ⟨rfl, alike.world_eq⟩
  obtain ⟨u, on, above, finishes⟩ := first (clock pauses) _ started
  obtain ⟨pauses', advanced⟩ :=
    GoesOn.advance ⟨.sequence (st :: rest) :: base, phase, location, w⟩ on
  have lower : base <:+ .sequence rest :: base := List.suffix_cons _ _
  refine .later advanced (lower.trans above) (.bind lower (finishes pauses') ?_)
  rintro pauses'' v frames rfl alike'
  exact others pauses'' v base frames alike'

theorem simulates_act {loc : Location} {a : Action} {x : Scene} (timeless : a.isTimeless = true)
    (held : (a.perform s.pace x.world).2 ≠ .overflow) :
    Simulates s clock (.stmt (.act loc a)) x { x with world := (a.perform s.pace x.world).1 } := by
  intro time t alike
  obtain ⟨flow, after⟩ :=
    World.perform_alike (s.withTime time).pace s.pace timeless rfl alike.world_eq
  refine ⟨{ t with world := (a.perform (s.withTime time).pace t.world).1 }, ?_, List.suffix_rfl, ?_⟩
  · rw [← flow] at held
    simp only [execute]
    split
    · exact .inl rfl
    · exact .inr ⟨_, rfl⟩
    · rename_i overflow
      exact absurd overflow held
  · intro pauses
    exact .now rfl ⟨alike.location_eq, after⟩

theorem simulates_unknown {loc : Location} {name : String} {args : List Expr} (x : Scene)
    (absent : s.program.functions.find? name = none) :
    Simulates s clock (.stmt (.call loc name args)) x x := by
  intro time t alike
  refine ⟨t, .inl ?_, List.suffix_rfl, fun pauses => .now rfl alike⟩
  simp [execute, Setting.withTime, absent]

theorem simulates_call {loc : Location} {name : String} {args : List Expr} {f : Function}
    {x y : Scene} (timeless : Expr.areTimeless args = true)
    (known : s.program.functions.find? name = some f) (room : x.world.scopes.depth < s.limit)
    (body : Simulates s clock (.block f.body)
      { x with world := x.world.enterCall s.pace.time f args } y) :
    Simulates s clock (.stmt (.call loc name args)) x { y with world := y.world.leaveCall } := by
  intro time t alike
  have depth : ¬s.limit ≤ t.depth := by
    rw [Thread.depth, World.scopes_eq_of_unstamped alike.world_eq]
    omega
  refine ⟨t.enter (s.withTime time) f args, .inl ?_, ⟨[_, _], rfl⟩, ?_⟩
  · simp [execute, Setting.withTime, known, depth]
  · intro pauses
    rw [enter_eq]
    have entered := World.enterCall_alike time s.pace.time f timeless alike.world_eq
    refine .bind (List.suffix_cons .call _) (body pauses _ _ rfl ⟨alike.location_eq, entered⟩) ?_
    rintro pauses' ⟨_, phase, location, w⟩ rfl rfl alike'
    -- The frame of the call takes the locals away.
    refine .later rfl List.suffix_rfl (.now rfl ⟨alike'.location_eq, ?_⟩)
    exact congrArg World.leaveCall alike'.world_eq

theorem simulates_choose {loc : Location} {c : Chain} {x y : Scene}
    (taken : Simulates s clock (.chain c) x y) : Simulates s clock (.stmt (.choose loc c)) x y := by
  intro time t alike
  obtain ⟨above, finishes⟩ := taken time t alike
  exact ⟨_, .inl rfl, above, finishes⟩

theorem simulates_otherwise {body : List Stmt} {x y : Scene}
    (all : Simulates s clock (.block body) x y) : Simulates s clock (.chain (.otherwise body)) x y := by
  intro time t alike
  refine ⟨List.suffix_cons _ _, fun pauses => ?_⟩
  exact all pauses (t.push (.sequence body)) t.frames rfl ⟨alike.location_eq, alike.world_eq⟩

theorem simulates_taken {cond : Cond} {body : List Stmt} {rest : Chain} {x y : Scene} {w : World}
    (timeless : cond.isTimeless = true) (holds : x.world.holds s.pace.time cond = (true, w))
    (all : Simulates s clock (.block body) { x with world := w } y) :
    Simulates s clock (.chain (.branch cond body rest)) x y := by
  intro time t alike
  obtain ⟨w', tested, after⟩ := World.holds_alike time timeless alike.world_eq holds
  have chosen : t.choose (s.withTime time) (.branch cond body rest) =
      { t with frames := .sequence body :: t.frames, world := w' } := by
    simp [choose, Setting.withTime, tested, push]
  rw [chosen]
  refine ⟨List.suffix_cons _ _, fun pauses => ?_⟩
  exact all pauses { t with frames := .sequence body :: t.frames, world := w' } t.frames rfl
    ⟨alike.location_eq, after⟩

theorem simulates_passed {cond : Cond} {body : List Stmt} {rest : Chain} {x y : Scene} {w : World}
    (timeless : cond.isTimeless = true) (fails : x.world.holds s.pace.time cond = (false, w))
    (others : Simulates s clock (.chain rest) { x with world := w } y) :
    Simulates s clock (.chain (.branch cond body rest)) x y := by
  intro time t alike
  obtain ⟨w', tested, after⟩ := World.holds_alike time timeless alike.world_eq fails
  have chosen : t.choose (s.withTime time) (.branch cond body rest) =
      { t with world := w' }.choose (s.withTime time) rest := by
    simp [choose, Setting.withTime, tested]
  rw [chosen]
  exact others time { t with world := w' } ⟨alike.location_eq, after⟩

theorem simulates_forLoop {loc : Location} {init : Option Stmt} {cond : Cond} {step : Option Stmt}
    {body : List Stmt} {x y z : Scene} (first : Simulates s clock (.clause init) x y)
    (others : Simulates s clock (.rounds cond step body) y z) :
    Simulates s clock (.stmt (.forLoop loc init cond step body)) x z := by
  intro time t alike
  have pushed : (t.push (.forTest cond step body)).Alike x := ⟨alike.location_eq, alike.world_eq⟩
  have lower : t.frames <:+ .forTest cond step body :: t.frames := List.suffix_cons _ _
  -- The test waits below whatever the first clause puts on the frames.
  cases init with
  | none =>
    obtain rfl : x = y := first
    exact ⟨_, .inl rfl, lower, fun pauses => others pauses _ _ (.inl rfl) pushed⟩
  | some st =>
    obtain ⟨u, on, above, finishes⟩ := first time _ pushed
    refine ⟨u, on, lower.trans above, fun pauses => .bind lower (finishes pauses) ?_⟩
    intro pauses' v frames samePhase alike'
    have done := others pauses' v t.frames (.inl frames) alike'
    rwa [samePhase] at done

theorem simulates_whileLoop {loc : Location} {cond : Cond} {body : List Stmt} {x y : Scene}
    (all : Simulates s clock (.rounds cond none body) x y) :
    Simulates s clock (.stmt (.whileLoop loc cond body)) x y := by
  intro time t alike
  refine ⟨t.push (.whileTest cond body 0), .inl rfl, List.suffix_cons _ _, fun pauses => ?_⟩
  exact all pauses _ _ (.inr ⟨rfl, 0, rfl⟩) ⟨alike.location_eq, alike.world_eq⟩

theorem simulates_noRound {cond : Cond} {step : Option Stmt} {body : List Stmt} {x : Scene}
    {w : World} (timeless : cond.isTimeless = true)
    (fails : x.world.holds s.pace.time cond = (false, w)) :
    Simulates s clock (.rounds cond step body) x { x with world := w } := by
  rintro pauses ⟨frames, phase, location, v⟩ base test alike
  obtain ⟨w', tested, after⟩ := World.holds_alike (clock pauses) timeless alike.world_eq fails
  have ended : Finishes s clock base phase (pauses, ⟨base, phase, location, w'⟩)
      { x with world := w } := .now rfl ⟨alike.location_eq, after⟩
  refine .later ?_ List.suffix_rfl ended
  obtain rfl | ⟨-, n, rfl⟩ := test
  · simp [advance, Thread.step, Setting.withTime, tested]
  · simp [advance, Thread.step, Setting.withTime, tested]

-- After the body of a `for` its step clause is done, and then it is tested again.
theorem finishes_forStep {cond : Cond} {step : Option Stmt} {body : List Stmt} {y z end_ : Scene}
    (after : Simulates s clock (.clause step) y z)
    (others : Simulates s clock (.rounds cond step body) z end_) {pauses : Nat} {t : Thread}
    {base : List Frame} (frames : t.frames = .forStep cond step body :: base) (alike : t.Alike y) :
    Finishes s clock base t.phase (pauses, t) end_ := by
  obtain ⟨_, phase, location, w⟩ := t
  subst frames
  have test : Alike ⟨.forTest cond step body :: base, phase, location, w⟩ y :=
    ⟨alike.location_eq, alike.world_eq⟩
  have lower : base <:+ .forTest cond step body :: base := List.suffix_cons _ _
  cases step with
  | none =>
    -- Without a clause there is a pause all the same.
    obtain rfl : y = z := after
    exact .later rfl lower (others (pauses + 1) _ _ (.inl rfl) test)
  | some st =>
    obtain ⟨u, on, above, finishes⟩ := after (clock pauses) _ test
    obtain ⟨pauses', advanced⟩ :=
      GoesOn.advance ⟨.forStep cond (some st) body :: base, phase, location, w⟩ on.yieldBody
    refine .later advanced (lower.trans above) (.bind lower (finishes pauses') ?_)
    rintro pauses'' v frames rfl alike'
    exact others pauses'' v base (.inl frames) alike'

theorem simulates_round {cond : Cond} {step : Option Stmt} {body : List Stmt} {x y z end_ : Scene}
    {w : World} (timeless : cond.isTimeless = true)
    (holds : x.world.holds s.pace.time cond = (true, w))
    (all : Simulates s clock (.block body) { x with world := w } y)
    (after : Simulates s clock (.clause step) y z)
    (others : Simulates s clock (.rounds cond step body) z end_) :
    Simulates s clock (.rounds cond step body) x end_ := by
  rintro pauses ⟨frames, phase, location, v⟩ base test alike
  obtain ⟨w', tested, same⟩ := World.holds_alike (clock pauses) timeless alike.world_eq holds
  -- The body runs on top of the frame that comes after it.
  have bodyDone (f : Frame) (pauses' : Nat) :
      Finishes s clock (f :: base) phase
        (pauses', ⟨.sequence body :: f :: base, phase, location, w'⟩) y :=
    all pauses' _ _ rfl ⟨alike.location_eq, same⟩
  have lower (f : Frame) : base <:+ f :: base := List.suffix_cons _ _
  obtain rfl | ⟨rfl, n, rfl⟩ := test
  · have advanced : advance s clock (pauses, ⟨.forTest cond step body :: base, phase, location, v⟩) =
        some (pauses, ⟨.sequence body :: .forStep cond step body :: base, phase, location, w'⟩) := by
      simp [advance, Thread.step, Setting.withTime, tested]
    refine .later advanced ((lower _).trans (List.suffix_cons _ _)) (.bind (lower _) (bodyDone _ _) ?_)
    rintro pauses' u frames rfl alike'
    exact finishes_forStep after others frames alike'
  · obtain ⟨pauses', advanced⟩ : ∃ pauses',
        advance s clock (pauses, ⟨.whileTest cond body n :: base, phase, location, v⟩) =
          some (pauses', ⟨.sequence body :: .whileTest cond body (n + 1) :: base, phase, location, w'⟩) := by
      apply GoesOn.advance
      simp only [Thread.step, Setting.withTime, tested, if_true]
      split
      · exact .inr ⟨_, rfl⟩
      · exact .inl rfl
    obtain rfl : y = z := after
    refine .later advanced ((lower _).trans (List.suffix_cons _ _)) (.bind (lower _) (bodyDone _ _) ?_)
    rintro pauses'' u frames rfl alike'
    exact others pauses'' u base (.inr ⟨rfl, n + 1, frames⟩) alike'

-- Whatever a task does without frames and pauses, the machine does.
theorem simulates_of_does (functions : s.program.FunctionsTimeless) {task : Task} {x y : Scene}
    (does : Does s task x y) (timeless : task.isTimeless = true) : Simulates s clock task x y := by
  induction does with
  | nil => exact simulates_nil _
  | cons _ _ first others =>
    simp only [Task.isTimeless, Stmt.areTimeless, Bool.and_eq_true] at timeless
    exact simulates_cons (first timeless.1) (others timeless.2)
  | act held => exact simulates_act timeless held
  | unknown absent => exact simulates_unknown _ absent
  | call known room _ body =>
    exact simulates_call timeless known room (body (functions _ _ known))
  | choose _ taken => exact simulates_choose (taken timeless)
  | forLoop _ _ first others =>
    simp only [Task.isTimeless, Stmt.isTimeless, Bool.and_eq_true] at timeless first others
    obtain ⟨⟨⟨init, cond⟩, step⟩, body⟩ := timeless
    exact simulates_forLoop (first init) (others ⟨⟨cond, step⟩, body⟩)
  | whileLoop _ all =>
    simp only [Task.isTimeless, Stmt.isTimeless, Stmt.clauseIsTimeless, Bool.and_eq_true] at timeless all
    exact simulates_whileLoop (all ⟨⟨timeless.1, trivial⟩, timeless.2⟩)
  | noClause => exact rfl
  | someClause _ once => exact once timeless
  | done => exact fun _ _ alike => ⟨List.suffix_rfl, fun _ => .now rfl alike⟩
  | otherwise _ all => exact simulates_otherwise (all timeless)
  | taken holds _ all =>
    simp only [Task.isTimeless, Chain.isTimeless, Bool.and_eq_true] at timeless all
    exact simulates_taken timeless.1.1 holds (all timeless.1.2)
  | passed fails _ others =>
    simp only [Task.isTimeless, Chain.isTimeless, Bool.and_eq_true] at timeless others
    exact simulates_passed timeless.1.1 fails (others timeless.2)
  | noRound fails =>
    simp only [Task.isTimeless, Bool.and_eq_true] at timeless
    exact simulates_noRound timeless.1.1 fails
  | round holds _ _ _ all after others =>
    simp only [Task.isTimeless, Bool.and_eq_true] at timeless all after others
    exact simulates_round timeless.1.1 holds (all timeless.2) (after timeless.1.2) (others timeless)

/-- If doing a block leads from the scene of a thread to `y`, then running the frames of the thread
again and again, from the block on top of `base`, comes to `base` alone and leaves it alone on the
way; there the scene is `y` but for the time stamps of serial events. -/
theorem frames_refine_structured (s : Setting) (clock : Nat → Time.Reading) (block : List Stmt)
    (base : List Frame) (t : Thread) (y : Scene) (functions : s.program.FunctionsTimeless)
    (timeless : Stmt.areTimeless block = true) (frames : t.frames = .sequence block :: base)
    (does : Does s (.block block) t.scene y) :
    ∃ pauses u, Reaches s clock base (0, t) (pauses, u) ∧ Passes s clock (0, t) (pauses, u) ∧
      u.frames = base ∧ u.phase = t.phase ∧ u.location = y.location ∧
      u.world.unstamped = y.world.unstamped := by
  obtain ⟨pauses, u, reached, atBase, phase, alike⟩ :=
    simulates_of_does functions does timeless 0 t base frames ⟨rfl, rfl⟩
  exact ⟨pauses, u, reached, reached.passes, atBase, phase, alike.location_eq, alike.world_eq⟩

-- A function whose loop runs until its parameter is empty.
def drainSetting : Setting :=
  let loop := Stmt.whileLoop ⟨3, 1⟩ (.truth (.var "left"))
    [.act ⟨4, 1⟩ (.assign "left" .set (.text ""))]
  { program := { Program.empty with functions := ⟨[("drain", ⟨"drain", ["left"], [loop], ⟨2, 1⟩⟩)]⟩ }
    limit := 1
    pace := ⟨Time.still, 1.0⟩ }

def drainThread : Thread :=
  { frames := [.sequence [.call ⟨1, 1⟩ "drain" [.text "some"]], .sequence []]
    phase := .loop
    location := .start
    world :=
      { scopes := .empty, board := .fresh, monitor := .ofCapacity 1, random := .ofSeed 0, outbox := [] } }

theorem frames_refine_structured_drain :
    ∃ y, Does drainSetting (.block [.call ⟨1, 1⟩ "drain" [.text "some"]]) drainThread.scene y ∧
      ∀ clock, ∃ pauses u, Passes drainSetting clock (0, drainThread) (pauses, u) ∧
        u.frames = [.sequence []] ∧ u.world.unstamped = y.world.unstamped := by
  have does : ∃ y, Does drainSetting (.block [.call ⟨1, 1⟩ "drain" [.text "some"]])
      drainThread.scene y := by
    refine ⟨_, .cons (.call rfl (by decide) (.cons (.whileLoop (.round rfl (.cons (.act ?_) .nil)
      .noClause (.noRound rfl))) .nil)) .nil⟩
    simp [Action.perform]
  have functions : drainSetting.program.FunctionsTimeless := by
    intro name f known
    obtain ⟨rfl, rfl⟩ := Prod.mk.inj (List.mem_singleton.1 (Table.mem_entries_of_find? known))
    decide
  obtain ⟨y, does⟩ := does
  refine ⟨y, does, fun clock => ?_⟩
  obtain ⟨pauses, u, -, passes, frames, -, -, world⟩ := frames_refine_structured drainSetting clock
    [.call ⟨1, 1⟩ "drain" [.text "some"]] [.sequence []] drainThread y functions (by decide) rfl does
  exact ⟨pauses, u, passes, frames, world⟩

end Thread

end Breadboard
