import Mathlib.Algebra.Order.Field.Power
import Mathlib.Data.Rat.Cast.Order
import Breadboard.Proofs.Drive
import Breadboard.Proofs.Suspension

set_option autoImplicit false

/-!
Pauses that no clock can measure. Main statement: an operation of a host has no result exactly if a
step that it takes comes to a pause that is too long, either to be held at all or to end at a time
that the clock can show.
-/
namespace Breadboard

-- The exact size of a finite number.
def Decimal.Binary.size (b : Decimal.Binary) : ℚ := b.mantissa * 2 ^ b.exponent

theorem Decimal.Binary.size_eq (b : Decimal.Binary) :
    b.size = b.mantissa * 2 ^ b.exponent.toNat / 2 ^ (-b.exponent).toNat := by
  have split : b.exponent = (b.exponent.toNat : Int) - ((-b.exponent).toNat : Int) := by omega
  have power : (2 : ℚ) ^ b.exponent = 2 ^ b.exponent.toNat / 2 ^ (-b.exponent).toNat := by
    rw [← zpow_natCast_sub_natCast₀ two_ne_zero, ← split]
  rw [size, power, mul_div_assoc]

namespace Time

-- As a fraction of nanoseconds.
theorem scaled_nanos (b : Decimal.Binary) :
    b.scaled 9 =
      (b.mantissa * 2 ^ b.exponent.toNat * nanosPerSecond, 2 ^ (-b.exponent).toNat) := by
  simp [Decimal.Binary.scaled, Decimal.twoTo, Decimal.tenTo, nanosPerSecond]

theorem ofSeconds?_eq_none_iff (x : Float) :
    ofSeconds? x = none ↔ 2 ^ 64 ≤ (Decimal.Binary.ofFloat x).size := by
  simp only [ofSeconds?, scaled_nanos]
  generalize Decimal.Binary.ofFloat x = b
  have positive : (0 : ℚ) < 2 ^ (-b.exponent).toNat := pow_pos zero_lt_two _
  have whole : 2 ^ 64 ≤ b.size ↔ 2 ^ (-b.exponent).toNat * 2 ^ 64 ≤ b.mantissa * 2 ^ b.exponent.toNat := by
    rw [b.size_eq, le_div_iff₀ positive, mul_comm]
    norm_cast
  have second : 0 < nanosPerSecond := by decide
  rw [whole, Decimal.twoTo, Nat.pow_eq, ite_eq_left_iff, ← Nat.mul_assoc,
    Nat.mul_le_mul_right_iff second]
  simp

-- The pause of a delay of `ms` milliseconds takes at least 2^64 seconds at a speed.
structure IsUnheld (ms speed : Float) : Prop where
  finite : (ms / speed).isFinite = true
  positive : ms / speed > 0.0
  long : 2 ^ 64 ≤ (Decimal.Binary.ofFloat (ms / speed / 1000.0)).size

theorem pause?_eq_none_iff (ms speed : Float) : pause? ms speed = none ↔ IsUnheld ms speed := by
  simp only [pause?]
  by_cases counts : ((ms / speed).isFinite && ms / speed > 0.0) = true
  · rw [if_pos counts, ofSeconds?_eq_none_iff]
    simp only [Bool.and_eq_true, decide_eq_true_eq] at counts
    exact ⟨fun long => ⟨counts.1, counts.2, long⟩, IsUnheld.long⟩
  · rw [if_neg counts]
    constructor
    · intro none
      cases none
    · intro unheld
      exact absurd (by simp [unheld.finite, unheld.positive]) counts

theorem after?_eq_none_iff (now span : Nat) : after? now span = none ↔ latest < now + span := by
  simp [after?]

end Time

-- How many milliseconds an action waits for, if it is a delay.
def Action.millis? (p : Pace) (w : World) : Action → Option Float
  | .delay ms => some (w.eval p.time ms).1.toNumber
  | .delayMicros us => some ((w.eval p.time us).1.toNumber / 1000.0)
  | _ => none

theorem Action.isOverlong_iff (p : Pace) (w : World) (a : Action) :
    a.isOverlong p w = true ↔ ∃ ms, a.millis? p w = some ms ∧ Time.IsUnheld ms p.speed := by
  cases a <;> simp [isOverlong, millis?, Time.pause?_eq_none_iff]

namespace Thread

-- The next step comes to a pause that cannot be held, or that ends too late for the clock.
inductive MeetsOverrun (s : Setting) (now : Nat) (t : Thread) : Prop where
  | unheld {loc : Location} {action : Action} {ms : Float} (next : t.upcoming = some (.act loc action))
      (delay : action.millis? s.pace t.world = some ms) (long : Time.IsUnheld ms s.pace.speed)
  | late {span : Nat} {u : Thread} (pause : t.step s = .pause span u)
      (late : Time.latest < now + span)

theorem atOverlongDelay_iff (s : Setting) (t : Thread) :
    t.AtOverlongDelay s ↔ ∃ loc action ms, t.upcoming = some (.act loc action) ∧
      action.millis? s.pace t.world = some ms ∧ Time.IsUnheld ms s.pace.speed := by
  simp only [AtOverlongDelay, Action.isOverlong_iff]
  constructor
  · rintro ⟨loc, action, next, ms, delay, long⟩
    exact ⟨loc, action, ms, next, delay, long⟩
  · rintro ⟨loc, action, ms, next, delay, long⟩
    exact ⟨loc, action, next, ms, delay, long⟩

end Thread

namespace Engine

-- A step of the engine would run the frames up to a pause that no clock can measure.
def Overruns (e : Engine) : Prop :=
  e.isDue = true ∧
    ∃ n last, e.thread.after e.setting n = some last ∧ last.MeetsOverrun e.setting e.now

theorem conclude_eq_none_iff (e : Engine) (end_ : RunEnd) :
    e.conclude end_ = none ↔
      end_ = .overflow ∨ ∃ span u, end_ = .pause span u ∧ Time.latest < e.now + span := by
  cases end_ with
  | pause span u => simp [conclude, Time.after?_eq_none_iff]
  | fail fault u => simp [conclude]
  | overflow => simp [conclude]

theorem step_eq_none_iff (e : Engine) : e.step = none ↔ e.Overruns := by
  by_cases due : e.isDue = true
  · rw [step_of_isDue due, conclude_eq_none_iff, Overruns]
    constructor
    · rintro (run | ⟨span, u, run, late⟩)
      · obtain ⟨n, last, reached, step⟩ := Thread.run_eq_iff.1 run
        obtain ⟨loc, action, ms, next, delay, long⟩ :=
          (Thread.atOverlongDelay_iff _ _).1 ((Thread.step_overflow_iff _ _).1 step)
        exact ⟨due, n, last, reached, .unheld next delay long⟩
      · obtain ⟨n, last, reached, step⟩ := Thread.run_eq_iff.1 run
        exact ⟨due, n, last, reached, .late step late⟩
    · rintro ⟨-, n, last, reached, meets⟩
      cases meets with
      | unheld next delay long =>
        have overlong := (Thread.atOverlongDelay_iff _ _).2 ⟨_, _, _, next, delay, long⟩
        have step := (Thread.step_overflow_iff _ _).2 overlong
        exact .inl (Thread.run_eq_iff.2 ⟨n, last, reached, step⟩)
      | late step late => exact .inr ⟨_, _, Thread.run_eq_iff.2 ⟨n, last, reached, step⟩, late⟩
  · obtain ⟨last, step⟩ := step_of_not_isDue (Bool.eq_false_iff.2 due)
    simp [step, Overruns, due]

theorem pollFrom_eq_none_iff (steps : Nat) (last : Progress) (e : Engine) :
    pollFrom steps last e = none ↔ ∃ e' ∈ trailFrom steps last e, e'.Overruns := by
  induction steps generalizing last e with
  | zero => simp [pollFrom, trailFrom]
  | succ steps ih =>
    cases last with
    | halted status => simp [pollFrom, trailFrom]
    | pending due =>
      simp only [pollFrom, trailFrom]
      by_cases more : due ≤ e.now ∧ 0 < e.config.pollSlice
      · simp only [if_pos more, List.mem_cons, exists_eq_or_imp, ← step_eq_none_iff e]
        cases step : e.step with
        | none => simp
        | some next => simp [ih]
      · rw [if_neg more, if_neg more]
        simp

theorem poll_eq_none_iff (e : Engine) : e.poll = none ↔ ∃ e' ∈ e.trail, e'.Overruns := by
  simp only [poll, trail, List.mem_cons, exists_eq_or_imp, ← step_eq_none_iff e]
  cases step : e.step with
  | none => simp
  | some next => simp [pollFrom_eq_none_iff]

end Engine

-- The engines on which an operation takes a step.
def HostOperation.stepped (e : Engine) : HostOperation → List Engine
  | .step => [e]
  | .poll => e.trail
  | _ => []

theorem HostOperation.apply_eq_none_iff (op : HostOperation) (e : Engine) :
    op.apply e = none ↔ ∃ e' ∈ op.stepped e, e'.Overruns := by
  cases op with
  | step => simp [apply, stepped, Engine.step_eq_none_iff]
  | poll => simp [apply, stepped, Engine.poll_eq_none_iff]
  | _ => simp [apply, stepped]

namespace Engine

-- A host is left without a result by the first operation that has none.
theorem afterAll_eq_none_iff (e : Engine) (ops : List HostOperation) :
    e.afterAll ops = none ↔
      ∃ before op later e', ops = before ++ op :: later ∧ e.afterAll before = some e' ∧
        op.apply e' = none := by
  constructor
  · intro stuck
    induction ops generalizing e with
    | nil => cases stuck
    | cons op ops ih =>
      unfold afterAll at stuck
      split at stuck
      · rename_i next applied
        obtain ⟨before, op', later, e', rfl, reached, fails⟩ := ih next stuck
        exact ⟨op :: before, op', later, e', rfl, by simp [afterAll, applied, reached], fails⟩
      · rename_i fails
        exact ⟨[], op, ops, e, rfl, rfl, fails⟩
  · rintro ⟨before, op, later, e', rfl, reached, fails⟩
    induction before generalizing e with
    | nil =>
      cases reached
      simp [afterAll, fails]
    | cons first before ih =>
      unfold afterAll at reached
      split at reached
      · rename_i next applied
        simp only [List.cons_append, afterAll, applied]
        exact ih next reached
      · cases reached

/-- However a host drives an engine, with any sketch and at any speed, it is left without a result
exactly if some step comes to a delay whose pause takes 2^64 seconds or more, or to a pause that ends
later than the clock can show. -/
theorem overruns_exactly_at_long_pauses (config : Config) (ops : List HostOperation) :
    (ofConfig config).afterAll ops = none ↔
      ∃ before op later e, ops = before ++ op :: later ∧ (ofConfig config).afterAll before = some e ∧
        ∃ e' ∈ op.stepped e, e'.Overruns := by
  rw [afterAll_eq_none_iff]
  simp only [HostOperation.apply_eq_none_iff]

-- A pause that cannot be held, and one that can but ends too late.
example : ((ofConfig .standard).afterAll
    [.start "void setup() { delay(100000000000000000000000); }", .step]).isNone = true := by
  decide +kernel

example : ((ofConfig .standard).afterAll
    [.start "void setup() { delay(10000000000000000000000); }", .step]).isNone = true := by
  decide +kernel

end Engine

end Breadboard
