import Breadboard.Proofs.Canonical.Expressions
import Breadboard.Proofs.Nesting.Whole

set_option autoImplicit false

/-!
The limit on the nesting of expressions and conditions. Main statements: what is read of a text is what is read of it
without a limit, cut off below the levels that are read; and a printed expression or condition, however deep, is read
as what it means, cut off there.
-/
namespace Breadboard

open Text

/-- What is left of an expression of which `levels` levels are kept, itself being the first. Below them is zero. -/
def Expr.keep : Nat → Expr → Expr
  | 0, _ => .number 0.0
  | levels + 1, .digitalRead pin => .digitalRead (pin.keep levels)
  | levels + 1, .analogRead pin => .analogRead (pin.keep levels)
  | levels + 1, .builtin f args => .builtin f (args.map (Expr.keep levels))
  | _ + 1, e => e

/-- What is left of a condition of which `levels` levels are kept, the expressions in it among them. -/
def Cond.keep : Nat → Cond → Cond
  | 0, _ => .truth (.number 0.0)
  | levels + 1, .all parts => .all (parts.map (Cond.keep levels))
  | levels + 1, .any parts => .any (parts.map (Cond.keep levels))
  | levels + 1, .not inner => .not (inner.keep levels)
  | levels + 1, .compare lhs op rhs => .compare (lhs.keep levels) op (rhs.keep levels)
  | levels + 1, .truth e => .truth (e.keep levels)

section Kept

variable {levels : Nat}

-- What is no deeper than the levels that are kept stays as it is.
theorem Expr.keep_of_depth_le {e : Expr} (flat : e.depth ≤ levels) : e.keep levels = e := by
  induction levels generalizing e with
  | zero =>
    have some_ := e.one_le_depth
    omega
  | succ levels ih =>
    cases e with
    | number | text | millis | micros | var | arithmetic => rfl
    | digitalRead pin => exact congrArg digitalRead (ih (Nat.le_of_succ_le_succ flat))
    | analogRead pin => exact congrArg analogRead (ih (Nat.le_of_succ_le_succ flat))
    | builtin f args =>
      have inner := depthAll_le_iff.1 (Nat.le_of_succ_le_succ flat)
      have same : args.map (keep levels) = args :=
        (List.map_congr_left fun e member => ih (inner e member)).trans (List.map_id' args)
      exact congrArg (builtin f) same

theorem Cond.keep_of_depth_le {c : Cond} (flat : c.depth ≤ levels) : c.keep levels = c := by
  induction levels generalizing c with
  | zero =>
    have some_ := c.one_le_depth
    omega
  | succ levels ih =>
    have same {parts : List Cond} (inner : depthAll parts ≤ levels) : parts.map (keep levels) = parts :=
      (List.map_congr_left fun c member => ih (depthAll_le_iff.1 inner c member)).trans (List.map_id' parts)
    cases c with
    | all parts => exact congrArg all (same (Nat.le_of_succ_le_succ flat))
    | any parts => exact congrArg any (same (Nat.le_of_succ_le_succ flat))
    | not inner => exact congrArg not (ih (Nat.le_of_succ_le_succ flat))
    | compare lhs op rhs =>
      obtain ⟨left, right⟩ := Nat.max_le.1 (Nat.le_of_succ_le_succ flat)
      rw [keep, Expr.keep_of_depth_le left, Expr.keep_of_depth_le right]
    | truth e => exact congrArg truth (Expr.keep_of_depth_le (Nat.le_of_succ_le_succ flat))

namespace Expr

-- What is kept of an expression is made of what is kept of its parts.
theorem keep_build (read : List Char → Expr) (levels : Nat) (cs : List Char) :
    ((form cs).build fun part _ => read part).keep (levels + 1) =
      (form cs).build fun part _ => (read part).keep levels := by
  generalize found : form cs = f
  cases f with
  | leaf e =>
    have flat : e.depth ≤ levels + 1 := Nat.le_trans (Nat.le_of_eq (depth_of_leaf found)) (Nat.le_add_left 1 levels)
    exact keep_of_depth_le flat
  | digitalRead pin => rfl
  | analogRead pin => rfl
  | builtin f args => simp [Form.build, keep]

/-- Reading so many levels of an expression is keeping them of the whole of it. -/
theorem readWithin_eq_keep (levels : Nat) (cs : List Char) : readWithin levels cs = (readFully cs).keep levels := by
  induction levels generalizing cs with
  | zero => rfl
  | succ levels ih =>
    rw [readWithin_form, readFully, keep_build]
    simp only [ih]

end Expr

namespace Cond

theorem keep_build (operand : List Char → Expr) (read : List Char → Cond) (levels : Nat) (f : Form) :
    (f.build operand fun part _ => read part).keep (levels + 1) =
      f.build (fun part => (operand part).keep levels) fun part _ => (read part).keep levels := by
  cases f with
  | all parts => simp [Form.build, keep]
  | any parts => simp [Form.build, keep]
  | not inner => rfl
  | compare lhs op rhs => rfl
  | truth text => rfl

/-- Reading so many levels of a condition is keeping them of the whole of it. -/
theorem readWithin_eq_keep (levels : Nat) (cs : List Char) : readWithin levels cs = (readFully cs).keep levels := by
  induction levels generalizing cs with
  | zero => rfl
  | succ levels ih =>
    have operand : Expr.readWithin levels = fun part => (Expr.readFully part).keep levels :=
      funext (Expr.readWithin_eq_keep levels)
    rw [readWithin_form, readFully, keep_build, operand]
    simp only [ih]

end Cond

end Kept

namespace Canonical

/-- Without a limit every printed expression is read as what it means. -/
theorem Expr.readFully_code (e : Expr) : Breadboard.Expr.readFully e.code = e.meaning := by
  have read := e.readWithin_code (Nat.le_max_left e.levels (Breadboard.Expr.readFully e.code).depth)
    e.tight_code.trim_eq
  rwa [Breadboard.Expr.readWithin_eq_keep, Breadboard.Expr.keep_of_depth_le (Nat.le_max_right ..)] at read

theorem Cond.readFully_code (c : Cond) : Breadboard.Cond.readFully c.code = c.meaning := by
  have read := c.readWithin_code (Nat.le_max_left c.levels (Breadboard.Cond.readFully c.code).depth)
    (c.stripParens_code c.tight_code.trim_eq)
  rwa [Breadboard.Cond.readWithin_eq_keep, Breadboard.Cond.keep_of_depth_le (Nat.le_max_right ..)] at read

/-- With the limit it is read as what is kept of that. -/
theorem printed_is_cut_off (e : Expr) (c : Cond) :
    Breadboard.Expr.read e.code = e.meaning.keep maxLevels ∧ Breadboard.Cond.read c.code = c.meaning.keep maxLevels := by
  constructor
  · rw [Breadboard.Expr.read, Breadboard.Expr.readWithin_eq_keep, e.readFully_code]
  · rw [Breadboard.Cond.read, Breadboard.Cond.readWithin_eq_keep, c.readFully_code]

-- So many calls, each the argument of the one around it.
def Expr.calls : Nat → Expr
  | 0 => .millis
  | n + 1 => .builtin .abs [calls n]

def Cond.negations : Nat → Cond
  | 0 => .truth .millis
  | n + 1 => .not (negations n)

theorem Expr.depth_calls (n : Nat) : (calls n).meaning.depth = n + 1 := by
  induction n with
  | zero => rfl
  | succ n ih => simp [calls, meaning, meanings, Breadboard.Expr.depth, Breadboard.Expr.depthAll, ih]

theorem Cond.depth_negations (n : Nat) : (negations n).meaning.depth = n + 2 := by
  induction n with
  | zero => rfl
  | succ n ih => simp [negations, meaning, Breadboard.Cond.depth, ih]

theorem Expr.keep_calls_iff (n levels : Nat) : (calls n).meaning.keep levels = (calls n).meaning ↔ n < levels := by
  induction n generalizing levels with
  | zero => cases levels <;> simp [calls, meaning, Breadboard.Expr.keep]
  | succ n ih =>
    cases levels with
    | zero => simp [calls, meaning, Breadboard.Expr.keep]
    | succ levels => simp [calls, meaning, meanings, Breadboard.Expr.keep, ih]

theorem Cond.keep_negations_iff (n levels : Nat) :
    (negations n).meaning.keep levels = (negations n).meaning ↔ n + 1 < levels := by
  induction n generalizing levels with
  | zero =>
    cases levels with
    | zero => simp [negations, meaning, Breadboard.Cond.keep, Expr.meaning]
    | succ levels => cases levels <;> simp [negations, meaning, Breadboard.Cond.keep, Breadboard.Expr.keep, Expr.meaning]
  | succ n ih =>
    cases levels with
    | zero => simp [negations, meaning, Breadboard.Cond.keep]
    | succ levels => simp [negations, meaning, Breadboard.Cond.keep, ih]

/-- The limit is sharp: 64 calls in one another are read as they stand and not one more, and 63 negations, as the
expression that they negate is a level of its own. -/
theorem read_whole_iff (n : Nat) :
    (Breadboard.Expr.read (Expr.calls n).code = Breadboard.Expr.readFully (Expr.calls n).code ↔ n ≤ 64) ∧
    (Breadboard.Cond.read (Cond.negations n).code = Breadboard.Cond.readFully (Cond.negations n).code ↔ n ≤ 63) := by
  obtain ⟨calls, negations⟩ := printed_is_cut_off (Expr.calls n) (Cond.negations n)
  rw [calls, negations, Expr.readFully_code, Cond.readFully_code, Expr.keep_calls_iff, Cond.keep_negations_iff]
  exact ⟨Nat.lt_succ_iff, Nat.succ_lt_succ_iff.trans Nat.lt_succ_iff⟩

end Canonical

/-- The limit on nesting only cuts off. What is read of a text is what is read of it without a limit, with zero in the
place of every expression and a condition that never holds in that of every condition that lies more than 64 levels
below the first. So it has these levels and what stands for the rest, at most; and a text that nests no deeper is read
as a whole. How deep it nests is bounded by its parentheses and its signs. Any other limit would do the same. -/
theorem limit_only_cuts_off (cs : List Char) :
    (Expr.read cs = (Expr.readFully cs).keep (64 + 1) ∧ Cond.read cs = (Cond.readFully cs).keep (64 + 1)) ∧
    ((Expr.read cs).depth ≤ 64 + 1 + (Expr.number 0.0).depth ∧
      (Cond.read cs).depth ≤ 64 + 1 + (Cond.truth (.number 0.0)).depth) ∧
    ((Expr.readFully cs).depth ≤ 64 + 1 → Expr.read cs = Expr.readFully cs) ∧
    ((Cond.readFully cs).depth ≤ 64 + 1 → Cond.read cs = Cond.readFully cs) ∧
    ((Expr.readFully cs).depth ≤ openings cs + 1 ∧ (Cond.readFully cs).depth ≤ Cond.nestingSigns cs + 2) ∧
    ∀ levels : Nat, Expr.readWithin levels cs = (Expr.readFully cs).keep levels ∧
      Cond.readWithin levels cs = (Cond.readFully cs).keep levels := by
  have cutOff (levels : Nat) : Expr.readWithin levels cs = (Expr.readFully cs).keep levels ∧
      Cond.readWithin levels cs = (Cond.readFully cs).keep levels :=
    ⟨Expr.readWithin_eq_keep levels cs, Cond.readWithin_eq_keep levels cs⟩
  obtain ⟨expr, cond⟩ := cutOff maxLevels
  refine ⟨⟨expr, cond⟩, ⟨Expr.depth_readWithin maxLevels cs, Cond.depth_readWithin maxLevels cs⟩, ?_, ?_,
    ⟨Expr.depth_readFully_le cs, Cond.depth_readFully_le cs⟩, cutOff⟩
  · intro flat
    exact expr.trans (Expr.keep_of_depth_le flat)
  · intro flat
    exact cond.trans (Cond.keep_of_depth_le flat)

-- As deep as a text can nest that is read as a whole.
theorem limit_only_cuts_off_deepest :
    let calls := (Canonical.Expr.calls 64).code
    let negations := (Canonical.Cond.negations 63).code
    (Expr.readFully calls).depth = 64 + 1 ∧ Expr.read calls = Expr.readFully calls ∧
      (Cond.readFully negations).depth = 64 + 1 ∧ Cond.read negations = Cond.readFully negations := by
  intro calls negations
  have callLevels : (Expr.readFully calls).depth = 64 + 1 := by
    rw [Canonical.Expr.readFully_code, Canonical.Expr.depth_calls]
  have negationLevels : (Cond.readFully negations).depth = 64 + 1 := by
    rw [Canonical.Cond.readFully_code, Canonical.Cond.depth_negations]
  obtain ⟨-, -, expr, -⟩ := limit_only_cuts_off calls
  obtain ⟨-, -, -, cond, -⟩ := limit_only_cuts_off negations
  exact ⟨callLevels, expr (Nat.le_of_eq callLevels), negationLevels, cond (Nat.le_of_eq negationLevels)⟩

end Breadboard
