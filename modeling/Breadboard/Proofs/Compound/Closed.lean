import Breadboard.Proofs.Canonical.Scanning
import Breadboard.Sketch.ReadStmt

set_option autoImplicit false

/-!
Closed code: every literal in it is closed, and every bracket is. Main statements: the scans for a
closing bracket and for the end of a statement pass over such code as a whole.
-/
namespace Breadboard

open Text
open Canonical (within? within?_append onFirst onFirst_onFirst)

/-- Code in which every literal is closed and in which as many brackets of each kind are closed as are
opened, none of them before it is opened. -/
structure Closed (cs : List Char) : Prop where
  after_eq : Quote.code.after cs = .code
  balance_eq (b : Bracket) : b.balance .code cs = 0
  nonneg (b : Bracket) (front : List Char) (inside : front <+: cs) : 0 ≤ b.balance .code front

-- How a text moves the depth of brackets of all kinds.
def net (q : Quote) (cs : List Char) : Int :=
  Bracket.round.balance q cs + Bracket.curly.balance q cs + Bracket.square.balance q cs

section Prefixes

variable {α : Type} {front a b : List α}

theorem prefix_append_cases (inside : front <+: a ++ b) :
    front <+: a ∨ ∃ more, front = a ++ more ∧ more <+: b := by
  obtain ⟨back, eq⟩ := inside
  obtain ⟨more, rfl, rest⟩ | ⟨more, rfl, rest⟩ := List.append_eq_append_iff.1 eq
  · exact .inl (List.prefix_append front more)
  · exact .inr ⟨more, rfl, back, rest.symm⟩

theorem prefix_cons_cases {c : α} (inside : front <+: c :: a) :
    front = [] ∨ ∃ more, front = c :: more ∧ more <+: a := by
  cases front with
  | nil => exact .inl rfl
  | cons d front =>
    obtain ⟨rfl, rest⟩ := List.cons_prefix_cons.1 inside
    exact .inr ⟨front, rfl, rest⟩

end Prefixes

namespace Closed

variable {a cs : List Char}

theorem nil : Closed [] where
  after_eq := rfl
  balance_eq _ := rfl
  nonneg b front inside := by
    obtain rfl := List.prefix_nil.1 inside
    exact Int.le_refl 0

theorem append {b : List Char} (left : Closed a) (right : Closed b) : Closed (a ++ b) where
  after_eq := by rw [Quote.after_append, left.after_eq, right.after_eq]
  balance_eq kind := by
    rw [Bracket.balance_append, left.after_eq, left.balance_eq, right.balance_eq, Int.add_zero]
  nonneg kind front inside := by
    obtain first | ⟨more, rfl, second⟩ := prefix_append_cases inside
    · exact left.nonneg kind front first
    · rw [Bracket.balance_append, left.after_eq, left.balance_eq, Int.zero_add]
      exact right.nonneg kind more second

theorem plain (chars : ∀ c ∈ a, isMark c = false ∧ depthStep c = 0) : Closed a := by
  induction a with
  | nil => exact .nil
  | cons c a ih =>
    rw [List.forall_mem_cons] at chars
    obtain ⟨⟨mark, flat⟩, chars⟩ := chars
    have one (kind : Bracket) : kind.balance .code [c] = 0 := by
      rw [Canonical.balance_cons_code kind mark, Canonical.weight_of_depthStep flat, Bracket.balance_nil]
      rfl
    have first : Closed [c] :=
      { after_eq := Canonical.next_of_not_isMark mark
        balance_eq := one
        nonneg := by
          intro kind front inside
          obtain rfl | ⟨more, rfl, rest⟩ := prefix_cons_cases inside
          · exact Int.le_refl 0
          · obtain rfl := List.prefix_nil.1 rest
            exact Int.le_of_eq (one kind).symm }
    exact first.append (ih chars)

theorem group (kind : Bracket) (inner : Closed a) : Closed (kind.opener :: a ++ [kind.closer]) := by
  have opener := Canonical.isMark_opener kind
  have closer := Canonical.isMark_closer kind
  have start (b : Bracket) (text : List Char) :
      b.balance .code (kind.opener :: text) = b.weight kind.opener + b.balance .code text :=
    Canonical.balance_cons_code b opener text
  have weights (b : Bracket) : 0 ≤ b.weight kind.opener ∧
      b.weight kind.opener + b.weight kind.closer = 0 :=
    ⟨by cases b <;> cases kind <;> decide, Canonical.weight_opener_add_closer b kind⟩
  have whole (b : Bracket) : b.balance .code (kind.opener :: a ++ [kind.closer]) = 0 := by
    rw [List.cons_append, start, Bracket.balance_append, inner.after_eq, inner.balance_eq,
      Canonical.balance_cons_code b closer, Bracket.balance_nil]
    have sum := (weights b).2
    omega
  refine { after_eq := ?_, balance_eq := whole, nonneg := ?_ }
  · simp [Canonical.next_of_not_isMark opener, inner.after_eq, Canonical.next_of_not_isMark closer]
  · intro b front inside
    have opened := (weights b).1
    rw [List.cons_append] at inside
    obtain rfl | ⟨more, rfl, later⟩ := prefix_cons_cases inside
    · exact Int.le_refl 0
    · rw [start]
      obtain within | ⟨last, rfl, ending⟩ := prefix_append_cases later
      · have low := inner.nonneg b more within
        omega
      · obtain rfl | ⟨nothing, rfl, rest⟩ := prefix_cons_cases ending
        · rw [List.append_nil, inner.balance_eq]
          omega
        · rw [List.prefix_nil.1 rest]
          have all := whole b
          rw [List.cons_append, start] at all
          omega

end Closed

-- A text is closed if it is at each of its characters.
theorem closed_iff (cs : List Char) : Closed cs ↔ Quote.code.after cs = .code ∧
    ∀ b ∈ [Bracket.round, .curly, .square], b.balance .code cs = 0 ∧
      ∀ n ≤ cs.length, 0 ≤ b.balance .code (cs.take n) := by
  have every (b : Bracket) : b ∈ [Bracket.round, .curly, .square] := by cases b <;> simp
  constructor
  · exact fun closed => ⟨closed.after_eq, fun b _ =>
      ⟨closed.balance_eq b, fun n _ => closed.nonneg b _ (List.take_prefix n cs)⟩⟩
  · rintro ⟨after, kinds⟩
    refine ⟨after, fun b => (kinds b (every b)).1, fun b front inside => ?_⟩
    have low := (kinds b (every b)).2 front.length inside.length_le
    rwa [← List.prefix_iff_eq_take.1 inside] at low

instance : DecidablePred Closed := fun cs => decidable_of_iff _ (closed_iff cs).symm

section Enclosed

variable {a cs : List Char}

theorem code_of_isCode {q : Quote} {c : Char} (code : q.isCode c = true) : q = .code ∧ isMark c = false := by
  cases q <;> simp_all [Quote.isCode]

-- A character closes the bracket that is looked for, or it takes the scan to another depth.
theorem closes_or_moves (b : Bracket) (q : Quote) (depth : Nat) (c : Char) :
    q = .code ∧ c = b.closer ∧ depth = 0 ∨
      ∃ depth' : Nat, (depth' : Int) = depth + if q.isCode c then b.weight c else 0 := by
  by_cases stays : 0 ≤ (depth : Int) + if q.isCode c then b.weight c else 0
  · obtain ⟨depth', moved⟩ := Int.eq_ofNat_of_zero_le stays
    exact .inr ⟨depth', moved.symm⟩
  · left
    by_cases code : q.isCode c = true
    · rw [if_pos code, Bracket.weight] at stays
      split at stays
      · omega
      · split at stays
        · rename_i closes
          exact ⟨(code_of_isCode code).1, closes, by omega⟩
        · omega
    · rw [if_neg code] at stays
      omega

-- A character takes a scan for a closing bracket to another depth, unless it is the one looked for.
theorem close_step (b : Bracket) {q : Quote} {depth depth' : Nat} {c : Char}
    (moved : (depth' : Int) = depth + if q.isCode c then b.weight c else 0) (cs : List Char) :
    b.close q depth (c :: cs) = within? [c] (b.close (q.next c) depth' cs) := by
  by_cases code : q.isCode c = true
  · rw [if_pos code] at moved
    obtain ⟨rfl, mark⟩ := code_of_isCode code
    rw [Canonical.next_of_not_isMark mark]
    by_cases closer : c = b.closer
    · subst closer
      have weight := Canonical.weight_closer b
      obtain rfl : depth = depth' + 1 := by omega
      exact Canonical.close_closer_succ b depth'
    · by_cases opener : c = b.opener
      · subst opener
        have weight := Canonical.weight_opener b
        obtain rfl : depth' = depth + 1 := by omega
        exact Canonical.close_opener b depth
      · have weight : b.weight c = 0 := by simp [Bracket.weight, opener, closer]
        obtain rfl : depth' = depth := by omega
        exact Canonical.close_cons b depth' mark opener closer
  · rw [if_neg code] at moved
    obtain rfl : depth' = depth := by omega
    exact Canonical.close_of_hides b depth' (a := [c]) (by simp [Canonical.hides_nil, Canonical.hides_cons, code])

-- A scan for a closing bracket passes over a text that closes none that was open in front of it.
theorem close_append (b : Bracket) {q : Quote} {depth : Nat}
    (nonneg : ∀ front, front <+: a → 0 ≤ (depth : Int) + b.balance q front) :
    b.close q depth (a ++ cs) =
      within? a (b.close (q.after a) ((depth : Int) + b.balance q a).toNat cs) := by
  induction a generalizing q depth with
  | nil => cases found : b.close q depth cs <;> simp [within?, found]
  | cons c a ih =>
    have first := nonneg [c] (List.cons_prefix_cons.2 ⟨rfl, List.nil_prefix⟩)
    simp only [Bracket.balance, Int.add_zero] at first
    obtain ⟨depth', moved⟩ := Int.eq_ofNat_of_zero_le first
    have shift (text : List Char) :
        (depth' : Int) + b.balance (q.next c) text = depth + b.balance q (c :: text) := by
      rw [Bracket.balance]
      omega
    have later : ∀ front, front <+: a → 0 ≤ (depth' : Int) + b.balance (q.next c) front := by
      intro front inside
      rw [shift]
      exact nonneg _ (List.cons_prefix_cons.2 ⟨rfl, inside⟩)
    rw [List.cons_append, close_step b moved.symm, ih later, shift, ← within?_append]
    rfl

-- A bracket around closed code is closed where the code ends.
theorem Closed.enclosed? (closed : Closed a) (b : Bracket) :
    b.enclosed? (b.opener :: (a ++ b.closer :: cs)) = some (a, cs) := by
  have code := Canonical.isCode_of_not_isMark (Canonical.isMark_closer b)
  have nonneg : ∀ front, front <+: a → 0 ≤ ((0 : Nat) : Int) + b.balance .code front :=
    fun front inside => by simpa using closed.nonneg b front inside
  rw [Bracket.enclosed?, if_pos rfl, close_append b nonneg, closed.after_eq, closed.balance_eq]
  simp [Bracket.close, code, within?]

end Enclosed

section Split

variable {a b cs : List Char} {q : Quote} {depth : Int} {c : Char}

theorem net_cons (q : Quote) (c : Char) (cs : List Char) :
    net q (c :: cs) = (if q.isCode c then depthStep c else 0) + net (q.next c) cs := by
  have sum : depthStep c =
      Bracket.round.weight c + Bracket.curly.weight c + Bracket.square.weight c := by
    simp only [depthStep, Bracket.weight, Bracket.opener, Bracket.closer]
    split
    · rename_i opens
      simp only [Bool.or_eq_true, decide_eq_true_eq] at opens
      rcases opens with (rfl | rfl) | rfl <;> decide
    · rename_i opens
      simp only [Bool.or_eq_true, decide_eq_true_eq, not_or] at opens
      split
      · rename_i closes
        simp only [Bool.or_eq_true, decide_eq_true_eq] at closes
        rcases closes with (rfl | rfl) | rfl <;> decide
      · rename_i closes
        simp only [Bool.or_eq_true, decide_eq_true_eq, not_or] at closes
        simp [opens, closes]
  simp only [net, Bracket.balance]
  split <;> omega

theorem net_append (q : Quote) (a cs : List Char) : net q (a ++ cs) = net q a + net (q.after a) cs := by
  simp only [net, Bracket.balance_append]
  omega

theorem Closed.net_eq (closed : Closed a) : net .code a = 0 := by
  simp [net, closed.balance_eq]

theorem Closed.net_nonneg (closed : Closed a) {front : List Char} (inside : front <+: a) :
    0 ≤ net .code front := by
  have round := closed.nonneg .round front inside
  have curly := closed.nonneg .curly front inside
  have square := closed.nonneg .square front inside
  simp only [net]
  omega

-- Only a semicolon of the code outside of all brackets ends a part.
theorem splitTopFrom_step (passes : ¬(q.isCode c = true ∧ depth = 0 ∧ c = ';')) (cs : List Char) :
    splitTopFrom [';'] q depth 0 (c :: cs) = onFirst [c]
      (splitTopFrom [';'] (q.next c) (depth + if q.isCode c then depthStep c else 0) 0 cs) := by
  by_cases code : q.isCode c = true
  · obtain ⟨rfl, mark⟩ := code_of_isCode code
    rw [if_pos code, Canonical.next_of_not_isMark mark]
    refine Canonical.splitTopFrom_cons mark ?_
    rintro ⟨level, -, opens⟩
    have same : ';' = c := by simpa [List.isPrefixOf] using opens
    subst same
    exact passes ⟨code, by simpa [depthStep] using level, rfl⟩
  · rw [if_neg code, Int.add_zero]
    exact Canonical.splitTopFrom_of_hides (a := [c]) (by simp [Canonical.hides_nil, Canonical.hides_cons, code])

theorem splitTopFrom_semicolon (cs : List Char) :
    splitTopFrom [';'] .code 0 0 (';' :: cs) = ([], splitTop [';'] cs) :=
  Canonical.splitTopFrom_sep (h := ';') rfl rfl

-- A text that is one part is passed over, whatever follows it.
theorem splitTopFrom_append (whole : splitTopFrom [';'] q depth 0 a = (a, [])) :
    splitTopFrom [';'] q depth 0 (a ++ cs) =
      onFirst a (splitTopFrom [';'] (q.after a) (depth + net q a) 0 cs) := by
  induction a generalizing q depth with
  | nil => simp [net, onFirst]
  | cons c a ih =>
    have passes : ¬(q.isCode c = true ∧ depth = 0 ∧ c = ';') := by
      rintro ⟨code, rfl, rfl⟩
      obtain ⟨rfl, mark⟩ := code_of_isCode code
      rw [splitTopFrom_semicolon] at whole
      cases whole
    rw [splitTopFrom_step passes] at whole
    have rest : splitTopFrom [';'] (q.next c) (depth + if q.isCode c then depthStep c else 0) 0 a =
        (a, []) := by
      obtain ⟨first, others⟩ := Prod.mk.inj whole
      exact Prod.ext (List.cons.inj first).2 others
    rw [List.cons_append, splitTopFrom_step passes, ih rest, onFirst_onFirst, net_cons, Int.add_assoc]
    rfl

-- Inside brackets nothing ends a part.
theorem splitTopFrom_deep (deep : ∀ front, front <+: a → 0 < depth + net q front) :
    splitTopFrom [';'] q depth 0 a = (a, []) := by
  induction a generalizing q depth with
  | nil => rfl
  | cons c a ih =>
    have level := deep [] List.nil_prefix
    simp only [net, Bracket.balance_nil] at level
    have passes : ¬(q.isCode c = true ∧ depth = 0 ∧ c = ';') := by
      rintro ⟨-, rfl, -⟩
      omega
    have later : ∀ front, front <+: a →
        0 < (depth + if q.isCode c then depthStep c else 0) + net (q.next c) front := by
      intro front inside
      have more := deep (c :: front) (List.cons_prefix_cons.2 ⟨rfl, inside⟩)
      rw [net_cons] at more
      omega
    rw [splitTopFrom_step passes, ih later]
    rfl

/-- Whether no semicolon in a text ends a statement. -/
def Whole (cs : List Char) : Prop := splitTopFrom [';'] .code 0 0 cs = (cs, [])

instance : DecidablePred Whole := fun cs =>
  inferInstanceAs (Decidable (splitTopFrom [';'] .code 0 0 cs = (cs, [])))

namespace Whole

theorem nil : Whole [] := rfl

theorem splitTopFrom_eq (whole : Whole a) (closed : Closed a) (cs : List Char) :
    splitTopFrom [';'] .code 0 0 (a ++ cs) = onFirst a (splitTopFrom [';'] .code 0 0 cs) := by
  rw [splitTopFrom_append whole, closed.after_eq, closed.net_eq, Int.add_zero]

theorem append (left : Whole a) (closed : Closed a) (right : Whole b) : Whole (a ++ b) := by
  rw [Whole, left.splitTopFrom_eq closed, right]
  rfl

theorem plain (chars : ∀ c ∈ a, isMark c = false ∧ depthStep c = 0 ∧ ';' ≠ c) : Whole a := by
  have passed : splitTopFrom [';'] .code 0 0 (a ++ []) = onFirst a (splitTopFrom [';'] .code 0 0 []) :=
    Canonical.splitTopFrom_flat chars
  rw [List.append_nil] at passed
  simpa [Whole, splitTopFrom, onFirst] using passed

theorem group (b : Bracket) (closed : Closed a) : Whole (b.opener :: a ++ [b.closer]) := by
  have code {d : Char} (mark : isMark d = false) := Canonical.isCode_of_not_isMark mark
  have opener := Canonical.isMark_opener b
  have closer := Canonical.isMark_closer b
  have inner : splitTopFrom [';'] .code 1 0 a = (a, []) := splitTopFrom_deep fun front inside => by
    have low := closed.net_nonneg inside
    omega
  have enters : ¬(Quote.code.isCode b.opener = true ∧ (0 : Int) = 0 ∧ b.opener = ';') := by
    cases b <;> decide
  have leaves : ¬(Quote.code.isCode b.closer = true ∧ (1 : Int) = 0 ∧ b.closer = ';') := by
    cases b <;> decide
  rw [Whole, List.cons_append, splitTopFrom_step enters, code opener, if_pos rfl,
    Canonical.depthStep_opener, Canonical.next_of_not_isMark opener, Int.zero_add,
    splitTopFrom_append inner, closed.after_eq, closed.net_eq, Int.add_zero, splitTopFrom_step leaves]
  rfl

theorem splitTop_append (whole : Whole a) (closed : Closed a) (cs : List Char) :
    splitTop [';'] (a ++ ';' :: cs) = a :: splitTop [';'] cs := by
  rw [splitTop, whole.splitTopFrom_eq closed, splitTopFrom_semicolon]
  simp [onFirst]

theorem splitTop_eq (whole : Whole a) : splitTop [';'] a = [a] := by
  rw [splitTop, whole]

theorem beforeTop_append (whole : Whole a) (closed : Closed a) (cs : List Char) :
    beforeTop [';'] (a ++ ';' :: cs) = a := by
  rw [beforeTop, whole.splitTopFrom_eq closed, splitTopFrom_semicolon]
  simp [onFirst]

theorem afterStatement_append (whole : Whole a) (closed : Closed a) (cs : List Char) :
    Stmt.afterStatement (a ++ cs) = Stmt.afterStatement cs := by
  rw [Stmt.afterStatement, Stmt.afterStatement, beforeTop, beforeTop, whole.splitTopFrom_eq closed]
  simp [onFirst, List.drop_append, Nat.add_assoc]

theorem afterStatement_semicolon (whole : Whole a) (closed : Closed a) (cs : List Char) :
    Stmt.afterStatement (a ++ ';' :: cs) = cs := by
  rw [Stmt.afterStatement, whole.beforeTop_append closed]
  simp [List.drop_append]

end Whole

end Split

end Breadboard
