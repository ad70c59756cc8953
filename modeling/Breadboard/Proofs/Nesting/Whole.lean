import Breadboard.Proofs.Matching
import Breadboard.Proofs.Nesting.Depth
import Breadboard.Proofs.Splitting

set_option autoImplicit false

/-!
Reading expressions and conditions without a limit on their nesting. Main statements: what stands in a text is read
from shorter texts, so that it can be read as a whole; reading with a limit goes through the same levels; and how deep
a text nests is bounded by its parentheses and its signs.
-/
namespace Breadboard

open Text

/-- What a text is on its first level: an expression without others in it, or one with texts for the others. -/
inductive Expr.Form where
  | leaf (e : Expr)
  | digitalRead (pin : List Char)
  | analogRead (pin : List Char)
  | builtin (f : Builtin) (args : List (List Char))

namespace Expr.Form

def parts : Form → List (List Char)
  | leaf _ => []
  | digitalRead pin => [pin]
  | analogRead pin => [pin]
  | builtin _ args => args

-- The expression, once it is known what is read of its parts.
def build : (form : Form) → (read : (part : List Char) → part ∈ form.parts → Expr) → Expr
  | leaf e, _ => e
  | digitalRead pin, read => .digitalRead (read pin (List.mem_singleton_self pin))
  | analogRead pin, read => .analogRead (read pin (List.mem_singleton_self pin))
  | builtin f args, read => .builtin f (args.attach.map fun part => read part.1 part.2)

end Expr.Form

def Expr.form (cs : List Char) : Form :=
  let text := trim cs
  match readLeaf? text with
  | some e => .leaf e
  | none =>
    match stripCall "digitalRead".toList text with
    | some pin => .digitalRead pin
    | none =>
      match stripCall "analogRead".toList text with
      | some pin => .analogRead pin
      | none =>
        match builtinCall? text with
        | some (f, args) => .builtin f args
        | none =>
          .leaf (if isIdentifier text then .var (String.ofList text) else .arithmetic (String.ofList text))

/-- What a text is on its first level, with texts for the conditions and the expressions in it. -/
inductive Cond.Form where
  | all (parts : List (List Char))
  | any (parts : List (List Char))
  | not (inner : List Char)
  | compare (lhs : List Char) (op : Comparison) (rhs : List Char)
  | truth (text : List Char)

namespace Cond.Form

-- The texts of the conditions.
def parts : Form → List (List Char)
  | all parts => parts
  | any parts => parts
  | not inner => [inner]
  | compare _ _ _ => []
  | truth _ => []

-- The texts of the expressions.
def operands : Form → List (List Char)
  | all _ => []
  | any _ => []
  | not _ => []
  | compare lhs _ rhs => [lhs, rhs]
  | truth text => [text]

def build (operand : List Char → Expr) : (form : Form) → (read : (part : List Char) → part ∈ form.parts → Cond) → Cond
  | all parts, read => .all (parts.attach.map fun part => read part.1 part.2)
  | any parts, read => .any (parts.attach.map fun part => read part.1 part.2)
  | not inner, read => .not (read inner (List.mem_singleton_self inner))
  | compare lhs op rhs, _ => .compare (operand lhs) op (operand rhs)
  | truth text, _ => .truth (operand text)

end Cond.Form

def Cond.form (cs : List Char) : Form :=
  let text := stripParens cs
  match splitTop "&&".toList text with
  | first :: second :: rest => .all (first :: second :: rest)
  | _ =>
    match splitTop "||".toList text with
    | first :: second :: rest => .any (first :: second :: rest)
    | _ =>
      match negated? text with
      | some rest => .not rest
      | none =>
        match comparison? text with
        | some (op, lhs, rhs) => .compare lhs op rhs
        | none => .truth text

section Parts

variable {name sep cs args part : List Char}

-- The arguments of a call stand behind a parenthesis.
theorem sublist_of_stripCall (found : stripCall name cs = some args) : ('(' :: args).Sublist cs := by
  obtain ⟨blanks, -, text, -⟩ := stripCall_eq_some_iff.1 found
  have inside : ('(' :: args).Sublist (trim cs) := by
    rw [text]
    exact ((List.sublist_append_left args _).cons_cons '(').trans (List.sublist_append_right _ _)
  exact inside.trans (trim_sublist cs)

theorem sublist_of_splitCall (found : splitCall cs = some (name, args)) : ('(' :: args).Sublist cs := by
  obtain ⟨-, -, found⟩ := Option.bind_eq_some_iff.1 found
  obtain ⟨-, -, found⟩ := Option.bind_eq_some_iff.1 found
  obtain ⟨inner, stripped, found⟩ := Option.bind_eq_some_iff.1 found
  obtain ⟨rfl, rfl⟩ := Prod.mk.inj (Option.some.inj found)
  exact (sublist_of_stripCall stripped).trans (trim_sublist cs)

theorem sublist_of_mem_splitArgs (member : part ∈ splitArgs cs) : part.Sublist cs := by
  unfold splitArgs at member
  split at member
  · cases member
  · obtain ⟨whole, inside, rfl⟩ := List.mem_map.1 member
    exact (trim_sublist whole).trans (sublist_of_mem_splitTop inside)

theorem Expr.sublist_of_builtinCall? {f : Builtin} {parts : List (List Char)}
    (found : builtinCall? cs = some (f, parts)) (member : part ∈ parts) : ('(' :: part).Sublist cs := by
  obtain ⟨⟨name, args⟩, call, found⟩ := Option.bind_eq_some_iff.1 found
  obtain ⟨f, known, found⟩ := Option.bind_eq_some_iff.1 found
  obtain ⟨rfl, rfl⟩ := Prod.mk.inj (Option.some.inj found)
  exact ((sublist_of_mem_splitArgs member).cons_cons '(').trans (sublist_of_splitCall call)

theorem Expr.sublist_of_mem_parts (member : part ∈ (form cs).parts) : ('(' :: part).Sublist cs := by
  refine List.Sublist.trans ?_ (trim_sublist cs)
  unfold form at member
  dsimp only at member
  split at member
  · cases member
  · split at member
    · rename_i found
      obtain rfl := List.mem_singleton.1 member
      exact sublist_of_stripCall found
    · split at member
      · rename_i found
        obtain rfl := List.mem_singleton.1 member
        exact sublist_of_stripCall found
      · split at member
        · rename_i found
          exact sublist_of_builtinCall? found member
        · cases member

-- A part of a text that is cut has a separator at one of its ends.
theorem sublist_of_cut (member : part ∈ splitTop sep cs) (cut : 1 < (splitTop sep cs).length) :
    (part ++ sep).Sublist cs ∨ (sep ++ part).Sublist cs := by
  obtain ⟨before, after, found⟩ := List.append_of_mem member
  have text := eq_of_splitTop_append found
  cases before with
  | nil =>
    cases after with
    | nil =>
      rw [found] at cut
      exact absurd cut (Nat.lt_irrefl 1)
    | cons next after =>
      left
      have behind : sep.Sublist (behindOf sep (next :: after)) := by
        simp [behindOf]
      rw [text]
      exact behind.append_left part
  | cons first before =>
    right
    have front : sep.Sublist (frontOf sep (first :: before)) := by
      simp [frontOf]
    rw [text]
    exact front.append (List.sublist_append_left part _)

-- So it has fewer of the signs that the separator is made of.
theorem countP_lt_of_cut {p : Char → Bool} (sign : ∃ c ∈ sep, p c = true) (member : part ∈ splitTop sep cs)
    (cut : 1 < (splitTop sep cs).length) : part.countP p < cs.countP p := by
  have counted : 0 < sep.countP p := List.countP_pos_iff.2 sign
  obtain ends | starts := sublist_of_cut member cut
  · have fewer : (part ++ sep).countP p ≤ cs.countP p := ends.countP_le
    rw [List.countP_append] at fewer
    omega
  · have fewer : (sep ++ part).countP p ≤ cs.countP p := starts.countP_le
    rw [List.countP_append] at fewer
    omega

namespace Cond

theorem stripParens_sublist (cs : List Char) : (stripParens cs).Sublist cs := by
  unfold stripParens
  dsimp only
  split
  · rename_i inside found
    exact (trim_sublist inside).trans ((Stmt.sublists_of_enclosed? found).1.trans (trim_sublist cs))
  · exact trim_sublist cs

theorem eq_of_negated? (found : negated? cs = some part) : cs = '!' :: part := by
  unfold negated? at found
  split at found
  · split at found
    · cases found
    · rw [Option.some.inj found]
  · cases found

theorem sublists_of_comparison? {op : Comparison} {lhs rhs : List Char}
    (found : comparison? cs = some (op, lhs, rhs)) : lhs.Sublist cs ∧ rhs.Sublist cs := by
  obtain ⟨sign, -, cut⟩ := List.exists_of_findSome?_eq_some found
  obtain ⟨⟨left, right⟩, cut, sides⟩ := Option.map_eq_some_iff.1 cut
  cases sides
  unfold cutTop? at cut
  split at cut
  · cases cut
  · rename_i first next others split
    cases cut
    refine ⟨?_, List.drop_sublist _ cs⟩
    have front := beforeTop_sublist op.symbol.toList cs
    rwa [beforeTop, split] at front

theorem countP_lt_of_mem_parts {p : Char → Bool} (signs : ∀ c ∈ ['!', '&', '|'], p c = true)
    (member : part ∈ (form cs).parts) : part.countP p < cs.countP p := by
  refine Nat.lt_of_lt_of_le ?_ (stripParens_sublist cs).countP_le
  unfold form at member
  dsimp only at member
  split at member
  · rename_i split
    refine countP_lt_of_cut ⟨'&', by decide, signs '&' (by decide)⟩ (split ▸ member) ?_
    rw [split]
    simp
  · split at member
    · rename_i split
      refine countP_lt_of_cut ⟨'|', by decide, signs '|' (by decide)⟩ (split ▸ member) ?_
      rw [split]
      simp
    · split at member
      · rename_i found
        obtain rfl := List.mem_singleton.1 member
        rw [eq_of_negated? found, List.countP_cons_of_pos (signs '!' (by decide))]
        exact Nat.lt_succ_self _
      · split at member <;> cases member

theorem sublist_of_mem_operands (member : part ∈ (form cs).operands) : part.Sublist cs := by
  refine List.Sublist.trans ?_ (stripParens_sublist cs)
  unfold form at member
  dsimp only at member
  split at member
  · cases member
  · split at member
    · cases member
    · split at member
      · cases member
      · split at member
        · rename_i found
          obtain ⟨left, right⟩ := sublists_of_comparison? found
          obtain rfl | rfl := List.mem_pair.1 member
          · exact left
          · exact right
        · obtain rfl := List.mem_singleton.1 member
          exact List.Sublist.refl _

end Cond

end Parts

/-- Reads an expression with all that stands in it, however deep. -/
def Expr.readFully (cs : List Char) : Expr := (form cs).build fun part _ => readFully part
termination_by cs.length
decreasing_by exact (Expr.sublist_of_mem_parts ‹_›).length_le

/-- Reads a condition with all that stands in it, however deep. -/
def Cond.readFully (cs : List Char) : Cond := (form cs).build .readFully fun part _ => readFully part
termination_by cs.length
decreasing_by
  simp only [← List.countP_true]
  exact Cond.countP_lt_of_mem_parts (fun _ _ => rfl) ‹_›

section Levels

variable {n : Nat} {cs : List Char}

namespace Expr

theorem readWithin_form (levels : Nat) (cs : List Char) :
    readWithin (levels + 1) cs = (form cs).build fun part _ => readWithin levels part := by
  rw [readWithin, form]
  cases readLeaf? (trim cs) with
  | some e => rfl
  | none =>
    cases stripCall "digitalRead".toList (trim cs) with
    | some pin => rfl
    | none =>
      cases stripCall "analogRead".toList (trim cs) with
      | some pin => rfl
      | none =>
        cases builtinCall? (trim cs) with
        | some call => simp [Form.build]
        | none => cases isIdentifier (trim cs) <;> rfl

theorem depth_of_leaf {e : Expr} (found : form cs = .leaf e) : e.depth = 1 := by
  unfold form at found
  dsimp only at found
  split at found
  · rename_i leaf
    cases found
    exact depth_readLeaf? leaf
  · repeat' split at found
    -- A call is no leaf, and what is none has a name or arithmetic for its one.
    all_goals
      cases found
    all_goals rfl

theorem depth_build_le {read : List Char → Expr} (within : ∀ part ∈ (form cs).parts, (read part).depth ≤ n) :
    ((form cs).build fun part _ => read part).depth ≤ n + 1 := by
  generalize found : form cs = f at within
  cases f with
  | leaf e => exact Nat.le_trans (Nat.le_of_eq (depth_of_leaf found)) (Nat.le_add_left 1 n)
  | digitalRead pin => exact Nat.succ_le_succ (within pin (List.mem_singleton_self pin))
  | analogRead pin => exact Nat.succ_le_succ (within pin (List.mem_singleton_self pin))
  | builtin f args =>
    refine Nat.succ_le_succ (depthAll_le_iff.2 fun e member => ?_)
    obtain ⟨part, -, rfl⟩ := List.mem_map.1 member
    exact within part.1 part.2

/-- Each level of an expression takes a parenthesis. -/
theorem depth_readFully_le (cs : List Char) : (readFully cs).depth ≤ openings cs + 1 := by
  induction cs using readFully.induct with
  | case1 cs ih =>
    rw [readFully]
    refine depth_build_le fun part member => ?_
    have fewer := openings_le_of_sublist (sublist_of_mem_parts member)
    have inner := ih part member
    rw [openings_cons, if_pos rfl] at fewer
    omega

end Expr

namespace Cond

theorem readWithin_form (levels : Nat) (cs : List Char) : readWithin (levels + 1) cs =
    (form cs).build (.readWithin levels) fun part _ => readWithin levels part := by
  rw [readWithin, form]
  generalize splitTop "&&".toList (stripParens cs) = conjuncts
  generalize splitTop "||".toList (stripParens cs) = disjuncts
  rcases conjuncts with _ | ⟨first, _ | ⟨second, rest⟩⟩
  case cons.cons => simp [Form.build]
  -- One part alone is no connection.
  all_goals
    rcases disjuncts with _ | ⟨first, _ | ⟨second, rest⟩⟩
    case cons.cons => simp [Form.build]
    all_goals
      cases negated? (stripParens cs) with
      | some rest => rfl
      | none => cases comparison? (stripParens cs) <;> rfl

theorem depth_build_le {operand : List Char → Expr} {read : List Char → Cond} {f : Form}
    (operands : ∀ part ∈ f.operands, (operand part).depth ≤ n) (within : ∀ part ∈ f.parts, (read part).depth ≤ n) :
    (f.build operand fun part _ => read part).depth ≤ n + 1 := by
  have all {parts : List (List Char)} (within : ∀ part ∈ parts, (read part).depth ≤ n) :
      depthAll (parts.attach.map fun part => read part.1) ≤ n := by
    refine depthAll_le_iff.2 fun c member => ?_
    obtain ⟨part, -, rfl⟩ := List.mem_map.1 member
    exact within part.1 part.2
  cases f with
  | all parts => exact Nat.succ_le_succ (all within)
  | any parts => exact Nat.succ_le_succ (all within)
  | not inner => exact Nat.succ_le_succ (within inner (List.mem_singleton_self inner))
  | compare lhs op rhs =>
    have left := operands lhs List.mem_cons_self
    have right := operands rhs (List.mem_cons_of_mem lhs (List.mem_singleton_self rhs))
    exact Nat.succ_le_succ (Nat.max_le.2 ⟨left, right⟩)
  | truth text => exact Nat.succ_le_succ (operands text (List.mem_singleton_self text))

/-- The signs that take a level of a condition or of an expression in it. -/
def nestingSigns (cs : List Char) : Nat := cs.countP fun c => ['(', '!', '&', '|'].contains c

theorem openings_le_nestingSigns (cs : List Char) : openings cs ≤ nestingSigns cs := by
  refine List.countP_mono_left fun c _ opens => ?_
  rw [beq_iff_eq.1 opens]
  rfl

/-- Each level of a condition takes a sign, but for a comparison and the expressions that it compares. -/
theorem depth_readFully_le (cs : List Char) : (readFully cs).depth ≤ nestingSigns cs + 2 := by
  induction cs using readFully.induct with
  | case1 cs ih =>
    rw [readFully]
    refine depth_build_le (fun part member => ?_) fun part member => ?_
    · have fewer := openings_le_of_sublist (sublist_of_mem_operands member)
      have inner := Expr.depth_readFully_le part
      have counted := openings_le_nestingSigns cs
      omega
    · have fewer : nestingSigns part < nestingSigns cs := countP_lt_of_mem_parts (by decide) member
      have inner := ih part member
      omega

end Cond

end Levels

end Breadboard
