import Breadboard.Engine.Thread
import Breadboard.Total

set_option autoImplicit false

/-!
A bound on the steps that a run can take before it pauses or fails.

Main statement: a step that goes on lowers the rank. The rank charges every frame for the steps that
it can still cause up to the next pause. A call is charged for the dearest body at the next depth, so
that its charge is known from how many calls can still be nested.
-/
namespace Breadboard

mutual

/-- The charge for a statement, where `c` is that for a call. -/
def Stmt.charge (c : Nat) : Stmt → Nat
  | .act _ _ => 1
  | .call _ _ _ => c
  | .choose _ chain => 1 + chain.charge c
  | .forLoop _ init _ _ body => 3 + Stmt.clauseCharge c init + Stmt.blockCharge c body
  | .whileLoop _ _ body => 1 + Thread.roundsPerPause * (1 + Stmt.blockCharge c body)

def Chain.charge (c : Nat) : Chain → Nat
  | .done => 0
  | .otherwise body => Stmt.blockCharge c body
  | .branch _ body rest => Stmt.blockCharge c body + rest.charge c

/-- The charge for a block: that for its statements and one for its end. -/
def Stmt.blockCharge (c : Nat) : List Stmt → Nat
  | [] => 1
  | st :: rest => st.charge c + Stmt.blockCharge c rest

def Stmt.clauseCharge (c : Nat) : Option Stmt → Nat
  | none => 0
  | some st => st.charge c

end

/-- The charge for a call when `nested` calls can be nested, this one included. -/
def Program.callCharge (p : Program) : Nat → Nat
  | 0 => 1
  | nested + 1 =>
    2 + total (p.functions.entries.map fun e => Stmt.blockCharge (p.callCharge nested) e.2.body)

def Frame.charge (c : Nat) : Frame → Nat
  | .sequence rest => Stmt.blockCharge c rest
  | .forTest _ _ body => Stmt.blockCharge c body + 2
  | .forStep _ _ _ => 1
  | .whileTest _ body rounds =>
    (Thread.roundsPerPause - rounds % Thread.roundsPerPause) * (1 + Stmt.blockCharge c body)
  | .call => 1

namespace Setting

/-- The charge for a call at a depth. -/
def callCharge (s : Setting) (depth : Nat) : Nat := s.program.callCharge (s.limit - depth)

/-- The charge for what comes after all frames. -/
def phaseCharge (s : Setting) (depth : Nat) : Phase → Nat
  | .setup => 1 + Stmt.blockCharge (s.callCharge depth) s.program.loop
  | .loop => 0

/-- The charge for a stack of frames; those below the frame of a call run one level higher up. -/
def framesCharge (s : Setting) (phase : Phase) : Nat → List Frame → Nat
  | depth, [] => s.phaseCharge depth phase
  | depth, .call :: fs => 1 + s.framesCharge phase (depth - 1) fs
  | depth, f :: fs => f.charge (s.callCharge depth) + s.framesCharge phase depth fs

end Setting

namespace Thread

def rank (s : Setting) (t : Thread) : Nat := s.framesCharge t.phase t.depth t.frames

theorem framesCharge_cons {s : Setting} {phase : Phase} {depth : Nat} {f : Frame} {fs : List Frame}
    (h : f ≠ .call) :
    s.framesCharge phase depth (f :: fs) =
      f.charge (s.callCharge depth) + s.framesCharge phase depth fs := by
  cases f <;> first | rfl | exact absurd rfl h

@[simp] theorem framesCharge_sequence (s : Setting) (phase : Phase) (depth : Nat) (rest : List Stmt)
    (fs : List Frame) :
    s.framesCharge phase depth (.sequence rest :: fs) =
      Stmt.blockCharge (s.callCharge depth) rest + s.framesCharge phase depth fs := rfl

theorem rank_choose_le (s : Setting) : (chain : Chain) → (t : Thread) →
    (t.choose s chain).rank s ≤ chain.charge (s.callCharge t.depth) + t.rank s
  | .done, t => by simp [choose, Chain.charge]
  | .otherwise body, t => by simp [choose, Chain.charge, push, rank, depth]
  | .branch cond body rest, t => by
    simp only [choose]
    split
    · simp [push, rank, depth, Chain.charge]
    · have := rank_choose_le s rest { t with world := (t.world.holds s.pace.time cond).2 }
      simp only [rank, depth, World.scopes_holds, Chain.charge] at this ⊢
      omega

theorem blockCharge_le_callCharge {p : Program} {name : String} {f : Function}
    (h : p.functions.find? name = some f) (nested : Nat) :
    2 + Stmt.blockCharge (p.callCharge nested) f.body ≤ p.callCharge (nested + 1) := by
  have hmem : Stmt.blockCharge (p.callCharge nested) f.body ∈
      p.functions.entries.map fun e => Stmt.blockCharge (p.callCharge nested) e.2.body :=
    List.mem_map.2 ⟨(name, f), Table.mem_entries_of_find? h, rfl⟩
  exact Nat.add_le_add_left (le_total_of_mem hmem) 2

theorem rank_enter_lt {s : Setting} {t : Thread} {name : String} {f : Function}
    (h : s.program.functions.find? name = some f) (hd : t.depth < s.limit) (args : List Expr) :
    (t.enter s f args).rank s < s.callCharge t.depth + t.rank s := by
  have hn : s.limit - t.depth = s.limit - (t.depth + 1) + 1 := by omega
  have := blockCharge_le_callCharge h (s.limit - (t.depth + 1))
  simp only [rank, enter, depth, Scopes.depth_enter, World.scopes_evalAll, framesCharge_sequence,
    Setting.framesCharge, Nat.add_sub_cancel, Setting.callCharge] at *
  rw [hn]
  omega

/-- Starting a statement raises the rank by less than the charge for it. -/
theorem rank_execute_lt (s : Setting) : (st : Stmt) → (t t' : Thread) →
    t.execute s st = .next t' → t'.rank s < st.charge (s.callCharge t.depth) + t.rank s
  | .act _ action, t, t', h => by
    simp only [execute] at h
    split at h
    · cases h
      simp [rank, depth, Action.depth_perform, Stmt.charge]
    · cases h
    · cases h
  | .call loc name args, t, t', h => by
    simp only [execute] at h
    split at h
    · cases h
      simp only [Stmt.charge]
      have : 0 < s.callCharge t.depth := by
        unfold Setting.callCharge Program.callCharge
        split <;> omega
      omega
    · rename_i f hf
      split at h
      · cases h
      · cases h
        exact rank_enter_lt hf (by omega) args
  | .choose _ chain, t, t', h => by
    cases h
    have := rank_choose_le s chain t
    simp only [Stmt.charge]
    omega
  | .forLoop _ none cond step body, t, t', h => by
    cases h
    simp [rank, push, depth, Stmt.charge, Stmt.clauseCharge, Setting.framesCharge, Frame.charge]
    omega
  | .forLoop _ (some init) cond step body, t, t', h => by
    have := rank_execute_lt s init _ t' h
    simp only [rank, push, depth, Stmt.charge, Stmt.clauseCharge, Setting.framesCharge,
      Frame.charge] at this ⊢
    omega
  | .whileLoop _ cond body, t, t', h => by
    cases h
    simp [rank, push, depth, Stmt.charge, Setting.framesCharge, Frame.charge]

theorem yieldBody_ne_next (o : Outcome) (t : Thread) : yieldBody o ≠ .next t := by
  cases o <;> simp [yieldBody]

/-- Every step that goes on lowers the rank. -/
theorem rank_step_lt {s : Setting} {t t' : Thread} (h : t.step s = .next t') : t'.rank s < t.rank s := by
  unfold step at h
  split at h
  · rename_i hf
    simp only at h
    split at h
    · rename_i hp
      cases h
      simp [rank, depth, hf, hp, Setting.framesCharge, Setting.phaseCharge, Frame.charge]
    · cases h
  · rename_i fs hf
    cases h
    simp [rank, depth, hf, Stmt.blockCharge]
  · rename_i st rest fs hf
    have := rank_execute_lt s st _ t' h
    simp only [rank, depth, hf, framesCharge_sequence, Stmt.blockCharge] at this ⊢
    omega
  · rename_i cond step body fs hf
    cases h
    simp only [rank, depth, hf, Setting.framesCharge, Frame.charge]
    split
    · simp [Setting.framesCharge, Frame.charge]
      omega
    · omega
  · rename_i cond step body fs hf
    split at h
    · cases h
    · exact absurd h (yieldBody_ne_next _ _)
  · rename_i cond body rounds fs hf
    simp only at h
    split at h
    · split at h
      · cases h
      · rename_i hr
        cases h
        simp only [rank, depth, hf, World.scopes_holds, Setting.framesCharge, Frame.charge,
          roundsPerPause] at hr ⊢
        have : (rounds + 1) % 100 = rounds % 100 + 1 := by omega
        have : 100 - rounds % 100 = (100 - (rounds + 1) % 100) + 1 := by omega
        rw [this, Nat.succ_mul]
        omega
    · cases h
      simp only [rank, depth, hf, World.scopes_holds, Setting.framesCharge, Frame.charge,
        roundsPerPause]
      have : 0 < 100 - rounds % 100 := by omega
      have := Nat.mul_pos this (show 0 < 1 + Stmt.blockCharge
        (s.callCharge t.world.scopes.depth) body by omega)
      omega
  · rename_i fs hf
    cases h
    simp [rank, depth, hf, Setting.framesCharge]

end Thread

end Breadboard
