import Breadboard.Engine.Run

set_option autoImplicit false

/-!
The frames of calls and the locals of calls. Main statement: a run keeps them in step with each other
and never nests more calls than its setting allows, and where it pauses something is left to be done.
-/
namespace Breadboard

def Frame.calls : List Frame → Nat
  | [] => 0
  | .call :: fs => calls fs + 1
  | _ :: fs => calls fs

def Outcome.thread? : Outcome → Option Thread
  | .next t => some t
  | .pause _ t => some t
  | .fail _ t => some t
  | .overflow => none

namespace Thread

/-- There are as many frames of calls as tables of locals, and no more than the limit. -/
structure Balanced (limit : Nat) (t : Thread) : Prop where
  calls_eq_depth : Frame.calls t.frames = t.depth
  depth_le : t.depth ≤ limit

theorem Balanced.setWorld {limit : Nat} {t : Thread} (balanced : t.Balanced limit) {w : World}
    (same : w.scopes.depth = t.world.scopes.depth) : { t with world := w }.Balanced limit where
  calls_eq_depth := balanced.calls_eq_depth.trans same.symm
  depth_le := Nat.le_trans (Nat.le_of_eq same) balanced.depth_le

theorem Balanced.choose {limit : Nat} (s : Setting) : (chain : Chain) → (t : Thread) →
    t.Balanced limit → (t.choose s chain).Balanced limit
  | .done, _, balanced => balanced
  | .otherwise _, _, balanced => ⟨balanced.calls_eq_depth, balanced.depth_le⟩
  | .branch cond body rest, t, balanced => by
    have tested : { t with world := (t.world.holds s.pace.time cond).2 }.Balanced limit :=
      balanced.setWorld rfl
    simp only [Thread.choose]
    split
    · exact ⟨tested.calls_eq_depth, tested.depth_le⟩
    · exact Balanced.choose s rest _ tested

theorem Balanced.enter {limit : Nat} {t : Thread} (balanced : t.Balanced limit)
    (s : Setting) (f : Function) (args : List Expr) (room : t.depth < limit) :
    (t.enter s f args).Balanced limit where
  calls_eq_depth := congrArg (· + 1) balanced.calls_eq_depth
  depth_le := room

theorem Balanced.execute {s : Setting} : (st : Stmt) → {t u : Thread} → t.Balanced s.limit →
    (t.execute s st).thread? = some u → u.Balanced s.limit
  | .act _ action, t, u, balanced, h => by
    have performed : { t with world := (action.perform s.pace t.world).1 }.Balanced s.limit :=
      balanced.setWorld (Action.depth_perform _ _ _)
    simp only [Thread.execute] at h
    split at h <;> cases h <;> exact performed
  | .call loc name args, t, u, balanced, h => by
    simp only [Thread.execute] at h
    split at h
    · cases h
      exact balanced
    · split at h
      · cases h
        exact balanced
      · cases h
        exact balanced.enter s _ args (by omega)
  | .choose _ chain, t, u, balanced, h => by
    cases h
    exact balanced.choose s chain t
  | .forLoop _ none cond step body, t, u, balanced, h => by
    cases h
    exact ⟨balanced.calls_eq_depth, balanced.depth_le⟩
  | .forLoop _ (some init) cond step body, t, u, balanced, h => by
    have pushed : (t.push (.forTest cond step body)).Balanced s.limit :=
      ⟨balanced.calls_eq_depth, balanced.depth_le⟩
    exact Balanced.execute init pushed h
  | .whileLoop _ cond body, t, u, balanced, h => by
    cases h
    exact ⟨balanced.calls_eq_depth, balanced.depth_le⟩

theorem frames_choose (s : Setting) : (chain : Chain) → (t : Thread) →
    t.frames <:+ (t.choose s chain).frames
  | .done, t => List.suffix_rfl
  | .otherwise _, t => List.suffix_cons _ _
  | .branch cond body rest, t => by
    simp only [choose]
    split
    · exact List.suffix_cons _ _
    · exact frames_choose s rest { t with world := (t.world.holds s.pace.time cond).2 }

-- Starting a statement only puts frames on top of those that are there.
theorem frames_execute {s : Setting} : (st : Stmt) → {t u : Thread} →
    (t.execute s st).thread? = some u → t.frames <:+ u.frames
  | .act _ action, t, u, h => by
    simp only [execute] at h
    split at h <;> cases h <;> exact List.suffix_rfl
  | .call loc name args, t, u, h => by
    simp only [execute] at h
    split at h
    · cases h
      exact List.suffix_rfl
    · split at h
      · cases h
        exact List.suffix_rfl
      · cases h
        exact ⟨[_, _], rfl⟩
  | .choose _ chain, t, u, h => by
    cases h
    exact frames_choose s chain t
  | .forLoop _ none cond step body, t, u, h => by
    cases h
    exact List.suffix_cons _ _
  | .forLoop _ (some init) cond step body, t, u, h =>
    (List.suffix_cons _ _).trans (frames_execute init h)
  | .whileLoop _ cond body, t, u, h => by
    cases h
    exact List.suffix_cons _ _

@[simp] theorem thread?_yieldBody (o : Outcome) : (yieldBody o).thread? = o.thread? := by
  cases o <;> rfl

theorem Balanced.step {s : Setting} {t u : Thread} (balanced : t.Balanced s.limit)
    (h : (t.step s).thread? = some u) : u.Balanced s.limit := by
  obtain ⟨frames, phase, location, world⟩ := t
  obtain ⟨calls, within⟩ := balanced
  match frames with
  | [] => cases phase <;> cases h <;> exact ⟨calls, within⟩
  | .sequence [] :: fs =>
    cases h
    exact ⟨calls, within⟩
  | .sequence (st :: rest) :: fs =>
    have started : Balanced s.limit ⟨.sequence rest :: fs, phase, st.location, world⟩ := ⟨calls, within⟩
    exact started.execute st h
  | .forTest cond step body :: fs =>
    simp only [Thread.step] at h
    split at h <;> cases h <;> exact ⟨calls, within⟩
  | .forStep cond none body :: fs =>
    cases h
    exact ⟨calls, within⟩
  | .forStep cond (some st) body :: fs =>
    have started : Balanced s.limit ⟨.forTest cond (some st) body :: fs, phase, location, world⟩ :=
      ⟨calls, within⟩
    simp only [Thread.step, thread?_yieldBody] at h
    exact started.execute st h
  | .whileTest cond body rounds :: fs =>
    simp only [Thread.step] at h
    split at h
    · split at h <;> cases h <;> exact ⟨calls, within⟩
    · cases h
      exact ⟨calls, within⟩
  | .call :: fs =>
    cases h
    -- The frame and the table of locals go together.
    have calls : Frame.calls fs + 1 = world.scopes.depth := calls
    have within : world.scopes.depth ≤ s.limit := within
    refine ⟨?_, ?_⟩ <;> simp only [depth, Scopes.depth_exit] <;> omega

theorem frames_ne_nil_of_pause {s : Setting} {t u : Thread} {span : Nat}
    (h : t.step s = .pause span u) : u.frames ≠ [] := by
  have started (st : Stmt) (v : Thread) (f : Frame) (fs : List Frame) (frames : v.frames = f :: fs)
      (left : (v.execute s st).thread? = some u) : u.frames ≠ [] := by
    intro empty
    have suffix := frames_execute st left
    simp [frames, empty] at suffix
  obtain ⟨frames, phase, location, world⟩ := t
  match frames with
  | [] =>
    cases phase <;> cases h
    simp
  | .sequence [] :: fs => cases h
  | .sequence (st :: rest) :: fs =>
    have left : (execute s st ⟨.sequence rest :: fs, phase, st.location, world⟩).thread? = some u :=
      congrArg Outcome.thread? h
    exact started st _ _ _ rfl left
  | .forTest cond step body :: fs => cases h
  | .forStep cond none body :: fs =>
    cases h
    simp
  | .forStep cond (some st) body :: fs =>
    have left := congrArg Outcome.thread? h
    simp only [step, thread?_yieldBody] at left
    exact started st _ _ _ rfl left
  | .whileTest cond body rounds :: fs =>
    simp only [step] at h
    split at h
    · split at h <;> cases h
      simp
    · cases h
  | .call :: fs => cases h

theorem Balanced.run {s : Setting} {t : Thread} (balanced : t.Balanced s.limit) {span : Nat}
    {u : Thread} (h : t.run s = .pause span u) : u.Balanced s.limit ∧ u.frames ≠ [] := by
  induction t using run.induct s with
  | case1 t v step lower ih =>
    rw [run_of_next step] at h
    exact ih (balanced.step (by rw [step]; rfl)) h
  | case2 t span' v step =>
    rw [run_of_pause step] at h
    cases h
    exact ⟨balanced.step (by rw [step]; rfl), frames_ne_nil_of_pause step⟩
  | case3 t fault v step =>
    rw [run_of_fail step] at h
    cases h
  | case4 t step =>
    rw [run_of_overflow step] at h
    cases h

end Thread

end Breadboard
