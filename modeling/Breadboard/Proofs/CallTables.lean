import Mathlib.Data.List.Induction
import Breadboard.Proofs.CallStack
import Breadboard.Proofs.Happenings
import Breadboard.Proofs.Structured

set_option autoImplicit false

/-!
The tables of locals while calls are under way. Main statement: from the step that enters a call up to
the one that returns from it, whatever its body and the host do meanwhile, the tables of the calls
around it stay as they are, and a name that the call has not assigned reads as its parameter, else as
its caller's local, else as the global.
-/
namespace Breadboard

theorem Table.find?_insertAll {α : Type} (t : Table α) (entries : List (String × α)) (name : String) :
    (t.insertAll entries).find? name = (entries.reverse.lookup name).or (t.find? name) := by
  induction entries generalizing t with
  | nil => rfl
  | cons entry entries ih =>
    obtain ⟨n, a⟩ := entry
    have later : (t.insertAll ((n, a) :: entries)).find? name = ((t.insert n a).insertAll entries).find? name :=
      rfl
    rw [later, ih, List.reverse_cons, List.lookup_append]
    by_cases same : name = n
    · subst same
      simp
    · have other : (name == n) = false := by simp [same]
      rw [Table.find?_insert_of_ne _ _ same]
      simp [List.lookup_cons, other]

-- What an action assigns to.
def Action.target? : Action → Option String
  | .assign name _ _ | .step name _ => some name
  | _ => none

theorem Action.scopes_perform (p : Pace) (w : World) (a : Action) :
    (a.perform p w).1.scopes = w.scopes ∨
      ∃ name v, a.target? = some name ∧ (a.perform p w).1.scopes = w.scopes.assign name v := by
  cases a with
  | assign name op value => exact .inr ⟨name, _, rfl, rfl⟩
  | step name delta => exact .inr ⟨name, _, rfl, rfl⟩
  | print arg newline => left; cases arg <;> cases newline <;> rfl
  | pinMode pin mode =>
    left
    simp only [perform]
    split
    · split <;> rfl
    · rfl
  | digitalWrite pin value => left; simp only [perform]; split <;> rfl
  | analogWrite pin duty => left; simp only [perform]; split <;> rfl
  | _ => exact .inl rfl

-- An assignment changes at most the innermost table, and there only a name that it has.
theorem Scopes.calls_assign (s : Scopes) (name : String) (v : Value) :
    (s.assign name v).calls = s.calls ∨
      ∃ locals outer, s.calls = locals :: outer ∧ (s.assign name v).calls = locals.insert name v :: outer := by
  unfold assign
  split
  · rename_i locals outer calls
    split
    · exact .inr ⟨locals, outer, calls, rfl⟩
    · exact .inl rfl
  · exact .inl rfl

-- Seen from a table further out: an assignment is made inside, or to that table if nothing is inside.
theorem Scopes.calls_assign_inside {s : Scopes} {own : Table Value} {inner outer : List (Table Value)}
    (calls : s.calls = inner ++ own :: outer) (name : String) (v : Value) :
    (∃ inner', (s.assign name v).calls = inner' ++ own :: outer ∧ inner'.length = inner.length) ∨
      inner = [] ∧ (s.assign name v).calls = own.insert name v :: outer := by
  obtain unchanged | ⟨locals, rest, before, after⟩ := calls_assign s name v
  · exact .inl ⟨inner, unchanged.trans calls, rfl⟩
  · rw [calls] at before
    cases inner with
    | nil =>
      obtain ⟨rfl, rfl⟩ := List.cons.inj before
      exact .inr ⟨rfl, after⟩
    | cons table inner =>
      obtain ⟨rfl, rfl⟩ := List.cons.inj before
      exact .inl ⟨table.insert name v :: inner, after, rfl⟩

theorem Scopes.calls_enter (s : Scopes) (bindings : List (String × Value)) :
    ∃ locals, (s.enter bindings).calls = locals :: s.calls ∧
      ∀ name, locals.find? name = (bindings.reverse.lookup name).or (s.locals?.bind (·.find? name)) := by
  refine ⟨_, rfl, fun name => ?_⟩
  rw [Table.find?_insertAll]
  cases s.locals? <;> rfl

theorem Frame.calls_append (a b : List Frame) : Frame.calls (a ++ b) = Frame.calls a + Frame.calls b := by
  induction a with
  | nil => simp [Frame.calls]
  | cons f a ih => cases f <;> simp [Frame.calls, ih]; omega

-- What a step takes away, if it is no frame of a call, stands above that of a call under way.
theorem Frame.exists_kept {gone rest top below : List Frame} (frames : gone ++ rest = top ++ .call :: below)
    (plain : Frame.calls gone = 0) (few : gone.length ≤ 1) :
    ∃ kept, rest = kept ++ .call :: below ∧ Frame.calls kept = Frame.calls top := by
  match gone, few with
  | [], _ => exact ⟨top, frames, rfl⟩
  | [f], _ =>
    cases top with
    | nil =>
      obtain ⟨rfl, -⟩ := List.cons.inj frames
      simp [Frame.calls] at plain
    | cons f' top =>
      obtain ⟨rfl, behind⟩ := List.cons.inj frames
      have sum := Frame.calls_append [f] top
      rw [plain, Nat.zero_add] at sum
      exact ⟨top, behind, sum.symm⟩

namespace Thread

/-- Whether the next step assigns to a name. -/
def Assigns (name : String) (t : Thread) : Prop :=
  ∃ loc a, t.upcoming = some (.act loc a) ∧ a.target? = some name

/-- What a step of a run that stays in its call, or enters one, does to the tables. `news` are the
frames that it puts on the stack. -/
inductive Stays (t u : Thread) (news : List Frame) : Prop where
  | keeps (plain : Frame.calls news = 0) (same : u.world.scopes = t.world.scopes)
  | assigns (plain : Frame.calls news = 0) {name : String} {v : Value} (assigning : t.Assigns name)
      (written : u.world.scopes = t.world.scopes.assign name v)
  | enters (opens : Frame.calls news = 1) {bindings : List (String × Value)}
      (opened : u.world.scopes = t.world.scopes.enter bindings)

theorem Stays.onto {t u : Thread} {news : List Frame} (stays : Stays t u news) {f : Frame}
    (plain : Frame.calls [f] = 0) : Stays t u (news ++ [f]) := by
  have count : Frame.calls (news ++ [f]) = Frame.calls news := by rw [Frame.calls_append, plain]; rfl
  cases stays with
  | keeps quiet same => exact .keeps (count.trans quiet) same
  | assigns quiet assigning written => exact .assigns (count.trans quiet) assigning written
  | enters opens opened => exact .enters (count.trans opens) opened

theorem choose_keeps (s : Setting) : (chain : Chain) → (t : Thread) →
    ∃ news, (t.choose s chain).frames = news ++ t.frames ∧ Frame.calls news = 0 ∧
      (t.choose s chain).world.scopes = t.world.scopes
  | .done, _ => ⟨[], rfl, rfl, rfl⟩
  | .otherwise body, _ => ⟨[.sequence body], rfl, rfl, rfl⟩
  | .branch cond body rest, t => by
    simp only [choose]
    split
    · exact ⟨[.sequence body], rfl, rfl, rfl⟩
    · exact choose_keeps s rest { t with world := (t.world.holds s.pace.time cond).2 }

-- Starting the upcoming statement only puts frames on top.
theorem stays_execute {s : Setting} (t₀ : Thread) : (st : Stmt) → {t u : Thread} →
    t₀.upcoming = some st.first → t.world = t₀.world → (t.execute s st).thread? = some u →
    ∃ news, u.frames = news ++ t.frames ∧ Stays t₀ u news
  | .act loc action, t, u, up, same, h => by
    have made : u.frames = t.frames ∧ u.world = (action.perform s.pace t.world).1 := by
      simp only [execute] at h
      split at h <;> cases h <;> exact ⟨rfl, rfl⟩
    refine ⟨[], made.1, ?_⟩
    obtain kept | ⟨name, v, target, written⟩ := Action.scopes_perform s.pace t.world action
    · exact .keeps rfl (by rw [made.2, kept, same])
    · exact .assigns rfl ⟨loc, action, up, target⟩ (by rw [made.2, written, same])
  | .call loc name args, t, u, up, same, h => by
    simp only [execute] at h
    split at h
    · cases h
      exact ⟨[], rfl, .keeps rfl (by rw [same])⟩
    · split at h
      · cases h
        exact ⟨[], rfl, .keeps rfl (by rw [same])⟩
      · rename_i f _ _
        cases h
        rw [Thread.enter_eq]
        exact ⟨[.sequence f.body, .call], rfl, .enters rfl (by rw [← same]; rfl)⟩
  | .choose loc chain, t, u, up, same, h => by
    cases h
    obtain ⟨news, frames, plain, kept⟩ := choose_keeps s chain t
    exact ⟨news, frames, .keeps plain (by rw [kept, same])⟩
  | .forLoop loc none cond step body, t, u, up, same, h => by
    cases h
    exact ⟨[.forTest cond step body], rfl, .keeps rfl (by rw [← same]; rfl)⟩
  | .forLoop loc (some init) cond step body, t, u, up, same, h => by
    -- The frame of the loop is there before its first clause starts.
    obtain ⟨news, frames, stays⟩ := stays_execute t₀ init (t := t.push (.forTest cond step body)) up same h
    exact ⟨news ++ [.forTest cond step body], by simp [frames, push], stays.onto rfl⟩
  | .whileLoop loc cond body, t, u, up, same, h => by
    cases h
    exact ⟨[.whileTest cond body 0], rfl, .keeps rfl (by rw [← same]; rfl)⟩

/-- What a step does to the stack: it returns from a call, or it puts frames in the place of at most
one that is none of a call. -/
inductive Turn (t u : Thread) : Prop where
  | stays (gone news rest : List Frame) (frames : t.frames = gone ++ rest) (plain : Frame.calls gone = 0)
      (few : gone.length ≤ 1) (frames' : u.frames = news ++ rest) (stays : Stays t u news)
  | returns (frames : t.frames = .call :: u.frames) (closed : u.world.scopes = t.world.scopes.exit)

theorem turn_step {s : Setting} {t u : Thread} (h : (t.step s).thread? = some u) : Turn t u := by
  -- A step takes its frame away and, if it is not done with it, puts one of the same kind back.
  have one {f : Frame} {fs : List Frame} (news : List Frame) (frames : t.frames = f :: fs)
      (plain : Frame.calls [f] = 0) (frames' : u.frames = news ++ fs) (stays : Stays t u news) : Turn t u :=
    .stays [f] news fs frames plain (Nat.le_refl 1) frames' stays
  obtain ⟨frames, phase, location, world⟩ := t
  match frames with
  | [] =>
    refine .stays [] [.sequence s.program.loop] [] rfl rfl (by simp) ?_ ?_
    · cases phase <;> cases h <;> rfl
    · cases phase <;> cases h <;> exact .keeps rfl rfl
  | .sequence [] :: fs =>
    cases h
    exact one [] rfl rfl rfl (.keeps rfl rfl)
  | .sequence (st :: rest) :: fs =>
    obtain ⟨news, frames, stays⟩ := stays_execute ⟨.sequence (st :: rest) :: fs, phase, location, world⟩ st
      (t := ⟨.sequence rest :: fs, phase, st.location, world⟩) rfl rfl h
    exact one (news ++ [.sequence rest]) rfl rfl (by simp [frames]) (stays.onto rfl)
  | .forTest cond step body :: fs =>
    simp only [Thread.step] at h
    split at h <;> cases h
    · exact one [.sequence body, .forStep cond step body] rfl rfl rfl (.keeps rfl rfl)
    · exact one [] rfl rfl rfl (.keeps rfl rfl)
  | .forStep cond none body :: fs =>
    cases h
    exact one [.forTest cond none body] rfl rfl rfl (.keeps rfl rfl)
  | .forStep cond (some st) body :: fs =>
    simp only [Thread.step, thread?_yieldBody] at h
    obtain ⟨news, frames, stays⟩ := stays_execute
      ⟨.forStep cond (some st) body :: fs, phase, location, world⟩ st
      (t := ⟨.forTest cond (some st) body :: fs, phase, location, world⟩) rfl rfl h
    exact one (news ++ [.forTest cond (some st) body]) rfl rfl (by simp [frames]) (stays.onto rfl)
  | .whileTest cond body rounds :: fs =>
    simp only [Thread.step] at h
    split at h
    · have goesOn : u = ⟨.sequence body :: .whileTest cond body (rounds + 1) :: fs, phase, location,
          (world.holds s.pace.time cond).2⟩ := by
        split at h <;> cases h <;> rfl
      subst goesOn
      exact one [.sequence body, .whileTest cond body (rounds + 1)] rfl rfl rfl (.keeps rfl rfl)
    · cases h
      exact one [] rfl rfl rfl (.keeps rfl rfl)
  | .call :: fs =>
    cases h
    exact .returns rfl rfl

/-- A call under way: its frame stands on those `below`, and its table on those of the calls around it. -/
structure InCall (below : List Frame) (own : Table Value) (outer : List (Table Value)) (t : Thread) :
    Prop where
  under : ∃ top inner, t.frames = top ++ .call :: below ∧ t.world.scopes.calls = inner ++ own :: outer ∧
    inner.length = Frame.calls top

variable {below : List Frame} {own : Table Value} {outer : List (Table Value)} {t u : Thread}

theorem InCall.returned (inCall : t.InCall below own outer) (frames' : t.frames = .call :: u.frames)
    (closed : u.world.scopes = t.world.scopes.exit) :
    u.InCall below own outer ∨ t.frames = .call :: below ∧ u.frames = below ∧ u.world.scopes.calls = outer := by
  obtain ⟨top, inner, frames, calls, count⟩ := inCall.under
  rw [frames'] at frames
  have left : u.world.scopes.calls = (inner ++ own :: outer).tail := by rw [closed, ← calls]; rfl
  cases top with
  | nil =>
    obtain rfl : inner = [] := List.eq_nil_of_length_eq_zero count
    obtain ⟨-, rfl⟩ := List.cons.inj frames
    exact .inr ⟨frames', rfl, left⟩
  | cons f top =>
    simp only [List.cons_append, List.cons.injEq] at frames
    obtain ⟨rfl, frames⟩ := frames
    cases inner with
    | nil => simp [Frame.calls] at count
    | cons table inner => exact .inl ⟨top, inner, frames, left, by simpa [Frame.calls] using count⟩

/-- A step in a call keeps it under way, with its own table changed at most by an assignment of its
own, or it returns from it. -/
theorem InCall.turn (inCall : t.InCall below own outer) (turn : Turn t u) :
    u.InCall below own outer ∨
    (∃ name v, t.depth = outer.length + 1 ∧ t.Assigns name ∧ u.InCall below (own.insert name v) outer) ∨
    (t.frames = .call :: below ∧ u.frames = below ∧ u.world.scopes.calls = outer) := by
  cases turn with
  | returns frames' closed => exact (inCall.returned frames' closed).imp_right .inr
  | @stays gone news rest frames' plain few made stays =>
    obtain ⟨top, inner, frames, calls, count⟩ := inCall.under
    obtain ⟨kept, rfl, same⟩ := Frame.exists_kept (frames'.symm.trans frames) plain few
    have stack : u.frames = (news ++ kept) ++ .call :: below := by simp [made]
    have total : Frame.calls (news ++ kept) = Frame.calls news + inner.length := by
      rw [Frame.calls_append, same, count]
    cases stays with
    | keeps quiet kept =>
      exact .inl ⟨_, inner, stack, by rw [kept, calls], by omega⟩
    | @enters opens bindings opened =>
      obtain ⟨table, nested, -⟩ := Scopes.calls_enter t.world.scopes bindings
      refine .inl ⟨_, table :: inner, stack, ?_, by rw [List.length_cons]; omega⟩
      rw [opened, nested, calls, List.cons_append]
    | @assigns quiet name v assigning written =>
      obtain ⟨inner', after, long⟩ | ⟨rfl, after⟩ := Scopes.calls_assign_inside calls name v
      · exact .inl ⟨_, inner', stack, by rw [written, after], by omega⟩
      · refine .inr (.inl ⟨name, v, ?_, assigning, ⟨_, [], stack, by rw [written, after]; rfl, by omega⟩⟩)
        rw [Thread.depth, Scopes.depth, calls]
        rfl

section Entering

variable {s : Setting} {f : Function} {loc : Location} {name : String} {args : List Expr}

theorem execute_call (known : s.program.functions.find? name = some f) : (st : Stmt) → {t : Thread} →
    st.first = .call loc name args → t.depth < s.limit →
    ∃ u below, t.execute s st = .next u ∧ u.frames = .sequence f.body :: .call :: below ∧
      u.world = t.world.enterCall s.pace.time f args
  | .call _ _ _, t, first, room => by
    cases first
    have goesOn : t.execute s (.call loc name args) = .next (t.enter s f args) := by
      simp only [execute, known]
      rw [if_neg (by omega)]
    rw [Thread.enter_eq] at goesOn
    exact ⟨_, t.frames, goesOn, rfl, rfl⟩
  | .forLoop _ (some init) cond step body, t, first, room =>
    execute_call known init (t := t.push (.forTest cond step body)) first room
  | .act _ _, _, first, _ | .choose _ _, _, first, _ | .forLoop _ none _ _ _, _, first, _
  | .whileLoop _ _ _, _, first, _ => by cases first

theorem step_call (calling : t.upcoming = some (.call loc name args))
    (known : s.program.functions.find? name = some f) (room : t.depth < s.limit) :
    ∃ u below, (t.step s = .next u ∨ ∃ span, t.step s = .pause span u) ∧
      u.frames = .sequence f.body :: .call :: below ∧ u.world = t.world.enterCall s.pace.time f args := by
  obtain ⟨st, v, up, same, step⟩ | ⟨up, -⟩ := step_starts_or_goes_on s t
  · have first : st.first = .call loc name args := Option.some.inj (up.symm.trans calling)
    have space : v.depth < s.limit := by rwa [Thread.depth, same]
    obtain ⟨u, below, executed, frames, world⟩ := execute_call known st first space
    rw [same] at world
    obtain step | step := step
    · exact ⟨u, below, .inl (step.trans executed), frames, world⟩
    · rw [executed] at step
      exact ⟨u, below, .inr ⟨_, step⟩, frames, world⟩
  · rw [up] at calling
    cases calling

end Entering

end Thread

namespace Engine

/-- What one thing that happens does to a call under way: the call stays as it is, or it assigns to a
name in its own table, or it ends. -/
inductive CallTurn (h : Happening) (e e' : Engine) (below : List Frame) (own : Table Value)
    (outer : List (Table Value)) : Prop where
  | stays (running : e'.status = .running) (inCall : e'.thread.InCall below own outer)
  | assigns (step : h = .step) (due : e.isDue = true) (innermost : e.thread.depth = outer.length + 1)
      {name : String} {v : Value} (assigning : e.thread.Assigns name) (running : e'.status = .running)
      (inCall : e'.thread.InCall below (own.insert name v) outer)
  | returns (step : h = .step) (last : e.thread.frames = .call :: below) (running : e'.status = .running)
      (frames : e'.thread.frames = below) (tables : e'.world.scopes.calls = outer)
  | fails (step : h = .step) (failed : e'.status = .error)

theorem callTurn {h : Happening} {e e' : Engine} {below : List Frame} {own : Table Value}
    {outer : List (Table Value)} (aside : h.isAside = true) (running : e.status = .running)
    (inCall : e.thread.InCall below own outer) (done : h.apply e = some e') :
    CallTurn h e e' below own outer := by
  cases h with
  | host op =>
    have same := sameRun_of_isAside aside running done
    obtain ⟨top, inner, frames, calls, count⟩ := inCall.under
    exact .stays same.running ⟨top, inner, by rw [same.frames, frames],
      (congrArg Scopes.calls same.scopes).trans calls, count⟩
  | step =>
    by_cases due : e.isDue = true
    · obtain ⟨step, running'⟩ | ⟨-, failed⟩ := stepOnce_cases due done
      · obtain kept | ⟨name, v, innermost, assigning, own'⟩ | ⟨last, frames, tables⟩ :=
          inCall.turn (Thread.turn_step step)
        · exact .stays running' kept
        · exact .assigns rfl due innermost assigning running' own'
        · exact .returns rfl last running' frames tables
      · exact .fails rfl failed
    · have idle : e.stepOnce = some e := by rw [stepOnce, if_neg due]
      cases idle.symm.trans done
      exact .stays running inCall

/-- Whether among all that happens to an engine there is a step, taken while `depth` calls are under way,
that assigns to a name. -/
def AssignsWithin (e : Engine) (depth : Nat) (name : String) (hs : List Happening) : Prop :=
  ∃ before m, before ++ [.step] <+: hs ∧ e.undergo before = some m ∧ m.isDue = true ∧
    m.thread.depth = depth ∧ m.thread.Assigns name

/-- A call that was entered with some scopes and bindings is still under way after all of `hs`. The
tables of the calls around it are those at its entry, and a name that it has not assigned reads as its
parameter, else as its caller's local at its entry, else as the global. -/
structure CallUnderWay (called : Engine) (below : List Frame) (entry : Scopes)
    (bindings : List (String × Value)) (hs : List Happening) (m : Engine) : Prop where
  reached : called.undergo hs = some m
  running : m.status = .running
  table : ∃ own, m.thread.InCall below own entry.calls ∧
    ∀ name, ¬called.AssignsWithin (entry.depth + 1) name hs →
      own.find? name = (bindings.reverse.lookup name).or (entry.locals?.bind (·.find? name))
  reads : m.thread.depth = entry.depth + 1 →
    ∀ name, ¬called.AssignsWithin (entry.depth + 1) name hs →
      m.lookup name = ((bindings.reverse.lookup name).or (entry.locals?.bind (·.find? name))).or
        (m.world.scopes.globals.find? name)

section Entered

variable {called m : Engine} {below : List Frame} {entry : Scopes} {bindings : List (String × Value)}
  {hs : List Happening}

theorem CallUnderWay.of_table (reached : called.undergo hs = some m) (running : m.status = .running)
    {own : Table Value} (inCall : m.thread.InCall below own entry.calls)
    (unassigned : ∀ name, ¬called.AssignsWithin (entry.depth + 1) name hs →
      own.find? name = (bindings.reverse.lookup name).or (entry.locals?.bind (·.find? name))) :
    CallUnderWay called below entry bindings hs m where
  reached := reached
  running := running
  table := ⟨own, inCall, unassigned⟩
  reads := by
    intro innermost name kept
    obtain ⟨top, inner, -, calls, -⟩ := inCall.under
    -- With no other call inside, its own table is the one that is read.
    have none : inner = [] := by
      have count : (inner ++ own :: entry.calls).length = entry.calls.length + 1 := calls ▸ innermost
      rw [List.length_append, List.length_cons] at count
      exact List.eq_nil_of_length_eq_zero (by omega)
    subst none
    have locals : m.world.scopes.locals? = some own := by
      rw [Scopes.locals?, Engine.world, calls]
      rfl
    rw [Engine.lookup, Scopes.lookup, locals, Option.bind_some, unassigned name kept]

/-- Whether a call is under way after everything that happens in turn. -/
def CallStays (called : Engine) (below : List Frame) (entry : Scopes) (bindings : List (String × Value))
    (hs : List Happening) : Prop :=
  ∀ earlier, earlier <+: hs → ∃ m, CallUnderWay called below entry bindings earlier m

theorem AssignsWithin.mono {e : Engine} {depth : Nat} {name : String} {more : List Happening}
    (assigned : e.AssignsWithin depth name hs) (later : hs <+: more) : e.AssignsWithin depth name more := by
  obtain ⟨before, m, inside, rest⟩ := assigned
  exact ⟨before, m, inside.trans later, rest⟩

/-- What has become of a call after all of `hs`: it is still under way, or it has returned with the
tables as they were at its entry, or the run has failed in it. -/
inductive CallFate (called : Engine) (below : List Frame) (entry : Scopes)
    (bindings : List (String × Value)) (hs : List Happening) : Prop where
  | underWay (stays : CallStays called below entry bindings hs)
  | returned (before later : List Happening) (split : hs = before ++ .step :: later)
      (stays : CallStays called below entry bindings before) {last back : Engine}
      (reached : called.undergo before = some last) (frames : last.thread.frames = .call :: below)
      (step : last.stepOnce = some back) (frames' : back.thread.frames = below)
      (tables : back.world.scopes.calls = entry.calls)
  | failed (before later : List Happening) (split : hs = before ++ .step :: later)
      (stays : CallStays called below entry bindings before) {last failed : Engine}
      (reached : called.undergo before = some last) (step : last.stepOnce = some failed)
      (status : failed.status = .error)

theorem CallStays.concat {h : Happening} (stays : CallStays called below entry bindings hs)
    (way : CallUnderWay called below entry bindings (hs ++ [h]) m) :
    CallStays called below entry bindings (hs ++ [h]) := by
  intro earlier inside
  obtain rfl | inside := List.prefix_concat_iff.1 inside
  · exact ⟨m, way⟩
  · exact stays earlier inside

-- One more thing that happens while the call is under way.
theorem CallStays.fate {h : Happening} {last : Engine} (stays : CallStays called below entry bindings hs)
    (reached : called.undergo hs = some last) (aside : h.isAside = true) (done : h.apply last = some m) :
    CallFate called below entry bindings (hs ++ [h]) := by
  obtain ⟨_, way⟩ := stays hs List.prefix_rfl
  cases way.reached.symm.trans reached
  obtain ⟨own, inCall, unassigned⟩ := way.table
  have reached' : called.undergo (hs ++ [h]) = some m := by
    rw [undergo_append, reached, Option.bind_some, undergo_singleton, done]
  have still (name : String) (kept : ¬called.AssignsWithin (entry.depth + 1) name (hs ++ [h])) :
      own.find? name = (bindings.reverse.lookup name).or (entry.locals?.bind (·.find? name)) :=
    unassigned name fun assigned => kept (assigned.mono (List.prefix_append hs [h]))
  cases callTurn aside way.running inCall done with
  | stays running inCall' => exact .underWay (stays.concat (.of_table reached' running inCall' still))
  | @assigns step due innermost name v assigning running inCall' =>
    subst step
    refine .underWay (stays.concat (.of_table reached' running inCall' fun other kept => ?_))
    have differs : other ≠ name := by
      rintro rfl
      exact kept ⟨hs, last, List.prefix_rfl, reached, due, innermost, assigning⟩
    rw [Table.find?_insert_of_ne _ _ differs]
    exact still other kept
  | returns step frames running frames' tables =>
    subst step
    exact .returned hs [] rfl stays reached frames done frames' tables
  | fails step status =>
    subst step
    exact .failed hs [] rfl stays reached done status

theorem CallFate.of_underWay (start : CallUnderWay called below entry bindings [] called)
    (aside : hs.all Happening.isAside = true) (done : called.undergo hs = some m) :
    CallFate called below entry bindings hs := by
  induction hs using List.reverseRecOn generalizing m with
  | nil =>
    refine .underWay fun earlier inside => ?_
    rw [List.prefix_nil.1 inside]
    exact ⟨called, start⟩
  | append_singleton hs h ih =>
    obtain ⟨asides, asideLast⟩ : hs.all Happening.isAside = true ∧ h.isAside = true := by
      simpa using aside
    rw [undergo_append] at done
    obtain ⟨last, reached, rest⟩ := Option.bind_eq_some_iff.1 done
    rw [undergo_singleton] at rest
    cases ih asides reached with
    | returned before later split stays reached frames step frames' tables =>
      exact .returned before (later ++ [h]) (by simp [split]) stays reached frames step frames' tables
    | failed before later split stays reached step status =>
      exact .failed before (later ++ [h]) (by simp [split]) stays reached step status
    | underWay stays => exact stays.fate reached asideLast rest

end Entered

/-- From its entry to its return a call changes no table but its own, whatever its body and the host do:
the tables of the calls around it are what they were when it returns, and until it assigns to a name, the
name reads as its parameter, else as its caller's local at its entry, else as the global. All that a host
can do but for ending the run is made of the things considered. -/
theorem call_keeps_callers (e called : Engine) (loc : Location) (name : String) (args : List Expr)
    (f : Function) (due : e.isDue = true) (calling : e.thread.upcoming = some (.call loc name args))
    (known : e.program.functions.find? name = some f) (room : e.thread.depth < e.config.maxCallDepth)
    (entered : e.stepOnce = some called) :
    (∃ below, called.thread.frames = .sequence f.body :: .call :: below ∧
      ∀ hs m, hs.all Happening.isAside = true → called.undergo hs = some m →
        CallFate called below e.world.scopes (bindArgs f.params (e.world.evalAll e.reading args).1) hs) ∧
    ∀ (op : HostOperation) (e e' : Engine), op ≠ .stop → op ≠ .reset → op.apply e = some e' →
      ∃ hs, hs.all Happening.isAside = true ∧ e.undergo hs = some e' := by
  refine ⟨?_, fun op e e' lasting kept done => comes_operation lasting kept done⟩
  obtain ⟨u, below, step, frames, world⟩ := Thread.step_call (s := e.setting) calling known room
  obtain ⟨thread, running⟩ | ⟨⟨fault, t, fails⟩, -⟩ := stepOnce_cases due entered
  · obtain rfl : u = called.thread := by
      obtain step | ⟨span, step⟩ := step <;> rw [step] at thread <;> exact Option.some.inj thread
    -- The arguments are evaluated in the scopes of the caller, and that does not change them.
    obtain ⟨own, calls, reads⟩ := Scopes.calls_enter e.world.scopes
      (bindArgs f.params (e.world.evalAll e.reading args).1)
    have start : CallUnderWay called below e.world.scopes
        (bindArgs f.params (e.world.evalAll e.reading args).1) [] called := by
      refine .of_table rfl running ⟨[.sequence f.body], [], frames, ?_, rfl⟩ fun name _ => reads name
      rw [world]
      exact calls
    exact ⟨below, frames, fun hs m aside done => .of_underWay start aside done⟩
  · obtain step | ⟨span, step⟩ := step <;> cases step.symm.trans fails

-- The inner call writes to a name of its caller, waits, and writes to its parameter.
def lending : String :=
  "String g = \"all\";\nvoid inner(String y) \x7b x = y; delay(5); y = g; \x7d\n" ++
    "void outer(String x) \x7b inner(g); Serial.println(x); \x7d\n" ++
    "void setup() \x7b outer(\"given\"); \x7d"

def lent : List Happening :=
  [.step, .step, .host (.evaluate "x"), .host (.advance 5000000), .step, .step, .step]

-- The function that a statement calls.
def callee? : Stmt → Option String
  | .call _ name _ => some name
  | _ => none

theorem call_keeps_callers_lending :
    ∃ e called back loc args f below,
      (ofConfig .standard).undergo [.host (.start lending), .step] = some e ∧
      e.isDue = true ∧ e.thread.upcoming = some (.call loc "inner" args) ∧
      e.program.functions.find? "inner" = some f ∧ e.thread.depth < e.config.maxCallDepth ∧
      e.stepOnce = some called ∧ called.undergo lent = some back ∧
      CallFate called below e.world.scopes (bindArgs f.params (e.world.evalAll e.reading args).1) lent ∧
      [e, called, back].map (fun e => (e.lookup "x", e.lookup "y")) =
        [(some (.text "given"), none), (some (.text "given"), some (.text "all")),
          (some (.text "given"), none)] ∧
      back.world.scopes.calls = e.world.scopes.calls := by
  have computed : ((ofConfig .standard).undergo [.host (.start lending), .step]).bind (fun e =>
      e.stepOnce.bind fun called => (called.undergo lent).map fun back =>
        decide (e.isDue = true ∧ e.thread.upcoming.bind callee? = some "inner" ∧
          (e.program.functions.find? "inner").isSome = true ∧ e.thread.depth < e.config.maxCallDepth ∧
          [e, called, back].map (fun e => (e.lookup "x", e.lookup "y")) =
            [(some (.text "given"), none), (some (.text "given"), some (.text "all")),
              (some (.text "given"), none)] ∧
          back.world.scopes.calls = e.world.scopes.calls)) = some true := by
    decide +kernel
  obtain ⟨e, begun, computed⟩ := Option.bind_eq_some_iff.1 computed
  obtain ⟨called, entered, computed⟩ := Option.bind_eq_some_iff.1 computed
  obtain ⟨back, done, computed⟩ := Option.map_eq_some_iff.1 computed
  obtain ⟨due, calls, known, room, looked, same⟩ := of_decide_eq_true computed
  obtain ⟨st, upcoming, callee⟩ := Option.bind_eq_some_iff.1 calls
  obtain ⟨loc, args, rfl⟩ : ∃ loc args, st = .call loc "inner" args := by
    cases st <;> cases callee
    exact ⟨_, _, rfl⟩
  obtain ⟨f, known⟩ := Option.isSome_iff_exists.1 known
  obtain ⟨⟨below, -, fate⟩, -⟩ :=
    call_keeps_callers e called loc "inner" args f due upcoming known room entered
  exact ⟨e, called, back, loc, args, f, below, begun, due, upcoming, known, room, entered, done,
    fate lent back rfl done, looked, same⟩

end Engine

end Breadboard
