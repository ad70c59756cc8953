import Breadboard.Engine.Thread

set_option autoImplicit false

/-!
The meaning of statements without frames and pauses: what is to be done, and from where to where it
leads when all of it is done. A call that would be nested too deeply and a delay that is too long to
be held lead nowhere.
-/
namespace Breadboard

/-- What the statements of a sketch can see and change, and where the last one of them stands. -/
structure Scene where
  world : World
  location : Location

def Thread.scene (t : Thread) : Scene := ⟨t.world, t.location⟩

-- Something that is to be done as a whole.
inductive Task where
  | block (body : List Stmt)
  | stmt (st : Stmt)
  | clause (st : Option Stmt)
  | chain (chain : Chain)
  /-- The rounds of a loop, with what is done after the body of each. -/
  | rounds (cond : Cond) (step : Option Stmt) (body : List Stmt)

-- Parameters with their arguments: missing ones are zero, and those that are too many are dropped.
def bindArgs : List String → List Value → List (String × Value)
  | [], _ => []
  | name :: names, [] => (name, .zero) :: bindArgs names []
  | name :: names, v :: vs => (name, v) :: bindArgs names vs

-- The world in which the body of a function starts.
def World.enterCall (w : World) (time : Time.Reading) (f : Function) (args : List Expr) : World :=
  let (vs, w) := w.evalAll time args
  { w with scopes := w.scopes.enter (bindArgs f.params vs) }

def World.leaveCall (w : World) : World := { w with scopes := w.scopes.exit }

/-- `Does s task x y`: doing all of `task` leads from `x` to `y`. -/
inductive Does (s : Setting) : Task → Scene → Scene → Prop where
  | nil {x : Scene} : Does s (.block []) x x
  | cons {st : Stmt} {rest : List Stmt} {x y z : Scene}
      (first : Does s (.stmt st) { x with location := st.location } y)
      (others : Does s (.block rest) y z) : Does s (.block (st :: rest)) x z
  | act {loc : Location} {a : Action} {x : Scene} (held : (a.perform s.pace x.world).2 ≠ .overflow) :
      Does s (.stmt (.act loc a)) x { x with world := (a.perform s.pace x.world).1 }
  | unknown {loc : Location} {name : String} {args : List Expr} {x : Scene}
      (absent : s.program.functions.find? name = none) : Does s (.stmt (.call loc name args)) x x
  | call {loc : Location} {name : String} {args : List Expr} {f : Function} {x y : Scene}
      (known : s.program.functions.find? name = some f) (room : x.world.scopes.depth < s.limit)
      (body : Does s (.block f.body) { x with world := x.world.enterCall s.pace.time f args } y) :
      Does s (.stmt (.call loc name args)) x { y with world := y.world.leaveCall }
  | choose {loc : Location} {chain : Chain} {x y : Scene} (taken : Does s (.chain chain) x y) :
      Does s (.stmt (.choose loc chain)) x y
  | forLoop {loc : Location} {init : Option Stmt} {cond : Cond} {step : Option Stmt}
      {body : List Stmt} {x y z : Scene} (first : Does s (.clause init) x y)
      (others : Does s (.rounds cond step body) y z) :
      Does s (.stmt (.forLoop loc init cond step body)) x z
  | whileLoop {loc : Location} {cond : Cond} {body : List Stmt} {x y : Scene}
      (all : Does s (.rounds cond none body) x y) : Does s (.stmt (.whileLoop loc cond body)) x y
  | noClause {x : Scene} : Does s (.clause none) x x
  | someClause {st : Stmt} {x y : Scene} (once : Does s (.stmt st) x y) :
      Does s (.clause (some st)) x y
  | done {x : Scene} : Does s (.chain .done) x x
  | otherwise {body : List Stmt} {x y : Scene} (all : Does s (.block body) x y) :
      Does s (.chain (.otherwise body)) x y
  | taken {cond : Cond} {body : List Stmt} {rest : Chain} {x y : Scene} {w : World}
      (holds : x.world.holds s.pace.time cond = (true, w))
      (all : Does s (.block body) { x with world := w } y) :
      Does s (.chain (.branch cond body rest)) x y
  | passed {cond : Cond} {body : List Stmt} {rest : Chain} {x y : Scene} {w : World}
      (fails : x.world.holds s.pace.time cond = (false, w))
      (others : Does s (.chain rest) { x with world := w } y) :
      Does s (.chain (.branch cond body rest)) x y
  | noRound {cond : Cond} {step : Option Stmt} {body : List Stmt} {x : Scene} {w : World}
      (fails : x.world.holds s.pace.time cond = (false, w)) :
      Does s (.rounds cond step body) x { x with world := w }
  | round {cond : Cond} {step : Option Stmt} {body : List Stmt} {x y z end_ : Scene} {w : World}
      (holds : x.world.holds s.pace.time cond = (true, w))
      (all : Does s (.block body) { x with world := w } y) (after : Does s (.clause step) y z)
      (others : Does s (.rounds cond step body) z end_) : Does s (.rounds cond step body) x end_

theorem zipIdx_map_getD (vs : List Value) (names : List String) (i : Nat) :
    ((names.zipIdx i).map fun (name, j) => (name, vs.getD j .zero)) = bindArgs names (vs.drop i) := by
  induction names generalizing i with
  | nil => rfl
  | cons name names ih =>
    rw [List.zipIdx_cons, List.map_cons, ih]
    by_cases inside : i < vs.length
    · rw [List.drop_eq_getElem_cons inside]
      simp [bindArgs, List.getD, inside]
    · have none : vs.drop i = [] := List.drop_eq_nil_of_le (by omega)
      have later : vs.drop (i + 1) = [] := List.drop_eq_nil_of_le (by omega)
      have absent : vs[i]? = Option.none := List.getElem?_eq_none (by omega)
      simp [bindArgs, List.getD, none, later, absent]

-- The machine enters a call with the same world.
theorem Thread.enter_eq (s : Setting) (f : Function) (args : List Expr) (t : Thread) :
    t.enter s f args =
      { t with
        frames := .sequence f.body :: .call :: t.frames
        world := t.world.enterCall s.pace.time f args } := by
  have bound := zipIdx_map_getD (t.world.evalAll s.pace.time args).1 f.params 0
  rw [List.drop_zero] at bound
  simp only [enter, World.enterCall, bound]

end Breadboard
