import Breadboard.Command.Options
import Mathlib.Logic.ExistsUnique

set_option autoImplicit false

/-!
The arguments of the command line as groups. Main statement: arguments are accepted if and only if they
are groups with one sketch among them, each option has the value that was given last, and the order of
groups of different kinds makes no difference.
-/
namespace Breadboard.Command

/-- What stands together on the command line. What follows an option is its value, whatever it looks
like; an argument that stands alone is the sketch. -/
inductive Group where
  | speed (value : String) (x : Float) (reads : Decimal.read? value.toList = some x)
      (usable : x.isFinite = true ∧ 0.0 < x)
  | circuit (file : String)
  | sketch (path : String) (plain : Draft.isFlag path = false)

inductive Group.Kind where
  | speed
  | circuit
  | sketch
  deriving DecidableEq

namespace Group

def kind : Group → Kind
  | speed .. => .speed
  | circuit _ => .circuit
  | sketch .. => .sketch

/-- The arguments that a group is written with. -/
def args : Group → List String
  | speed value .. => ["--speed", value]
  | circuit file => ["--circuit", file]
  | sketch path _ => [path]

def speed? : Group → Option Float
  | speed _ x .. => some x
  | _ => none

def circuit? : Group → Option String
  | circuit file => some file
  | _ => none

def sketch? : Group → Option String
  | sketch path _ => some path
  | _ => none

end Group

section Reading

variable {d : Draft} {arg : String} {rest : List String}

theorem speed?_eq_some_iff {value : String} {x : Float} :
    speed? value = some x ↔ Decimal.read? value.toList = some x ∧ x.isFinite = true ∧ 0.0 < x := by
  simp [speed?, Option.filter_eq_some_iff]

theorem ne_of_plain (plain : Draft.isFlag arg = false) : arg ≠ "--speed" ∧ arg ≠ "--circuit" := by
  constructor <;> (rintro rfl; revert plain; decide)

theorem read_nil (d : Draft) : d.read [] = .ok d := rfl

theorem read_value (value : String) : d.read ("--speed" :: value :: rest) = match speed? value with
    | some speed => { d with speed }.read rest
    | none => .error (.invalidSpeed value) := by
  rfl

theorem read_speed {value : String} {x : Float} (reads : speed? value = some x) :
    d.read ("--speed" :: value :: rest) = { d with speed := x }.read rest := by rw [read_value, reads]

theorem read_circuit (file : String) :
    d.read ("--circuit" :: file :: rest) = { d with circuit := some file }.read rest := rfl

theorem read_word (notSpeed : arg ≠ "--speed") (notCircuit : arg ≠ "--circuit") (rest : List String) :
    d.read (arg :: rest) = match d.addWord arg with
      | .ok d => d.read rest
      | .error e => .error e := by
  rw [Draft.read.eq_def]
  split
  case h_6 other tail _ _ _ _ same =>
    obtain ⟨rfl, rfl⟩ := List.cons.inj same
    rfl
  -- The other cases are those of options.
  all_goals simp_all

theorem read_plain (plain : Draft.isFlag arg = false) :
    d.read (arg :: rest) = match d.sketch with
      | none => { d with sketch := some arg }.read rest
      | some _ => .error (.unexpectedArgument arg) := by
  obtain ⟨notSpeed, notCircuit⟩ := ne_of_plain plain
  rw [read_word notSpeed notCircuit]
  cases known : d.sketch <;> simp [Draft.addWord, plain, known]

/-- Reading groups. The draft knows at most one sketch, so the second one is not expected. -/
theorem read_groups (d : Draft) (gs : List Group) :
    d.read (gs.flatMap Group.args) = match d.sketch.toList ++ gs.filterMap Group.sketch? with
      | _ :: second :: _ => .error (.unexpectedArgument second)
      | sketches => .ok ⟨sketches.head?, (gs.filterMap Group.speed?).getLast?.getD d.speed,
          (gs.filterMap Group.circuit?).getLast?.or d.circuit⟩ := by
  induction gs generalizing d with
  | nil =>
    obtain ⟨sketch, speed, circuit⟩ := d
    cases sketch <;> simp [read_nil]
  | cons g gs ih =>
    cases g with
    | speed value x reads usable =>
      have given := speed?_eq_some_iff.2 ⟨reads, usable⟩
      simp only [List.flatMap_cons, Group.args, List.cons_append, List.nil_append, read_speed given, ih,
        List.filterMap_cons, Group.sketch?, Group.speed?, Group.circuit?, List.getLast?_cons,
        Option.getD_some]
    | circuit file =>
      simp only [List.flatMap_cons, Group.args, List.cons_append, List.nil_append, read_circuit, ih,
        List.filterMap_cons, Group.sketch?, Group.speed?, Group.circuit?, List.getLast?_cons,
        Option.some_or]
      cases (gs.filterMap Group.circuit?).getLast? <;> rfl
    | sketch path plain =>
      simp only [List.flatMap_cons, Group.args, List.cons_append, List.nil_append, read_plain plain,
        List.filterMap_cons, Group.sketch?, Group.speed?, Group.circuit?]
      cases known : d.sketch with
      | none => simp only [ih, Option.toList_some, Option.toList_none, List.cons_append, List.nil_append]
      | some first => rfl

-- What is read without a fault is groups: each option had its value, and nothing else began with dashes.
-- By induction on the number of arguments, since an option takes two of them.
theorem exists_groups {d' : Draft} {args : List String} (accepted : d.read args = .ok d') :
    ∃ gs : List Group, gs.flatMap Group.args = args := by
  induction n : args.length using Nat.strongRecOn generalizing args d with
  | ind n ih =>
    subst n
    rcases args with _ | ⟨arg, rest⟩
    · exact ⟨[], rfl⟩
    by_cases speed : arg = "--speed"
    · subst speed
      rcases rest with _ | ⟨value, rest⟩
      · cases accepted
      rw [read_value] at accepted
      split at accepted
      · rename_i x reads
        obtain ⟨gs, rfl⟩ := ih _ (Nat.lt_succ_of_lt (Nat.lt_succ_self _)) accepted rfl
        obtain ⟨number, usable⟩ := speed?_eq_some_iff.1 reads
        exact ⟨.speed value x number usable :: gs, rfl⟩
      · cases accepted
    by_cases circuit : arg = "--circuit"
    · subst circuit
      rcases rest with _ | ⟨file, rest⟩
      · cases accepted
      rw [read_circuit] at accepted
      obtain ⟨gs, rfl⟩ := ih _ (Nat.lt_succ_of_lt (Nat.lt_succ_self _)) accepted rfl
      exact ⟨.circuit file :: gs, rfl⟩
    rw [read_word speed circuit] at accepted
    split at accepted
    · rename_i d'' added
      obtain ⟨gs, rfl⟩ := ih _ (Nat.lt_succ_self _) accepted rfl
      by_cases plain : Draft.isFlag arg = true
      · simp [Draft.addWord, plain] at added
      · exact ⟨.sketch arg (Bool.eq_false_iff.2 plain) :: gs, rfl⟩
    · cases accepted

end Reading

section Grouping

variable {gs gs' : List Group}

-- Where a group ends is told by its first argument.
theorem args_append_inj {g g' : Group} {rest rest' : List String} (same : g.args ++ rest = g'.args ++ rest') :
    g = g' ∧ rest = rest' := by
  obtain ⟨head, tail⟩ : (g.args ++ rest).head? = (g'.args ++ rest').head? ∧
      (g.args ++ rest).tail = (g'.args ++ rest').tail := by rw [same]; exact ⟨rfl, rfl⟩
  cases g <;> cases g' <;>
    simp only [Group.args, List.cons_append, List.nil_append, List.head?_cons, List.tail_cons,
      Option.some.injEq] at head tail
  case speed.speed value x reads _ value' x' reads' _ =>
    obtain ⟨rfl, rfl⟩ := List.cons.inj tail
    obtain rfl := Option.some.inj (reads.symm.trans reads')
    exact ⟨rfl, rfl⟩
  case circuit.circuit file file' =>
    obtain ⟨rfl, rfl⟩ := List.cons.inj tail
    exact ⟨rfl, rfl⟩
  case sketch.sketch path _ path' _ => exact ⟨by cases head; rfl, tail⟩
  case speed.circuit | circuit.speed => simp at head
  case speed.sketch plain => exact absurd head.symm (ne_of_plain plain).1
  case circuit.sketch plain => exact absurd head.symm (ne_of_plain plain).2
  case sketch.speed plain _ _ _ _ => exact absurd head (ne_of_plain plain).1
  case sketch.circuit plain _ => exact absurd head (ne_of_plain plain).2

/-- Arguments are groups in one way at most. -/
theorem eq_of_args (same : gs.flatMap Group.args = gs'.flatMap Group.args) : gs = gs' := by
  have some_ (g : Group) (gs : List Group) : (g :: gs).flatMap Group.args ≠ [] := by
    cases g <;> exact List.cons_ne_nil _ _
  induction gs generalizing gs' with
  | nil => cases gs' with
    | nil => rfl
    | cons g gs' => exact absurd same.symm (some_ g gs')
  | cons g gs ih => cases gs' with
    | nil => exact absurd same (some_ g gs)
    | cons g' gs' =>
      obtain ⟨rfl, later⟩ := args_append_inj same
      rw [ih later]

/-- Reading arguments that are groups. -/
theorem parse_groups (gs : List Group) :
    Options.parse (gs.flatMap Group.args) = match gs.filterMap Group.sketch? with
      | [] => .error .noSketch
      | [path] => .ok ⟨path, (gs.filterMap Group.speed?).getLast?.getD 1.0,
          (gs.filterMap Group.circuit?).getLast?⟩
      | _ :: second :: _ => .error (.unexpectedArgument second) := by
  rw [Options.parse, read_groups]
  simp only [Draft.empty, Option.toList_none, List.nil_append, Option.or_none]
  rcases gs.filterMap Group.sketch? with _ | ⟨path, _ | ⟨second, others⟩⟩ <;> rfl

-- A value is looked for in the groups of its own kind only.
theorem filterMap_kind {α : Type} (value? : Group → Option α) (kind : Group.Kind)
    (others : ∀ g, g.kind ≠ kind → value? g = none) (gs : List Group) :
    (gs.filter (·.kind = kind)).filterMap value? = gs.filterMap value? := by
  induction gs with
  | nil => rfl
  | cons g gs ih =>
    by_cases same : g.kind = kind
    · simp only [List.filter_cons, same, decide_true, if_true, List.filterMap_cons, ih]
    · simp only [List.filter_cons, same, decide_false, Bool.false_eq_true, if_false, ih,
        List.filterMap_cons, others g same]

theorem exists_draft {args : List String} {o : Options} (accepted : Options.parse args = .ok o) :
    ∃ d, Draft.empty.read args = .ok d := by
  rw [Options.parse] at accepted
  cases read : Draft.empty.read args with
  | error e => rw [read] at accepted; cases accepted
  | ok d => exact ⟨d, rfl⟩

-- Of the groups only the order within each kind counts.
theorem parse_congr (same : ∀ kind, gs.filter (·.kind = kind) = gs'.filter (·.kind = kind)) :
    Options.parse (gs.flatMap Group.args) = Options.parse (gs'.flatMap Group.args) := by
  have alike {α : Type} (value? : Group → Option α) (kind : Group.Kind)
      (others : ∀ g, g.kind ≠ kind → value? g = none) : gs.filterMap value? = gs'.filterMap value? := by
    rw [← filterMap_kind value? kind others, same, filterMap_kind value? kind others]
  have sketches := alike Group.sketch? .sketch fun g other => by
    cases g <;> simp_all [Group.kind, Group.sketch?]
  have speeds := alike Group.speed? .speed fun g other => by
    cases g <;> simp_all [Group.kind, Group.speed?]
  have circuits := alike Group.circuit? .circuit fun g other => by
    cases g <;> simp_all [Group.kind, Group.circuit?]
  rw [parse_groups, parse_groups, sketches, speeds, circuits]

end Grouping

/-- Arguments are accepted if and only if they are groups, in one way, with one sketch among them. The
speed and the circuit are then those given last. Groups of different kinds can change places. -/
theorem accepts_exactly_groups (args : List String) :
    (∀ o : Options, Options.parse args = .ok o ↔
      ∃! gs : List Group, gs.flatMap Group.args = args ∧ gs.filterMap Group.sketch? = [o.sketch] ∧
        o.speed = (gs.filterMap Group.speed?).getLast?.getD 1.0 ∧
        o.circuit = (gs.filterMap Group.circuit?).getLast?) ∧
    ∀ gs gs' : List Group, gs.flatMap Group.args = args →
      (∀ kind, gs'.filter (·.kind = kind) = gs.filter (·.kind = kind)) →
      Options.parse (gs'.flatMap Group.args) = Options.parse args := by
  refine ⟨fun o => ⟨fun accepted => ?_, ?_⟩, ?_⟩
  · obtain ⟨d, read⟩ := exists_draft accepted
    obtain ⟨gs, rfl⟩ := exists_groups read
    rw [parse_groups] at accepted
    refine ⟨gs, ⟨rfl, ?_⟩, fun gs' other => eq_of_args other.1⟩
    split at accepted
    · cases accepted
    · rename_i path only
      cases accepted
      exact ⟨only, rfl, rfl⟩
    · cases accepted
  · rintro ⟨gs, ⟨rfl, only, speed, circuit⟩, -⟩
    rw [parse_groups, only, ← speed, ← circuit]
  · rintro gs gs' rfl same
    exact parse_congr same

-- A circuit's file that is called like an option, and a speed that is given twice.
theorem accepts_exactly_groups_overridden :
    let args := ["--circuit", "--speed", "--speed", "0.25", "blink.ino", "--speed", "4"]
    Options.parse args = .ok ⟨"blink.ino", 4.0, some "--speed"⟩ ∧
      Options.parse ["blink.ino", "--speed", "0.25", "--speed", "4", "--circuit", "--speed"] =
        Options.parse args := by
  intro args
  let slow : Group := .speed "0.25" 0.25 (by decide +kernel) (by decide +kernel)
  let fast : Group := .speed "4" 4.0 (by decide +kernel) (by decide +kernel)
  let file : Group := .circuit "--speed"
  let blink : Group := .sketch "blink.ino" (by decide +kernel)
  obtain ⟨accepted, exchanged⟩ := accepts_exactly_groups args
  constructor
  · refine (accepted _).2 ⟨[file, slow, blink, fast], ⟨rfl, rfl, rfl, rfl⟩, fun gs other => ?_⟩
    exact eq_of_args other.1
  · refine exchanged [file, slow, blink, fast] [blink, slow, fast, file] rfl fun kind => ?_
    cases kind <;> rfl

end Breadboard.Command
