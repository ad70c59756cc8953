import Breadboard.Proofs.Forgetting
import Breadboard.Proofs.Lifecycle

set_option autoImplicit false

/-!
Starting anew. Main statement: an engine that is reset and started shows and becomes the same as a new
engine with the same parts, speed and random numbers, whatever happened to it before.
-/
namespace Breadboard

/-! Parts -/

namespace Registry

def ids (r : Registry) : List String := r.entries.map (·.id)

variable {r : Registry}

theorem find?_eq_none_iff {id : String} : r.find? id = none ↔ id ∉ r.ids := by
  simp [find?, ids]

theorem ids_remove (r : Registry) (b : Board) (id : String) : (r.remove b id).1.ids = r.ids.erase id := by
  simp only [remove, remove?]
  cases found : r.find? id with
  | none => exact (List.erase_of_not_mem (find?_eq_none_iff.1 found)).symm
  | some p =>
    have erased : r.ids.erase id = (r.entries.eraseP (·.id == id)).map (·.id) := by
      rw [List.erase_eq_eraseP', ids, List.eraseP_map]
      rfl
    exact erased.symm

theorem nodup_register (distinct : r.ids.Nodup) (b : Board) (p : Peripheral) :
    (r.register b p).1.ids.Nodup := by
  have ids : (r.register b p).1.ids = r.ids.erase p.id ++ [p.id] := by
    rw [← ids_remove r b]
    exact List.map_append
  rw [ids]
  apply (distinct.erase p.id).append (List.nodup_singleton _)
  simpa using distinct.not_mem_erase

theorem register_of_absent (b : Board) {p : Peripheral} (absent : p.id ∉ r.ids) :
    r.register b p = (⟨r.entries ++ [p]⟩, b.connectAll p.pins p.connection) := by
  simp [register, remove, remove?, find?_eq_none_iff.2 absent]

end Registry

namespace Engine

-- Parts of different names find their places one behind the other.
theorem foldl_register (parts : List Peripheral) (e : Engine)
    (distinct : (e.registry.ids ++ parts.map (·.id)).Nodup) :
    parts.foldl register e =
      { e with registry := ⟨e.registry.entries ++ parts⟩ }.setWorld
        { e.world with board := Registry.reconnect ⟨parts⟩ e.board } := by
  induction parts generalizing e with
  | nil => simp only [List.foldl_nil, List.append_nil]; rfl
  | cons p parts ih =>
    have absent : p.id ∉ e.registry.ids := by
      intro present
      exact (List.nodup_append.1 distinct).2.2 _ present _ (by simp) rfl
    have registered : e.register p =
        { e with registry := ⟨e.registry.entries ++ [p]⟩ }.setWorld
          { e.world with board := e.board.connectAll p.pins p.connection } := by
      simp only [register, Registry.register_of_absent e.board absent]
    rw [List.foldl_cons, registered, ih]
    · simp [setWorld, world, board, Registry.reconnect]
    · simpa [Registry.ids, setWorld] using distinct

variable {config : Config} {e e' : Engine}

theorem registry_setWorld (e : Engine) (w : World) : (e.setWorld w).registry = e.registry := rfl

-- Stopping leaves the parts, the pace and the random numbers.
theorem stop_keeps (e : Engine) : e.stop.config = e.config ∧ e.stop.now = e.now ∧
    e.stop.registry = e.registry ∧ e.stop.speed = e.speed ∧ e.stop.world.random = e.world.random := by
  unfold stop
  split <;> exact ⟨rfl, rfl, rfl, rfl, rfl⟩

theorem registry_step {last : Progress} (h : e.step = some (last, e')) : e'.registry = e.registry := by
  by_cases due : e.isDue = true
  · obtain ⟨span, thread, next, -, -, -, rfl⟩ | ⟨fault, thread, -, -, rfl⟩ := step_cases due h <;> rfl
  · obtain ⟨_, same⟩ := step_of_not_isDue (Bool.eq_false_iff.2 due)
    cases same.symm.trans h
    rfl

theorem nodup_move {op : HostOperation} (move : e.Move op e') (distinct : e.registry.ids.Nodup) :
    e'.registry.ids.Nodup := by
  have stopped := e.stop_keeps.2.2.1
  cases move with
  | start started =>
    unfold start at started
    split at started <;> cases started
    exact distinct
  | stop => rwa [stopped]
  | reset =>
    have kept : e.reset.registry = e.stop.registry := rfl
    rwa [kept, stopped]
  | step step => rwa [registry_step step]
  | register p => exact Registry.nodup_register distinct e.board p
  | remove id =>
    rw [registry_setWorld, Registry.ids_remove]
    exact distinct.erase id
  | _ => exact distinct

-- No two parts of an engine have the same name.
theorem Reachable.nodup_ids (reached : Engine.Reachable config e) : e.registry.ids.Nodup :=
  reached.invariant_of_moves (P := fun e => e.registry.ids.Nodup) List.nodup_nil fun _ _ _ => nodup_move

/-! The past -/

-- An engine as if it had no past.
def bare (e : Engine) : Engine :=
  e.setWorld { e.world with
    board := { e.board with subscribers := .none }
    monitor := { e.monitor with recent := [], subscribers := .none }
    outbox := [] }

def past (e : Engine) : Past :=
  ⟨e.monitor.recent, e.monitor.subscribers, e.board.subscribers, e.world.outbox⟩

theorem bare_upon (e : Engine) (past : Past) : (e.upon past).bare = e.bare := rfl

-- A monitor keeps no more events than it can hold, so an engine is its bare self upon its past.
theorem upon_past {history : Nat} {log : List Serial.Event} (keeps : e.monitor.Keeps history log) :
    e.bare.upon e.past = e := by
  have recent : ([] ++ e.monitor.recent).take (max e.monitor.capacity 1) = e.monitor.recent := by
    rw [List.nil_append, keeps.capacity_eq, keeps.recent_eq, List.take_take]
    congr 1
    omega
  change e.setWorld { e.world with
    monitor := { e.monitor with recent := ([] ++ e.monitor.recent).take (max e.monitor.capacity 1) } } = e
  rw [recent]
  rfl

theorem kept_keeps (history : Nat) :
    World.Kept (fun _ => True) fun w => ∃ log, w.monitor.Keeps history log where
  random _ _ := id
  scopes _ _ := id
  print := by
    rintro w text ⟨log, keeps⟩
    exact ⟨_, keeps.perform (.print text)⟩
  emit := by
    rintro w text category stamp - ⟨log, keeps⟩
    exact ⟨_, keeps.perform (.emit text category stamp)⟩
  report := by
    rintro w message stamp - ⟨log, keeps⟩
    exact ⟨_, keeps.perform (.emit _ .error stamp)⟩
  pin _ _ _ := id
  note _ _ _ := id
  clearPending := by
    rintro w ⟨log, keeps⟩
    exact ⟨log, keeps.capacity_eq, keeps.recent_eq⟩
  listen := by
    rintro w ⟨log, keeps⟩
    exact ⟨_, keeps.perform .subscribe⟩

theorem Reachable.keeps (reached : Engine.Reachable config e) :
    ∃ log, e.monitor.Keeps config.history log := by
  refine reached.invariant (P := fun e => ∃ log, e.world.monitor.Keeps config.history log)
    ⟨[], Serial.Monitor.keeps_ofCapacity _⟩ ?_
  intro op e e' good done
  apply (kept_keeps config.history).apply (fun _ _ => trivial) done _ _ good
  · rintro json - ⟨log, keeps⟩
    unfold importCircuit
    split
    · exact ⟨log, keeps⟩
    · exact ⟨_, keeps.perform (.emit _ .error _)⟩
  · rintro rfl good
    cases done
    exact good

theorem same_of_bare {e₁ e₂ : Engine} {history : Nat} {log₁ log₂ : List Serial.Event}
    (keeps₁ : e₁.monitor.Keeps history log₁) (keeps₂ : e₂.monitor.Keeps history log₂)
    (same : e₁.bare = e₂.bare) (ops : List HostOperation) :
    e₁.effects ops = e₂.effects ops ∧ (e₁.afterAll ops).map bare = (e₂.afterAll ops).map bare := by
  have effects {e : Engine} {log : List Serial.Event} (keeps : e.monitor.Keeps history log) :
      e.effects ops = e.bare.effects ops := by
    conv_lhs => rw [← upon_past keeps, effects_upon]
  have ends {e : Engine} {log : List Serial.Event} (keeps : e.monitor.Keeps history log) :
      (e.afterAll ops).map bare = (e.bare.afterAll ops).map bare := by
    conv_lhs => rw [← upon_past keeps, afterAll_upon, Option.map_map]
    simp only [Function.comp_def, bare_upon]
  exact ⟨by rw [effects keeps₁, same, ← effects keeps₂], by rw [ends keeps₁, same, ← ends keeps₂]⟩

/-! Starting anew -/

-- A new engine at the time, with the speed and with the random numbers of an old one.
def newborn (e : Engine) : Engine :=
  let new := (ofConfig e.config).advance e.now
  { new with speed := e.speed }.setWorld { new.world with random := e.world.random }

-- It is given the parts as well, in their order.
def renewed (e : Engine) : Engine := e.registry.entries.foldl register e.newborn

theorem renewed_eq (distinct : e.registry.ids.Nodup) :
    e.renewed = { e.newborn with registry := e.registry }.setWorld
      { e.newborn.world with board := e.registry.reconnect .fresh } :=
  foldl_register e.registry.entries e.newborn distinct

/-- The same in two engines, as far as a start leaves it as it is. -/
structure StartsAlike (e₁ e₂ : Engine) : Prop where
  config_eq : e₁.config = e₂.config
  now_eq : e₁.now = e₂.now
  registry_eq : e₁.registry = e₂.registry
  speed_eq : e₁.speed = e₂.speed
  pins_eq : e₁.board.pins = e₂.board.pins
  pending_eq : e₁.monitor.pending = e₂.monitor.pending
  capacity_eq : e₁.monitor.capacity = e₂.monitor.capacity
  random_eq : e₁.world.random = e₂.world.random

theorem StartsAlike.start {e₁ e₂ : Engine} (alike : e₁.StartsAlike e₂) (halted₁ : e₁.status ≠ .running)
    (halted₂ : e₂.status ≠ .running) (source : String) :
    ∃ started₁ started₂, e₁.start source = .ok started₁ ∧ e₂.start source = .ok started₂ ∧
      started₁.bare = started₂.bare := by
  refine ⟨_, _, if_neg halted₁, if_neg halted₂, ?_⟩
  obtain ⟨config, now, registry, speed, pins, pending, capacity, random⟩ := alike
  simp only [board, monitor, world] at pins pending capacity random
  simp only [bare, setStatus, setWorld, world, board, monitor, World.tell, config, now, registry, speed,
    pins, pending, capacity, random]

theorem monitor_start {source : String} (started : e.start source = .ok e') : e'.monitor = e.monitor := by
  unfold start at started
  split at started
  · cases started
  · cases started
    rfl

-- A reset makes of an engine what it would be if it were new, and the two ways of wiring the pins come
-- to the same.
theorem startsAlike_reset (reached : Engine.Reachable config e) : e.reset.StartsAlike e.renewed := by
  obtain ⟨log, keeps⟩ := (Reachable.host .reset reached rfl).keeps
  obtain ⟨config, now, registry, speed, random⟩ := e.stop_keeps
  have wired : e.reset.board = (e.stop.registry.reconnect .fresh).upon e.stop.past :=
    e.stop.registry.reconnect_upon e.stop.past .fresh
  rw [renewed_eq reached.nodup_ids]
  constructor
  case config_eq => exact config
  case now_eq => exact now.trans (Nat.zero_add e.now).symm
  case registry_eq => exact registry
  case speed_eq => exact speed
  case pins_eq =>
    rw [wired, registry]
    rfl
  case pending_eq => rfl
  case capacity_eq =>
    rw [keeps.capacity_eq, ← reached.lifecycle.config_eq]
    rfl
  case random_eq => exact random

/-- Reset and start whatever engine a host can come to, and start a new one with the same parts, speed
and random numbers at the same time. Serial history, subscribers and news of before apart, the two are
the same, and whatever a host does with them then, they show the same and stay the same. -/
theorem reset_start_forgets (config : Config) (e : Engine) (reached : Engine.Reachable config e)
    (source : String) :
    ∃ again anew, e.reset.start source = .ok again ∧ e.renewed.start source = .ok anew ∧
      again.bare = anew.bare ∧
      ∀ ops, again.effects ops = anew.effects ops ∧
        (again.afterAll ops).map bare = (anew.afterAll ops).map bare := by
  have renewed := renewed_eq reached.nodup_ids
  have halted : e.renewed.status ≠ .running := by
    rw [renewed]
    exact nofun
  obtain ⟨again, anew, started, startedAnew, same⟩ :=
    (startsAlike_reset reached).start (show e.reset.status ≠ .running from nofun) halted source
  obtain ⟨log, keeps⟩ := (Reachable.host .reset reached rfl).keeps
  have keepsAnew : e.renewed.monitor.Keeps config.history [] := by
    rw [renewed, ← reached.lifecycle.config_eq]
    exact Serial.Monitor.keeps_ofCapacity e.config.history
  rw [← monitor_start started] at keeps
  rw [← monitor_start startedAnew] at keepsAnew
  exact ⟨again, anew, started, startedAnew, same, same_of_bare keeps keepsAnew same⟩

-- A part is registered twice, a pin is driven from outside, and a sketch pauses in the middle of a line.
def worn : List HostOperation :=
  [.listen, .register ⟨"led", "LED", [.gpio 5, .gpio 12], true⟩,
    .register ⟨"key", "Button", [.gpio 12], false⟩,
    .register ⟨"led", "LED", [.gpio 13], true⟩, .pin (.setAnalog (.gpio 34) 700.0),
    .start ("String led = \"D5\";\nString out = \"OUTPUT\";\n" ++
      "void setup() { Serial.println(led); Serial.print(out); pinMode(led, out); delay(50); }"),
    .step, .setSpeed 2.0]

theorem reset_start_forgets_worn :
    let source := "String key = \"D12\";\nvoid loop() { Serial.println(key); digitalWrite(key, 1); }"
    ∃ e again anew, (ofConfig .standard).afterAll worn = some e ∧ Engine.Reachable .standard e ∧
      e.status = .running ∧ e.monitor.pending = "OUTPUT" ∧ e.registry.ids = ["key", "led"] ∧
      e.reset.start source = .ok again ∧ e.renewed.start source = .ok anew ∧
      again.monitor.size = 2 ∧ anew.monitor.size = 0 ∧ again.bare = anew.bare ∧
      again.effects [.step, .poll] = anew.effects [.step, .poll] := by
  intro source
  have computed : ((ofConfig .standard).afterAll worn).map (fun e =>
      (e.status, e.monitor.pending, e.registry.ids, e.reset.monitor.size, e.renewed.monitor.size)) =
      some (.running, "OUTPUT", ["key", "led"], 2, 0) := by
    decide +kernel
  obtain ⟨e, ran, seen⟩ := Option.map_eq_some_iff.1 computed
  simp only [Prod.mk.injEq] at seen
  obtain ⟨running, pending, ids, size, sizeAnew⟩ := seen
  have reached : Engine.Reachable .standard e := Reachable.created.afterAll ran
  obtain ⟨again, anew, started, startedAnew, same, later⟩ := reset_start_forgets .standard e reached source
  rw [← monitor_start started] at size
  rw [← monitor_start startedAnew] at sizeAnew
  exact ⟨e, again, anew, ran, reached, running, pending, ids, started, startedAnew, size, sizeAnew, same,
    (later _).1⟩

end Engine

end Breadboard
