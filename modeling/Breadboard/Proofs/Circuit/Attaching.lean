import Breadboard.Engine.Wiring
import Breadboard.Proofs.Wiring

set_option autoImplicit false

/-!
Attaching a circuit. Main statement: on a new engine the parts that are drawn with a wire to the board are
registered in their order, every pin is marked for the last of them that is wired to it, and attaching the
circuit again changes nothing of that.
-/
namespace Breadboard

section Wires

variable {s part board name pin : String} {w : Wire}

/-- The part and the pin that the end of a wire names: its text is cut at the first colon. -/
def WireEnd.Names (s part pin : String) : Prop :=
  ':' ∉ part.toList ∧ s.toList = part.toList ++ ':' :: pin.toList

theorem WireEnd.parse?_eq_some_iff : parse? s = some ⟨part, pin⟩ ↔ Names s part pin := by
  have apart (front behind : List Char) (plain : ':' ∉ front) :
      (front ++ ':' :: behind).takeWhile (· != ':') = front ∧
        (front ++ ':' :: behind).dropWhile (· != ':') = ':' :: behind := by
    have all : ∀ c ∈ front, (c != ':') = true := fun c member => by
      simpa using fun eq : c = ':' => plain (eq ▸ member)
    rw [List.takeWhile_append_of_pos all, List.dropWhile_append_of_pos all]
    simp
  constructor
  · intro read
    simp only [parse?] at read
    split at read
    · rename_i colon
      obtain ⟨front, behind, text, plain⟩ := List.eq_append_cons_of_mem (List.contains_iff_mem.1 colon)
      obtain ⟨left, right⟩ := apart front behind plain
      rw [text, left, right] at read
      obtain ⟨rfl, rfl⟩ := WireEnd.mk.inj (Option.some.inj read)
      simpa [Names] using ⟨plain, text⟩
    · cases read
  · rintro ⟨plain, text⟩
    obtain ⟨front, behind⟩ := apart part.toList pin.toList plain
    simp [parse?, text, front, behind]

namespace Wire

/-- Whether a wire joins the pin `name` of a board to a part, whichever end is written first. -/
def Joins (w : Wire) (part board name : String) : Prop :=
  ∃ other, WireEnd.Names w.source board name ∧ WireEnd.Names w.target part other ∨
    WireEnd.Names w.source part other ∧ WireEnd.Names w.target board name

/-- A wire with its ends exchanged. -/
def turned (w : Wire) : Wire := { w with source := w.target, target := w.source }

theorem joins_turned : w.turned.Joins part board name ↔ w.Joins part board name :=
  exists_congr fun _ => Or.comm.trans (or_congr and_comm and_comm)

theorem boardPin?_eq_some_iff (apart : part ≠ board) :
    w.boardPin? part board = some name ↔ w.Joins part board name := by
  simp only [Joins, ← WireEnd.parse?_eq_some_iff, boardPin?, Option.bind_eq_bind]
  cases WireEnd.parse? w.source with
  | none => simp
  | some a =>
    cases WireEnd.parse? w.target with
    | none => simp
    | some b =>
      obtain ⟨partA, pinA⟩ := a
      obtain ⟨partB, pinB⟩ := b
      simp only [Option.bind_some, Option.some.injEq, WireEnd.mk.injEq]
      -- Both alternatives at once would make the part the board.
      by_cases first : partA = board ∧ partB = part
      · obtain ⟨rfl, rfl⟩ := first
        simp [apart, Ne.symm apart]
      · rw [if_neg first]
        by_cases second : partB = board ∧ partA = part
        · obtain ⟨rfl, rfl⟩ := second
          simp [apart, Ne.symm apart]
        · rw [if_neg second]
          simp only [reduceCtorEq, false_iff]
          rintro ⟨other, ⟨⟨here, -⟩, there, -⟩ | ⟨⟨there, -⟩, here, -⟩⟩
          · exact first ⟨here, there⟩
          · exact second ⟨here, there⟩

end Wire

namespace Circuit

variable {wires : List Wire} {p q : Pin}

/-- Whether one of some wires joins a part to a pin of the board. -/
def Joined (wires : List Wire) (part board : String) (p : Pin) : Prop :=
  ∃ w ∈ wires, ∃ name, w.Joins part board name ∧ Pin.parse name = .ok p

/-- The pin of the board that one wire joins to a part. -/
def pinOf? (part board : String) (w : Wire) : Option Pin :=
  (w.boardPin? part board).bind fun name => (Pin.parse name).toOption

theorem pinOf?_eq_some_iff (apart : part ≠ board) : pinOf? part board w = some p ↔
    ∃ name, w.Joins part board name ∧ Pin.parse name = .ok p := by
  have read (x : Except UnknownPin Pin) : x.toOption = some p ↔ x = .ok p := by
    cases x <;> simp [Except.toOption]
  simp only [pinOf?, Option.bind_eq_some_iff, Wire.boardPin?_eq_some_iff apart, read]

/-- The pins of the board that some wires join to a part. -/
def pinsAlong (wires : List Wire) (part board : String) : List Pin :=
  (wires.filterMap (pinOf? part board)).foldl addPin []

theorem pinsFor_eq (c : Circuit) (part board : String) : c.pinsFor part board = pinsAlong c.wires part board :=
  rfl

theorem pinsAlong_concat (wires : List Wire) (w : Wire) (part board : String) :
    pinsAlong (wires ++ [w]) part board =
      ((pinOf? part board w).map (addPin (pinsAlong wires part board))).getD (pinsAlong wires part board) := by
  cases pin : pinOf? part board w <;> simp [pinsAlong, List.filterMap_append, pin]

theorem joined_concat : Joined (wires ++ [w]) part board p ↔
    Joined wires part board p ∨ ∃ name, w.Joins part board name ∧ Pin.parse name = .ok p := by
  simp [Joined, or_and_right, exists_or]

theorem mem_addPin {pins : List Pin} : p ∈ addPin pins q ↔ p ∈ pins ∨ p = q := by
  unfold addPin
  split
  · rename_i there
    exact ⟨.inl, fun member => member.elim id fun eq => eq ▸ List.contains_iff_mem.1 there⟩
  · simp

theorem mem_pinsAlong (apart : part ≠ board) : p ∈ pinsAlong wires part board ↔ Joined wires part board p := by
  induction wires using List.reverseRecOn with
  | nil => simp [pinsAlong, Joined]
  | append_singleton wires w ih =>
    rw [pinsAlong_concat, joined_concat, ← ih, ← pinOf?_eq_some_iff apart]
    cases pinOf? part board w with
    | none => simp
    | some q => simp [mem_addPin, eq_comm]

/-- Whether the first wire to a pin comes before the first one to another. -/
def Earlier (wires : List Wire) (part board : String) (p q : Pin) : Prop :=
  ∃ front, front <+: wires ∧ Joined front part board p ∧ ¬Joined front part board q

theorem pairwise_pinsAlong (apart : part ≠ board) :
    (pinsAlong wires part board).Pairwise (Earlier wires part board) := by
  induction wires using List.reverseRecOn with
  | nil => exact .nil
  | append_singleton wires w ih =>
    have older : (pinsAlong wires part board).Pairwise (Earlier (wires ++ [w]) part board) :=
      ih.imp fun ⟨front, inside, joined, apart⟩ => ⟨front, inside.trans (List.prefix_append ..), joined, apart⟩
    rw [pinsAlong_concat]
    cases pinOf? part board w with
    | none => exact older
    | some q =>
      rw [Option.map_some, Option.getD_some, addPin]
      split
      · exact older
      · rename_i fresh
        refine List.pairwise_append.2 ⟨older, List.pairwise_singleton .., fun p member q' last => ?_⟩
        obtain rfl := List.mem_singleton.1 last
        refine ⟨wires, List.prefix_append .., (mem_pinsAlong apart).1 member, fun joined => fresh ?_⟩
        exact List.contains_iff_mem.2 ((mem_pinsAlong apart).2 joined)

theorem nodup_pinsAlong (apart : part ≠ board) : (pinsAlong wires part board).Nodup :=
  (pairwise_pinsAlong apart).imp fun ⟨_, _, joined, unjoined⟩ eq => unjoined (eq ▸ joined)

theorem pinsAlong_turned (apart : part ≠ board) {wires wires' : List Wire}
    (turned : List.Forall₂ (fun w w' => w' = w ∨ w' = w.turned) wires wires') :
    pinsAlong wires' part board = pinsAlong wires part board := by
  have same : wires'.filterMap (pinOf? part board) = wires.filterMap (pinOf? part board) := by
    induction turned with
    | nil => rfl
    | @cons w w' _ _ alike _ ih =>
      have pin : pinOf? part board w' = pinOf? part board w := by
        obtain rfl | rfl := alike
        · rfl
        · ext p
          rw [pinOf?_eq_some_iff apart, pinOf?_eq_some_iff apart]
          simp only [Wire.joins_turned]
      rw [List.filterMap_cons, List.filterMap_cons, pin, ih]
  rw [pinsAlong, same, pinsAlong]

end Circuit

end Wires

section Parts

namespace Circuit

variable {c : Circuit} {board : String} {pin : Pin}

/-- The parts other than the board that are wired to it. -/
def attached (c : Circuit) (board : String) : List Part :=
  c.parts.filter fun p => p.id != board && !(c.pinsFor p.id board).isEmpty

/-- A part as it is registered. -/
def peripheral (c : Circuit) (board : String) (p : Part) : Peripheral :=
  ⟨p.id, p.kind, c.pinsFor p.id board, false⟩

theorem wired_eq (found : c.boardId? = some board) :
    c.wired = (c.attached board).map fun p => (p, c.pinsFor p.id board) := by
  simp only [wired, found, attached]
  induction c.parts with
  | nil => rfl
  | cons p parts ih =>
    by_cases other : p.id = board
    · simpa [other] using ih
    · by_cases none : c.pinsFor p.id board = []
      · simpa [other, none] using ih
      · simpa [other, none] using ih

theorem mem_attached {p : Part} (drawn : p ∈ c.parts) :
    p ∈ c.attached board ↔ p.id ≠ board ∧ ∃ pin, Joined c.wires p.id board pin := by
  rw [attached, List.mem_filter]
  by_cases apart : p.id = board
  · simp [apart]
  · have some_ : (c.pinsFor p.id board).isEmpty = false ↔ ∃ pin, Joined c.wires p.id board pin := by
      rw [List.isEmpty_eq_false_iff_exists_mem, pinsFor_eq]
      exact exists_congr fun pin => mem_pinsAlong apart
    simp [drawn, apart, some_]

/-- Whether a part is the last one that is wired to a pin of the board. -/
def LastWired (c : Circuit) (board : String) (pin : Pin) (p : Part) : Prop :=
  ∃ front behind, c.parts = front ++ p :: behind ∧ p.id ≠ board ∧ Joined c.wires p.id board pin ∧
    ∀ q ∈ behind, q.id ≠ board → ¬Joined c.wires q.id board pin

theorem holder?_attached {x : Peripheral} :
    Registry.holder? ⟨(c.attached board).map (c.peripheral board)⟩ pin = some x ↔
      ∃ p, c.LastWired board pin p ∧ c.peripheral board p = x := by
  have wired (p : Part) : ((p.id != board && !(c.pinsFor p.id board).isEmpty) = true ∧
      (c.peripheral board p).pins.contains pin = true) ↔ p.id ≠ board ∧ Joined c.wires p.id board pin := by
    by_cases apart : p.id = board
    · simp [apart]
    · have some_ : Joined c.wires p.id board pin → pinsAlong c.wires p.id board ≠ [] := fun joined =>
        List.ne_nil_of_mem ((mem_pinsAlong apart).2 joined)
      simp only [peripheral, pinsFor_eq, List.contains_iff_mem, mem_pinsAlong apart]
      simpa [apart] using some_
  rw [Registry.holder?, List.findRev?_eq_find?_reverse, ← List.map_reverse, List.find?_map, attached,
    ← List.filter_reverse, List.find?_filter, Option.map_eq_some_iff]
  refine exists_congr fun p => and_congr_left fun _ => ?_
  simp only [List.find?_eq_some_iff_append, Function.comp_apply, wired, Bool.not_eq_true', decide_eq_true_eq,
    decide_eq_false_iff_not, not_and]
  constructor
  · rintro ⟨⟨apart, joined⟩, behind, front, parts, later⟩
    refine ⟨front.reverse, behind.reverse, ?_, apart, joined, fun q member => later q (List.mem_reverse.1 member)⟩
    rw [← List.reverse_reverse c.parts, parts]
    simp
  · rintro ⟨front, behind, parts, apart, joined, later⟩
    exact ⟨⟨apart, joined⟩, behind.reverse, front.reverse, by simp [parts],
      fun q member => later q (List.mem_reverse.1 member)⟩

end Circuit

end Parts

section Benches

variable {b : Bench} {ps : List Peripheral}

/-- A bench after parts have been registered one after the other. -/
def Bench.registerAll (b : Bench) (ps : List Peripheral) : Bench :=
  ps.foldl (fun b p => (PartOperation.register p).perform b) b

theorem Bench.registerAll_concat (b : Bench) (ps : List Peripheral) (p : Peripheral) :
    b.registerAll (ps ++ [p]) = (PartOperation.register p).perform (b.registerAll ps) := by
  simp [registerAll]

theorem Bench.Wired.registerAll (wired : b.Wired) (ps : List Peripheral) : (b.registerAll ps).Wired := by
  induction ps generalizing b with
  | nil => exact wired
  | cons p ps ih => exact ih (wired.part (.register p))

theorem Bench.has_registerAll (b : Bench) (ps : List Peripheral) (pin : Pin) :
    (b.registerAll ps).board.has pin = b.board.has pin := by
  induction ps generalizing b with
  | nil => rfl
  | cons p ps ih => exact (ih _).trans (b.has_perform (.register p) pin)

-- A pin is marked for the last of the parts that lists it, and else for what it was marked for before, if that
-- is none of the parts.
theorem Bench.Wired.connection?_registerAll (wired : b.Wired) (distinct : (ps.map (·.id)).Nodup) {pin : Pin}
    (present : b.board.has pin = true) : (b.registerAll ps).board.connection? pin =
      ((Registry.holder? ⟨ps⟩ pin).map (·.connection)).or
        ((b.board.connection? pin).filter fun c => !(ps.map (·.id)).contains c.component) := by
  induction ps using List.reverseRecOn with
  | nil =>
    change b.board.connection? pin = _
    cases b.board.connection? pin <;> rfl
  | append_singleton ps p ih =>
    rw [List.map_append, List.nodup_append] at distinct
    rw [Bench.registerAll_concat, (wired.registerAll ps).connection?_perform, Bench.has_registerAll, ih distinct.1,
      Registry.holder?_append]
    by_cases listed : pin ∈ p.pins
    · simp [listed, present, PartOperation.part?]
    · cases holder : Registry.holder? ⟨ps⟩ pin with
      | some q =>
        have member := (Registry.mem_of_holder? holder).1
        have other : q.id ≠ p.id := distinct.2.2 _ (List.mem_map_of_mem member) _ (by simp)
        simp [listed, PartOperation.part?, PartOperation.id, Peripheral.connection, Option.filter, other]
      | none =>
        have both (c : Connection) : (!(ps.map (·.id)).contains c.component && c.component != p.id) =
            !((ps ++ [p]).map (·.id)).contains c.component := by
          rw [List.map_append, List.contains_append, Bool.not_or]
          simp [bne, Bool.beq_eq_decide_eq]
        rw [if_neg (by simp [PartOperation.part?, listed]), if_neg listed, Option.map_none, Option.none_or,
          Option.none_or, PartOperation.id, Option.filter_filter, funext both]

-- New parts find their places behind those that are there.
theorem Bench.registry_registerAll_new (distinct : (b.registry.ids ++ ps.map (·.id)).Nodup) :
    (b.registerAll ps).registry = ⟨b.registry.entries ++ ps⟩ := by
  induction ps using List.reverseRecOn with
  | nil => rw [List.append_nil]; rfl
  | append_singleton ps p ih =>
    rw [List.map_append, ← List.append_assoc, List.nodup_append] at distinct
    have before := ih distinct.1
    have absent : p.id ∉ (b.registerAll ps).registry.ids := by
      rw [before, Registry.ids, List.map_append]
      exact fun member => distinct.2.2 _ member _ (by simp) rfl
    rw [registerAll_concat, PartOperation.perform, Registry.register_of_absent _ absent, before,
      List.append_assoc]

-- Registering again all parts there are, in their order, leaves the order.
theorem Bench.registry_registerAll {rest done : List Peripheral} (entries : b.registry.entries = rest ++ done)
    (distinct : b.registry.ids.Nodup) : (b.registerAll rest).registry = ⟨done ++ rest⟩ := by
  induction rest generalizing b done with
  | nil =>
    rw [List.append_nil]
    exact congrArg Registry.mk entries
  | cons p rest ih =>
    have removed : (b.registry.remove b.board p.id).1 = ⟨rest ++ done⟩ := by
      simp [Registry.remove, Registry.remove?, Registry.find?, entries]
    have next : ((PartOperation.register p).perform b).registry.entries = rest ++ (done ++ [p]) := by
      change (b.registry.remove b.board p.id).1.entries ++ [p] = _
      rw [removed, List.append_assoc]
    have later := ih next (Registry.nodup_register distinct b.board p)
    rw [List.append_assoc] at later
    exact later

-- Registering again the parts there are leaves the parts, and the marks if every pin is marked for the last part
-- that lists it.
theorem Bench.Wired.registerAll_again (wired : b.Wired) (registry : b.registry = ⟨ps⟩)
    (held : ∀ pin, b.board.has pin = true →
      b.board.connection? pin = (Registry.holder? ⟨ps⟩ pin).map (·.connection)) :
    (b.registerAll ps).registry = b.registry ∧
      ∀ pin, (b.registerAll ps).board.connection? pin = b.board.connection? pin := by
  have distinct : (ps.map (·.id)).Nodup := by
    have names := wired.distinct
    rwa [registry] at names
  refine ⟨?_, fun pin => ?_⟩
  · have entries : b.registry.entries = ps ++ [] := by rw [registry, List.append_nil]
    rw [registry_registerAll entries wired.distinct, registry]
    rfl
  · by_cases present : b.board.has pin = true
    · rw [wired.connection?_registerAll distinct present, held pin present]
      cases Registry.holder? ⟨ps⟩ pin <;> rfl
    · rw [Bool.not_eq_true] at present
      rw [Board.connection?_of_not_has present, Board.connection?_of_not_has]
      rwa [has_registerAll]

end Benches

section Engines

variable {config : Config} {c : Circuit} {board : String}

theorem Engine.bench_attachCircuit (e : Engine) (found : c.boardId? = some board) :
    (e.attachCircuit c).2.bench = e.bench.registerAll ((c.attached board).map (c.peripheral board)) := by
  have step (ps : List Part) (e : Engine) : ((ps.map fun p => (p, c.pinsFor p.id board)).foldl
      (fun e p => e.register ⟨p.1.id, p.1.kind, p.2, false⟩) e).bench =
        e.bench.registerAll (ps.map (c.peripheral board)) := by
    induction ps generalizing e with
    | nil => rfl
    | cons p ps ih => exact ih _
  rw [attachCircuit, Circuit.wired_eq found]
  exact step _ e

theorem Bench.has_fresh (pin : Pin) : Bench.fresh.board.has pin = true ↔ pin ∈ Board.layout := by
  rw [Board.has, Board.state?_isSome_iff, ← Board.map_fst_freshPins]
  rfl

-- A circuit on a fresh bench: its parts stand in their order, and every pin is marked for the last that lists it.
theorem Circuit.registerAll_fresh (board : String) (distinct : (c.parts.map (·.id)).Nodup) :
    let ps := (c.attached board).map (c.peripheral board)
    let b := Bench.fresh.registerAll ps
    b.Wired ∧ b.registry = ⟨ps⟩ ∧ ∀ pin, b.board.has pin = true →
      b.board.connection? pin = (Registry.holder? ⟨ps⟩ pin).map (·.connection) := by
  intro ps b
  have names : (ps.map (·.id)).Nodup := by
    have same : ps.map (·.id) = (c.attached board).map (·.id) := List.map_map
    rw [same]
    exact distinct.sublist (List.filter_sublist.map _)
  refine ⟨Bench.wired_fresh.registerAll ps, Bench.registry_registerAll_new names, fun pin present => ?_⟩
  have bare : Bench.fresh.board.connection? pin = none := Board.connection?_reset .fresh pin
  rw [Bench.has_registerAll] at present
  rw [Bench.wired_fresh.connection?_registerAll names present, bare]
  exact Option.or_none

/-- Attaching a circuit with a board, the names of its parts being distinct, to a new engine. The parts that are
registered are those other than the board with a wire between them and a pin of the board, in the order of the
parts, and their number is given back. A pin that exists is marked for the last of them that is wired to it, and no
other pin is marked. The pins of a part are those that it is wired to, each once and in the order of their first
wires, and it does not matter which end of a wire is written first. Attaching the circuit again leaves the parts
and the marks as they are. -/
theorem Engine.attach_wires_as_drawn (config : Config) (c : Circuit) (board : String)
    (found : c.boardId? = some board) (distinct : (c.parts.map (·.id)).Nodup) :
    let e := ((ofConfig config).attachCircuit c).2
    (∃ parts : List Part, parts.Sublist c.parts ∧
      (∀ p ∈ c.parts, p ∈ parts ↔ p.id ≠ board ∧ ∃ pin, Circuit.Joined c.wires p.id board pin) ∧
      e.registry.entries = parts.map (fun p => ⟨p.id, p.kind, c.pinsFor p.id board, false⟩) ∧
      ((ofConfig config).attachCircuit c).1 = parts.length) ∧
    (∀ pin mark, e.board.connection? pin = some mark ↔
      pin ∈ Board.layout ∧ ∃ p, c.LastWired board pin p ∧ mark = ⟨p.id, p.kind⟩) ∧
    (∀ part, part ≠ board →
      (∀ pin, pin ∈ c.pinsFor part board ↔ Circuit.Joined c.wires part board pin) ∧
      (c.pinsFor part board).Nodup ∧
      (c.pinsFor part board).Pairwise (Circuit.Earlier c.wires part board) ∧
      ∀ wires, List.Forall₂ (fun w w' => w' = w ∨ w' = w.turned) c.wires wires →
        { c with wires }.pinsFor part board = c.pinsFor part board) ∧
    (e.attachCircuit c).2.registry = e.registry ∧
    ∀ pin, (e.attachCircuit c).2.board.connection? pin = e.board.connection? pin := by
  intro e
  have bench : e.bench = Bench.fresh.registerAll ((c.attached board).map (c.peripheral board)) :=
    bench_attachCircuit (ofConfig config) found
  obtain ⟨wired, registry, held⟩ := Circuit.registerAll_fresh board distinct
  rw [← bench] at wired registry held
  have existing (pin : Pin) : e.bench.board.has pin = true ↔ pin ∈ Board.layout := by
    rw [bench, Bench.has_registerAll, Bench.has_fresh]
  obtain ⟨registry', marks'⟩ := wired.registerAll_again registry held
  rw [← bench_attachCircuit e found] at registry' marks'
  refine ⟨⟨c.attached board, List.filter_sublist, fun p drawn => Circuit.mem_attached drawn, ?_, ?_⟩,
    fun pin mark => ?_, fun part apart => ⟨fun pin => Circuit.mem_pinsAlong apart, Circuit.nodup_pinsAlong apart,
      Circuit.pairwise_pinsAlong apart, fun wires turned => Circuit.pinsAlong_turned apart turned⟩,
    registry', marks'⟩
  · exact congrArg Registry.entries registry
  · rw [attachCircuit, Circuit.wired_eq found, List.length_map]
  · change e.bench.board.connection? pin = some mark ↔ _
    rw [← existing]
    by_cases present : e.bench.board.has pin = true
    · simp only [held pin present, present, true_and, Option.map_eq_some_iff, Circuit.holder?_attached]
      constructor
      · rintro ⟨x, ⟨p, last, rfl⟩, rfl⟩
        exact ⟨p, last, rfl⟩
      · rintro ⟨p, last, rfl⟩
        exact ⟨_, ⟨p, last, rfl⟩, rfl⟩
    · rw [Board.connection?_of_not_has (by simpa using present)]
      simp [present]

-- A board, a light and a key that share the ground, wired in both directions, and a loose part.
def sharedGround : Circuit where
  version := .null
  editor := ""
  parts := [⟨"board-esp32", "esp", .null, .null, []⟩, ⟨"led", "light", .null, .null, []⟩,
    ⟨"pushbutton", "key", .null, .null, []⟩, ⟨"led", "loose", .null, .null, []⟩]
  wires := [⟨"esp:D2", "light:A", ""⟩, ⟨"light:C", "esp:GND.1", ""⟩, ⟨"key:1", "esp:gnd", ""⟩,
    ⟨"esp:GPIO2", "light:A", ""⟩, ⟨"loose:A", "light:A", ""⟩]
  extra := []

theorem Engine.attach_wires_as_drawn_sharedGround :
    sharedGround.boardId? = some "esp" ∧ (sharedGround.parts.map (·.id)).Nodup ∧
      let e := ((ofConfig .standard).attachCircuit sharedGround).2
      e.board.connection? (.rail .gnd) = some ⟨"key", "pushbutton"⟩ ∧
        (e.attachCircuit sharedGround).2.registry = e.registry ∧
        sharedGround.pinsFor "light" "esp" = [.gpio 2, .rail .gnd] := by
  have found : sharedGround.boardId? = some "esp" := by decide
  have distinct : (sharedGround.parts.map (·.id)).Nodup := by decide
  obtain ⟨-, marks, -, again, -⟩ := attach_wires_as_drawn .standard sharedGround "esp" found distinct
  have joined : Circuit.Joined sharedGround.wires "key" "esp" (.rail .gnd) :=
    (Circuit.mem_pinsAlong (by decide)).1 (by decide +kernel)
  -- Behind the key there is only the part that no wire joins to the board.
  have last : sharedGround.LastWired "esp" (.rail .gnd) ⟨"pushbutton", "key", .null, .null, []⟩ := by
    refine ⟨sharedGround.parts.take 2, sharedGround.parts.drop 3, rfl, by decide, joined, ?_⟩
    intro q member other wired
    obtain rfl := List.mem_singleton.1 member
    have pins := (Circuit.mem_pinsAlong other).2 wired
    have none : Circuit.pinsAlong sharedGround.wires "loose" "esp" = [] := by decide +kernel
    rw [none] at pins
    cases pins
  exact ⟨found, distinct, (marks _ _).2 ⟨by decide, _, last, rfl⟩, again, by decide +kernel⟩

end Engines

end Breadboard
