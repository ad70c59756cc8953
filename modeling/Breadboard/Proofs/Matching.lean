import Breadboard.Proofs.Bytes
import Breadboard.Proofs.Spacing.LeftOpen
import Breadboard.Text.Call
import Mathlib.Order.Bounds.Basic

set_option autoImplicit false

/-!
Matching brackets and counting them. Main statement: the bracket that closes another is found at the
first byte where the balance from the opening one on is even, in the bytes of a text as in its
characters, and a call is a name with the rest of the text in one pair of parentheses.
-/
namespace Breadboard

open Text

/-- The balance of a text from one place to another, both included. It is read from the first one on. -/
def Text.Bracket.stretch (b : Bracket) (cs : List Char) (first last : Nat) : Int :=
  b.balance .code ((cs.drop first).take (last + 1 - first))

/-- Whether a place is the first one where the balance from an opening bracket on is even. -/
def Text.Bracket.ClosedAt (b : Bracket) (cs : List Char) (start : Nat) (place : Nat) : Prop :=
  IsLeast {i | start ≤ i ∧ i < cs.length ∧ b.stretch cs start i = 0} place

section Counting

variable {b : Bracket} {front tail inside rest : List Char} {i k : Nat}

theorem balance_opener (b : Bracket) (cs : List Char) :
    b.balance .code (b.opener :: cs) = 1 + b.balance .code cs := by
  rw [Canonical.balance_cons_code b (Canonical.isMark_opener b), Canonical.weight_opener]

theorem stretch_opener (b : Bracket) (front tail : List Char) (k : Nat) :
    b.stretch (front ++ b.opener :: tail) front.length (front.length + k) =
      1 + b.balance .code (tail.take k) := by
  have count : front.length + k + 1 - front.length = k + 1 := by omega
  rw [Bracket.stretch, List.drop_left, count, List.take_succ_cons, balance_opener]

-- Up to where the bracket is closed there are more opening brackets than closing ones.
theorem stretch_pos_of_close (front : List Char) (found : b.close .code 0 tail = some (inside, rest))
    (within : k ≤ inside.length) :
    0 < b.stretch (front ++ b.opener :: tail) front.length (front.length + k) := by
  obtain ⟨-, -, low⟩ := closed_of_close found
  have part : tail.take k = inside.take k := by
    rw [Bracket.close_eq found, List.take_append_of_le_length within]
  have bound := low _ (List.take_prefix k inside)
  rw [stretch_opener, part]
  omega

theorem stretch_pos_of_open (front : List Char) (open_ : b.close .code 0 tail = none) (k : Nat) :
    0 < b.stretch (front ++ b.opener :: tail) front.length (front.length + k) := by
  have bound := low_of_close open_ (List.prefix_refl tail) _ (List.take_prefix k tail)
  rw [stretch_opener]
  omega

theorem stretch_eq_zero (found : b.close .code 0 tail = some (inside, rest)) :
    b.stretch (front ++ b.opener :: tail) front.length (front.length + (inside.length + 1)) = 0 := by
  obtain ⟨code, even, -⟩ := closed_of_close found
  have part : tail.take (inside.length + 1) = inside ++ [b.closer] := by
    rw [Bracket.close_eq found, List.take_length_add_append]
    rfl
  rw [stretch_opener, part, Bracket.balance_append, code,
    Canonical.balance_cons_code b (Canonical.isMark_closer b), Canonical.weight_closer, Bracket.balance_nil]
  omega

/-- Closing by the scan is closing by the count. -/
theorem closedAt_iff : b.ClosedAt (front ++ b.opener :: tail) front.length i ↔
    ∃ inside rest, b.close .code 0 tail = some (inside, rest) ∧ i = front.length + (inside.length + 1) := by
  have closes {inside rest : List Char} (found : b.close .code 0 tail = some (inside, rest)) :
      b.ClosedAt (front ++ b.opener :: tail) front.length (front.length + (inside.length + 1)) := by
    refine ⟨⟨by omega, ?_, stretch_eq_zero found⟩, ?_⟩
    · rw [Bracket.close_eq found]
      simp
    · rintro j ⟨start, -, even⟩
      obtain ⟨k, rfl⟩ := Nat.exists_eq_add_of_le start
      by_contra early
      have above := stretch_pos_of_close front found (k := k) (by omega)
      omega
  constructor
  · intro closed
    obtain ⟨⟨start, -, even⟩, -⟩ := id closed
    obtain ⟨k, rfl⟩ := Nat.exists_eq_add_of_le start
    cases found : b.close .code 0 tail with
    | none =>
      have above := stretch_pos_of_open front found k
      omega
    | some p => exact ⟨p.1, p.2, rfl, closed.unique (closes found)⟩
  · rintro ⟨inside, rest, found, rfl⟩
    exact closes found

/-- The bracket that closes the one at a place, in terms of the text around it. -/
theorem matchingClose?_append (front tail : List Char) (b : Bracket) :
    matchingClose? (front ++ b.opener :: tail) (byteSize front) =
      (b.close .code 0 tail).map fun found => byteSize front + 1 + byteSize found.1 := by
  have kind : Bracket.ofOpener? b.opener = some b := by cases b <;> rfl
  rw [matchingClose?, dropBytes?_append]
  simp only [Option.bind_eq_bind, Option.bind_some, kind]
  cases b.close .code 0 tail <;> rfl

theorem exists_of_matchingClose? {cs : List Char} {start place : Nat}
    (found : matchingClose? cs start = some place) :
    ∃ (b : Bracket) (front tail : List Char), cs = front ++ b.opener :: tail ∧ byteSize front = start := by
  rw [matchingClose?] at found
  obtain ⟨text, dropped, found⟩ := Option.bind_eq_some_iff.1 found
  cases text with
  | nil => cases found
  | cons c tail =>
    obtain ⟨b, kind, -⟩ := Option.bind_eq_some_iff.1 found
    obtain rfl : b.opener = c := by
      have same := List.find?_some kind
      exact beq_iff_eq.1 same
    obtain ⟨front, text, size⟩ := exists_of_dropBytes? dropped
    exact ⟨b, front, tail, text, size⟩

theorem getElem?_bytes {c : Char} (low : c.toNat < 128) (front tail : List Char) :
    (bytes (front ++ c :: tail))[byteSize front]? = some c := by
  rw [bytes_append, bytes_cons, bytes_of_low low, ← length_bytes, List.getElem?_append_right (Nat.le_refl _),
    Nat.sub_self]
  rfl

-- The bytes of a text that is cut at a bracket.
theorem bytes_opener (b : Bracket) (front tail : List Char) :
    bytes (front ++ b.opener :: tail) = bytes front ++ b.opener :: bytes tail := by
  rw [bytes_append, bytes_cons, bytes_of_low (opener_low b), List.singleton_append]

/-- The bracket that closes another is where the count says, byte by byte. -/
theorem closedAt_bytes_iff {place : Nat} :
    b.ClosedAt (bytes (front ++ b.opener :: tail)) (byteSize front) place ↔
      matchingClose? (front ++ b.opener :: tail) (byteSize front) = some place := by
  have code : Quote.code.Marked := trivial
  rw [bytes_opener, ← length_bytes front, closedAt_iff, close_bytes b code, length_bytes,
    matchingClose?_append]
  constructor
  · rintro ⟨inside, rest, found, rfl⟩
    obtain ⟨p, scan, same⟩ := Option.map_eq_some_iff.1 found
    obtain ⟨rfl, -⟩ := Prod.mk.inj same
    rw [scan, Option.map_some, length_bytes, Nat.add_assoc, Nat.add_comm 1]
  · intro found
    obtain ⟨p, scan, rfl⟩ := Option.map_eq_some_iff.1 found
    refine ⟨bytes p.1, bytes p.2, by rw [scan]; rfl, ?_⟩
    rw [length_bytes]
    omega

end Counting

section Matching

variable {b : Bracket} {cs : List Char} {start place i : Nat}

theorem exists_of_opener (opens : (bytes cs)[start]? = some b.opener) :
    ∃ front tail, cs = front ++ b.opener :: tail ∧ byteSize front = start :=
  exists_of_getElem?_bytes (opener_low b) opens

theorem matchingClose?_eq_some_iff : matchingClose? cs start = some place ↔
    ∃ b : Bracket, (bytes cs)[start]? = some b.opener ∧ b.ClosedAt (bytes cs) start place := by
  constructor
  · intro found
    obtain ⟨b, front, tail, rfl, rfl⟩ := exists_of_matchingClose? found
    exact ⟨b, getElem?_bytes (opener_low b) front tail, closedAt_bytes_iff.2 found⟩
  · rintro ⟨b, opens, closed⟩
    obtain ⟨front, tail, rfl, rfl⟩ := exists_of_opener opens
    exact closedAt_bytes_iff.1 closed

-- The depth of a scan that has not come to the closing bracket.
theorem stretch_pos (opens : (bytes cs)[start]? = some b.opener) (after : start ≤ i)
    (before : ∀ place, matchingClose? cs start = some place → i < place) :
    0 < b.stretch (bytes cs) start i := by
  obtain ⟨front, tail, rfl, rfl⟩ := exists_of_opener opens
  obtain ⟨k, rfl⟩ := Nat.exists_eq_add_of_le after
  have code : Quote.code.Marked := trivial
  have scan := close_bytes (n := 0) b code tail
  cases found : b.close .code 0 tail with
  | none =>
    rw [found] at scan
    rw [bytes_opener, ← length_bytes front]
    exact stretch_pos_of_open _ scan k
  | some p =>
    rw [found] at scan
    rw [matchingClose?_append, found] at before
    have early : byteSize front + k < byteSize front + 1 + byteSize p.1 := before _ rfl
    rw [bytes_opener, ← length_bytes front]
    refine stretch_pos_of_close _ scan ?_
    rw [length_bytes]
    omega

theorem matchingClose?_eq_none_iff : matchingClose? cs start = none ↔
    ∀ b : Bracket, (bytes cs)[start]? = some b.opener →
      ∀ i, start ≤ i → i < byteSize cs → b.stretch (bytes cs) start i ≠ 0 := by
  constructor
  · intro open_ b opens i after _ even
    have above := stretch_pos opens after (by rw [open_]; simp)
    omega
  · intro uneven
    cases found : matchingClose? cs start with
    | none => rfl
    | some place =>
      obtain ⟨b, opens, ⟨⟨after, within, even⟩, -⟩⟩ := matchingClose?_eq_some_iff.1 found
      rw [length_bytes] at within
      exact absurd even (uneven b opens place after within)

end Matching

section Calls

variable {name args cs text : List Char} {b : Bracket}

theorem enclosed?_eq_some_iff {rest : List Char} : b.enclosed? text = some (args, rest) ↔
    ∃ tail, text = b.opener :: tail ∧ b.close .code 0 tail = some (args, rest) := by
  cases text with
  | nil => simp [Bracket.enclosed?]
  | cons c tail =>
    rw [Bracket.enclosed?]
    constructor
    · intro found
      split at found
      · rename_i opener
        exact ⟨tail, by rw [opener], found⟩
      · cases found
    · rintro ⟨_, same, found⟩
      obtain ⟨rfl, rfl⟩ := List.cons.inj same
      rw [if_pos rfl, found]

theorem eq_nil_of_byteSize (empty : byteSize cs = 0) : cs = [] := by
  cases cs with
  | nil => rfl
  | cons c cs =>
    have some_ := Char.utf8Size_pos c
    rw [byteSize] at empty
    omega

-- A parenthesis that is closed by the last byte of a text encloses all that follows it.
theorem close_eq_some_iff_place (front args : List Char) (b : Bracket) :
    b.close .code 0 (args ++ [b.closer]) = some (args, []) ↔
      matchingClose? (front ++ b.opener :: (args ++ [b.closer])) (byteSize front) =
        some (byteSize front + 1 + byteSize args) := by
  rw [matchingClose?_append]
  constructor
  · intro found
    rw [found]
    rfl
  · intro found
    obtain ⟨⟨inside, rest⟩, found, size⟩ := Option.map_eq_some_iff.1 found
    have text := Bracket.close_eq found
    have sizes := congrArg byteSize text
    simp only [byteSize_append, byteSize] at sizes
    have size : byteSize inside = byteSize args := Nat.add_left_cancel size
    obtain rfl : rest = [] := eq_nil_of_byteSize (by omega)
    rw [found, List.append_cancel_right text]

theorem stripCall_eq_some_iff : stripCall name cs = some args ↔
    ∃ blanks, (∀ c ∈ blanks, isBlank c = true) ∧ trim cs = name ++ blanks ++ '(' :: (args ++ [')']) ∧
      matchingClose? (trim cs) (byteSize (name ++ blanks)) = some (byteSize (trim cs) - 1) := by
  have size (front : List Char) : byteSize (front ++ '(' :: (args ++ [')'])) - 1 =
      byteSize front + 1 + byteSize args := by
    change byteSize (front ++ Bracket.round.opener :: (args ++ [Bracket.round.closer])) - 1 = _
    rw [byteSize_append, byteSize_opener, byteSize_append, byteSize_closer]
    simp only [byteSize]
    omega
  rw [stripCall]
  constructor
  · intro found
    obtain ⟨rest, named, found⟩ := Option.bind_eq_some_iff.1 found
    obtain ⟨⟨inner, after⟩, enclosed, found⟩ := Option.bind_eq_some_iff.1 found
    obtain ⟨tail, opens, closed⟩ := enclosed?_eq_some_iff.1 enclosed
    cases after with
    | cons c after => cases found
    | nil =>
      obtain rfl := Option.some.inj found
      have ends := Bracket.close_eq closed
      subst ends
      have parts := List.takeWhile_append_dropWhile (p := isBlank) (l := rest)
      have text : trim cs = name ++ rest.takeWhile isBlank ++ '(' :: (inner ++ [')']) := by
        rw [eq_append_of_dropPrefix? named, List.append_assoc]
        exact congrArg (name ++ ·) (parts.symm.trans (congrArg (rest.takeWhile isBlank ++ ·) opens))
      refine ⟨rest.takeWhile isBlank, fun c => List.mem_takeWhile_imp, text, ?_⟩
      rw [text, size]
      exact (close_eq_some_iff_place _ inner .round).1 closed
  · rintro ⟨blanks, blank, text, closed⟩
    rw [text, size] at closed
    have scan := (close_eq_some_iff_place (name ++ blanks) args .round).2 closed
    have start : trimStart (blanks ++ '(' :: (args ++ [')'])) = '(' :: (args ++ [')']) := by
      rw [trimStart, List.dropWhile_append_of_pos blank]
      rfl
    have enclosed : Bracket.round.enclosed? ('(' :: (args ++ [')'])) = some (args, []) :=
      enclosed?_eq_some_iff.2 ⟨_, rfl, scan⟩
    rw [text, List.append_assoc, dropPrefix?_append]
    simp only [Option.bind_eq_bind, Option.bind_some, start, enclosed]

end Calls

/-- A bracket is closed at the first byte where the balance from the bracket on is even. Up to there the
balance is positive, and a bracket that no byte evens out is not closed. Bytes are counted as characters
are. A text is a call of a name if it is the name and one pair of parentheses that the last byte closes. -/
theorem matching_is_counting (cs : List Char) :
    (∀ start : Nat,
      (∀ place, matchingClose? cs start = some place ↔
        ∃ b : Bracket, (bytes cs)[start]? = some b.opener ∧ b.ClosedAt (bytes cs) start place) ∧
      (∀ b : Bracket, (bytes cs)[start]? = some b.opener → ∀ i, start ≤ i →
        (∀ place, matchingClose? cs start = some place → i < place) →
        0 < b.stretch (bytes cs) start i) ∧
      (matchingClose? cs start = none ↔ ∀ b : Bracket, (bytes cs)[start]? = some b.opener →
        ∀ i, start ≤ i → i < byteSize cs → b.stretch (bytes cs) start i ≠ 0)) ∧
    (∀ b : Bracket, b.balance .code (bytes cs) = b.balance .code cs) ∧
    ∀ name args : List Char, stripCall name cs = some args ↔
      ∃ blanks, (∀ c ∈ blanks, isBlank c = true) ∧ trim cs = name ++ blanks ++ '(' :: (args ++ [')']) ∧
        matchingClose? (trim cs) (byteSize (name ++ blanks)) = some (byteSize (trim cs) - 1) := by
  have code : Quote.code.Marked := trivial
  refine ⟨fun start => ⟨fun place => matchingClose?_eq_some_iff, ?_, matchingClose?_eq_none_iff⟩, ?_, ?_⟩
  · exact fun b opens i after before => stretch_pos opens after before
  · exact fun b => balance_bytes b code cs
  · exact fun name args => stripCall_eq_some_iff

-- A parenthesis in a literal is not counted.
theorem matching_is_counting_literal :
    let text := "f(\"(\", g(1)) + 2".toList
    (bytes text)[1]? = some '(' ∧ Bracket.round.ClosedAt (bytes text) 1 11 ∧
      0 < Bracket.round.stretch (bytes text) 1 10 ∧
      stripCall "delay".toList " delay (f(1))".toList = some "f(1)".toList := by
  intro text
  have opens : (bytes text)[1]? = some '(' := by decide +kernel
  have found : matchingClose? text 1 = some 11 := by decide +kernel
  obtain ⟨places, positive, -⟩ := (matching_is_counting text).1 1
  refine ⟨opens, ?_, ?_, ?_⟩
  · obtain ⟨b, opener, closed⟩ := (places 11).1 found
    obtain rfl : b = .round := by
      rw [opens] at opener
      cases b <;> simp [Bracket.opener] at opener ⊢
    exact closed
  · refine positive .round opens 10 (by omega) fun place other => ?_
    rw [found] at other
    obtain rfl := Option.some.inj other
    omega
  · refine ((matching_is_counting _).2.2 _ _).2 ⟨[' '], by decide, by decide +kernel, by decide +kernel⟩

end Breadboard
