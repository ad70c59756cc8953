import Breadboard.Proofs.Compound.Closed

set_option autoImplicit false

/-!
The bytes of a text. Main statement: a scan for a closing bracket goes through the bytes of a text as
through its characters, since no byte of a character of several bytes is a mark, a backslash or a bracket.
-/
namespace Breadboard

open Text
open Canonical (within?)

/-- The bytes of a text, each one as the character of its number. -/
def Text.bytes (cs : List Char) : List Char :=
  cs.flatMap fun c => (String.utf8EncodeChar c).map Char.ofUInt8

/-- Whether the literal that a scan stands in was opened by a mark. -/
def Text.Quote.Marked : Quote → Prop
  | .code => True
  | .inside mark => isMark mark = true
  | .escaped mark => isMark mark = true

/-- Where a scan stands behind a character that is no mark and no backslash. -/
def Text.Quote.past : Quote → Quote
  | .escaped mark => .inside mark
  | q => q

section Bytes

variable {b : Bracket} {q : Quote} {c d : Char} {a cs front rest : List Char} {n : Nat}

theorem Text.Quote.Marked.next (marked : q.Marked) (c : Char) : (q.next c).Marked := by
  cases q with
  | code =>
    by_cases mark : isMark c = true <;> simp [Quote.next, Quote.Marked, mark]
  | inside m =>
    simp only [Quote.next]
    split
    · exact marked
    · split
      · trivial
      · exact marked
  | escaped m => exact marked

theorem Text.Quote.Marked.past (marked : q.Marked) : q.past.Marked := by
  cases q <;> exact marked

@[simp] theorem past_past (q : Quote) : q.past.past = q.past := by cases q <;> rfl

theorem bytes_cons (c : Char) (cs : List Char) : bytes (c :: cs) = bytes [c] ++ bytes cs := by
  simp [bytes]

@[simp] theorem bytes_append (a cs : List Char) : bytes (a ++ cs) = bytes a ++ bytes cs := by
  simp [bytes]

@[simp] theorem length_bytes (cs : List Char) : (bytes cs).length = byteSize cs := by
  induction cs with
  | nil => rfl
  | cons c cs ih =>
    rw [bytes_cons, List.length_append, ih]
    simp [bytes, byteSize]

theorem toNat_ofUInt8 {n : Nat} (byte : n < 256) : (Char.ofUInt8 (UInt8.ofNat n)).toNat = n := by
  change (UInt8.ofNat n).toUInt32.toNat = n
  rw [UInt8.toNat_toUInt32, UInt8.toNat_ofNat', Nat.mod_eq_of_lt byte]

theorem bytes_of_low (low : c.toNat < 128) : bytes [c] = [c] := by
  have small : c.val.toNat ≤ 127 := Nat.le_of_lt_succ low
  have same : Char.ofUInt8 (UInt8.ofNat c.val.toNat) = c :=
    Char.ext (UInt32.toNat_inj.1 (toNat_ofUInt8 (by omega)))
  simp only [bytes, String.utf8EncodeChar, if_pos small, List.flatMap_cons, List.flatMap_nil, List.map_cons,
    List.map_nil, List.append_nil, same]

-- All bytes of a character of more than one byte lie above the characters of one byte.
theorem high_of_mem_bytes (high : 128 ≤ c.toNat) : ∀ d ∈ bytes [c], 128 ≤ d.toNat := by
  have large : ¬c.val.toNat ≤ 127 := Nat.not_le_of_lt high
  have byte {k n : Nat} (within : k + n < 256) (above : 128 ≤ n) :
      128 ≤ (Char.ofUInt8 (UInt8.ofNat (k + n))).toNat := by
    rw [toNat_ofUInt8 within]
    omega
  simp only [bytes, String.utf8EncodeChar, if_neg large, List.flatMap_cons, List.flatMap_nil,
    List.append_nil]
  split
  · simp only [List.map_cons, List.map_nil, List.forall_mem_cons]
    exact ⟨byte (by omega) (by omega), byte (by omega) (by omega), by simp⟩
  · split
    · simp only [List.map_cons, List.map_nil, List.forall_mem_cons]
      exact ⟨byte (by omega) (by omega), byte (by omega) (by omega), byte (by omega) (by omega), by simp⟩
    · simp only [List.map_cons, List.map_nil, List.forall_mem_cons]
      exact ⟨byte (by omega) (by omega), byte (by omega) (by omega), byte (by omega) (by omega),
        byte (by omega) (by omega), by simp⟩

theorem bytes_ne_nil (c : Char) : bytes [c] ≠ [] := by
  have size : (bytes [c]).length = c.utf8Size := by simp [byteSize]
  rintro none_
  rw [none_] at size
  exact Nat.ne_of_lt (Char.utf8Size_pos c) size

-- Marks, backslashes and brackets are characters of one byte.
theorem isMark_of_high (high : 128 ≤ c.toNat) : isMark c = false := by
  simp only [isMark, Bool.or_eq_false_iff, beq_eq_false_iff_ne]
  constructor <;> (rintro rfl; revert high; decide)

theorem toNat_mark_lt (mark : isMark c = true) : c.toNat < 128 := by
  refine Nat.lt_of_not_le fun high => ?_
  rw [isMark_of_high high] at mark
  cases mark

theorem opener_low (b : Bracket) : b.opener.toNat < 128 := by cases b <;> decide

theorem closer_low (b : Bracket) : b.closer.toNat < 128 := by cases b <;> decide

theorem byteSize_opener (b : Bracket) (cs : List Char) : byteSize (b.opener :: cs) = byteSize cs + 1 := by
  have one : b.opener.utf8Size = 1 := by cases b <;> decide
  rw [byteSize, one, Nat.add_comm]

theorem byteSize_closer (b : Bracket) (cs : List Char) : byteSize (b.closer :: cs) = byteSize cs + 1 := by
  have one : b.closer.utf8Size = 1 := by cases b <;> decide
  rw [byteSize, one, Nat.add_comm]

theorem ne_of_high (high : 128 ≤ c.toNat) (low : d.toNat < 128) : c ≠ d := by
  rintro rfl
  omega

theorem weight_of_high (b : Bracket) (high : 128 ≤ c.toNat) : b.weight c = 0 := by
  have opener : c ≠ b.opener := ne_of_high high (opener_low b)
  have closer : c ≠ b.closer := ne_of_high high (closer_low b)
  simp [Bracket.weight, opener, closer]

theorem next_of_high (marked : q.Marked) (high : 128 ≤ c.toNat) : q.next c = q.past := by
  cases q with
  | code => simp [Quote.next, Quote.past, isMark_of_high high]
  | inside mark =>
    have notMark : c ≠ mark := ne_of_high high (toNat_mark_lt marked)
    have notEscape : c ≠ '\\' := ne_of_high high (by decide)
    simp [Quote.next, Quote.past, notMark, notEscape]
  | escaped mark => rfl

theorem after_of_high (marked : q.Marked) (high : ∀ d ∈ a, 128 ≤ d.toNat) (some_ : a ≠ []) :
    q.after a = q.past := by
  induction a generalizing q with
  | nil => exact absurd rfl some_
  | cons d a ih =>
    obtain ⟨highD, high⟩ := List.forall_mem_cons.1 high
    rw [Quote.after_cons, next_of_high marked highD]
    cases a with
    | nil => rfl
    | cons e a => rw [ih marked.past high (List.cons_ne_nil e a), past_past]

theorem balance_of_high (b : Bracket) (q : Quote) (high : ∀ d ∈ a, 128 ≤ d.toNat) : b.balance q a = 0 := by
  induction a generalizing q with
  | nil => rfl
  | cons d a ih =>
    obtain ⟨highD, high⟩ := List.forall_mem_cons.1 high
    simp [Bracket.balance, weight_of_high b highD, ih _ high]

theorem after_bytes_singleton (marked : q.Marked) (c : Char) : q.after (bytes [c]) = q.next c := by
  by_cases low : c.toNat < 128
  · rw [bytes_of_low low]
    rfl
  · have high := Nat.le_of_not_lt low
    rw [after_of_high marked (high_of_mem_bytes high) (bytes_ne_nil c), next_of_high marked high]

theorem after_bytes (marked : q.Marked) (cs : List Char) : q.after (bytes cs) = q.after cs := by
  induction cs generalizing q with
  | nil => rfl
  | cons c cs ih =>
    rw [bytes_cons, Quote.after_append, after_bytes_singleton marked, ih (marked.next c), Quote.after_cons]

-- Counting in the bytes of a text is counting in its characters.
theorem balance_bytes (b : Bracket) (marked : q.Marked) (cs : List Char) :
    b.balance q (bytes cs) = b.balance q cs := by
  induction cs generalizing q with
  | nil => rfl
  | cons c cs ih =>
    have first : b.balance q (bytes [c]) = if q.isCode c then b.weight c else 0 := by
      by_cases low : c.toNat < 128
      · rw [bytes_of_low low, Bracket.balance, Bracket.balance_nil, Int.add_zero]
      · have high := Nat.le_of_not_lt low
        simp [balance_of_high b q (high_of_mem_bytes high), weight_of_high b high]
    rw [bytes_cons, Bracket.balance_append, after_bytes_singleton marked, ih (marked.next c), first,
      Bracket.balance]

theorem map_within? (c : Char) (found : Option (List Char × List Char)) :
    (within? [c] found).map (Prod.map bytes bytes) =
      within? (bytes [c]) (found.map (Prod.map bytes bytes)) := by
  cases found with
  | none => rfl
  | some p => simp [within?, Prod.map, bytes_cons c p.1]

-- Looking for a closing bracket in the bytes of a text finds what it finds in the characters.
theorem close_bytes (b : Bracket) (marked : q.Marked) (cs : List Char) :
    b.close q n (bytes cs) = (b.close q n cs).map (Prod.map bytes bytes) := by
  induction cs generalizing q n with
  | nil => rfl
  | cons c cs ih =>
    rw [bytes_cons]
    by_cases low : c.toNat < 128
    · rw [bytes_of_low low, List.singleton_append]
      obtain ⟨rfl, rfl, rfl⟩ | ⟨depth, moved⟩ := closes_or_moves b q n c
      · rw [Canonical.close_closer_zero, Canonical.close_closer_zero]
        rfl
      · rw [close_step b moved, close_step b moved, map_within?, ih (marked.next c), bytes_of_low low]
    · have high := Nat.le_of_not_lt low
      have flat : (n : Int) = n + if q.isCode c then b.weight c else 0 := by simp [weight_of_high b high]
      have level : ∀ front, front <+: bytes [c] → 0 ≤ (n : Int) + b.balance q front := by
        intro front inside
        rw [balance_of_high b q fun d member => high_of_mem_bytes high d (inside.subset member)]
        omega
      rw [close_append b level, balance_of_high b q (high_of_mem_bytes high), close_step b flat cs,
        after_bytes_singleton marked, Int.add_zero, Int.toNat_natCast, ih (marked.next c), map_within?]

-- A character of one byte that stands among the bytes of a text stands among its characters.
theorem exists_of_getElem?_bytes (low : c.toNat < 128) (found : (bytes cs)[n]? = some c) :
    ∃ front tail, cs = front ++ c :: tail ∧ byteSize front = n := by
  induction cs generalizing n with
  | nil => cases found
  | cons d cs ih =>
    rw [bytes_cons] at found
    have size : (bytes [d]).length = d.utf8Size := by simp [byteSize]
    by_cases here : n < d.utf8Size
    · rw [List.getElem?_append_left (by omega)] at found
      by_cases lowD : d.toNat < 128
      · rw [bytes_of_low lowD] at found size
        obtain rfl : n = 0 := by
          rw [List.length_singleton] at size
          omega
        obtain rfl := Option.some.inj found
        exact ⟨[], cs, rfl, rfl⟩
      · have high := high_of_mem_bytes (Nat.le_of_not_lt lowD) c (List.mem_of_getElem? found)
        omega
    · rw [List.getElem?_append_right (by omega), size] at found
      obtain ⟨front, tail, rfl, place⟩ := ih found
      exact ⟨d :: front, tail, rfl, by rw [byteSize, place]; omega⟩

theorem exists_of_dropBytes? (found : dropBytes? n cs = some rest) :
    ∃ front, cs = front ++ rest ∧ byteSize front = n := by
  induction cs generalizing n with
  | nil =>
    cases n with
    | zero =>
      obtain rfl := Option.some.inj found
      exact ⟨[], rfl, rfl⟩
    | succ n => cases found
  | cons c cs ih =>
    cases n with
    | zero =>
      obtain rfl := Option.some.inj found
      exact ⟨[], rfl, rfl⟩
    | succ n =>
      rw [dropBytes?] at found
      split at found
      · obtain ⟨front, rfl, place⟩ := ih found
        exact ⟨c :: front, rfl, by rw [byteSize, place]; omega⟩
      · cases found

theorem contains_brace_iff (c : Char) :
    (String.utf8EncodeChar c).contains 0x7b = true ↔ c = Bracket.curly.opener := by
  constructor
  · intro contains
    have member : Bracket.curly.opener ∈ bytes [c] := by
      rw [bytes, List.flatMap_singleton]
      exact List.mem_map.2 ⟨0x7b, List.contains_iff_mem.1 contains, rfl⟩
    by_cases low : c.toNat < 128
    · rw [bytes_of_low low] at member
      exact (List.mem_singleton.1 member).symm
    · exact absurd (high_of_mem_bytes (Nat.le_of_not_lt low) _ member) (by decide)
  · rintro rfl
    decide

end Bytes

end Breadboard
