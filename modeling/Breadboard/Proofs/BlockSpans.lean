import Breadboard.Proofs.Matching

set_option autoImplicit false

/-!
The brace blocks of a text and what lies between them. Main statement: their spans follow each other
without overlap, each one runs from a brace in code to the brace that evens it out, or to the end of the
text if nothing does, and what is left of the text opens no block.
-/
namespace Breadboard

open Text

/-- The characters of a text whose first byte is at a place that is kept. -/
def Text.kept (keep : Nat → Bool) : Nat → List Char → List Char
  | _, [] => []
  | place, c :: cs =>
    if keep place then c :: kept keep (place + c.utf8Size) cs else kept keep (place + c.utf8Size) cs

/-- Whether a place lies in one of the spans, whose last places belong to them. -/
def Text.covers (spans : List (Nat × Nat)) (place : Nat) : Bool :=
  spans.any fun span => span.1 ≤ place && place ≤ span.2

/-- A text without its spans. -/
def Text.without (spans : List (Nat × Nat)) (cs : List Char) : List Char :=
  kept (fun place => !covers spans place) 0 cs

def Text.Block.span (b : Block) : Nat × Nat := (b.start, b.stop)

/-- The text up to the closing brace of a block, read backwards. -/
def Text.Block.through (b : Block) : List Char :=
  Bracket.curly.closer :: b.inside.reverse ++ Bracket.curly.opener :: b.behind

/-- How blocks lie in a text that stands behind another one: a gap without a brace in code, a block
closed by the first brace that evens it out, and so on, or a block that nothing closes. -/
inductive Laid : List Char → List Char → List Block → Prop
  | gap {behind cs : List Char} (bare : containsCode 0x7b .code cs = false) : Laid behind cs []
  | block {behind gap tail inside rest : List Char} {bs : List Block}
      (bare : containsCode 0x7b .code gap = false) (code : Quote.code.after gap = .code)
      (closes : Bracket.curly.close .code 0 tail = some (inside, rest))
      (later : Laid (Block.mk (gap.reverse ++ behind) inside).through rest bs) :
      Laid behind (gap ++ Bracket.curly.opener :: tail) (⟨gap.reverse ++ behind, inside⟩ :: bs)
  | unclosed {behind gap tail : List Char}
      (bare : containsCode 0x7b .code gap = false) (code : Quote.code.after gap = .code)
      (open_ : Bracket.curly.close .code 0 tail = none) :
      Laid behind (gap ++ Bracket.curly.opener :: tail) [⟨gap.reverse ++ behind, tail⟩]

section Scan

variable {q : Quote} {c : Char} {cs gap tail behind seen : List Char} {depth : Nat}

theorem containsCode_cons_eq_false_iff : containsCode 0x7b q (c :: cs) = false ↔
    ¬(q.isCode c = true ∧ c = Bracket.curly.opener) ∧ containsCode 0x7b (q.next c) cs = false := by
  rw [containsCode, Bool.or_eq_false_iff, ← contains_brace_iff, ← Bool.and_eq_true, Bool.not_eq_true]

-- A text is bare, or it has a first brace in code.
theorem exists_gap (q : Quote) (cs : List Char) : containsCode 0x7b q cs = false ∨
    ∃ gap tail, cs = gap ++ Bracket.curly.opener :: tail ∧ containsCode 0x7b q gap = false ∧
      q.after gap = .code := by
  induction cs generalizing q with
  | nil => exact .inl rfl
  | cons c cs ih =>
    by_cases opens : q.isCode c = true ∧ c = Bracket.curly.opener
    · obtain ⟨code, rfl⟩ := opens
      exact .inr ⟨[], cs, rfl, rfl, (code_of_isCode code).1⟩
    · obtain bare | ⟨gap, tail, rfl, bare, code⟩ := ih (q.next c)
      · exact .inl (containsCode_cons_eq_false_iff.2 ⟨opens, bare⟩)
      · exact .inr ⟨c :: gap, tail, rfl, containsCode_cons_eq_false_iff.2 ⟨opens, bare⟩, code⟩

theorem blocksFrom_bare (bare : containsCode 0x7b q gap = false) (behind cs : List Char) :
    blocksFrom q (.outside behind) (gap ++ cs) =
      blocksFrom (q.after gap) (.outside (gap.reverse ++ behind)) cs := by
  induction gap generalizing q behind with
  | nil => rfl
  | cons c gap ih =>
    obtain ⟨passes, bare⟩ := containsCode_cons_eq_false_iff.1 bare
    have onward := ih bare (c :: behind)
    rw [List.cons_append, blocksFrom_cons, Quote.after_cons, List.reverse_cons, List.append_assoc,
      List.singleton_append]
    by_cases code : q.isCode c = true
    · have other : c ≠ Bracket.curly.opener := fun opener => passes ⟨code, opener⟩
      rw [Quote.next_of_isCode code] at onward ⊢
      simpa [code, BlockScan.code, other] using onward
    · simpa [code, BlockScan.literal] using onward

-- A character inside a block that does not close it.
theorem blocksFrom_step {depth' : Nat}
    (moved : (depth' : Int) = depth + if q.isCode c then Bracket.curly.weight c else 0) (cs : List Char) :
    blocksFrom q (.within behind seen depth) (c :: cs) =
      blocksFrom (q.next c) (.within behind (c :: seen) depth') cs := by
  rw [blocksFrom_cons]
  by_cases code : q.isCode c = true
  · rw [if_pos code] at moved
    rw [if_pos code, Quote.next_of_isCode code]
    by_cases closer : c = Bracket.curly.closer
    · rw [closer, Canonical.weight_closer] at moved
      obtain rfl : depth = depth' + 1 := by omega
      simp [BlockScan.code, closer]
    · by_cases opener : c = Bracket.curly.opener
      · rw [opener, Canonical.weight_opener] at moved
        obtain rfl : depth' = depth + 1 := by omega
        have other : Bracket.curly.opener ≠ Bracket.curly.closer := by decide
        simp [BlockScan.code, opener, other]
      · obtain rfl : depth' = depth := by
          simp only [Bracket.weight, if_neg opener, if_neg closer] at moved
          omega
        simp [BlockScan.code, opener, closer]
  · rw [if_neg code] at moved
    obtain rfl : depth' = depth := by omega
    rw [if_neg code]
    rfl

theorem blocksFrom_open (open_ : Bracket.curly.close q depth cs = none) :
    blocksFrom q (.within behind seen depth) cs = [⟨behind, seen.reverse ++ cs⟩] := by
  induction cs generalizing q depth seen with
  | nil => simp [blocksFrom]
  | cons c cs ih =>
    obtain ⟨rfl, rfl, rfl⟩ | ⟨depth', moved⟩ := closes_or_moves .curly q depth c
    · rw [Canonical.close_closer_zero] at open_
      cases open_
    · rw [close_step .curly moved, Canonical.within?, Option.map_eq_none_iff] at open_
      rw [blocksFrom_step moved, ih open_]
      simp

theorem blocksFrom_opener (behind tail : List Char) :
    blocksFrom .code (.outside behind) (Bracket.curly.opener :: tail) =
      blocksFrom .code (.within behind [] 0) tail := rfl

theorem laid_blocksFrom (behind cs : List Char) : Laid behind cs (blocksFrom .code (.outside behind) cs) := by
  obtain bare | ⟨gap, tail, rfl, bare, code⟩ := exists_gap .code cs
  · have none_ := blocksFrom_bare bare behind []
    rw [List.append_nil] at none_
    rw [none_]
    exact .gap bare
  · rw [blocksFrom_bare bare, code, blocksFrom_opener]
    cases closes : Bracket.curly.close .code 0 tail with
    | none =>
      rw [blocksFrom_open closes]
      exact .unclosed bare code closes
    | some found =>
      obtain ⟨inside, rest⟩ := found
      -- What stands behind the block is shorter than the text.
      have shorter : rest.length < (gap ++ Bracket.curly.opener :: tail).length := by
        rw [Bracket.close_eq closes]
        simp only [List.length_append, List.length_cons]
        omega
      rw [Canonical.blocksFrom_within _ _ closes]
      simp only [List.reverse_nil, List.nil_append, List.append_nil]
      exact .block bare code closes (laid_blocksFrom _ rest)
termination_by cs.length

end Scan

section Kept

variable {keep keep' : Nat → Bool} {place : Nat} {a cs : List Char}

theorem kept_append (keep : Nat → Bool) (place : Nat) (a cs : List Char) :
    kept keep place (a ++ cs) = kept keep place a ++ kept keep (place + byteSize a) cs := by
  induction a generalizing place with
  | nil => rfl
  | cons c a ih =>
    rw [List.cons_append, kept, kept, ih, byteSize, Nat.add_assoc]
    split <;> rfl

theorem kept_congr (same : ∀ i, place ≤ i → i < place + byteSize cs → keep i = keep' i) :
    kept keep place cs = kept keep' place cs := by
  induction cs generalizing place with
  | nil => rfl
  | cons c cs ih =>
    have some_ := Char.utf8Size_pos c
    rw [byteSize] at same
    have first := same place (Nat.le_refl place) (by omega)
    have later : kept keep (place + c.utf8Size) cs = kept keep' (place + c.utf8Size) cs :=
      ih fun i low high => same i (by omega) (by omega)
    rw [kept, kept, first, later]

theorem kept_all (place : Nat) (cs : List Char) : kept (fun _ => true) place cs = cs := by
  induction cs generalizing place with
  | nil => rfl
  | cons c cs ih => rw [kept, ih, if_pos rfl]

theorem kept_none (place : Nat) (cs : List Char) : kept (fun _ => false) place cs = [] := by
  induction cs generalizing place with
  | nil => rfl
  | cons c cs ih => rw [kept, ih, if_neg Bool.false_ne_true]

theorem covers_cons (span : Nat × Nat) (spans : List (Nat × Nat)) (place : Nat) :
    covers (span :: spans) place = (decide (span.1 ≤ place ∧ place ≤ span.2) || covers spans place) := by
  simp [covers]

theorem kept_gap {gap : List Char} {place : Nat} {spans : List (Nat × Nat)}
    (later : ∀ span ∈ spans, place + byteSize gap ≤ span.1) :
    kept (fun i => !covers spans i) place gap = gap := by
  refine (kept_congr fun i _ before => ?_).trans (kept_all place gap)
  rw [Bool.not_eq_true', covers, List.any_eq_false]
  intro span member
  have low := later span member
  simp only [Bool.and_eq_true, decide_eq_true_eq]
  omega

theorem kept_block {a : List Char} {place last : Nat} (within : place + byteSize a ≤ last + 1)
    (spans : List (Nat × Nat)) : kept (fun i => !covers ((place, last) :: spans) i) place a = [] := by
  refine (kept_congr fun i low high => ?_).trans (kept_none place a)
  rw [covers_cons, decide_eq_true (by omega)]
  rfl

-- Of a gap and the block behind it the gap is kept.
theorem kept_gap_block {gap a : List Char} {place last : Nat} {spans : List (Nat × Nat)}
    (within : place + byteSize gap + byteSize a ≤ last + 1)
    (later : ∀ span ∈ spans, place + byteSize gap ≤ span.1) :
    kept (fun i => !covers ((place + byteSize gap, last) :: spans) i) place (gap ++ a) = gap := by
  rw [kept_append, kept_block within, kept_gap (List.forall_mem_cons.2 ⟨Nat.le_refl _, later⟩),
    List.append_nil]

theorem kept_behind {place first last : Nat} (past : last < place) (spans : List (Nat × Nat)) (cs : List Char) :
    kept (fun i => !covers ((first, last) :: spans) i) place cs = kept (fun i => !covers spans i) place cs := by
  refine kept_congr fun i low _ => ?_
  rw [covers_cons, decide_eq_false (by omega), Bool.false_or]

end Kept

section Places

theorem byteSize_reverse (cs : List Char) : byteSize cs.reverse = byteSize cs := by
  induction cs with
  | nil => rfl
  | cons c cs ih =>
    rw [List.reverse_cons, byteSize_append, ih, byteSize, byteSize, byteSize]
    omega

theorem Text.Block.start_eq (b : Block) : b.start = byteSize b.behind.reverse :=
  (byteSize_reverse b.behind).symm

theorem through_reverse (b : Block) : b.through.reverse =
    b.behind.reverse ++ (Bracket.curly.opener :: b.inside ++ [Bracket.curly.closer]) := by
  simp [Block.through]

theorem byteSize_through (b : Block) : byteSize b.through = b.stop + 1 := by
  rw [Block.through, List.cons_append, byteSize_closer, byteSize_append, byteSize_opener, byteSize_reverse,
    Block.stop, Block.start]
  omega

-- The span of a block behind a gap.
theorem span_mk (behind gap inside : List Char) : (Block.mk (gap.reverse ++ behind) inside).span =
    (byteSize behind + byteSize gap, byteSize behind + byteSize gap + 1 + byteSize inside) := by
  simp only [Block.span, Block.stop, Block.start, byteSize_append, byteSize_reverse, Nat.add_comm (byteSize gap)]

end Places

namespace Laid

variable {behind cs : List Char} {bs : List Block}

theorem le_start (laid : Laid behind cs bs) : ∀ b ∈ bs, byteSize behind ≤ b.start := by
  induction laid with
  | gap bare => simp
  | @block behind gap tail inside rest bs bare code closes later ih =>
    refine List.forall_mem_cons.2 ⟨?_, fun b member => ?_⟩
    · simp [Block.start]
    · have low := ih b member
      rw [byteSize_through, Block.stop, Block.start, byteSize_append] at low
      omega
  | unclosed bare code open_ => simp [Block.start]

theorem pairwise (laid : Laid behind cs bs) : bs.Pairwise fun a b => a.stop < b.start := by
  induction laid with
  | gap bare => exact .nil
  | block bare code closes later ih =>
    refine .cons (fun b member => ?_) ih
    have low := later.le_start b member
    rw [byteSize_through] at low
    omega
  | unclosed bare code open_ => exact List.pairwise_singleton _ _

/-- Where a block of a text begins and how it ends. -/
theorem ends (laid : Laid behind cs bs) (start : Quote.code.after behind.reverse = .code) :
    ∀ b ∈ bs, ∃ tail, behind.reverse ++ cs = b.behind.reverse ++ Bracket.curly.opener :: tail ∧
      Quote.code.after b.behind.reverse = .code ∧
      ((∃ rest, Bracket.curly.close .code 0 tail = some (b.inside, rest)) ∨
        Bracket.curly.close .code 0 tail = none ∧ b.inside = tail ∧ bs.getLast? = some b) := by
  induction laid with
  | gap bare => simp
  | @block behind gap tail inside rest bs bare code closes later ih =>
    have front : Quote.code.after (gap.reverse ++ behind).reverse = .code := by
      rw [List.reverse_append, List.reverse_reverse, Quote.after_append, start, code]
    have text : (Block.mk (gap.reverse ++ behind) inside).through.reverse ++ rest =
        behind.reverse ++ (gap ++ Bracket.curly.opener :: tail) := by
      rw [through_reverse, Bracket.close_eq closes]
      simp
    have behind_ : Quote.code.after (Block.mk (gap.reverse ++ behind) inside).through.reverse = .code := by
      have opens : Quote.code.next Bracket.curly.opener = .code := rfl
      rw [through_reverse, Quote.after_append, front, List.cons_append, Quote.after_cons, opens,
        Quote.after_append, (closed_of_close closes).1]
      rfl
    refine List.forall_mem_cons.2 ⟨⟨tail, by simp, front, .inl ⟨rest, closes⟩⟩, fun b member => ?_⟩
    rw [← text]
    obtain ⟨tail', same, codes, closed | ⟨open_, whole, last⟩⟩ := ih behind_ b member
    · exact ⟨tail', same, codes, .inl closed⟩
    · exact ⟨tail', same, codes, .inr ⟨open_, whole, by rw [List.getLast?_cons, last]; rfl⟩⟩
  | @unclosed behind gap tail bare code open_ =>
    refine List.forall_mem_singleton.2 ⟨tail, by simp, ?_, .inr ⟨open_, rfl, rfl⟩⟩
    rw [List.reverse_append, List.reverse_reverse, Quote.after_append, start, code]

theorem bare (laid : Laid behind cs bs) :
    containsCode 0x7b .code (kept (fun place => !covers (bs.map Block.span) place) (byteSize behind) cs) =
      false := by
  induction laid with
  | @gap behind cs bare =>
    have all : kept (fun place => !covers ([].map Block.span) place) (byteSize behind) cs = cs :=
      kept_gap (by simp)
    rw [all, bare]
  | @block behind gap tail inside rest bs bare code closes later ih =>
    have text : gap ++ Bracket.curly.opener :: tail =
        (gap ++ (Bracket.curly.opener :: inside ++ [Bracket.curly.closer])) ++ rest := by
      rw [Bracket.close_eq closes]
      simp
    have size : byteSize behind + byteSize gap +
        byteSize (Bracket.curly.opener :: inside ++ [Bracket.curly.closer]) =
        byteSize behind + byteSize gap + 1 + byteSize inside + 1 := by
      have nothing : byteSize [] = 0 := rfl
      rw [List.cons_append, byteSize_opener, byteSize_append, byteSize_closer, nothing]
      omega
    have past : byteSize (Block.mk (gap.reverse ++ behind) inside).through =
        byteSize behind + byteSize gap + 1 + byteSize inside + 1 := by
      rw [byteSize_through]
      exact congrArg (·.2 + 1) (span_mk behind gap inside)
    rw [past] at ih
    have later_ : ∀ span ∈ bs.map Block.span, byteSize behind + byteSize gap ≤ span.1 := by
      intro span member
      obtain ⟨b, listed, rfl⟩ := List.mem_map.1 member
      have low := later.le_start b listed
      rw [past] at low
      exact Nat.le_trans (by omega) low
    rw [text, kept_append, List.map_cons, span_mk, kept_gap_block (Nat.le_of_eq size) later_, byteSize_append,
      ← Nat.add_assoc, size, kept_behind (Nat.lt_succ_self _), Canonical.containsCode_append, bare, code, ih]
    rfl
  | @unclosed behind gap tail bare code open_ =>
    have size : byteSize behind + byteSize gap + byteSize (Bracket.curly.opener :: tail) ≤
        byteSize behind + byteSize gap + 1 + byteSize tail + 1 := by
      rw [byteSize_opener]
      omega
    rw [List.map_singleton, span_mk, kept_gap_block size (by simp), bare]

end Laid

section Ends

variable {b : Block} {tail rest : List Char}

theorem after_take_start (code : Quote.code.after b.behind.reverse = .code) :
    Quote.code.after ((bytes (b.behind.reverse ++ Bracket.curly.opener :: tail)).take b.start) = .code := by
  have marked : Quote.code.Marked := trivial
  rw [bytes_append, b.start_eq, ← length_bytes, List.take_left, after_bytes marked, code]

theorem matchingClose?_block (closes : Bracket.curly.close .code 0 tail = some (b.inside, rest)) :
    matchingClose? (b.behind.reverse ++ Bracket.curly.opener :: tail) b.start = some b.stop := by
  rw [Block.stop, b.start_eq, matchingClose?_append, closes, Option.map_some]

-- A block that is closed ends at a closing brace.
theorem getElem?_stop (closes : Bracket.curly.close .code 0 tail = some (b.inside, rest)) :
    (bytes (b.behind.reverse ++ Bracket.curly.opener :: tail))[b.stop]? = some Bracket.curly.closer := by
  have found := getElem?_bytes (closer_low .curly) (b.behind.reverse ++ (Bracket.curly.opener :: b.inside)) rest
  have place : byteSize (b.behind.reverse ++ (Bracket.curly.opener :: b.inside)) = b.stop := by
    rw [byteSize_append, byteSize_opener, ← b.start_eq, Block.stop]
    omega
  rw [place, List.append_assoc] at found
  rw [Bracket.close_eq closes]
  exact found

end Ends

/-- Blocks partition a text: their spans are in order and apart from each other, each begins at a brace in
code and ends at the brace that first evens it out, or it is the last one, nothing evens it out and it ends
where the text ends. Without its blocks the text has no opening brace in code. -/
theorem blocks_partition (cs : List Char) :
    (blocks cs).Pairwise (fun a b => a.stop < b.start) ∧
    (∀ b ∈ blocks cs, b.start < b.stop ∧ Quote.code.after ((bytes cs).take b.start) = .code ∧
      (bytes cs)[b.start]? = some '\x7b' ∧
      ((bytes cs)[b.stop]? = some '\x7d' ∧ Bracket.curly.ClosedAt (bytes cs) b.start b.stop ∨
        b.stop = byteSize cs ∧ (blocks cs).getLast? = some b ∧
          ∀ place, ¬Bracket.curly.ClosedAt (bytes cs) b.start place)) ∧
    containsCode 0x7b .code (without ((blocks cs).map Block.span) cs) = false := by
  have laid := laid_blocksFrom [] cs
  refine ⟨laid.pairwise, fun b member => ?_, laid.bare⟩
  obtain ⟨tail, rfl, code, ending⟩ := laid.ends rfl b member
  have opens := getElem?_bytes (opener_low .curly) b.behind.reverse tail
  rw [← b.start_eq] at opens
  refine ⟨by rw [Block.stop]; omega, after_take_start code, opens, ?_⟩
  rw [b.start_eq]
  simp only [closedAt_bytes_iff]
  rw [← b.start_eq]
  obtain ⟨rest, closes⟩ | ⟨open_, whole, last⟩ := ending
  · exact .inl ⟨getElem?_stop closes, matchingClose?_block closes⟩
  · refine .inr ⟨?_, last, fun place found => ?_⟩
    · rw [Block.stop, whole, byteSize_append, byteSize_opener, ← b.start_eq]
      omega
    · rw [b.start_eq, matchingClose?_append, open_] at found
      cases found

-- A brace in a literal, a stray closing one, a block, and another one that is left open.
theorem blocks_partition_unclosed :
    let text := "\"\x7b\" \x7d\x7ba\x7d\x7b b".toList
    let block : Block := ⟨"\"\x7b\" \x7d".toList.reverse, ['a']⟩
    block ∈ blocks text ∧ Bracket.curly.ClosedAt (bytes text) 5 7 ∧
      (blocks text).map Block.span = [(5, 7), (8, 11)] ∧
      containsCode 0x7b .code (without [(5, 7), (8, 11)] text) = false := by
  intro text block
  have spans : (blocks text).map Block.span = [(5, 7), (8, 11)] := by decide +kernel
  have member : block ∈ blocks text := List.mem_cons_self
  obtain ⟨-, each, left⟩ := blocks_partition text
  rw [spans] at left
  obtain ⟨-, -, -, ⟨-, closed⟩ | ⟨stop, -⟩⟩ := each block member
  · exact ⟨member, closed, spans, left⟩
  · exact absurd stop (by decide)

end Breadboard
