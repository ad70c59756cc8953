import Breadboard.Proofs.Canonical.Actions

set_option autoImplicit false

/-!
The layout of statements. Main statements: a block of canonical lines is cut into the texts of its
statements, one each, and these texts are code in balanced braces.
-/
namespace Breadboard.Canonical

open Text

section Lines

variable {line : List Char} {ls : List (List Char)}

-- Lines that each follow the end of another.
def follow (ls : List (List Char)) : List Char := ls.flatMap ('\n' :: ·)

@[simp] theorem follow_nil : follow [] = [] := rfl

@[simp] theorem follow_cons (line : List Char) (ls : List (List Char)) :
    follow (line :: ls) = '\n' :: line ++ follow ls := List.flatMap_cons

@[simp] theorem follow_append (a b : List (List Char)) : follow (a ++ b) = follow a ++ follow b :=
  List.flatMap_append

theorem linesFrom_append (seen : List Char) (cs : List Char) (inLine : ∀ c ∈ line, InLine c) :
    linesFrom seen (line ++ cs) = linesFrom (line.reverse ++ seen) cs := by
  induction line generalizing seen with
  | nil => rfl
  | cons c line ih =>
    rw [List.forall_mem_cons] at inLine
    simp [linesFrom, inLine.1.1, ih (c :: seen) inLine.2]

theorem dropReturn_of_inLine {cs : List Char} (inLine : ∀ c ∈ cs, InLine c) : dropReturn cs = cs := by
  cases cs with
  | nil => rfl
  | cons c cs =>
    have ne : c ≠ '\r' := (inLine c (by simp)).2
    rw [dropReturn]
    simpa using ne

theorem lines_cons (cs : List Char) (inLine : ∀ c ∈ line, InLine c) :
    lines (line ++ '\n' :: cs) = line :: lines cs := by
  have kept : dropReturn line.reverse = line.reverse :=
    dropReturn_of_inLine fun c h => inLine c (List.mem_reverse.1 h)
  rw [lines, linesFrom_append [] _ inLine]
  simp [linesFrom, kept, lines]

@[simp] theorem printed_nil : printed [] = [] := rfl

@[simp] theorem printed_cons (line : List Char) (ls : List (List Char)) :
    printed (line :: ls) = line ++ '\n' :: printed ls := by simp [printed]

@[simp] theorem printed_append (a b : List (List Char)) : printed (a ++ b) = printed a ++ printed b :=
  List.flatMap_append

theorem lines_printed (inLine : ∀ line ∈ ls, ∀ c ∈ line, InLine c) : lines (printed ls) = ls := by
  induction ls with
  | nil => rfl
  | cons line ls ih =>
    rw [List.forall_mem_cons] at inLine
    rw [printed_cons, lines_cons _ inLine.1, ih inLine.2]

theorem lines_follow (rest : List Char) (first : ∀ c ∈ line, InLine c)
    (inLine : ∀ line ∈ ls, ∀ c ∈ line, InLine c) :
    lines (line ++ (follow ls ++ '\n' :: rest)) = line :: ls ++ lines rest := by
  induction ls generalizing line with
  | nil => exact lines_cons rest first
  | cons next ls ih =>
    rw [List.forall_mem_cons] at inLine
    have text : line ++ (follow (next :: ls) ++ '\n' :: rest) =
        line ++ '\n' :: (next ++ (follow ls ++ '\n' :: rest)) := by simp
    rw [text, lines_cons _ first, ih inLine.1 inLine.2]
    rfl

theorem intercalate_eq (line : List Char) (ls : List (List Char)) :
    ['\n'].intercalate (line :: ls) = line ++ follow ls := by
  induction ls generalizing line with
  | nil => simp [List.intercalate]
  | cons next ls ih =>
    have rest := ih next
    simp only [List.intercalate, List.intersperse_cons_cons, List.flatten_cons] at rest ⊢
    simp [rest]

end Lines

section Balance

variable {head : List Char}

theorem blank_replicate (n : Nat) : ∀ c ∈ List.replicate n ' ', isBlank c = true := by
  intro c h
  rw [List.eq_of_mem_replicate h]
  rfl

theorem code_replicate {within top : Char → Prop} (space : top ' ') (n : Nat) :
    Code within top (List.replicate n ' ') := by
  refine .ofPlain (fun c h => ?_) fun c h => ?_
  · rw [List.eq_of_mem_replicate h]
    rfl
  · rw [List.eq_of_mem_replicate h]
    exact space

@[simp] theorem balance_indented (n : Nat) (line : List Char) :
    Bracket.curly.balance .code (indented n line) = Bracket.curly.balance .code line := by
  have blanks : Code (fun _ => True) (fun _ => True) (List.replicate n ' ') := code_replicate trivial n
  rw [indented, Bracket.balance_append, blanks.balance_eq, blanks.after_eq, Int.zero_add]

theorem balance_opening (code : Code InLine InLine head) :
    Bracket.curly.balance .code (opening head) = 1 := by
  rw [opening, Bracket.balance_append, code.balance_eq, code.after_eq]
  decide

-- A line that closes one body and opens the next.
theorem balance_reopening (code : Code InLine InLine head) :
    Bracket.curly.balance .code (opening ('\x7d' :: head)) = 0 := by
  have closer : isMark '\x7d' = false := rfl
  have weight : Bracket.curly.weight '\x7d' = -1 := by decide
  rw [opening, List.cons_append, balance_cons_code _ closer, weight]
  have rest := balance_opening code
  rw [opening] at rest
  omega

theorem containsCode_append (needle : UInt8) (q : Quote) (a cs : List Char) :
    containsCode needle q (a ++ cs) = (containsCode needle q a || containsCode needle (q.after a) cs) := by
  induction a generalizing q with
  | nil => rfl
  | cons c a ih => simp [containsCode, ih, Bool.or_assoc]

theorem containsCode_opening (code : Code InLine InLine head) :
    containsCode 0x7b .code (opening head) = true := by
  rw [opening, containsCode_append, code.after_eq]
  simp only [Bool.or_eq_true]
  exact .inr (by decide)

end Balance

section Absorbing

/-- Lines in the course of which no brace is closed that has been open in front of them, and at the
end of which no more are open. -/
inductive Passes : List (List Char) → Prop where
  | nil : Passes []
  | line {line : List Char} : (∀ c ∈ line, InLine c) → Bracket.curly.balance .code line = 0 →
      Passes [line]
  | append {a b : List (List Char)} : Passes a → Passes b → Passes (a ++ b)
  /-- A body with the line that opens it and the line that closes it. -/
  | body {first last : List Char} {inner : List (List Char)} : (∀ c ∈ first, InLine c) →
      Bracket.curly.balance .code first = 1 → Passes inner → (∀ c ∈ last, InLine c) →
      Bracket.curly.balance .code last = -1 → Passes (first :: inner ++ [last])

theorem cutLines_absorbing (c : Compound) {line : List Char} (number : Nat) (rest : List (List Char))
    (opened : c.opened = true) {depth : Int}
    (deep : c.depth + Bracket.curly.balance .code line = depth) (enough : 1 ≤ depth) :
    cutLines (.absorbing c) number (line :: rest) =
      cutLines (.absorbing { c with lines := line :: c.lines, depth := depth }) (number + 1) rest := by
  have taken : c.add line = { c with lines := line :: c.lines, depth := depth } := by
    simp [Compound.add, opened, deep]
  have notDone : Compound.isComplete { c with lines := line :: c.lines, depth := depth } line = false := by
    have more : ¬ depth ≤ 0 := by omega
    simp [Compound.isComplete, more]
  rw [cutLines]
  simp [CutState.next, CutState.absorb, taken, notDone]

namespace Passes

variable {ls : List (List Char)}

theorem inLine (passes : Passes ls) : ∀ line ∈ ls, ∀ c ∈ line, InLine c := by
  induction passes with
  | nil => simp
  | line inLine _ => exact List.forall_mem_singleton.2 inLine
  | append _ _ first second => exact List.forall_mem_append.2 ⟨first, second⟩
  | body first _ _ last _ inner =>
    rw [List.forall_mem_append, List.forall_mem_cons, List.forall_mem_singleton]
    exact ⟨⟨first, inner⟩, last⟩

-- A compound statement with an open brace takes them in and goes on.
theorem absorbed (passes : Passes ls) (c : Compound) (number : Nat) (rest : List (List Char))
    (opened : c.opened = true) (deep : 1 ≤ c.depth) :
    cutLines (.absorbing c) number (ls ++ rest) =
      cutLines (.absorbing { c with lines := ls.reverse ++ c.lines }) (number + ls.length) rest := by
  induction passes generalizing c number rest with
  | nil => rfl
  | line _ even => exact cutLines_absorbing c number rest opened (by rw [even, Int.add_zero]) deep
  | @append a b _ _ first second =>
    rw [List.append_assoc, first c number (b ++ rest) opened deep,
      second { c with lines := a.reverse ++ c.lines } _ rest opened deep]
    simp [Nat.add_assoc]
  | @body first last inner _ opens _ _ closes middle =>
    -- Inside one brace more is open, and the last line closes it again.
    have enough : 1 ≤ c.depth + 1 := by omega
    have start : cutLines (.absorbing c) number (first :: (inner ++ ([last] ++ rest))) = _ :=
      cutLines_absorbing c number _ opened (by rw [opens]) enough
    have level : c.depth + 1 + Bracket.curly.balance .code last = c.depth := by omega
    let inside := { c with lines := inner.reverse ++ first :: c.lines, depth := c.depth + 1 }
    have finish : cutLines (.absorbing inside) (number + 1 + inner.length) (last :: rest) = _ :=
      cutLines_absorbing inside _ _ opened level deep
    have text : first :: inner ++ [last] ++ rest = first :: (inner ++ ([last] ++ rest)) := by simp
    have count : number + (first :: inner ++ [last]).length = number + 1 + inner.length + 1 := by
      simp
      omega
    rw [text, start, count, middle { c with lines := first :: c.lines, depth := c.depth + 1 }
      (number + 1) ([last] ++ rest) opened enough]
    simpa [inside] using finish

end Passes

end Absorbing

section Heads

-- A text that opens a compound statement and stands in front of its body.
structure IsHead (head : List Char) : Prop where
  code : Code InLine InLine head
  starts : Starts IsWord head
  keyword : ∃ k, k ≠ .elseWord ∧ k ≠ .elseIf ∧ ∀ rest, leadingKeyword (head ++ rest) = some k

theorem leadingKeyword_if (cond : Cond) (rest : List Char) :
    leadingKeyword (ifHead cond ++ rest) = some .ifWord := rfl

theorem leadingKeyword_for (init : Option Simple) (cond : Cond) (step : Option Simple) (rest : List Char) :
    leadingKeyword (forHead init cond step ++ rest) = some .forWord := rfl

theorem leadingKeyword_while (cond : Cond) (rest : List Char) :
    leadingKeyword (whileHead cond ++ rest) = some .whileWord := rfl

theorem code_ifHead (cond : Cond) : Code InLine InLine (ifHead cond) :=
  (Code.ofPlain (by decide) (by decide)).append cond.code_inner.ofParens

theorem isHead_if (cond : Cond) : IsHead (ifHead cond) where
  code := code_ifHead cond
  starts := ⟨'i', _, rfl, rfl⟩
  keyword := ⟨.ifWord, by decide, by decide, leadingKeyword_if cond⟩

theorem isHead_while (cond : Cond) : IsHead (whileHead cond) where
  code := (Code.ofPlain (by decide) (by decide)).append cond.code_inner.ofParens
  starts := ⟨'w', _, rfl, rfl⟩
  keyword := ⟨.whileWord, by decide, by decide, leadingKeyword_while cond⟩

theorem Clause.code_code (clause : Option Simple) : Code InLine Simple.InSimple (Clause.code clause) := by
  cases clause with
  | none => exact .nil
  | some s => exact s.code_code

theorem code_forParts (init : Option Simple) (cond : Cond) (step : Option Simple) :
    ∀ part ∈ [Clause.code init, cond.code, Clause.code step],
      Code InLine (fun c => Simple.InSimple c ∨ Cond.InCond c) part := by
  rw [List.forall_mem_cons, List.forall_mem_cons, List.forall_mem_singleton]
  exact ⟨(Clause.code_code init).mono (fun _ h => h) fun _ => .inl,
    cond.code_code.mono (fun _ h => h) fun _ => .inr,
    (Clause.code_code step).mono (fun _ h => h) fun _ => .inl⟩

theorem code_forHeader (init : Option Simple) (cond : Cond) (step : Option Simple) :
    Code InLine InLine ([';', ' '].intercalate [Clause.code init, cond.code, Clause.code step]) := by
  refine code_intercalate (.ofPlain (by decide) (by decide)) fun part h => ?_
  refine (code_forParts init cond step part h).mono (fun _ h => h) fun c h => ?_
  exact h.elim Simple.InSimple.inLine Cond.InCond.inLine

theorem isHead_for (init : Option Simple) (cond : Cond) (step : Option Simple) :
    IsHead (forHead init cond step) where
  code := (Code.ofPlain (by decide) (by decide)).append (code_forHeader init cond step).ofParens
  starts := ⟨'f', _, rfl, rfl⟩
  keyword := ⟨.forWord, by decide, by decide, leadingKeyword_for init cond step⟩

end Heads

section Passing

theorem inLine_indented {line : List Char} (n : Nat) (inLine : ∀ c ∈ line, InLine c) :
    ∀ c ∈ indented n line, InLine c := by
  refine List.forall_mem_append.2 ⟨fun c h => ?_, inLine⟩
  rw [List.eq_of_mem_replicate h]
  decide

theorem inLine_opening {head : List Char} (inLine : ∀ c ∈ head, InLine c) :
    ∀ c ∈ opening head, InLine c :=
  List.forall_mem_append.2 ⟨inLine, by decide⟩

@[simp] theorem balance_closer : Bracket.curly.balance .code ['\x7d'] = -1 := by decide

theorem code_else : Code InLine InLine " else".toList := .ofPlain (by decide) (by decide)

theorem Passes.reopening {head : List Char} (n : Nat) (code : Code InLine InLine head) :
    Passes [indented n (opening ('\x7d' :: head))] := by
  refine .line (inLine_indented n (inLine_opening ?_)) ?_
  · exact List.forall_mem_cons.2 ⟨by decide, code.inLine fun _ h => h⟩
  · rw [balance_indented, balance_reopening code]

theorem code_elseIf (cond : Cond) : Code InLine InLine (" else ".toList ++ ifHead cond) :=
  (Code.ofPlain (by decide) (by decide)).append (code_ifHead cond)

theorem IsHead.passes {head : List Char} (isHead : IsHead head) (n : Nat) {inner : List (List Char)}
    (passes : Passes inner) : Passes (indented n (opening head) :: inner ++ [indented n ['\x7d']]) :=
  .body (inLine_indented n (inLine_opening (isHead.code.inLine fun _ h => h)))
    (by rw [balance_indented, balance_opening isHead.code]) passes
    (inLine_indented n (by decide)) (by simp)

variable (width : Nat)

mutual

theorem Statement.passes_lines : ∀ (st : Statement) (n : Nat), Passes (st.lines width n)
  | .simple s, n => by
    have code : Code InLine InLine (s.code ++ [';']) :=
      (s.code_code.mono (fun _ h => h) fun _ => Simple.InSimple.inLine).append (.char rfl (by decide) .nil)
    refine .line (inLine_indented n (code.inLine fun _ h => h)) ?_
    rw [balance_indented, code.balance_eq]
  | .choose cond body rest, n => by
    obtain ⟨inner, eq, passes⟩ := Branches.lines_eq rest n
    have whole := (isHead_if cond).passes n ((Statement.passes_linesAll body (n + width)).append passes)
    simpa [Statement.lines, eq] using whole
  | .forLoop init cond step body, n =>
    (isHead_for init cond step).passes n (Statement.passes_linesAll body (n + width))
  | .whileLoop cond body, n => (isHead_while cond).passes n (Statement.passes_linesAll body (n + width))

-- The last line closes the last branch; up to there one brace stays open.
theorem Branches.lines_eq : ∀ (rest : Branches) (n : Nat),
    ∃ inner, rest.lines width n = inner ++ [indented n ['\x7d']] ∧ Passes inner
  | .done, _ => ⟨[], rfl, .nil⟩
  | .otherwise body, n =>
    ⟨indented n (opening ('\x7d' :: " else".toList)) :: Statement.linesAll width (n + width) body, rfl,
      (Passes.reopening n code_else).append (Statement.passes_linesAll body (n + width))⟩
  | .elseIf cond body rest, n => by
    obtain ⟨inner, eq, passes⟩ := Branches.lines_eq rest n
    have reopening := Passes.reopening n (code_elseIf cond)
    refine ⟨_, ?_, reopening.append ((Statement.passes_linesAll body (n + width)).append passes)⟩
    simp [Branches.lines, eq]

theorem Statement.passes_linesAll : ∀ (body : List Statement) (n : Nat),
    Passes (Statement.linesAll width n body)
  | [], _ => .nil
  | st :: rest, n => (st.passes_lines n).append (Statement.passes_linesAll rest n)

end

end Passing

section Pieces

/-- The text of a statement as it is cut out of a block: its lines without what stands around them. -/
def Statement.text (width n : Nat) : Statement → List Char
  | .simple s => s.code
  | .choose cond body rest =>
    opening (ifHead cond) ++ follow (Statement.linesAll width (n + width) body ++ rest.lines width n)
  | .forLoop init cond step body =>
    opening (forHead init cond step) ++
      follow (Statement.linesAll width (n + width) body ++ [indented n ['\x7d']])
  | .whileLoop cond body =>
    opening (whileHead cond) ++
      follow (Statement.linesAll width (n + width) body ++ [indented n ['\x7d']])

variable {line : List Char} {n : Nat}

theorem trim_indented (tight : Tight line) : trim (indented n line) = line := by
  have trimmed := tight.trim_between (b := []) (blank_replicate n) (by simp)
  rwa [List.append_nil] at trimmed

theorem isFiller_of_starts (starts : Starts IsWord line) : Piece.isFiller line = false := by
  obtain ⟨c, others, rfl, word⟩ := starts
  have notCloser : c ≠ '\x7d' := ne_of_class word (by decide)
  have notOpener : c ≠ '\x7b' := ne_of_class word (by decide)
  have notEnd : c ≠ ';' := ne_of_class word (by decide)
  simp [Piece.isFiller, isBlank_of_isWordChar word, notCloser, notOpener, notEnd]

-- A line that opens with a word is taken as it stands, less its indentation.
theorem startLine_indented (number : Nat) (rest : List (List Char)) (tight : Tight line)
    (starts : Starts IsWord line) :
    ∃ loc, CutState.startLine number (indented n line) rest =
      match leadingKeyword line with
      | some k => CutState.absorb ⟨loc, [], 0, false, CutState.isChainWord k⟩ line rest
      | none => CutState.join loc line (Bracket.round.balance .code line) := by
  have notFiller := isFiller_of_starts starts
  obtain ⟨c, others, rfl, word⟩ := starts
  have notCloser : c ≠ '\x7d' := ne_of_class word (by decide)
  have solid := isBlank_of_isWordChar word
  have bare : trimStart ((trim (indented n (c :: others))).dropWhile (· == '\x7d')) = c :: others := by
    simp [trim_indented tight, notCloser, trimStart, solid]
  let raw := indented n (c :: others)
  refine ⟨⟨number, byteSize raw - byteSize (trimStart raw) + 1⟩, ?_⟩
  rw [CutState.startLine, bare, notFiller]
  rfl

theorem IsHead.tight_opening {head : List Char} (isHead : IsHead head) : Tight (opening head) :=
  ⟨(isHead.starts.mono fun _ => isBlank_of_isWordChar).append _, Ends.append ⟨[' '], _, rfl, rfl⟩ _⟩

-- A compound statement is cut out as a whole, up to the brace that closes its last body.
theorem cutLines_compound {head : List Char} (isHead : IsHead head) {inner : List (List Char)}
    (passes : Passes inner) (number : Nat) {rest : List (List Char)}
    (ends : Compound.continuesIn rest = false) :
    ∃ loc, cutLines .idle number
        (indented n (opening head) :: inner ++ [indented n ['\x7d']] ++ rest) =
      ⟨opening head ++ follow (inner ++ [indented n ['\x7d']]), loc⟩ ::
        cutLines .idle (number + 1 + inner.length + 1) rest := by
  obtain ⟨k, -, -, keyword⟩ := isHead.keyword
  let after := inner ++ (indented n ['\x7d'] :: rest)
  obtain ⟨loc, start⟩ := startLine_indented (n := n) number after isHead.tight_opening
    (isHead.starts.append _)
  -- The first line opens the brace that the last one closes.
  let opened : Compound := ⟨loc, [opening head], 1, true, CutState.isChainWord k⟩
  have first : CutState.startLine number (indented n (opening head)) after = ([], .absorbing opened) := by
    have taken : Compound.add ⟨loc, [], 0, false, CutState.isChainWord k⟩ (opening head) = opened := by
      simp [Compound.add, balance_opening isHead.code, containsCode_opening isHead.code, opened]
    have word : leadingKeyword (opening head) = some k := keyword _
    rw [start, word]
    simp [CutState.absorb, taken, Compound.isComplete, opened]
  let full : Compound := { opened with lines := inner.reverse ++ [opening head] }
  have last : CutState.absorb full (indented n ['\x7d']) rest =
      ([⟨opening head ++ follow (inner ++ [indented n ['\x7d']]), loc⟩], .idle) := by
    have complete : (full.add (indented n ['\x7d'])).isComplete (indented n ['\x7d']) = true := by
      simp [Compound.isComplete, Compound.add, full, opened]
    have piece : (full.add (indented n ['\x7d'])).piece =
        ⟨opening head ++ follow (inner ++ [indented n ['\x7d']]), loc⟩ := by
      rw [← intercalate_eq]
      simp [Compound.piece, Compound.add, full, opened]
    simp [CutState.absorb, complete, ends, piece]
  refine ⟨loc, ?_⟩
  have text : indented n (opening head) :: inner ++ [indented n ['\x7d']] ++ rest =
      indented n (opening head) :: after := by simp [after]
  have middle := passes.absorbed opened (number + 1) (indented n ['\x7d'] :: rest) rfl (by simp [opened])
  rw [text, cutLines]
  simp only [CutState.next, first, List.nil_append, after]
  rw [middle, cutLines]
  change (CutState.absorb full _ rest).1 ++ cutLines (CutState.absorb full _ rest).2 _ rest = _
  rw [last]
  rfl

theorem cutLines_simple (s : Simple) (number : Nat) (rest : List (List Char)) :
    ∃ loc, cutLines .idle number (indented n (s.code ++ [';']) :: rest) =
      ⟨s.code, loc⟩ :: cutLines .idle (number + 1) rest := by
  have code : Code InLine (fun _ => True) (s.code ++ [';']) :=
    (s.code_code.mono (fun _ h => h) fun _ _ => trivial).append (.char rfl trivial .nil)
  have tight : Tight (s.code ++ [';']) := ⟨s.tight_code.starts.append _, Ends.append ⟨[], _, rfl, rfl⟩ _⟩
  obtain ⟨loc, start⟩ := startLine_indented (n := n) number rest tight (s.starts_code.append _)
  have split : splitTop [';'] (s.code ++ [';']) = s.code :: splitTop [';'] [] :=
    s.code_code.splitTop_sep rfl rfl (by decide)
  have empty : splitTop [';'] [] = [[]] := rfl
  have filler : Piece.isFiller [] = true := rfl
  have pieces : Piece.ofLine loc (s.code ++ [';']) = [⟨s.code, loc⟩] := by
    simp [Piece.ofLine, split, empty, s.tight_code.trim_eq, filler, isFiller_of_starts s.starts_code]
  refine ⟨loc, ?_⟩
  rw [cutLines]
  simp [CutState.next, start, s.leadingKeyword_code, CutState.join, code.balance_eq, pieces]

variable (width : Nat)

-- A statement is cut out of its lines as one piece, unless a branch follows that is not its own.
theorem Statement.cutLines_lines (st : Statement) (number : Nat) {rest : List (List Char)}
    (ends : Compound.continuesIn rest = false) :
    ∃ loc number', cutLines .idle number (st.lines width n ++ rest) =
      ⟨st.text width n, loc⟩ :: cutLines .idle number' rest := by
  cases st with
  | simple s =>
    obtain ⟨loc, eq⟩ := cutLines_simple (n := n) s number rest
    exact ⟨loc, _, eq⟩
  | choose cond body branches =>
    obtain ⟨inner, last, passes⟩ := Branches.lines_eq width branches n
    have whole := (Statement.passes_linesAll width body (n + width)).append passes
    obtain ⟨loc, eq⟩ := cutLines_compound (n := n) (isHead_if cond) whole number ends
    exact ⟨loc, _, by simpa [Statement.lines, Statement.text, last] using eq⟩
  | forLoop init cond step body =>
    have whole := Statement.passes_linesAll width body (n + width)
    obtain ⟨loc, eq⟩ := cutLines_compound (n := n) (isHead_for init cond step) whole number ends
    exact ⟨loc, _, eq⟩
  | whileLoop cond body =>
    have whole := Statement.passes_linesAll width body (n + width)
    obtain ⟨loc, eq⟩ := cutLines_compound (n := n) (isHead_while cond) whole number ends
    exact ⟨loc, _, eq⟩

theorem leadingKeyword_indented (starts : Starts (isBlank · = false) line) :
    leadingKeyword (indented n line) = leadingKeyword line := by
  rw [leadingKeyword, leadingKeyword, indented, trimStart_blanks (blank_replicate n) starts,
    starts.trimStart_eq]

-- The first line of a statement has text on it and continues no other statement.
theorem Statement.first_line (st : Statement) : ∃ line rest, st.lines width n = line :: rest ∧
    isBlankText line = false ∧
    (leadingKeyword line).any (fun k => k == .elseWord || k == .elseIf) = false := by
  have compound {head : List Char} (isHead : IsHead head) (inner : List (List Char)) :
      ∃ line rest, indented n (opening head) :: inner = line :: rest ∧ isBlankText line = false ∧
        (leadingKeyword line).any (fun k => k == .elseWord || k == .elseIf) = false := by
    obtain ⟨k, notElse, notElseIf, keyword⟩ := isHead.keyword
    have starts := isHead.tight_opening.starts
    refine ⟨_, _, rfl, starts.isBlankText_append _, ?_⟩
    rw [leadingKeyword_indented starts, opening, keyword]
    simp [notElse, notElseIf]
  cases st with
  | simple s =>
    have starts := s.tight_code.starts.append [';']
    refine ⟨_, [], rfl, starts.isBlankText_append _, ?_⟩
    rw [leadingKeyword_indented starts, s.leadingKeyword_code]
    rfl
  | choose cond body rest => exact compound (isHead_if cond) _
  | forLoop init cond step body => exact compound (isHead_for init cond step) _
  | whileLoop cond body => exact compound (isHead_while cond) _

theorem continuesIn_linesAll (body : List Statement) {tail : List (List Char)}
    (blank : ∀ line ∈ tail, isBlankText line = true) :
    Compound.continuesIn (Statement.linesAll width n body ++ tail) = false := by
  cases body with
  | nil =>
    have none : tail.find? (fun line => !isBlankText line) = none := by
      rw [List.find?_eq_none]
      simpa using blank
    simp [Compound.continuesIn, Statement.linesAll, none]
  | cons st body =>
    obtain ⟨line, rest, eq, solid, other⟩ := st.first_line (n := n) width
    simpa [Compound.continuesIn, Statement.linesAll, eq, solid] using other

theorem cutLines_blank (number : Nat) {tail : List (List Char)}
    (blank : ∀ line ∈ tail, isBlankText line = true) : cutLines .idle number tail = [] := by
  induction tail generalizing number with
  | nil => rfl
  | cons line tail ih =>
    rw [List.forall_mem_cons] at blank
    have empty : trim line = [] := by
      have gone : trimStart line = [] := by
        have all : ∀ c ∈ line, isBlank c = true := List.all_eq_true.1 blank.1
        simpa [trimStart] using @List.dropWhile_append_of_pos _ _ _ [] all
      simp [trim, gone, trimEnd, dropEndWhile]
    rw [cutLines]
    simp [CutState.next, CutState.startLine, empty, Piece.isFiller, ih _ blank.2]

theorem cutLines_linesAll (body : List Statement) (number : Nat) {tail : List (List Char)}
    (blank : ∀ line ∈ tail, isBlankText line = true) :
    (cutLines .idle number (Statement.linesAll width n body ++ tail)).map Piece.text =
      body.map (Statement.text width n) := by
  induction body generalizing number with
  | nil => simp [Statement.linesAll, cutLines_blank number blank]
  | cons st body ih =>
    have ends := continuesIn_linesAll (n := n) width body blank
    obtain ⟨loc, number', eq⟩ := st.cutLines_lines (n := n) width number ends
    simp [Statement.linesAll, eq, ih]

end Pieces

section Blocks

-- What stands between the braces of a body.
def inside (width n : Nat) (body : List Statement) : List Char :=
  follow (Statement.linesAll width (n + width) body) ++ '\n' :: List.replicate n ' '

-- What follows the brace that closes the first branch.
def Branches.tail (width n : Nat) : Branches → List Char
  | .done => []
  | .otherwise body =>
    opening " else".toList ++ follow (Statement.linesAll width (n + width) body ++ [indented n ['\x7d']])
  | .elseIf cond body rest =>
    opening (" else ".toList ++ ifHead cond) ++
      follow (Statement.linesAll width (n + width) body ++ rest.lines width n)

-- A body in its braces, with what follows them.
def block (width n : Nat) (body : List Statement) (rest : List Char) : List Char :=
  ' ' :: '\x7b' :: inside width n body ++ '\x7d' :: rest

variable (width n : Nat)

theorem Branches.follow_lines (rest : Branches) :
    follow (rest.lines width n) = '\n' :: List.replicate n ' ' ++ '\x7d' :: rest.tail width n := by
  cases rest <;> simp [Branches.lines, Branches.tail, indented, opening]

theorem opening_branches (head : List Char) (body : List Statement) (rest : Branches) :
    opening head ++ follow (Statement.linesAll width (n + width) body ++ rest.lines width n) =
      head ++ block width n body (rest.tail width n) := by
  simp [block, inside, opening, rest.follow_lines]

theorem opening_body (head : List Char) (body : List Statement) :
    opening head ++ follow (Statement.linesAll width (n + width) body ++ [indented n ['\x7d']]) =
      head ++ block width n body [] := by
  exact opening_branches width n head body .done

theorem blank_lines_replicate : ∀ line ∈ lines (List.replicate n ' '), isBlankText line = true := by
  intro line h
  have spaces : ∀ c ∈ List.replicate n ' ', InLine c := fun c h => by
    rw [List.eq_of_mem_replicate h]
    decide
  have all := linesFrom_append [] [] spaces
  rw [List.append_nil, List.append_nil] at all
  rw [lines, all, linesFrom] at h
  split at h
  · exact absurd h List.not_mem_nil
  · rw [List.mem_singleton.1 h, List.reverse_reverse]
    exact List.all_eq_true.2 (blank_replicate n)

theorem cutBlock_inside (number : Nat) (body : List Statement) :
    (cutBlock number (inside width n body)).map Piece.text =
      body.map (Statement.text width (n + width)) := by
  have passes := Statement.passes_linesAll width body (n + width)
  have cut := @lines_follow [] _ (List.replicate n ' ') (by simp) passes.inLine
  rw [List.nil_append] at cut
  rw [cutBlock, inside, cut]
  exact cutLines_linesAll width body (number + 1) (blank_lines_replicate n)

-- Code of which nothing is asked but that its brackets are balanced.
abbrev Balanced (cs : List Char) : Prop := Code (fun _ => True) (fun _ => True) cs

theorem Code.balanced {within top : Char → Prop} {a : List Char} (code : Code within top a) : Balanced a :=
  code.mono (fun _ _ => trivial) fun _ _ => trivial

theorem balanced_replicate : Balanced (List.replicate n ' ') := code_replicate trivial n

theorem balanced_indented {line : List Char} (balanced : Balanced line) :
    Balanced ('\n' :: indented n line) :=
  .char rfl trivial (Code.append (balanced_replicate n) balanced)

theorem balanced_inside {body : List Statement}
    (lines : Balanced (follow (Statement.linesAll width (n + width) body))) :
    Balanced (inside width n body) :=
  lines.append (.char rfl trivial (balanced_replicate n))

theorem balanced_block {head : List Char} {body : List Statement} {rest : List Char}
    (code : Code InLine InLine head)
    (lines : Balanced (follow (Statement.linesAll width (n + width) body))) (behind : Balanced rest) :
    Balanced (head ++ block width n body rest) :=
  Code.append code.balanced (.char rfl trivial (.group .curly (balanced_inside width n lines) behind))

mutual

theorem Statement.balanced_lines : ∀ (st : Statement) (n : Nat), Balanced (follow (st.lines width n))
  | .simple s, n => by
    have line : Balanced (s.code ++ [';']) := Code.append s.code_code.balanced (.char rfl trivial .nil)
    simpa [Statement.lines] using balanced_indented n line
  | .choose cond body rest, n => by
    have block := balanced_block width n (code_ifHead cond)
      (Statement.balanced_linesAll body (n + width)) (rest.balanced_tail n)
    rw [← opening_branches] at block
    simpa [Statement.lines, indented] using balanced_indented n block
  | .forLoop init cond step body, n => by
    have block := balanced_block width n (isHead_for init cond step).code
      (Statement.balanced_linesAll body (n + width)) .nil
    rw [← opening_body] at block
    simpa [Statement.lines, indented] using balanced_indented n block
  | .whileLoop cond body, n => by
    have block := balanced_block width n (isHead_while cond).code
      (Statement.balanced_linesAll body (n + width)) .nil
    rw [← opening_body] at block
    simpa [Statement.lines, indented] using balanced_indented n block

theorem Branches.balanced_tail : ∀ (rest : Branches) (n : Nat), Balanced (rest.tail width n)
  | .done, _ => .nil
  | .otherwise body, n => by
    rw [Branches.tail, opening_body]
    exact balanced_block width n code_else (Statement.balanced_linesAll body (n + width)) .nil
  | .elseIf cond body rest, n => by
    rw [Branches.tail, opening_branches]
    exact balanced_block width n (code_elseIf cond) (Statement.balanced_linesAll body (n + width))
      (rest.balanced_tail n)

theorem Statement.balanced_linesAll : ∀ (body : List Statement) (n : Nat),
    Balanced (follow (Statement.linesAll width n body))
  | [], _ => .nil
  | st :: rest, n => by
    rw [Statement.linesAll, follow_append]
    exact Code.append (st.balanced_lines n) (Statement.balanced_linesAll rest n)

end

end Blocks

end Breadboard.Canonical
