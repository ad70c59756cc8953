import Breadboard.Proofs.Canonical.Layout

set_option autoImplicit false

/-!
Statements. Main statement: reading the text of a statement, however deep statements are nested in
it, gives its meaning, locations aside.
-/
namespace Breadboard.Canonical

open Text

variable (width : Nat)

section Texts

theorem length_le_follow (ls : List (List Char)) : ls.length ≤ (follow ls).length := by
  induction ls with
  | nil => exact Nat.le_refl 0
  | cons line ls ih =>
    simp only [follow_cons, List.length_cons, List.length_append]
    omega

theorem Statement.starts_text (st : Statement) (n : Nat) : Starts IsWord (st.text width n) := by
  cases st with
  | simple s => exact s.starts_code
  | choose cond body rest => exact ((isHead_if cond).starts.append _).append _
  | forLoop init cond step body => exact ((isHead_for init cond step).starts.append _).append _
  | whileLoop cond body => exact ((isHead_while cond).starts.append _).append _

theorem ends_follow (ls : List (List Char)) (n : Nat) : Ends (follow (ls ++ [indented n ['\x7d']])) := by
  have last : Ends (follow [indented n ['\x7d']]) :=
    ⟨'\n' :: List.replicate n ' ', '\x7d', by simp [indented], rfl⟩
  rw [follow_append]
  exact last.append _

theorem Statement.tight_text (st : Statement) (n : Nat) : Tight (st.text width n) := by
  refine ⟨(st.starts_text width n).mono fun _ => isBlank_of_isWordChar, ?_⟩
  cases st with
  | simple s => exact s.ends_code
  | choose cond body rest =>
    obtain ⟨inner, eq, -⟩ := Branches.lines_eq width rest n
    rw [Statement.text, eq, ← List.append_assoc]
    exact (ends_follow _ n).append _
  | forLoop init cond step body => exact (ends_follow _ n).append _
  | whileLoop cond body => exact (ends_follow _ n).append _

end Texts

section Reading

variable (read : Location → List Char → Stmt) {fuel : Nat}

/-- What reads the texts of statements that have no more than `fuel` lines. -/
def Reads (fuel : Nat) : Prop := ∀ (st : Statement) (n : Nat) (loc : Location) (cs : List Char),
  (st.lines width n).length ≤ fuel → st.levels ≤ maxLevels → trim cs = st.text width n →
    (read loc cs).unlocated = st.meaning

variable {width read}

theorem Reads.pieces (reads : Reads width read fuel) {n : Nat} (body : List Statement)
    {pieces : List Piece} (texts : pieces.map Piece.text = body.map (Statement.text width n))
    (short : (Statement.linesAll width n body).length ≤ fuel)
    (enough : Statement.levelsAll body ≤ maxLevels) :
    Stmt.unlocatedAll (pieces.map fun p => read p.location p.text) = Statement.meanings body := by
  induction body generalizing pieces with
  | nil =>
    obtain rfl : pieces = [] := by simpa using texts
    rfl
  | cons st body ih =>
    cases pieces with
    | nil => simp at texts
    | cons piece pieces =>
      simp only [List.map_cons, List.cons.injEq] at texts
      simp only [Statement.linesAll, List.length_append] at short
      simp only [Statement.levelsAll, Nat.max_le] at enough
      have first := reads st n piece.location piece.text (by omega) enough.1
        (by rw [texts.1, (st.tight_text width n).trim_eq])
      rw [List.map_cons, Stmt.unlocatedAll, first, ih texts.2 (by omega) enough.2, Statement.meanings]

-- A body is read between its braces, and reading goes on behind them.
theorem Reads.body (reads : Reads width read fuel) {n : Nat} {body : List Statement} {c : Stmt.Cursor}
    {rest : List Char} (text : c.rest = block width n body rest)
    (short : (Statement.linesAll width (n + width) body).length ≤ fuel)
    (enough : Statement.levelsAll body ≤ maxLevels) :
    Stmt.unlocatedAll (Stmt.readBody read c).1 = Statement.meanings body ∧
      (Stmt.readBody read c).2.rest = rest := by
  have balanced := balanced_inside width n (Statement.balanced_linesAll width body (n + width))
  have opens : trimStart c.rest = '\x7b' :: (inside width n body ++ '\x7d' :: rest) := by
    rw [text]
    rfl
  have closes : Bracket.curly.enclosed? ('\x7b' :: (inside width n body ++ '\x7d' :: rest)) =
      some (inside width n body, rest) := Code.enclosed? .curly balanced
  have pieces := reads.pieces body
    (cutBlock_inside width n (c.moveTo (trimStart c.rest)).line body) short enough
  simp only [Stmt.readBody, opens, Stmt.Cursor.moveTo, List.head?_cons, if_true, closes,
    Option.getD_some] at pieces ⊢
  exact ⟨pieces, trivial⟩

-- The header of a compound statement is what stands in its first parentheses.
theorem header?_eq (before : List Char) {inner : List Char} (rest : List Char) (plain : '(' ∉ before)
    (code : Code InLine InLine inner) : Stmt.header? (before ++ parens inner ++ rest) = some (inner, rest) := by
  have skip : ∀ c ∈ before, (c != '(') = true := by
    intro c h
    have ne : c ≠ '(' := fun eq => plain (eq ▸ h)
    simpa using ne
  have opens : (parens inner ++ rest).dropWhile (· != '(') = parens inner ++ rest := by simp [parens]
  rw [Stmt.header?, List.append_assoc, List.dropWhile_append_of_pos skip, opens]
  exact enclosed?_parens code rest

theorem Reads.chain (reads : Reads width read fuel) {n : Nat} : ∀ (rest : Branches) {branches : Nat}
    {c : Stmt.Cursor} {cond : Cond} {body : List Statement},
    c.rest = ifHead cond ++ block width n body (rest.tail width n) →
    (rest.lines width n).length ≤ branches →
    (Statement.linesAll width (n + width) body).length + (rest.lines width n).length ≤ fuel →
    cond.levels ≤ maxLevels → Statement.levelsAll body ≤ maxLevels → rest.levels ≤ maxLevels →
    ∃ chain, Stmt.readChain read branches c = some chain ∧
      chain.unlocated = .branch cond.meaning (Statement.meanings body) rest.meaning
  | rest, 0, _, _, _, _, few, _, _, _, _ => by
    obtain ⟨inner, eq, -⟩ := Branches.lines_eq width rest n
    simp [eq] at few
  | rest, branches + 1, c, cond, body, text, few, short, condEnough, bodyEnough, restEnough => by
    let after := block width n body (rest.tail width n)
    have header : Stmt.header? c.rest = some (cond.code, after) := by
      rw [text]
      exact header?_eq "if ".toList after (by decide) cond.code_inner
    have condRead := cond.read_code condEnough cond.tight_code.trim_eq
    have place : (c.moveTo after).rest = block width n body (rest.tail width n) := rfl
    obtain ⟨bodyRead, behind⟩ := reads.body place (by omega) bodyEnough
    rw [Stmt.readChain, header]
    simp only [Option.bind_eq_bind, Option.bind_some, condRead]
    generalize Stmt.readBody read (c.moveTo after) = result at bodyRead behind
    obtain ⟨stmts, line, tail⟩ := result
    simp only at bodyRead behind
    subst behind
    simp only [Stmt.Cursor.moveTo]
    -- What follows the body is known now; it decides whether another branch is read.
    match rest with
    | .done => exact ⟨_, rfl, by rw [Chain.unlocated, bodyRead]; rfl⟩
    | .otherwise other =>
      have tail : trimStart (Branches.tail width n (.otherwise other)) =
          "else".toList ++ block width n other [] := by
        rw [Branches.tail, opening_body]
        rfl
      have keyword : leadingKeyword ("else".toList ++ block width n other []) = some .elseWord := rfl
      have drop : ("else".toList ++ block width n other []).drop 4 = block width n other [] := rfl
      simp only [tail, keyword, drop]
      simp only [Branches.lines, List.length_append, List.length_cons] at short
      refine ⟨_, rfl, ?_⟩
      have otherRead (line : Nat) :=
        (reads.body (c := ⟨line, block width n other []⟩) rfl (by omega) restEnough).1
      rw [Chain.unlocated, bodyRead, Chain.unlocated, otherRead]
      rfl
    | .elseIf nextCond nextBody next =>
      have tail : trimStart (Branches.tail width n (.elseIf nextCond nextBody next)) =
          "else ".toList ++ (ifHead nextCond ++ block width n nextBody (next.tail width n)) := by
        rw [Branches.tail, opening_branches]
        rfl
      have keyword : leadingKeyword
          ("else ".toList ++ (ifHead nextCond ++ block width n nextBody (next.tail width n))) =
        some .elseIf := rfl
      have drop : trimStart
          (("else ".toList ++ (ifHead nextCond ++ block width n nextBody (next.tail width n))).drop 4) =
        ifHead nextCond ++ block width n nextBody (next.tail width n) := rfl
      simp only [tail, keyword, drop]
      simp only [Branches.lines, List.length_append, List.length_cons] at short few
      simp only [Branches.levels, Nat.max_le] at restEnough
      have fewer : (next.lines width n).length ≤ branches := by omega
      obtain ⟨chain, read, unlocated⟩ := reads.chain next
        (c := ⟨_, ifHead nextCond ++ block width n nextBody (next.tail width n)⟩) rfl fewer (by omega)
        restEnough.1.1 restEnough.1.2 restEnough.2
      rw [read]
      refine ⟨_, rfl, ?_⟩
      rw [Chain.unlocated, bodyRead, unlocated]
      rfl

theorem Reads.clause (reads : Reads width read fuel) (clause : Option Simple) (line : Nat)
    (fueled : 1 ≤ fuel) (enough : Clause.levels clause ≤ maxLevels) {a : List Char}
    (blank : ∀ c ∈ a, isBlank c = true) :
    Stmt.unlocatedClause (Stmt.readClause read line (a ++ Clause.code clause)) = Clause.meaning clause := by
  cases clause with
  | none =>
    have empty : isBlankText (a ++ Clause.code none) = true := by
      rw [Clause.code, List.append_nil]
      exact List.all_eq_true.2 blank
    rw [Stmt.readClause, if_pos empty]
    rfl
  | some s =>
    have trimmed := s.tight_code.trim_between (b := []) blank (by simp)
    rw [List.append_nil] at trimmed
    have solid := s.tight_code.starts.isBlankText_append a
    have simple := reads (.simple s) 0 ⟨line, 1⟩ (a ++ s.code) fueled enough trimmed
    rw [Clause.code, Stmt.readClause, if_neg (by simp [solid]), Stmt.unlocatedClause, simple]
    rfl

theorem Reads.forLoop (reads : Reads width read fuel) {init step : Option Simple} {cond : Cond}
    {body : List Statement} {n : Nat} (loc : Location)
    (short : (Statement.linesAll width (n + width) body).length + 1 ≤ fuel)
    (enough : (Statement.forLoop init cond step body).levels ≤ maxLevels) :
    ∃ st, Stmt.readFor? read loc (forHead init cond step ++ block width n body []) = some st ∧
      st.unlocated = (Statement.forLoop init cond step body).meaning := by
  simp only [Statement.levels, Nat.max_le] at enough
  let text := forHead init cond step ++ block width n body []
  have header : Stmt.header? text =
      some ([';', ' '].intercalate [Clause.code init, cond.code, Clause.code step], block width n body []) :=
    header?_eq "for ".toList (block width n body []) (by decide) (code_forHeader init cond step)
  have split : splitTop [';'] ([';', ' '].intercalate [Clause.code init, cond.code, Clause.code step]) =
      [Clause.code init, [' '] ++ cond.code, [' '] ++ Clause.code step] := by
    have parts : splitTop [';'] ([';', ' '].intercalate [Clause.code init, cond.code, Clause.code step]) =
        cut [] [' '] [] [Clause.code init, cond.code, Clause.code step] :=
      splitTop_intercalate _ (by simp) [] (code_forParts init cond step) .nil .nil
        (.char rfl (by decide) .nil) rfl rfl (by decide)
    rw [parts]
    simp [cut]
  have trimmed := cond.tight_code.trim_between (a := [' ']) (b := []) (by decide) (by simp)
  rw [List.append_nil] at trimmed
  have solid := cond.tight_code.starts.isBlankText_append [' ']
  have condRead := cond.read_code enough.1.2 trimmed
  have initRead := reads.clause init loc.line (by omega) enough.1.1 (a := []) (by simp)
  have stepRead := reads.clause step loc.line (by omega) enough.2.1 (a := [' ']) (by decide)
  have place : ((Stmt.Cursor.mk loc.line text).moveTo (block width n body [])).rest =
      block width n body [] := rfl
  have bodyRead := (reads.body place (by omega) enough.2.2).1
  -- Only the condition is read on the spot; the clauses and the body stay as `read` gives them.
  have found : Stmt.readFor? read loc text = some (.forLoop loc
      (Stmt.readClause read loc.line (Clause.code init)) cond.meaning
      (Stmt.readClause read loc.line ([' '] ++ Clause.code step))
      (Stmt.readBody read ((Stmt.Cursor.mk loc.line text).moveTo (block width n body []))).1) := by
    rw [Stmt.readFor?, header]
    simp only [Option.bind_eq_bind, Option.bind_some, split, solid, condRead]
    rfl
  refine ⟨_, found, ?_⟩
  rw [List.nil_append] at initRead
  rw [Stmt.unlocated, initRead, stepRead, bodyRead]
  rfl

theorem Reads.whileLoop (reads : Reads width read fuel) {cond : Cond} {body : List Statement} {n : Nat}
    (loc : Location) (short : (Statement.linesAll width (n + width) body).length ≤ fuel)
    (enough : (Statement.whileLoop cond body).levels ≤ maxLevels) :
    ∃ st, Stmt.readWhile? read loc (whileHead cond ++ block width n body []) = some st ∧
      st.unlocated = (Statement.whileLoop cond body).meaning := by
  simp only [Statement.levels, Nat.max_le] at enough
  let text := whileHead cond ++ block width n body []
  have header : Stmt.header? text = some (cond.code, block width n body []) :=
    header?_eq "while ".toList (block width n body []) (by decide) cond.code_inner
  have condRead := cond.read_code enough.1 cond.tight_code.trim_eq
  have place : ((Stmt.Cursor.mk loc.line text).moveTo (block width n body [])).rest =
      block width n body [] := rfl
  have bodyRead := (reads.body place short enough.2).1
  have found : Stmt.readWhile? read loc text = some (.whileLoop loc cond.meaning
      (Stmt.readBody read ((Stmt.Cursor.mk loc.line text).moveTo (block width n body []))).1) := by
    rw [Stmt.readWhile?, header]
    simp only [Option.bind_eq_bind, Option.bind_some, condRead]
  refine ⟨_, found, ?_⟩
  rw [Stmt.unlocated, bodyRead]
  rfl

-- A reader with fuel reads what has no more lines than the fuel: each level of nesting takes one.
theorem reads_readWithin : ∀ fuel, Reads width (Stmt.readWithin fuel) fuel
  | 0 => by
    intro st n loc cs short
    obtain ⟨line, rest, eq, -⟩ := st.first_line (n := n) width
    simp [eq] at short
  | fuel + 1 => by
    intro st n loc cs short enough text
    have reads := reads_readWithin fuel
    rw [Stmt.readWithin, text]
    cases st with
    | simple s =>
      have noKeyword : leadingKeyword s.code = none := by simpa using s.leadingKeyword_code []
      simp only [Statement.text, noKeyword, Option.getD_some]
      exact s.readSimple_code enough loc
    | choose cond body rest =>
      -- Every branch has a line of its own, so that the length of the text bounds their number.
      simp only [Statement.levels, Nat.max_le] at enough
      simp only [Statement.lines, List.length_append, List.length_cons] at short
      have few : (rest.lines width n).length ≤ ((Statement.choose cond body rest).text width n).length := by
        have whole := length_le_follow (Statement.linesAll width (n + width) body ++ rest.lines width n)
        simp only [Statement.text, List.length_append] at whole ⊢
        omega
      have whole : (Statement.choose cond body rest).text width n =
          ifHead cond ++ block width n body (rest.tail width n) := opening_branches width n _ body rest
      obtain ⟨chain, read, unlocated⟩ := reads.chain rest
        (c := ⟨loc.line, (Statement.choose cond body rest).text width n⟩) whole few (by omega)
        enough.1.1 enough.1.2 enough.2
      have keyword : leadingKeyword ((Statement.choose cond body rest).text width n) = some .ifWord := by
        rw [whole]
        exact leadingKeyword_if cond _
      simp only [keyword, read, Option.map_some, Option.getD_some]
      rw [Stmt.unlocated, unlocated]
      rfl
    | forLoop init cond step body =>
      simp only [Statement.lines, List.length_append, List.length_cons, List.length_nil] at short
      have whole : (Statement.forLoop init cond step body).text width n =
          forHead init cond step ++ block width n body [] := opening_body width n _ body
      obtain ⟨st, read, unlocated⟩ := reads.forLoop (n := n) loc (by omega) enough
      have keyword := leadingKeyword_for init cond step (block width n body [])
      rw [whole]
      simp only [keyword, read, Option.getD_some]
      exact unlocated
    | whileLoop cond body =>
      simp only [Statement.lines, List.length_append, List.length_cons, List.length_nil] at short
      have whole : (Statement.whileLoop cond body).text width n =
          whileHead cond ++ block width n body [] := opening_body width n _ body
      obtain ⟨st, read, unlocated⟩ := reads.whileLoop (n := n) loc (by omega) enough
      have keyword := leadingKeyword_while cond (block width n body [])
      rw [whole]
      simp only [keyword, read, Option.getD_some]
      exact unlocated

theorem Statement.length_lines_le (st : Statement) (n : Nat) :
    (st.lines width n).length ≤ (st.text width n).length + 1 := by
  have compound (head : List Char) (inner : List (List Char)) :
      inner.length + 1 ≤ (opening head ++ follow inner).length + 1 := by
    have lines := length_le_follow inner
    rw [List.length_append]
    omega
  cases st with
  | simple s => exact Nat.le_add_left 1 _
  | choose cond body rest => exact compound (ifHead cond) _
  | forLoop init cond step body => exact compound (forHead init cond step) _
  | whileLoop cond body => exact compound (whileHead cond) _

-- The length of a text is fuel enough for it.
theorem reads_read (fuel : Nat) : Reads width Stmt.read fuel := by
  intro st n loc cs _ enough text
  have lines := @Statement.length_lines_le width st n
  have chars := length_trim_le cs
  rw [text] at chars
  exact reads_readWithin _ st n loc cs (by omega) enough text

theorem readAll_inside (number n : Nat) {body : List Statement}
    (enough : Statement.levelsAll body ≤ maxLevels) :
    Stmt.unlocatedAll (Stmt.readAll (cutBlock number (inside width n body))) = Statement.meanings body :=
  (reads_read _).pieces body (cutBlock_inside width n number body) (Nat.le_refl _) enough

end Reading

end Breadboard.Canonical
