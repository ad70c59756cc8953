import Breadboard.Proofs.Canonical.Syntax

set_option autoImplicit false

/-!
Code as the scans see it: plain characters, literals and brackets around code. Main statements: each
scan passes over such code as a whole, whatever its literals hold and however deep its brackets are.
-/
namespace Breadboard.Canonical

open Text

-- A text is checked one character after the other, not against all characters that there are.
instance decidableChars (p : Char → Prop) [DecidablePred p] (cs : List Char) : Decidable (∀ c ∈ cs, p c) :=
  List.decidableBAll p cs

-- A character that no scan takes for anything but itself.
def isPlain (c : Char) : Bool := !isMark c && depthStep c == 0 && c != '/'

/-- Code in balanced brackets. The characters outside of all brackets are in `top`, those inside are
in `within`. -/
inductive Code (within : Char → Prop) : (Char → Prop) → List Char → Prop where
  | nil {top : Char → Prop} : Code within top []
  | char {top : Char → Prop} {c : Char} {a : List Char} :
      isPlain c = true → top c → Code within top a → Code within top (c :: a)
  | divide {top : Char → Prop} {a : List Char} :
      top '/' → top '=' → Code within top a → Code within top ('/' :: '=' :: a)
  | literal {top : Char → Prop} (s : String) {a : List Char} :
      Code within top a → Code within top (quote s ++ a)
  | group {top : Char → Prop} (b : Bracket) {inner a : List Char} :
      Code within within inner → Code within top a →
        Code within top (b.opener :: inner ++ b.closer :: a)

section Plain

variable {c : Char}

theorem isMark_of_isPlain (plain : isPlain c = true) : isMark c = false := by
  simp only [isPlain, Bool.and_eq_true, Bool.not_eq_true'] at plain
  exact plain.1.1

theorem depthStep_of_isPlain (plain : isPlain c = true) : depthStep c = 0 := by
  simp only [isPlain, Bool.and_eq_true, beq_iff_eq] at plain
  exact plain.1.2

theorem ne_slash_of_isPlain (plain : isPlain c = true) : c ≠ '/' := by
  simp only [isPlain, Bool.and_eq_true, bne_iff_ne] at plain
  exact plain.2

theorem ne_bracket_of_depthStep (flat : depthStep c = 0) (b : Bracket) :
    c ≠ b.opener ∧ c ≠ b.closer := by
  constructor <;> rintro rfl <;> cases b <;> exact absurd flat (by decide)

@[simp] theorem isMark_opener (b : Bracket) : isMark b.opener = false := by cases b <;> rfl

@[simp] theorem isMark_closer (b : Bracket) : isMark b.closer = false := by cases b <;> rfl

theorem weight_opener (b : Bracket) : b.weight b.opener = 1 := by cases b <;> decide

theorem weight_closer (b : Bracket) : b.weight b.closer = -1 := by cases b <;> decide

@[simp] theorem depthStep_opener (b : Bracket) : depthStep b.opener = 1 := by cases b <;> rfl

@[simp] theorem depthStep_closer (b : Bracket) : depthStep b.closer = -1 := by cases b <;> rfl

theorem isCode_of_not_isMark (h : isMark c = false) : Quote.code.isCode c = true := by
  simp [Quote.isCode, h]

theorem next_of_not_isMark (h : isMark c = false) : Quote.code.next c = .code := by
  simp [Quote.next, h]

end Plain

-- A character of a literal: written as it is, or as a backslash and a letter.
theorem escapeChar_cases (c : Char) :
    (∃ letter, escapeChar c = ['\\', letter] ∧ escapeMeaning letter = c ∧ letter ≠ '\n' ∧
        letter ≠ '\r') ∨
      escapeChar c = [c] ∧ c ≠ '"' ∧ c ≠ '\\' ∧ c ≠ '\n' ∧ c ≠ '\r' := by
  by_cases known : c ∈ ['"', '\\', '\n', '\t', '\r', '\x00']
  · left
    simp only [List.mem_cons, List.not_mem_nil, or_false] at known
    rcases known with rfl | rfl | rfl | rfl | rfl | rfl
    · exact ⟨'"', by decide⟩
    · exact ⟨'\\', by decide⟩
    · exact ⟨'n', by decide⟩
    · exact ⟨'t', by decide⟩
    · exact ⟨'r', by decide⟩
    · exact ⟨'0', by decide⟩
  · right
    simp only [List.mem_cons, List.not_mem_nil, or_false, not_or] at known
    refine ⟨?_, known.1, known.2.1, known.2.2.1, known.2.2.2.2.1⟩
    unfold escapeChar escapeLetter?
    split <;> simp_all

@[simp] theorem escape_cons (c : Char) (cs : List Char) : escape (c :: cs) = escapeChar c ++ escape cs :=
  List.flatMap_cons

/-- Whether a scan in state `q` takes no character of a text for code. -/
def hides : Quote → List Char → Bool
  | _, [] => true
  | q, c :: cs => !q.isCode c && hides (q.next c) cs

theorem hides_nil (q : Quote) : hides q [] = true := rfl

theorem hides_cons (q : Quote) (c : Char) (cs : List Char) :
    hides q (c :: cs) = (!q.isCode c && hides (q.next c) cs) := rfl

theorem hides_append (q : Quote) (a cs : List Char) :
    hides q (a ++ cs) = (hides q a && hides (q.after a) cs) := by
  induction a generalizing q with
  | nil => rfl
  | cons c a ih => simp [hides_cons, ih, Bool.and_assoc]

theorem inside_escape (cs : List Char) :
    hides (.inside '"') (escape cs) = true ∧ (Quote.inside '"').after (escape cs) = .inside '"' := by
  induction cs with
  | nil => exact ⟨rfl, rfl⟩
  | cons c cs ih =>
    obtain ⟨letter, written, -⟩ | ⟨written, notMark, notSlash, -⟩ := escapeChar_cases c
    · simp [written, hides_cons, Quote.next, Quote.isCode, ih]
    · simp [written, hides_cons, Quote.next, Quote.isCode, ih, notMark, notSlash]

theorem hides_quote (s : String) : hides .code (quote s) = true := by
  have inside := inside_escape s.toList
  simp [quote, hides_nil, hides_cons, hides_append, Quote.isCode, Quote.next, isMark, inside]

@[simp] theorem after_quote (s : String) : Quote.code.after (quote s) = .code := by
  have inside := inside_escape s.toList
  simp [quote, Quote.next, isMark, inside]

namespace Code

variable {within top : Char → Prop} {a cs : List Char}

theorem append {b : List Char} (left : Code within top a) (right : Code within top b) :
    Code within top (a ++ b) := by
  induction left with
  | nil => exact right
  | char plain holds _ ih => exact .char plain holds (ih right)
  | divide slash equals _ ih => exact .divide slash equals (ih right)
  | literal s _ ih => simpa only [List.append_assoc] using (ih right).literal s
  | group b inner _ _ ih =>
    simpa only [List.append_assoc, List.cons_append] using .group b inner (ih right)

theorem mono {wider : Char → Prop} {top' : Char → Prop} (code : Code within top a)
    (inside : ∀ c, within c → wider c) (outside : ∀ c, top c → top' c) : Code wider top' a := by
  induction code generalizing top' with
  | nil => exact .nil
  | char plain holds _ ih => exact .char plain (outside _ holds) (ih outside)
  | divide slash equals _ ih => exact .divide (outside _ slash) (outside _ equals) (ih outside)
  | literal s _ ih => exact (ih outside).literal s
  | group b _ _ ihInner ih => exact .group b (ihInner inside) (ih outside)

theorem ofPlain (plain : ∀ c ∈ a, isPlain c = true) (holds : ∀ c ∈ a, top c) :
    Code within top a := by
  induction a with
  | nil => exact .nil
  | cons c a ih =>
    rw [List.forall_mem_cons] at plain holds
    exact .char plain.1 holds.1 (ih plain.2 holds.2)

theorem ofQuote (s : String) : Code within top (quote s) := by
  simpa using (Code.nil : Code within top []).literal s

theorem ofParens (inner : Code within within a) : Code within top (parens a) := .group .round inner .nil

theorem after_eq (code : Code within top a) : Quote.code.after a = .code := by
  induction code with
  | nil => rfl
  | char plain _ _ ih => simpa [next_of_not_isMark (isMark_of_isPlain plain)] using ih
  | divide _ _ _ ih => exact ih
  | literal s _ ih => simpa using ih
  | group b _ _ ihInner ih =>
    simp [next_of_not_isMark (isMark_opener b), next_of_not_isMark (isMark_closer b), ihInner, ih]

end Code

section Balance

theorem balance_of_hides (b : Bracket) {q : Quote} {a : List Char} (hidden : hides q a = true) :
    b.balance q a = 0 := by
  induction a generalizing q with
  | nil => rfl
  | cons c a ih =>
    simp only [hides_cons, Bool.and_eq_true, Bool.not_eq_true'] at hidden
    simp [Bracket.balance, hidden.1, ih hidden.2]

theorem weight_of_depthStep {c : Char} (flat : depthStep c = 0) (b : Bracket) : b.weight c = 0 := by
  simp [Bracket.weight, ne_bracket_of_depthStep flat b]

theorem weight_opener_add_closer (b b' : Bracket) : b.weight b'.opener + b.weight b'.closer = 0 := by
  cases b <;> cases b' <;> decide

theorem balance_cons_code (b : Bracket) {c : Char} (h : isMark c = false) (cs : List Char) :
    b.balance .code (c :: cs) = b.weight c + b.balance .code cs := by
  simp [Bracket.balance, isCode_of_not_isMark h]

theorem Code.balance_eq {within top : Char → Prop} {a : List Char} (code : Code within top a)
    (b : Bracket) : b.balance .code a = 0 := by
  induction code with
  | nil => rfl
  | char plain _ _ ih =>
    rw [balance_cons_code b (isMark_of_isPlain plain), ih,
      weight_of_depthStep (depthStep_of_isPlain plain)]
    rfl
  | divide _ _ _ ih =>
    rw [balance_cons_code b rfl, balance_cons_code b rfl, ih, weight_of_depthStep rfl,
      weight_of_depthStep rfl]
    rfl
  | literal s _ ih => rw [Bracket.balance_append, balance_of_hides b (hides_quote s), after_quote, ih]; rfl
  | group b' inner _ ihInner ih =>
    have weights := weight_opener_add_closer b b'
    rw [List.cons_append, balance_cons_code b (isMark_opener b'), Bracket.balance_append, ihInner,
      inner.after_eq, balance_cons_code b (isMark_closer b'), ih]
    omega

end Balance

section Close

-- Puts what a scan has passed over in front of what it finds inside the bracket.
def within? (a : List Char) (found : Option (List Char × List Char)) : Option (List Char × List Char) :=
  found.map fun (inside, rest) => (a ++ inside, rest)

theorem within?_append (a b : List Char) (found : Option (List Char × List Char)) :
    within? (a ++ b) found = within? a (within? b found) := by
  cases found <;> simp [within?]

variable (b : Bracket) {c : Char} {a cs : List Char} (depth : Nat)

theorem close_of_hides {q : Quote} (hidden : hides q a = true) :
    b.close q depth (a ++ cs) = within? a (b.close (q.after a) depth cs) := by
  induction a generalizing q with
  | nil => cases found : b.close q depth cs <;> simp [within?, found]
  | cons c a ih =>
    simp only [hides_cons, Bool.and_eq_true, Bool.not_eq_true'] at hidden
    simp only [List.cons_append, Bracket.close, hidden.1, Bool.false_and, Bool.false_eq_true, if_false,
      ih hidden.2, Quote.after_cons]
    cases b.close ((q.next c).after a) depth cs <;> simp [within?]

theorem close_cons (code : isMark c = false) (notOpener : c ≠ b.opener) (notCloser : c ≠ b.closer) :
    b.close .code depth (c :: cs) = within? [c] (b.close .code depth cs) := by
  simp [Bracket.close, isCode_of_not_isMark code, notOpener, notCloser, within?]

theorem close_opener :
    b.close .code depth (b.opener :: cs) = within? [b.opener] (b.close .code (depth + 1) cs) := by
  have distinct : b.opener ≠ b.closer := by cases b <;> decide
  simp [Bracket.close, isCode_of_not_isMark (isMark_opener b), distinct, within?]

theorem close_closer_succ :
    b.close .code (depth + 1) (b.closer :: cs) = within? [b.closer] (b.close .code depth cs) := by
  simp [Bracket.close, isCode_of_not_isMark (isMark_closer b), within?]

@[simp] theorem close_closer_zero : b.close .code 0 (b.closer :: cs) = some ([], cs) := by
  simp [Bracket.close, isCode_of_not_isMark (isMark_closer b)]

theorem ne_bracket_of_ne {b b' : Bracket} (h : b' ≠ b) :
    (b'.opener ≠ b.opener ∧ b'.opener ≠ b.closer) ∧ b'.closer ≠ b.opener ∧ b'.closer ≠ b.closer := by
  revert h
  cases b <;> cases b' <;> decide

theorem Code.close_append {within top : Char → Prop} (code : Code within top a) :
    b.close .code depth (a ++ cs) = within? a (b.close .code depth cs) := by
  induction code generalizing depth cs with
  | nil => cases found : b.close .code depth cs <;> simp [within?, found]
  | char plain _ _ ih =>
    have ne := ne_bracket_of_depthStep (depthStep_of_isPlain plain) b
    rw [List.cons_append, close_cons b depth (isMark_of_isPlain plain) ne.1 ne.2, ih,
      ← within?_append, List.singleton_append]
  | divide _ _ _ ih =>
    have slash := @ne_bracket_of_depthStep '/' rfl b
    have equals := @ne_bracket_of_depthStep '=' rfl b
    rw [List.cons_append, List.cons_append, close_cons b depth rfl slash.1 slash.2,
      close_cons b depth rfl equals.1 equals.2, ih, ← within?_append, ← within?_append]
    rfl
  | literal s _ ih =>
    rw [List.append_assoc, close_of_hides b depth (hides_quote s), after_quote, ih, ← within?_append]
  | @group _ b' inner a _ _ ihInner ih =>
    have split : (b'.opener :: inner ++ b'.closer :: a) ++ cs =
        b'.opener :: (inner ++ (b'.closer :: (a ++ cs))) := by simp
    rw [split]
    -- Only brackets of the kind that is looked for move the depth.
    by_cases same : b' = b
    · subst same
      rw [close_opener, ihInner, close_closer_succ, ih, ← within?_append, ← within?_append,
        ← within?_append]
      simp
    · obtain ⟨⟨oo, oc⟩, co, cc⟩ := ne_bracket_of_ne same
      rw [close_cons b depth (isMark_opener b') oo oc, ihInner,
        close_cons b depth (isMark_closer b') co cc, ih, ← within?_append, ← within?_append,
        ← within?_append]
      simp

-- A bracket around code is closed where the code ends.
theorem Code.enclosed? {within top : Char → Prop} (code : Code within top a) :
    b.enclosed? (b.opener :: a ++ b.closer :: cs) = some (a, cs) := by
  simp [Bracket.enclosed?, code.close_append b 0, within?]

end Close

section Split

-- Puts what a scan has passed over in front of the first part.
def onFirst (a : List Char) (parts : List Char × List (List Char)) : List Char × List (List Char) :=
  (a ++ parts.1, parts.2)

@[simp] theorem onFirst_onFirst (a b : List Char) (parts : List Char × List (List Char)) :
    onFirst a (onFirst b parts) = onFirst (a ++ b) parts := by
  simp [onFirst]

variable {sep a cs : List Char} {c h : Char} {depth : Int}

theorem splitTopFrom_of_hides {q : Quote} (hidden : hides q a = true) :
    splitTopFrom sep q depth 0 (a ++ cs) = onFirst a (splitTopFrom sep (q.after a) depth 0 cs) := by
  induction a generalizing q with
  | nil => rfl
  | cons c a ih =>
    simp only [hides_cons, Bool.and_eq_true, Bool.not_eq_true'] at hidden
    rw [List.cons_append, splitTopFrom, if_neg (by simp [hidden.1]), ih hidden.2]
    rfl

-- A character that does not open a separator outside of all brackets joins the first part.
theorem splitTopFrom_cons (code : isMark c = false)
    (passes : ¬(depth + depthStep c = 0 ∧ sep ≠ [] ∧ sep.isPrefixOf (c :: cs) = true)) :
    splitTopFrom sep .code depth 0 (c :: cs) =
      onFirst [c] (splitTopFrom sep .code (depth + depthStep c) 0 cs) := by
  rw [splitTopFrom, if_pos (isCode_of_not_isMark code)]
  simp only [if_neg passes]
  rfl

theorem isPrefixOf_cons_of_ne (sep cs : List Char) (ne : h ≠ c) :
    (h :: sep).isPrefixOf (c :: cs) = false := by
  simp [List.isPrefixOf, ne]

-- A character of another kind than the separator's first one joins the first part.
theorem splitTopFrom_cons_of_ne (code : isMark c = false) (ne : h ≠ c) :
    splitTopFrom (h :: sep) .code depth 0 (c :: cs) =
      onFirst [c] (splitTopFrom (h :: sep) .code (depth + depthStep c) 0 cs) :=
  splitTopFrom_cons code (by simp [isPrefixOf_cons_of_ne sep cs ne])

theorem splitTopFrom_flat (flat : ∀ c ∈ a, isMark c = false ∧ depthStep c = 0 ∧ h ≠ c) :
    splitTopFrom (h :: sep) .code depth 0 (a ++ cs) =
      onFirst a (splitTopFrom (h :: sep) .code depth 0 cs) := by
  induction a with
  | nil => rfl
  | cons c a ih =>
    rw [List.forall_mem_cons] at flat
    obtain ⟨⟨mark, still, ne⟩, flat⟩ := flat
    rw [List.cons_append, splitTopFrom_cons_of_ne mark ne, still, Int.add_zero, ih flat,
      onFirst_onFirst, List.singleton_append]

theorem Code.splitTopFrom_append {within top : Char → Prop} (code : Code within top a)
    (flat : depthStep h = 0) (nonneg : 0 ≤ depth) (apart : 0 < depth ∨ ¬ top h) :
    splitTopFrom (h :: sep) .code depth 0 (a ++ cs) =
      onFirst a (splitTopFrom (h :: sep) .code depth 0 cs) := by
  -- At depth zero a plain character is none that opens the separator; deeper no separator counts.
  have pass {top : Char → Prop} {c : Char} {cs : List Char} {depth : Int} (nonneg : 0 ≤ depth)
      (apart : 0 < depth ∨ ¬ top h) (holds : top c) (mark : isMark c = false)
      (still : depthStep c = 0) : splitTopFrom (h :: sep) .code depth 0 (c :: cs) =
        onFirst [c] (splitTopFrom (h :: sep) .code depth 0 cs) := by
    rcases apart with deep | apart
    · rw [splitTopFrom_cons mark (by omega), still, Int.add_zero]
    · rw [splitTopFrom_cons_of_ne mark (by rintro rfl; exact apart holds), still, Int.add_zero]
  induction code generalizing depth cs with
  | nil => rfl
  | char plain holds _ ih =>
    rw [List.cons_append, pass nonneg apart holds (isMark_of_isPlain plain)
      (depthStep_of_isPlain plain), ih nonneg apart, onFirst_onFirst, List.singleton_append]
  | divide slash equals _ ih =>
    rw [List.cons_append, List.cons_append, pass nonneg apart slash rfl rfl,
      pass nonneg apart equals rfl rfl, ih nonneg apart, onFirst_onFirst, onFirst_onFirst]
    rfl
  | literal s _ ih =>
    rw [List.append_assoc, splitTopFrom_of_hides (hides_quote s), after_quote, ih nonneg apart,
      onFirst_onFirst]
  | @group _ b inner a _ _ ihInner ih =>
    have split : (b.opener :: inner ++ b.closer :: a) ++ cs =
        b.opener :: (inner ++ (b.closer :: (a ++ cs))) := by simp
    have notCloser : h ≠ b.closer := (ne_bracket_of_depthStep flat b).2
    rw [split, splitTopFrom_cons (isMark_opener b) (by rw [depthStep_opener]; omega),
      depthStep_opener, ihInner (by omega) (.inl (by omega)),
      splitTopFrom_cons_of_ne (isMark_closer b) notCloser, depthStep_closer,
      show depth + 1 + -1 = depth by omega, ih nonneg apart]
    simp

theorem splitTopFrom_skip (q : Quote) (a cs : List Char) :
    splitTopFrom sep q depth a.length (a ++ cs) = splitTopFrom sep q depth 0 cs := by
  induction a with
  | nil => rfl
  | cons c a ih => simpa [splitTopFrom] using ih

-- A separator outside of all brackets ends the first part.
theorem splitTopFrom_sep (code : isMark h = false) (flat : depthStep h = 0) :
    splitTopFrom (h :: sep) .code 0 0 (h :: sep ++ cs) =
      ([], (splitTopFrom (h :: sep) .code 0 0 cs).1 :: (splitTopFrom (h :: sep) .code 0 0 cs).2) := by
  have found : 0 + depthStep h = 0 ∧ h :: sep ≠ [] ∧ (h :: sep).isPrefixOf (h :: sep ++ cs) = true := by
    refine ⟨by omega, by simp, ?_⟩
    rw [List.isPrefixOf_iff_prefix]
    exact List.prefix_append _ _
  rw [List.cons_append] at found ⊢
  rw [splitTopFrom, if_pos (isCode_of_not_isMark code)]
  simp only [if_pos found]
  simp only [flat, Int.add_zero, List.length_cons, Nat.add_sub_cancel, splitTopFrom_skip]

variable {within top : Char → Prop}

theorem Code.splitTopFrom_eq (code : Code within top a) (flat : depthStep h = 0) (apart : ¬ top h) :
    splitTopFrom (h :: sep) .code 0 0 a = (a, []) := by
  have passed : splitTopFrom (h :: sep) .code 0 0 (a ++ []) =
      onFirst a (splitTopFrom (h :: sep) .code 0 0 []) :=
    code.splitTopFrom_append flat (Int.le_refl 0) (.inr apart)
  simpa [splitTopFrom, onFirst] using passed

theorem Code.splitTop_eq (code : Code within top a) (flat : depthStep h = 0) (apart : ¬ top h) :
    splitTop (h :: sep) a = [a] := by
  simp [splitTop, code.splitTopFrom_eq flat apart]

theorem Code.splitTop_sep (code : Code within top a) (mark : isMark h = false)
    (flat : depthStep h = 0) (apart : ¬ top h) :
    splitTop (h :: sep) (a ++ (h :: sep ++ cs)) = a :: splitTop (h :: sep) cs := by
  simp only [splitTop, code.splitTopFrom_append flat (Int.le_refl 0) (.inr apart),
    splitTopFrom_sep mark flat, onFirst, List.append_nil]

theorem Code.cutTop?_sep (code : Code within top a) (mark : isMark h = false)
    (flat : depthStep h = 0) (apart : ¬ top h) :
    cutTop? (h :: sep) (a ++ (h :: sep ++ cs)) = some (a, cs) := by
  rw [cutTop?, code.splitTopFrom_append flat (Int.le_refl 0) (.inr apart),
    splitTopFrom_sep mark flat]
  simp [onFirst, List.drop_append]

end Split

section Comments

variable {a cs : List Char}

theorem stripFrom_cons {c : Char} (code : isMark c = false) (notSlash : c ≠ '/') :
    stripFrom .code (c :: cs) = c :: stripFrom .code cs := by
  simp [stripFrom_inCode, code, notSlash]

theorem stripFrom_escape (cs rest : List Char) :
    stripFrom (.literal '"') (escape cs ++ '"' :: rest) = escape cs ++ '"' :: stripFrom .code rest := by
  induction cs with
  | nil => simp [escape, stripFrom_inLiteral]
  | cons c cs ih =>
    obtain ⟨letter, written, -⟩ | ⟨written, notMark, notSlash, notEnd, -⟩ := escapeChar_cases c
    · simp [written, stripFrom_inLiteral, stripFrom_inEscape, ih]
    · simp [written, stripFrom_inLiteral, ih, notMark, notSlash, notEnd]

-- Code has no comments, not even in the texts of its literals.
theorem Code.stripFrom_append {within top : Char → Prop} (code : Code within top a) :
    stripFrom .code (a ++ cs) = a ++ stripFrom .code cs := by
  induction code generalizing cs with
  | nil => rfl
  | char plain _ _ ih =>
    rw [List.cons_append, stripFrom_cons (isMark_of_isPlain plain) (ne_slash_of_isPlain plain), ih,
      List.cons_append]
  | divide _ _ _ ih => simp [stripFrom_inCode, isMark, ih]
  | literal s _ ih => simp [quote, stripFrom_inCode, isMark, stripFrom_escape, ih]
  | @group _ b inner a _ _ ihInner ih =>
    have opener : b.opener ≠ '/' := by cases b <;> decide
    have closer : b.closer ≠ '/' := by cases b <;> decide
    simp [stripFrom_cons (isMark_opener b) opener, ihInner, stripFrom_cons (isMark_closer b) closer, ih]

end Comments

section Blocks

variable {a cs : List Char}

/-- Text in which no block is opened. -/
def Outside (a : List Char) : Prop := ∀ behind cs : List Char,
  blocksFrom .code (.outside behind) (a ++ cs) = blocksFrom .code (.outside (a.reverse ++ behind)) cs

theorem Outside.append {b : List Char} (first : Outside a) (second : Outside b) : Outside (a ++ b) := by
  intro behind cs
  rw [List.append_assoc, first, second, List.reverse_append, List.append_assoc]

theorem blocksFrom_of_hides {q : Quote} (hidden : hides q a = true) (behind : List Char) :
    blocksFrom q (.outside behind) (a ++ cs) =
      blocksFrom (q.after a) (.outside (a.reverse ++ behind)) cs := by
  induction a generalizing q behind with
  | nil => rfl
  | cons c a ih =>
    simp only [hides_cons, Bool.and_eq_true, Bool.not_eq_true'] at hidden
    simp [blocksFrom_cons, hidden.1, BlockScan.literal, ih hidden.2]

theorem Outside.ofQuote (s : String) : Outside (quote s) := by
  intro behind cs
  rw [blocksFrom_of_hides (hides_quote s), after_quote]

theorem Outside.ofChars (chars : ∀ c ∈ a, isMark c = false ∧ c ≠ Bracket.curly.opener) : Outside a := by
  intro behind cs
  induction a generalizing behind with
  | nil => rfl
  | cons c a ih =>
    rw [List.forall_mem_cons] at chars
    simp [blocksFrom_cons, isCode_of_not_isMark chars.1.1, BlockScan.code, chars.1.2, ih chars.2]

theorem Outside.parens (inner : Outside a) : Outside (parens a) :=
  .append (.append (.ofChars (a := ['(']) (by decide)) inner) (.ofChars (by decide))

theorem exists_of_map_cons {c : Char} {found : Option (List Char × List Char)} {inside rest : List Char}
    (h : (found.map fun (inside, rest) => (c :: inside, rest)) = some (inside, rest)) :
    ∃ inside', found = some (inside', rest) ∧ inside = c :: inside' := by
  obtain ⟨⟨inside', rest'⟩, rfl, eq⟩ := Option.map_eq_some_iff.1 h
  obtain ⟨rfl, rfl⟩ := Prod.mk.inj eq
  exact ⟨inside', rfl, rfl⟩

-- Inside a block the scan for blocks runs to the brace that closes it.
theorem blocksFrom_within {q : Quote} {depth : Nat} {inside rest : List Char} (behind seen : List Char)
    (closed : Bracket.curly.close q depth cs = some (inside, rest)) :
    blocksFrom q (.within behind seen depth) cs = ⟨behind, seen.reverse ++ inside⟩ ::
      blocksFrom .code (.outside (Bracket.curly.closer :: inside.reverse ++ seen ++
        Bracket.curly.opener :: behind)) rest := by
  induction cs generalizing q depth seen inside with
  | nil => simp [Bracket.close] at closed
  | cons c cs ih =>
    have onward {next : Nat} {inside' : List Char}
        (found : Bracket.curly.close (q.next c) next cs = some (inside', rest))
        (eq : inside = c :: inside') :
        blocksFrom (q.next c) (.within behind (c :: seen) next) cs = ⟨behind, seen.reverse ++ inside⟩ ::
          blocksFrom .code (.outside (Bracket.curly.closer :: inside.reverse ++ seen ++
            Bracket.curly.opener :: behind)) rest := by
      simp [ih (c :: seen) found, eq]
    unfold Bracket.close at closed
    by_cases code : q.isCode c = true
    · rw [blocksFrom_cons, if_pos code]
      rw [Quote.next_of_isCode code] at onward
      simp only [code, Bool.true_and, beq_iff_eq, Quote.next_of_isCode code] at closed
      by_cases closer : c = Bracket.curly.closer
      · cases depth with
        | zero => simp_all [BlockScan.code]
        | succ depth =>
          simp only [if_pos closer] at closed
          obtain ⟨inside', found, eq⟩ := exists_of_map_cons closed
          simpa [BlockScan.code, closer] using onward found eq
      · simp only [if_neg closer] at closed
        obtain ⟨inside', found, eq⟩ := exists_of_map_cons closed
        by_cases opener : c = Bracket.curly.opener
        · have distinct : Bracket.curly.opener ≠ Bracket.curly.closer := by decide
          simpa [BlockScan.code, opener, distinct] using onward found eq
        · simpa [BlockScan.code, closer, opener] using onward found eq
    · rw [blocksFrom_cons, if_neg code]
      simp only [code, Bool.false_and, Bool.false_eq_true, if_false] at closed
      obtain ⟨inside', found, eq⟩ := exists_of_map_cons closed
      exact onward found eq

-- A brace outside of all blocks opens a block, which ends at the brace that closes it.
theorem Code.blocksFrom_block {within top : Char → Prop} (code : Code within top a)
    (behind : List Char) :
    blocksFrom .code (.outside behind) (Bracket.curly.opener :: a ++ Bracket.curly.closer :: cs) =
      ⟨behind, a⟩ :: blocksFrom .code (.outside
        ((Bracket.curly.opener :: a ++ [Bracket.curly.closer]).reverse ++ behind)) cs := by
  have closed : Bracket.curly.close .code 0 (a ++ Bracket.curly.closer :: cs) = some (a, cs) := by
    simp [code.close_append Bracket.curly 0, within?]
  have block := blocksFrom_within behind [] closed
  simpa [blocksFrom_cons, isCode_of_not_isMark (isMark_opener .curly), BlockScan.code] using block

end Blocks

end Breadboard.Canonical
