import Mathlib.Data.Option.Basic
import Breadboard.Proofs.Canonical.Scanning

set_option autoImplicit false

/-!
The words of a sketch: names, numerals, texts and calls. Main statements: each of them is read back
from its text, and is taken for none of the others.
-/
namespace Breadboard.Canonical

open Text

section Trimming

-- A text that opens with a character in `p`.
def Starts (p : Char → Prop) (cs : List Char) : Prop := ∃ c rest, cs = c :: rest ∧ p c

-- A text that ends with a character that is not blank.
def Ends (cs : List Char) : Prop := ∃ front c, cs = front ++ [c] ∧ isBlank c = false

-- A text without blanks around it.
structure Tight (cs : List Char) : Prop where
  starts : Starts (isBlank · = false) cs
  ends : Ends cs

variable {a b cs : List Char} {p q : Char → Prop}

theorem Starts.append (starts : Starts p a) (b : List Char) : Starts p (a ++ b) := by
  obtain ⟨c, rest, rfl, holds⟩ := starts
  exact ⟨c, rest ++ b, rfl, holds⟩

theorem Starts.mono (starts : Starts p a) (weaker : ∀ c, p c → q c) : Starts q a := by
  obtain ⟨c, rest, eq, holds⟩ := starts
  exact ⟨c, rest, eq, weaker c holds⟩

theorem Ends.append (ends : Ends b) (a : List Char) : Ends (a ++ b) := by
  obtain ⟨front, c, rfl, holds⟩ := ends
  exact ⟨a ++ front, c, by simp, holds⟩

theorem Ends.cons (ends : Ends b) (c : Char) : Ends (c :: b) := ends.append [c]

theorem dropWhile_blanks (blanks : ∀ c ∈ a, isBlank c = true)
    (starts : Starts (isBlank · = false) cs) : (a ++ cs).dropWhile isBlank = cs := by
  obtain ⟨c, rest, rfl, solid⟩ := starts
  rw [List.dropWhile_append_of_pos blanks, List.dropWhile_cons_of_neg (by simp [solid])]

theorem trimStart_blanks (blanks : ∀ c ∈ a, isBlank c = true)
    (starts : Starts (isBlank · = false) cs) : trimStart (a ++ cs) = cs :=
  dropWhile_blanks blanks starts

theorem Starts.trimStart_eq (starts : Starts (isBlank · = false) cs) : trimStart cs = cs :=
  trimStart_blanks (a := []) (by simp) starts

theorem trimEnd_blanks (blanks : ∀ c ∈ b, isBlank c = true) (ends : Ends cs) :
    trimEnd (cs ++ b) = cs := by
  obtain ⟨front, c, rfl, solid⟩ := ends
  have starts : Starts (isBlank · = false) (front ++ [c]).reverse := ⟨c, front.reverse, by simp, solid⟩
  have blanks' : ∀ c ∈ b.reverse, isBlank c = true := by simpa using blanks
  rw [trimEnd, dropEndWhile, List.reverse_append, dropWhile_blanks blanks' starts, List.reverse_reverse]

theorem Tight.trim_between (tight : Tight cs) (before : ∀ c ∈ a, isBlank c = true)
    (behind : ∀ c ∈ b, isBlank c = true) : trim (a ++ (cs ++ b)) = cs := by
  rw [trim, trimStart_blanks before (tight.starts.append b), trimEnd_blanks behind tight.ends]

theorem Tight.trim_eq (tight : Tight cs) : trim cs = cs := by
  simpa using tight.trim_between (a := []) (b := []) (by simp) (by simp)

theorem Starts.isBlankText_append (starts : Starts (isBlank · = false) cs) (a : List Char) :
    isBlankText (a ++ cs) = false := by
  obtain ⟨c, rest, rfl, solid⟩ := starts
  simp [isBlankText, solid]

end Trimming

section WordChars

variable {c : Char}

theorem ne_of_class {p : Char → Bool} {d : Char} (holds : p c = true) (fails : p d = false) : c ≠ d := by
  rintro rfl
  simp [holds] at fails

theorem isBlank_of_isWordChar (word : isWordChar c = true) : isBlank c = false := by
  have small : 48 ≤ c.toNat ∧ c.toNat ≤ 122 := by
    unfold isWordChar Char.isAlphanum Char.isAlpha Char.isUpper Char.isLower Char.isDigit at word
    simp only [Bool.or_eq_true, Bool.and_eq_true, decide_eq_true_eq, beq_iff_eq, ge_iff_le,
      UInt32.le_iff_toNat_le] at word
    rcases word with ((⟨low, high⟩ | ⟨low, high⟩) | ⟨low, high⟩) | rfl
    · exact ⟨Nat.le_trans (by decide) low, Nat.le_trans high (by decide)⟩
    · exact ⟨Nat.le_trans (by decide) low, Nat.le_trans high (by decide)⟩
    · exact ⟨Nat.le_trans (by decide) low, Nat.le_trans high (by decide)⟩
    · decide
  simp only [isBlank]
  grind

theorem isPlain_of_isWordChar (word : isWordChar c = true) : isPlain c = true := by
  have special : ∀ d ∈ ['"', '\'', '/', '(', ')', '[', ']', '\x7b', '\x7d'], isWordChar d = false := by
    decide
  have other : ∀ d ∈ ['"', '\'', '/', '(', ')', '[', ']', '\x7b', '\x7d'], c ≠ d := fun d known =>
    ne_of_class word (special d known)
  simp only [List.forall_mem_cons, List.not_mem_nil, false_implies, implies_true, and_true] at other
  simp [isPlain, isMark, depthStep, other]

-- The characters of the name of a call, which may belong to an object.
def isNameChar (c : Char) : Bool := isWordChar c || c == '.'

theorem isNameChar_of_isWordChar (word : isWordChar c = true) : isNameChar c = true := by
  simp [isNameChar, word]

theorem isBlank_of_isNameChar (name : isNameChar c = true) : isBlank c = false := by
  simp only [isNameChar, Bool.or_eq_true, beq_iff_eq] at name
  rcases name with word | rfl
  · exact isBlank_of_isWordChar word
  · decide

theorem isPlain_of_isNameChar (name : isNameChar c = true) : isPlain c = true := by
  simp only [isNameChar, Bool.or_eq_true, beq_iff_eq] at name
  rcases name with word | rfl
  · exact isPlain_of_isWordChar word
  · decide

end WordChars

-- Characters that stand on one line.
def InLine (c : Char) : Prop := c ≠ '\n' ∧ c ≠ '\r'

instance : DecidablePred InLine := fun c => inferInstanceAs (Decidable (c ≠ '\n' ∧ c ≠ '\r'))

def IsWord (c : Char) : Prop := isWordChar c = true

instance : DecidablePred IsWord := fun c => inferInstanceAs (Decidable (isWordChar c = true))

section Names

theorem isIdentifier_cases {cs : List Char} (identifier : isIdentifier cs = true) :
    ∃ c rest, cs = c :: rest ∧ (c.isAlpha = true ∨ c = '_') ∧ ∀ d ∈ rest, isWordChar d = true := by
  cases cs with
  | nil => exact absurd identifier (by decide)
  | cons c rest => exact ⟨c, rest, rfl, by simpa [isIdentifier] using identifier⟩

theorem isWordChar_of_isIdentifier {cs : List Char} (identifier : isIdentifier cs = true) :
    ∀ c ∈ cs, isWordChar c = true := by
  obtain ⟨c, rest, rfl, first, others⟩ := isIdentifier_cases identifier
  rw [List.forall_mem_cons]
  refine ⟨?_, others⟩
  rcases first with letter | rfl
  · simp [isWordChar, Char.isAlphanum, letter]
  · decide

theorem isDigit_of_isAlpha {c : Char} (letter : c.isAlpha = true) : c.isDigit = false := by
  unfold Char.isAlpha Char.isUpper Char.isLower at letter
  simp only [Bool.or_eq_true, Bool.and_eq_true,
    decide_eq_true_eq, ge_iff_le, UInt32.le_iff_toNat_le] at letter
  have low : '9'.val.toNat < c.val.toNat := by
    rcases letter with ⟨low, -⟩ | ⟨low, -⟩
    · exact Nat.lt_of_lt_of_le (by decide) low
    · exact Nat.lt_of_lt_of_le (by decide) low
  simp only [Char.isDigit, Bool.and_eq_false_iff, decide_eq_false_iff_not, UInt32.le_iff_toNat_le]
  exact .inr (Nat.not_le.2 low)

theorem starts_of_isIdentifier {cs : List Char} (identifier : isIdentifier cs = true) :
    Starts (fun c => c.isDigit = false ∧ isWordChar c = true) cs := by
  have words := isWordChar_of_isIdentifier identifier
  obtain ⟨c, rest, rfl, first, -⟩ := isIdentifier_cases identifier
  refine ⟨c, rest, rfl, ?_, words c (by simp)⟩
  rcases first with letter | rfl
  · exact isDigit_of_isAlpha letter
  · decide

variable {reserved : List String} (name : Name reserved)

theorem Name.isWordChar_text : ∀ c ∈ name.text, isWordChar c = true :=
  isWordChar_of_isIdentifier name.isIdentifier

theorem Name.starts_text : Starts IsWord name.text :=
  (starts_of_isIdentifier name.isIdentifier).mono fun _ => And.right

theorem ends_of_isWordChar {cs : List Char} (nonempty : cs ≠ []) (word : ∀ c ∈ cs, isWordChar c = true) :
    Ends cs := by
  refine ⟨cs.dropLast, cs.getLast nonempty, (List.dropLast_concat_getLast nonempty).symm, ?_⟩
  exact isBlank_of_isWordChar (word _ (List.getLast_mem nonempty))

theorem tight_of_isWordChar {cs : List Char} (nonempty : cs ≠ []) (word : ∀ c ∈ cs, isWordChar c = true) :
    Tight cs := by
  obtain ⟨c, rest, rfl⟩ := List.exists_cons_of_ne_nil nonempty
  exact ⟨⟨c, rest, rfl, isBlank_of_isWordChar (word c (by simp))⟩, ends_of_isWordChar nonempty word⟩

theorem Name.text_ne_nil : name.text ≠ [] := by
  obtain ⟨c, rest, eq, -⟩ := name.starts_text
  simp [eq]

theorem Name.tight_text : Tight name.text := tight_of_isWordChar name.text_ne_nil name.isWordChar_text

@[simp] theorem Name.ofList_text : String.ofList name.text = name.spelling := by simp [Name.text]

theorem code_of_isWordChar {within : Char → Prop} {cs : List Char}
    (word : ∀ c ∈ cs, isWordChar c = true) : Code within IsWord cs :=
  .ofPlain (fun c h => isPlain_of_isWordChar (word c h)) word

end Names

section Quotes

theorem literalBody_escape (cs : List Char) :
    literalBody '"' false (escape cs ++ ['"']) = some (escape cs) := by
  induction cs with
  | nil => rfl
  | cons c cs ih =>
    obtain ⟨letter, written, -⟩ | ⟨written, notMark, notSlash, -⟩ := escapeChar_cases c
    · simp [written, literalBody, ih]
    · have plain : (c == '\\') = false := by simp [notSlash]
      simp [written, literalBody, ih, notMark, plain]

theorem expandEscapes_cons {c : Char} (ne : c ≠ '\\') (cs : List Char) :
    expandEscapes (c :: cs) = c :: expandEscapes cs := by
  rw [expandEscapes]
  · simp [ne]
  · simp [ne]

theorem expandEscapes_escape (cs : List Char) : expandEscapes (escape cs) = cs := by
  induction cs with
  | nil => rfl
  | cons c cs ih =>
    obtain ⟨letter, written, meant, -⟩ | ⟨written, -, notSlash, -⟩ := escapeChar_cases c
    · simp [written, expandEscapes, ih, meant]
    · simp [written, expandEscapes_cons notSlash, ih]

theorem tight_quote (s : String) : Tight (quote s) :=
  ⟨⟨'"', _, rfl, rfl⟩, ⟨'"' :: escape s.toList, '"', rfl, rfl⟩⟩

theorem unquote_quote (s : String) : unquote (quote s) = some (escape s.toList) := by
  rw [unquote, (tight_quote s).trim_eq]
  simp [quote, isMark, literalBody_escape]

@[simp] theorem ofList_expandEscapes_escape (s : String) :
    String.ofList (expandEscapes (escape s.toList)) = s := by
  simp [expandEscapes_escape]

theorem inLine_escape {c : Char} {cs : List Char} (h : c ∈ escape cs) : InLine c := by
  obtain ⟨d, -, h⟩ := List.mem_flatMap.1 h
  obtain ⟨letter, written, -, notEnd, notReturn⟩ | ⟨written, -, -, notEnd, notReturn⟩ := escapeChar_cases d
  · rw [written] at h
    simp only [List.mem_cons, List.not_mem_nil, or_false] at h
    rcases h with rfl | rfl
    · exact by decide
    · exact ⟨notEnd, notReturn⟩
  · rw [written, List.mem_singleton] at h
    subst h
    exact ⟨notEnd, notReturn⟩

theorem unquote_of_starts {cs : List Char} (tight : Tight cs) (starts : Starts (isMark · = false) cs) :
    unquote cs = none := by
  obtain ⟨c, rest, rfl, code⟩ := starts
  simp [unquote, tight.trim_eq, code]

end Quotes

-- Code that stands on one line has no line end anywhere.
theorem Code.inLine {top : Char → Prop} {a : List Char} (code : Code InLine top a)
    (outside : ∀ c, top c → InLine c) : ∀ c ∈ a, InLine c := by
  induction code with
  | nil => simp
  | char _ holds _ ih => exact List.forall_mem_cons.2 ⟨outside _ holds, ih outside⟩
  | divide slash equals _ ih =>
    exact List.forall_mem_cons.2 ⟨outside _ slash, List.forall_mem_cons.2 ⟨outside _ equals, ih outside⟩⟩
  | literal s _ ih =>
    intro c h
    simp only [quote, List.cons_append, List.mem_cons, List.mem_append, List.append_assoc,
      List.nil_append] at h
    rcases h with rfl | h | rfl | h
    · exact by decide
    · exact inLine_escape h
    · exact by decide
    · exact ih outside c h
  | group b _ _ ihInner ih =>
    intro c h
    simp only [List.cons_append, List.mem_cons, List.mem_append] at h
    rcases h with rfl | h | rfl | h
    · cases b <;> exact by decide
    · exact ihInner (fun _ h => h) c h
    · cases b <;> exact by decide
    · exact ih outside c h

section Numerals

theorem dropEndWhile_eq {p : Char → Bool} {c : Char} (front : List Char) (kept : p c = false) :
    dropEndWhile p (front ++ [c]) = front ++ [c] := by
  simp [dropEndWhile, kept]

theorem dropEndWhile_front (p : Char → Bool) (cs : List Char) : dropEndWhile p cs <+: cs := by
  rw [dropEndWhile, ← List.reverse_suffix, List.reverse_reverse]
  exact List.dropWhile_suffix p

theorem dropPrefix?_eq_none {pre cs : List Char} {c : Char} (used : c ∈ pre) (absent : c ∉ cs) :
    dropPrefix? pre cs = none := by
  cases found : dropPrefix? pre cs with
  | none => rfl
  | some rest =>
    rw [eq_append_of_dropPrefix? found] at absent
    exact absurd (List.mem_append_left rest used) absent

theorem ofDecimal_zero {n : Nat} (short : (Nat.toDigits 10 n).length ≤ 309) :
    Decimal.ofDecimal n 0 = Decimal.ofInt n := by
  have large : ¬ (310 < ((Nat.toDigits 10 n).length : Int) + 0) := by omega
  have small : ¬ (((Nat.toDigits 10 n).length : Int) + 0 < -330) := by omega
  have nonneg : ¬ ((n : Int) < 0) := by omega
  by_cases zero : n = 0
  · simp [zero, Decimal.ofDecimal, Decimal.ofInt, Decimal.nearest]
  · rw [Decimal.ofDecimal, if_neg zero, Decimal.ofInt, if_neg nonneg]
    simp only [if_neg large, if_neg small]
    simp [Decimal.tenTo]

-- A number literal without a sign that is not hexadecimal.
theorem numberLiteral?_eq {cs : List Char} (tight : Tight cs)
    (unsigned : Starts (fun c => c ≠ '-' ∧ c ≠ '+') cs) (lower : dropPrefix? ['0', 'x'] cs = none)
    (upper : dropPrefix? ['0', 'X'] cs = none) :
    numberLiteral? cs = pointNumber? (dropEndWhile (fun c => "uUlLfF".toList.contains c) cs) := by
  obtain ⟨c, rest, rfl, minus, plus⟩ := unsigned
  rw [numberLiteral?, tight.trim_eq]
  simp [minus, plus, lower, upper]

namespace Numeral

variable (n : Numeral)

theorem isDigit_text : ∀ c ∈ n.text, c.isDigit = true := fun _ h =>
  Nat.isDigit_of_mem_toDigits (by decide) (by decide) h

theorem text_ne_nil : n.text ≠ [] := Nat.toDigits_ne_nil

theorem ofDigits_text : Decimal.ofDigits n.text = n.value := Nat.ofDigitChars_ten_toDigits

theorem unsigned?_text : Decimal.unsigned? n.text = some n.number := by
  have digits : n.text.takeWhile Char.isDigit = n.text := by
    simpa using @List.takeWhile_append_of_pos _ _ _ [] n.isDigit_text
  have rest : n.text.dropWhile Char.isDigit = [] := by
    simpa using @List.dropWhile_append_of_pos _ _ _ [] n.isDigit_text
  have nonempty : n.text.isEmpty = false := by simp [n.text_ne_nil]
  simp only [Decimal.unsigned?, digits, rest, nonempty, List.append_nil, n.ofDigits_text]
  exact congrArg some (ofDecimal_zero n.isFinite)

theorem starts_text : Starts (·.isDigit = true) n.text := by
  obtain ⟨c, rest, eq⟩ := List.exists_cons_of_ne_nil n.text_ne_nil
  exact ⟨c, rest, eq, n.isDigit_text c (by simp [eq])⟩

theorem isWordChar_text : ∀ c ∈ n.text, isWordChar c = true := by
  intro c h
  simp [isWordChar, Char.isAlphanum, n.isDigit_text c h]

theorem tight_text : Tight n.text := tight_of_isWordChar n.text_ne_nil n.isWordChar_text

theorem pointNumber?_text : pointNumber? n.text = some n.number := by
  obtain ⟨c, rest, eq, digit⟩ := n.starts_text
  have minus : c ≠ '-' := ne_of_class digit (by decide)
  have plus : c ≠ '+' := ne_of_class digit (by decide)
  have digits : n.text.all (fun c => c.isDigit || c == '.') = true := by
    rw [List.all_eq_true]
    intro c h
    simp [n.isDigit_text c h]
  have points : n.text.count '.' = 0 := by
    rw [List.count_eq_zero]
    intro h
    exact absurd (n.isDigit_text _ h) (by decide)
  have unsigned := n.unsigned?_text
  rw [pointNumber?, digits, points]
  rw [eq] at unsigned ⊢
  simp [Decimal.read?, minus, plus, unsigned]

theorem numberLiteral?_text : numberLiteral? n.text = some n.number := by
  have only {d : Char} (letter : d.isDigit = false) : d ∉ n.text := fun h => by
    simp [n.isDigit_text d h] at letter
  have bare : dropEndWhile (fun c => "uUlLfF".toList.contains c) n.text = n.text := by
    rw [← List.dropLast_concat_getLast n.text_ne_nil]
    refine dropEndWhile_eq _ (Bool.eq_false_iff.2 fun suffix => ?_)
    have letters : ∀ d ∈ "uUlLfF".toList, d.isDigit = false := by decide
    exact only (letters _ (List.contains_iff_mem.1 suffix)) (List.getLast_mem n.text_ne_nil)
  have unsigned : Starts (fun c => c ≠ '-' ∧ c ≠ '+') n.text := n.starts_text.mono fun c digit =>
    ⟨ne_of_class digit (by decide), ne_of_class digit (by decide)⟩
  rw [numberLiteral?_eq n.tight_text unsigned (dropPrefix?_eq_none (c := 'x') (by decide) (only rfl))
    (dropPrefix?_eq_none (c := 'X') (by decide) (only rfl)), bare, n.pointNumber?_text]

end Numeral

theorem pointNumber?_nil : pointNumber? [] = none := by
  simp [pointNumber?, Decimal.read?, Decimal.unsigned?, Decimal.named?, guard, failure]

-- A text that opens with no digit, point or sign is no number, whatever suffixes it has.
theorem numberLiteral?_of_starts {cs : List Char} (tight : Tight cs)
    (starts : Starts (fun c => c.isDigit = false ∧ c ∉ ['.', '-', '+']) cs) :
    numberLiteral? cs = none := by
  obtain ⟨c, rest, rfl, letter, other⟩ := starts
  simp only [List.mem_cons, List.not_mem_nil, or_false, not_or] at other
  have notZero : '0' ≠ c := by rintro rfl; exact absurd letter (by decide)
  rw [numberLiteral?_eq tight ⟨c, rest, rfl, other.2⟩ (by simp [dropPrefix?, notZero])
    (by simp [dropPrefix?, notZero])]
  -- The suffixes may be the whole of it; otherwise its first character is still there.
  have front := dropEndWhile_front (fun c => "uUlLfF".toList.contains c) (c :: rest)
  cases left : dropEndWhile (fun c => "uUlLfF".toList.contains c) (c :: rest) with
  | nil => exact pointNumber?_nil
  | cons d others =>
    rw [left] at front
    obtain ⟨rfl, -⟩ := List.cons_prefix_cons.1 front
    simp [pointNumber?, letter, other.1]

end Numerals

end Breadboard.Canonical
