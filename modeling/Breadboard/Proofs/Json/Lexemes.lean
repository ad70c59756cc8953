import Breadboard.Json.Reader

set_option autoImplicit false

/-!
Strings and numbers of a document, read back from their texts. Main statements: a string is read back
from its escaped text, a whole number of at most 64 bits from its digits, and what is read from the text
of a number is read from it whatever follows.
-/
namespace Breadboard.Json

section Except

variable {ε α β : Type}

theorem bind_eq_ok_iff {x : Except ε α} {f : α → Except ε β} {b : β} :
    (x >>= f) = .ok b ↔ ∃ a, x = .ok a ∧ f a = .ok b := by
  cases x <;> simp [bind, Except.bind]

theorem map_eq_ok_iff {x : Except ε α} {f : α → β} {b : β} :
    x.map f = .ok b ↔ ∃ a, x = .ok a ∧ f a = b := by
  cases x <;> simp [Except.map]

end Except

/-! ## Strings -/

theorem escapeChar_ne_nil (c : Char) : escapeChar c ≠ [] := by
  unfold escapeChar
  split <;> try simp
  split <;> simp

theorem hexDigit?_digitChar : ∀ n < 16, Decimal.hexDigit? (Nat.digitChar n) = some n := by decide

theorem readHex4_control {n : Nat} (control : n < 0x20) (rest : List Char) :
    readHex4 ('0' :: '0' :: Nat.digitChar (n / 16) :: Nat.digitChar (n % 16) :: rest) = .ok (n, rest) := by
  have high := hexDigit?_digitChar (n / 16) (by omega)
  have low := hexDigit?_digitChar (n % 16) (by omega)
  have zero : Decimal.hexDigit? '0' = some 0 := rfl
  have long : ¬Text.byteSize ['0', '0', Nat.digitChar (n / 16), Nat.digitChar (n % 16)] < 4 := by
    have := (Nat.digitChar (n / 16)).utf8Size_pos
    have := (Nat.digitChar (n % 16)).utf8Size_pos
    have := ('0').utf8Size_pos
    simp [Text.byteSize]
    omega
  simp [readHex4, long, high, low, zero]
  omega

-- Every character takes one turn, however it is written.
theorem readChars_escapeChar (fuel : Nat) (seen : List Char) (c : Char) (rest : List Char) :
    readChars readUnicode (fuel + 1) seen (escapeChar c ++ rest) =
      readChars readUnicode fuel (c :: seen) rest := by
  unfold escapeChar
  split
  case h_8 quote backslash _ _ _ _ _ =>
    split
    · rename_i control
      have lead : ¬(0xD800 ≤ c.toNat ∧ c.toNat ≤ 0xDBFF) := by omega
      have trail : ¬(0xDC00 ≤ c.toNat ∧ c.toNat ≤ 0xDFFF) := by omega
      simp [readChars, readEscape, readUnicode, readHex4_control control, lead, trail, bind, Except.bind]
    · rename_i visible
      have quote : c ≠ '"' := quote
      have backslash : c ≠ '\\' := backslash
      simp [readChars, quote, backslash, visible]
  all_goals rfl

theorem readChars_escaped (s : List Char) (fuel : Nat) (seen rest : List Char) (enough : s.length < fuel) :
    readChars readUnicode fuel seen (s.flatMap escapeChar ++ '"' :: rest) = .ok (seen.reverse ++ s, rest) := by
  induction s generalizing fuel seen with
  | nil =>
    obtain ⟨fuel, rfl⟩ := Nat.exists_eq_succ_of_ne_zero (Nat.ne_of_gt enough)
    simp [readChars]
  | cons c s ih =>
    obtain ⟨fuel, rfl⟩ := Nat.exists_eq_succ_of_ne_zero (by omega : fuel ≠ 0)
    rw [List.flatMap_cons, List.append_assoc, Nat.succ_eq_add_one, readChars_escapeChar,
      ih fuel (c :: seen) (by simpa using enough)]
    simp

theorem length_le_escaped (s : List Char) : s.length ≤ (s.flatMap escapeChar).length := by
  induction s with
  | nil => exact Nat.le_refl 0
  | cons c s ih =>
    have := List.length_pos_iff.2 (escapeChar_ne_nil c)
    simp only [List.flatMap_cons, List.length_cons, List.length_append]
    omega

theorem readString_escaped (s : String) (rest : List Char) :
    readString (s.toList.flatMap escapeChar ++ '"' :: rest) = .ok (s, rest) := by
  have enough := length_le_escaped s.toList
  have read := readChars_escaped s.toList ((s.toList.flatMap escapeChar ++ '"' :: rest).length + 1) [] rest
    (by simp only [List.length_append]; omega)
  rw [readString, read, List.reverse_nil, List.nil_append]
  exact congrArg (fun s => Except.ok (s, rest)) String.ofList_toList

/-! ## Numbers -/

-- What may follow a number.
def NumberEnds (cs : List Char) : Prop :=
  ∀ c ∈ cs.head?, c.isDigit = false ∧ c ≠ '.' ∧ isExponentMark c = false

theorem numberEnds_nil : NumberEnds [] := nofun

theorem digits_append (cs : List Char) {more : List Char} (ends : NumberEnds more) :
    (cs ++ more).takeWhile Char.isDigit = cs.takeWhile Char.isDigit ∧
      (cs ++ more).dropWhile Char.isDigit = cs.dropWhile Char.isDigit ++ more := by
  induction cs with
  | nil =>
    cases more with
    | nil => simp
    | cons c more => simp [(ends c rfl).1]
  | cons c cs ih => by_cases digit : c.isDigit = true <;> simp [digit, ih]

variable {negative : Bool} {significand : Nat} {start : Int} {cs more rest : List Char} {n : Numeral}

-- The sign of an exponent, whether it points down, and what follows it.
def exponentSign : List Char → Bool × List Char
  | '+' :: cs => (false, cs)
  | '-' :: cs => (true, cs)
  | cs => (false, cs)

-- The number with an exponent.
def scaledBy (negative : Bool) (significand : Nat) (start : Int) (down : Bool) (e : Nat) :
    Except Defect Numeral :=
  if e ≤ maxExponent then
    (realOf negative significand (clampExponent (if down then start - e else start + e))).map .real
  else if significand ≠ 0 ∧ !down then .error .notJson
  else .ok (.real (if negative then -0.0 else 0.0))

theorem readExponent_eq (negative : Bool) (significand : Nat) (start : Int) (cs : List Char) :
    readExponent negative significand start cs =
      match (exponentSign cs).2 with
      | [] => .error .cutOff
      | c :: digits =>
        if c.isDigit then
          (scaledBy negative significand start (exponentSign cs).1
            (Decimal.ofDigits ((c :: digits).takeWhile Char.isDigit))).map
              (·, (c :: digits).dropWhile Char.isDigit)
        else .error .notJson := by
  have opened : readExponent negative significand start cs = match (exponentSign cs).2 with
      | [] => .error .cutOff
      | c :: _ =>
        if !c.isDigit then .error .notJson
        else
          let e := Decimal.ofDigits ((exponentSign cs).2.takeWhile Char.isDigit)
          let rest := (exponentSign cs).2.dropWhile Char.isDigit
          if e ≤ maxExponent then do
            let x ← realOf negative significand
              (clampExponent (if (exponentSign cs).1 then start - e else start + e))
            .ok (.real x, rest)
          else if significand ≠ 0 ∧ !(exponentSign cs).1 then .error .notJson
          else .ok (.real (if negative then -0.0 else 0.0), rest) := rfl
  rw [opened]
  obtain ⟨down, body⟩ := exponentSign cs
  cases body with
  | nil => rfl
  | cons c digits =>
    simp only [scaledBy]
    cases c.isDigit with
    | false => rfl
    | true =>
      simp only [Bool.not_true, Bool.false_eq_true, if_false, if_true]
      split
      · generalize realOf _ _ _ = size
        cases size <;> rfl
      · split <;> rfl

theorem readExponent_eq_ok_iff :
    readExponent negative significand start cs = .ok (n, rest) ↔
      (exponentSign cs).2.head?.any Char.isDigit = true ∧
      (exponentSign cs).2.dropWhile Char.isDigit = rest ∧
      scaledBy negative significand start (exponentSign cs).1
        (Decimal.ofDigits ((exponentSign cs).2.takeWhile Char.isDigit)) = .ok n := by
  rw [readExponent_eq]
  cases (exponentSign cs).2 with
  | nil => simp
  | cons c digits =>
    cases digit : c.isDigit with
    | false => simp [digit]
    | true =>
      simp only [digit, if_true, map_eq_ok_iff]
      constructor
      · rintro ⟨m, value, same⟩
        cases same
        exact ⟨digit, rfl, value⟩
      · rintro ⟨-, rfl, value⟩
        exact ⟨n, value, rfl⟩

theorem exponentSign_append (cs more : List Char) (nonempty : cs ≠ []) :
    exponentSign (cs ++ more) = ((exponentSign cs).1, (exponentSign cs).2 ++ more) := by
  obtain ⟨c, cs, rfl⟩ := List.exists_cons_of_ne_nil nonempty
  by_cases plus : c = '+'
  · subst plus
    rfl
  by_cases minus : c = '-'
  · subst minus
    rfl
  simp [exponentSign, plus, minus]

theorem readExponent_append (ends : NumberEnds more)
    (read : readExponent negative significand start cs = .ok (n, [])) :
    readExponent negative significand start (cs ++ more) = .ok (n, more) := by
  have nonempty : cs ≠ [] := by
    rintro rfl
    cases read
  rw [readExponent_eq_ok_iff] at read ⊢
  obtain ⟨digit, rest, value⟩ := read
  obtain ⟨taken, dropped⟩ := digits_append (exponentSign cs).2 ends
  have some : (exponentSign cs).2 ≠ [] := by
    intro empty
    simp [empty] at digit
  rw [exponentSign_append cs more nonempty]
  refine ⟨?_, ?_, ?_⟩
  · obtain ⟨c, digits, body⟩ := List.exists_cons_of_ne_nil some
    rw [body] at digit ⊢
    exact digit
  · rw [dropped, rest, List.nil_append]
  · rwa [taken]

theorem readPlaces_append (ends : NumberEnds more)
    (read : readPlaces negative significand start cs = .ok (n, [])) :
    readPlaces negative significand start (cs ++ more) = .ok (n, more) := by
  obtain ⟨taken, dropped⟩ := digits_append cs ends
  simp only [readPlaces, taken, dropped] at read ⊢
  split at read
  · cases read
  · rename_i digits
    rw [if_neg digits]
    generalize takeDigits significand (cs.takeWhile Char.isDigit) = scanned at read ⊢
    obtain ⟨significand, count, left⟩ := scanned
    generalize cs.dropWhile Char.isDigit = rest at read ⊢
    cases rest with
    | nil =>
      obtain ⟨x, value, same⟩ := bind_eq_ok_iff.1 read
      cases same
      cases more with
      | nil => exact read
      | cons c more =>
        have plain : isExponentMark c = false := (ends c rfl).2.2
        simp only [List.nil_append, plain, Bool.false_eq_true, if_false]
        exact bind_eq_ok_iff.2 ⟨x, value, rfl⟩
    | cons c tail =>
      simp only [List.cons_append] at read ⊢
      split at read
      · rename_i mark
        rw [if_pos mark]
        exact readExponent_append ends read
      · obtain ⟨x, -, same⟩ := bind_eq_ok_iff.1 read
        cases same

-- Digits that can stand in front of a point: there is one, and no zero in front of another.
def Leads (digits : List Char) : Prop := digits ≠ [] ∧ ∀ d ds, digits ≠ '0' :: d :: ds

-- The number that digits alone stand for.
def readPlain (negative : Bool) (significand left : Nat) : Reader Numeral := fun rest =>
  if left = 0 then .ok (wholeNumeral negative significand, rest)
  else (realOf negative significand left).map fun x => (.real x, rest)

-- Reads what follows the digits in front of the point.
def readBehind (negative : Bool) (digits : List Char) : Reader Numeral := fun rest =>
  let (significand, _, left) := takeDigits 0 digits
  match rest with
  | c :: tail =>
    if c = '.' then readPlaces negative significand left tail
    else if isExponentMark c then readExponent negative significand left tail
    else readPlain negative significand left rest
  | [] => readPlain negative significand left rest

theorem readUnsigned_eq_ok_iff {read : Numeral × List Char} :
    readUnsigned negative cs = .ok read ↔ Leads (cs.takeWhile Char.isDigit) ∧
      readBehind negative (cs.takeWhile Char.isDigit) (cs.dropWhile Char.isDigit) = .ok read := by
  unfold readUnsigned
  simp only
  split
  · rename_i none
    simp [Leads, none]
  · rename_i zero
    simp [Leads, zero]
  · rename_i some single
    exact ⟨fun read => ⟨⟨some, single⟩, read⟩, And.right⟩

theorem readPlain_eq_ok {left : Nat} (read : readPlain negative significand left cs = .ok (n, rest)) :
    rest = cs ∧ ∀ more, readPlain negative significand left more = .ok (n, more) := by
  unfold readPlain at read ⊢
  split at read
  · cases read
    exact ⟨rfl, fun _ => if_pos ‹_›⟩
  · obtain ⟨x, value, same⟩ := map_eq_ok_iff.1 read
    cases same
    exact ⟨rfl, fun _ => by rw [if_neg ‹_›, value]; rfl⟩

theorem readBehind_append {digits : List Char} (ends : NumberEnds more)
    (read : readBehind negative digits rest = .ok (n, [])) :
    readBehind negative digits (rest ++ more) = .ok (n, more) := by
  unfold readBehind at read ⊢
  generalize takeDigits 0 digits = scanned at read ⊢
  obtain ⟨significand, taken, left⟩ := scanned
  cases rest with
  | nil =>
    have plain := (readPlain_eq_ok read).2 more
    cases more with
    | nil => exact plain
    | cons c more =>
      obtain ⟨-, point, mark⟩ := ends c rfl
      simp only [List.nil_append, if_neg point, mark, Bool.false_eq_true, if_false]
      exact plain
  | cons c tail =>
    simp only [List.cons_append] at read ⊢
    split at read
    · rw [if_pos ‹_›]
      exact readPlaces_append ends read
    · rw [if_neg ‹_›]
      split at read
      · rw [if_pos ‹_›]
        exact readExponent_append ends read
      · cases (readPlain_eq_ok read).1

theorem readUnsigned_append (ends : NumberEnds more) (read : readUnsigned negative cs = .ok (n, [])) :
    readUnsigned negative (cs ++ more) = .ok (n, more) := by
  obtain ⟨taken, dropped⟩ := digits_append cs ends
  rw [readUnsigned_eq_ok_iff] at read ⊢
  rw [taken, dropped]
  exact ⟨read.1, readBehind_append ends read.2⟩

-- The sign of a number, whether it is negative, and what follows it.
def numberSign : List Char → Bool × List Char
  | '-' :: cs => (true, cs)
  | cs => (false, cs)

theorem readNumber_eq (cs : List Char) : readNumber cs = readUnsigned (numberSign cs).1 (numberSign cs).2 := by
  cases cs with
  | nil => rfl
  | cons c cs =>
    by_cases minus : c = '-'
    · subst minus
      rfl
    · simp [readNumber, numberSign, minus]

-- A number is read from its text whatever follows that cannot be part of it.
theorem readNumber_append (ends : NumberEnds more) (read : readNumber cs = .ok (n, [])) :
    readNumber (cs ++ more) = .ok (n, more) := by
  have nonempty : cs ≠ [] := by
    rintro rfl
    cases read
  have sign : numberSign (cs ++ more) = ((numberSign cs).1, (numberSign cs).2 ++ more) := by
    obtain ⟨c, cs, rfl⟩ := List.exists_cons_of_ne_nil nonempty
    by_cases minus : c = '-'
    · subst minus
      rfl
    · simp [numberSign, minus]
  rw [readNumber_eq] at read ⊢
  rw [sign]
  exact readUnsigned_append ends read

/-! ## Whole numbers -/

theorem takeDigits_of_le (digits : List Char) (n : Nat)
    (fits : digits.foldl (fun n c => 10 * n + (c.toNat - '0'.toNat)) n ≤ maxWhole) :
    takeDigits n digits =
      (digits.foldl (fun n c => 10 * n + (c.toNat - '0'.toNat)) n, digits.length, 0) := by
  have grows (digits : List Char) (n : Nat) :
      n ≤ digits.foldl (fun n c => 10 * n + (c.toNat - '0'.toNat)) n := by
    induction digits generalizing n with
    | nil => exact Nat.le_refl n
    | cons c digits ih =>
      have := ih (10 * n + (c.toNat - '0'.toNat))
      rw [List.foldl_cons]
      omega
  induction digits generalizing n with
  | nil => rfl
  | cons c digits ih =>
    have next := grows digits (10 * n + (c.toNat - '0'.toNat))
    rw [List.foldl_cons] at fits ⊢
    simp only [takeDigits, if_pos (Nat.le_trans next fits), ih _ fits, List.length_cons]

theorem takeDigits_le (digits : List Char) (n : Nat) (fits : n ≤ maxWhole) :
    (takeDigits n digits).1 ≤ maxWhole := by
  induction digits generalizing n with
  | nil => exact fits
  | cons c digits ih =>
    simp only [takeDigits]
    split
    · exact ih _ ‹_›
    · exact fits

theorem leads_toDigits (n : Nat) : Leads (Nat.toDigits 10 n) := by
  refine ⟨Nat.toDigits_ne_nil, ?_⟩
  induction n using Nat.strongRecOn with
  | ind n ih =>
    intro d ds zero
    by_cases small : n < 10
    · rw [Nat.toDigits_of_lt_base small] at zero
      simp at zero
    · have shorter := ih (n / 10) (by omega)
      rw [Nat.toDigits_of_base_le (by omega) (by omega)] at zero
      obtain ⟨c, front, split⟩ := List.exists_cons_of_ne_nil (@Nat.toDigits_ne_nil (n / 10) 10)
      rw [split] at zero shorter
      obtain ⟨rfl, -⟩ := List.cons.inj zero
      cases front with
      | cons d front => exact shorter d front rfl
      | nil =>
        -- The digits in front of the last one are those of a number other than zero.
        have value : Nat.ofDigitChars 10 (Nat.toDigits 10 (n / 10)) 0 = n / 10 := Nat.ofDigitChars_ten_toDigits
        rw [split] at value
        have : 0 < n / 10 := by omega
        simp [Nat.ofDigitChars] at value
        omega

theorem readUnsigned_toDigits {n : Nat} (fits : n ≤ maxWhole) :
    readUnsigned negative (Nat.toDigits 10 n) = .ok (wholeNumeral negative n, []) := by
  have digit : ∀ c ∈ Nat.toDigits 10 n, c.isDigit = true := fun c listed =>
    Nat.isDigit_of_mem_toDigits (by decide) (by decide) listed
  have taken : (Nat.toDigits 10 n).takeWhile Char.isDigit = Nat.toDigits 10 n := by
    simpa using @List.takeWhile_append_of_pos _ _ _ [] digit
  have dropped : (Nat.toDigits 10 n).dropWhile Char.isDigit = [] := by
    simpa using @List.dropWhile_append_of_pos _ _ _ [] digit
  have value : Decimal.ofDigits (Nat.toDigits 10 n) = n := Nat.ofDigitChars_ten_toDigits
  rw [readUnsigned_eq_ok_iff, taken, dropped]
  refine ⟨leads_toDigits n, ?_⟩
  have scanned := takeDigits_of_le (Nat.toDigits 10 n) 0 (by rw [← Decimal.ofDigits, value]; exact fits)
  rw [← Decimal.ofDigits, value] at scanned
  simp [readBehind, readPlain, scanned]

-- A whole number as it is kept.
def Numeral.Fits : Numeral → Prop
  | .whole n => -Decimal.twoTo 63 ≤ n ∧ n ≤ maxWhole
  | .real _ => True

theorem readNumber_integer {n : Int} (fits : (Numeral.whole n).Fits) :
    readNumber (Decimal.integer n) = .ok (.whole n, []) := by
  obtain ⟨low, high⟩ := fits
  have limits : Decimal.twoTo 63 ≤ maxWhole := by decide
  unfold Decimal.integer
  split
  · rename_i negative
    have read := @readUnsigned_toDigits true n.natAbs (by omega)
    have whole : wholeNumeral true n.natAbs = .whole n := by
      rw [wholeNumeral, if_pos rfl, if_pos (by omega)]
      congr 1
      omega
    rw [← whole]
    exact read
  · rename_i positive
    have read := @readUnsigned_toDigits false n.natAbs (by omega)
    have whole : wholeNumeral false n.natAbs = .whole n := by
      simp only [wholeNumeral, Bool.false_eq_true, if_false]
      congr 1
      omega
    have unsigned : numberSign (Nat.toDigits 10 n.natAbs) = (false, Nat.toDigits 10 n.natAbs) := by
      obtain ⟨c, digits, split⟩ := List.exists_cons_of_ne_nil (@Nat.toDigits_ne_nil n.natAbs 10)
      have digit : c.isDigit = true :=
        @Nat.isDigit_of_mem_toDigits 10 n.natAbs c (by decide) (by decide) (by simp [split])
      have minus : c ≠ '-' := by
        rintro rfl
        cases digit
      simp [split, numberSign, minus]
    rw [List.nil_append, readNumber_eq, unsigned, ← whole]
    exact read

theorem fits_wholeNumeral (negative : Bool) {n : Nat} (fits : n ≤ maxWhole) : (wholeNumeral negative n).Fits := by
  unfold wholeNumeral
  split
  · split
    · simp only [Numeral.Fits]
      omega
    · trivial
  · simp only [Numeral.Fits]
    omega

theorem fits_scaledBy {down : Bool} {e : Nat} (value : scaledBy negative significand start down e = .ok n) :
    n.Fits := by
  unfold scaledBy at value
  split at value
  · obtain ⟨x, -, rfl⟩ := map_eq_ok_iff.1 value
    trivial
  · split at value <;> cases value
    trivial

theorem fits_readPlaces (read : readPlaces negative significand start cs = .ok (n, rest)) : n.Fits := by
  simp only [readPlaces] at read
  split at read
  · cases read
  · split at read
    · split at read
      · exact fits_scaledBy (readExponent_eq_ok_iff.1 read).2.2
      · obtain ⟨x, -, same⟩ := bind_eq_ok_iff.1 read
        cases same
        trivial
    · obtain ⟨x, -, same⟩ := bind_eq_ok_iff.1 read
      cases same
      trivial

theorem fits_readBehind {digits : List Char} (read : readBehind negative digits cs = .ok (n, rest)) : n.Fits := by
  have fits := takeDigits_le digits 0 (Nat.zero_le _)
  unfold readBehind at read
  generalize takeDigits 0 digits = scanned at read fits
  obtain ⟨significand, taken, left⟩ := scanned
  have plain (more : List Char) (value : readPlain negative significand left more = .ok (n, rest)) : n.Fits := by
    unfold readPlain at value
    split at value
    · cases value
      exact fits_wholeNumeral negative fits
    · obtain ⟨x, -, same⟩ := map_eq_ok_iff.1 value
      cases same
      trivial
  simp only at read
  split at read
  · split at read
    · exact fits_readPlaces read
    · split at read
      · exact fits_scaledBy (readExponent_eq_ok_iff.1 read).2.2
      · exact plain _ read
  · exact plain _ read

theorem fits_readNumber (read : readNumber cs = .ok (n, rest)) : n.Fits := by
  rw [readNumber_eq, readUnsigned_eq_ok_iff] at read
  exact fits_readBehind read.2

end Breadboard.Json
