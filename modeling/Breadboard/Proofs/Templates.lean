import Breadboard.Calc.Template

set_option autoImplicit false

/-!
Formatted printing. Main statement: a template that is written by the grammar of directives shows its items
one after the other, each directive the next value in its own way and at its own width.
-/
namespace Breadboard

/-- The letters that ask for a conversion. -/
def Conversion.letters : Conversion → List Char
  | signed => ['d', 'i']
  | unsigned => ['u']
  | lowerHex => ['x']
  | upperHex => ['X']
  | fixed => ['f']
  | text => ['s']
  | char => ['c']

namespace Template

/-- A directive as it is written: flags, a width that opens with no zero, places, lengths and the letter of
its conversion. -/
structure Field where
  flags : List Char
  width : List Char
  places : Option (List Char)
  lengths : List Char
  conversion : Conversion
  letter : Char
  flag : ∀ c ∈ flags, c = '-' ∨ c = '0'
  digit : ∀ c ∈ width, c.isDigit = true
  opening : width.head? ≠ some '0'
  place : ∀ ds, places = some ds → ∀ c ∈ ds, c.isDigit = true
  length : ∀ c ∈ lengths, c = 'l' ∨ c = 'h'
  known : letter ∈ conversion.letters

/-- An item of a template: a character, a percent sign, which is written twice, or a directive. -/
inductive Item where
  | char (c : Char) (plain : c ≠ '%')
  | percent
  | field (f : Field)

namespace Field

/-- What is written behind the percent sign. -/
def text (f : Field) : List Char :=
  f.flags ++ (f.width ++ ((f.places.map ('.' :: ·)).getD [] ++ (f.lengths ++ [f.letter])))

/-- A width or a number of places, cut to the largest. -/
def limited (ds : List Char) : Nat := min (Decimal.ofDigits ds) widest

/-- What the directive makes of a value before it is filled up. -/
def content (f : Field) (v : Value) : List Char :=
  match f.conversion, f.places.map limited with
  | .fixed, places => Decimal.fixed (places.getD 6) v.toNumber
  | .text, some places => v.toText.toList.take places
  | .text, none => v.toText.toList
  | k, _ => Directive.body ⟨false, false, 0, none, k⟩ v

/-- Fills a text up to a width: with blanks behind it by a minus sign among the flags, else by a zero among
them with zeros, which go behind a leading minus sign, and else with blanks in front of it. -/
def filled (flags : List Char) (width : Nat) (body : List Char) : List Char :=
  if '-' ∈ flags then body.rightpad width ' '
  else if '0' ∈ flags then
    if body.head? = some '-' then '-' :: body.tail.leftpad (width - 1) '0' else body.leftpad width '0'
  else body.leftpad width ' '

def shown (f : Field) (v : Value) : List Char := filled f.flags (limited f.width) (f.content v)

end Field

namespace Item

def text : Item → List Char
  | char c _ => [c]
  | percent => ['%', '%']
  | field f => '%' :: f.text

/-- Shows items one after the other, with `n` directives in front of them. A missing value is zero. -/
def shownFrom (args : List Value) : Nat → List Item → List Char
  | _, [] => []
  | n, char c _ :: items => c :: shownFrom args n items
  | n, percent :: items => '%' :: shownFrom args n items
  | n, field f :: items => f.shown (args.getD n (.number 0.0)) ++ shownFrom args (n + 1) items

end Item

section Reading

/-- The longest front of a text in `p`, where the text behind it does not go on with it. -/
theorem takeWhile_front {p : Char → Bool} {a b : List Char} (front : ∀ c ∈ a, p c = true)
    (stop : b.head?.any p = false) : (a ++ b).takeWhile p = a ∧ (a ++ b).dropWhile p = b := by
  rw [List.takeWhile_append_of_pos front, List.dropWhile_append_of_pos front]
  cases b with
  | nil => simp
  | cons c b => simp_all

theorem cappedNumber_eq (ds : List Char) : cappedNumber ds = Field.limited ds := by
  have step (ds : List Char) (n : Nat) : ds.foldl (fun n c => min widest (10 * n + (c.toNat - '0'.toNat)))
      (min n widest) = min (ds.foldl (fun n c => 10 * n + (c.toNat - '0'.toNat)) n) widest := by
    induction ds generalizing n with
    | nil => rfl
    | cons c ds ih =>
      rw [List.foldl_cons, List.foldl_cons, ← ih]
      congr 1
      simp only [widest]
      omega
  exact step ds 0

/-- The directive that a field stands for. -/
def Field.directive (f : Field) : Directive :=
  ⟨f.flags.contains '-', f.flags.contains '0', limited f.width, f.places.map limited, f.conversion⟩

-- Whether a text begins with a character in `p` is decided by its first part that is not empty.
theorem head_append {p : Char → Bool} {a b : List Char} (front : ∀ c, a.head? = some c → p c = false)
    (behind : b.head?.any p = false) : (a ++ b).head?.any p = false := by
  cases a with
  | nil => exact behind
  | cons c a => exact front c rfl

/-- A character of the places of a directive. -/
def isPlace (c : Char) : Bool := c == '.' || c.isDigit

theorem letter_apart (k : Conversion) : ∀ c ∈ k.letters, Conversion.ofChar? c = some k ∧ c ≠ '%' ∧
    isFlag c = false ∧ isPlace c = false ∧ isLength c = false := by
  have all : k.letters.all (fun c => decide (Conversion.ofChar? c = some k ∧ c ≠ '%' ∧ isFlag c = false ∧
      isPlace c = false ∧ isLength c = false)) = true := by
    cases k <;> decide
  exact fun c member => of_decide_eq_true (List.all_eq_true.1 all c member)

theorem readPrecision_places {places : Option (List Char)} {cs : List Char}
    (digits : ∀ ds, places = some ds → ∀ c ∈ ds, c.isDigit = true) (stop : cs.head?.any isPlace = false) :
    readPrecision ((places.map ('.' :: ·)).getD [] ++ cs) = (places, cs) := by
  cases places with
  | none =>
    cases cs with
    | nil => rfl
    | cons c cs =>
      have ne : c ≠ '.' := by
        rintro rfl
        cases stop
      rw [Option.map_none, Option.getD_none, List.nil_append, readPrecision]
      rintro tail eq
      exact ne (List.cons.inj eq).1
  | some ds =>
    have behind : cs.head?.any Char.isDigit = false := by
      cases cs with
      | nil => rfl
      | cons c cs => exact (Bool.or_eq_false_iff.1 stop).2
    obtain ⟨taken, left⟩ := takeWhile_front (digits ds rfl) behind
    simp [readPrecision, taken, left]

theorem readSegment_field (f : Field) (cs : List Char) :
    readSegment (f.text ++ cs) = (.directive f.directive, cs) := by
  obtain ⟨conversion, notPercent, notFlag, notPlace, notLength⟩ := letter_apart _ _ f.known
  have isFlag_flags (c : Char) (member : c ∈ f.flags) : isFlag c = true := by
    obtain rfl | rfl := f.flag c member <;> rfl
  have isLength_lengths (c : Char) (member : c ∈ f.lengths) : isLength c = true := by
    obtain rfl | rfl := f.length c member <;> rfl
  have lengthChar (c : Char) (first : f.lengths.head? = some c) : isFlag c = false ∧ isPlace c = false := by
    obtain rfl | rfl := f.length c (List.mem_of_head? first) <;> decide
  have placesChar (c : Char) (first : ((f.places.map ('.' :: ·)).getD []).head? = some c) : c = '.' := by
    cases places : f.places with
    | none => simp [places] at first
    | some ds => simpa [places, eq_comm] using first
  have widthChar (c : Char) (first : f.width.head? = some c) : isFlag c = false := by
    have digit := f.digit c (List.mem_of_head? first)
    have notZero : c ≠ '0' := fun eq => f.opening (eq ▸ first)
    have notMinus : c ≠ '-' := by
      rintro rfl
      cases digit
    simp [isFlag, notZero, notMinus]
  -- What stands behind each part, and what it does not begin with.
  let letter := f.letter :: cs
  let lengths := f.lengths ++ letter
  let places := (f.places.map ('.' :: ·)).getD [] ++ lengths
  have behindLengths : letter.head?.any isLength = false := notLength
  have behindPlaces : lengths.head?.any isPlace = false := head_append (fun c first => (lengthChar c first).2) notPlace
  have behindWidth : places.head?.any Char.isDigit = false := by
    refine head_append (fun c first => ?_) ?_
    · rw [placesChar c first]
      rfl
    · refine head_append (fun c first => (Bool.or_eq_false_iff.1 (lengthChar c first).2).2) ?_
      exact (Bool.or_eq_false_iff.1 notPlace).2
  have behindFlags : (f.width ++ places).head?.any isFlag = false := by
    refine head_append widthChar (head_append (fun c first => ?_) (head_append (fun c first => ?_) notFlag))
    · rw [placesChar c first]
      rfl
    · exact (lengthChar c first).1
  have whole : f.text ++ cs = f.flags ++ (f.width ++ places) := by
    simp [Field.text, places, lengths, letter]
  obtain ⟨takeFlags, dropFlags⟩ := takeWhile_front isFlag_flags behindFlags
  obtain ⟨takeWidth, dropWidth⟩ := takeWhile_front f.digit behindWidth
  have readPlaces := readPrecision_places f.place behindPlaces
  obtain ⟨-, dropLengths⟩ := takeWhile_front isLength_lengths behindLengths
  rw [readSegment, whole]
  simp only [takeFlags, dropFlags, takeWidth, dropWidth]
  rw [readPlaces]
  simp only [lengths, dropLengths]
  simp [letter, notPercent, conversion, Field.directive, funext cappedNumber_eq]

end Reading

section Showing

/-- The piece of a template that an item is read as. -/
def Item.segment : Item → Segment
  | char c _ => .literal [c]
  | percent => .literal ['%']
  | field f => .directive f.directive

theorem readSegment_percent (cs : List Char) : readSegment ('%' :: cs) = (.literal ['%'], cs) := by
  simp [readSegment, readPrecision, isFlag, isLength]

theorem parse_items (items : List Item) : parse (items.flatMap Item.text) = items.map Item.segment := by
  induction items with
  | nil => exact parse.eq_1
  | cons item items ih =>
    rw [List.flatMap_cons, List.map_cons, ← ih]
    cases item with
    | char c plain =>
      rw [Item.text, List.singleton_append, parse, if_neg plain]
      rfl
    | percent =>
      rw [Item.text, List.cons_append, List.singleton_append, parse, if_pos rfl, readSegment_percent]
      rfl
    | field f =>
      rw [Item.text, List.cons_append, parse, if_pos rfl, readSegment_field]
      rfl

theorem pad_directive (f : Field) (body : List Char) :
    f.directive.pad body = Field.filled f.flags (Field.limited f.width) body := by
  have minus (digits : List Char) (width : Nat) : width - 1 - digits.length = width - (digits.length + 1) := by
    omega
  simp only [Directive.pad, Field.directive, Field.filled, List.contains_iff_mem, List.rightpad, List.leftpad]
  by_cases left : '-' ∈ f.flags
  · rw [if_pos left, if_pos left]
  · rw [if_neg left, if_neg left]
    by_cases zero : '0' ∈ f.flags
    · rw [if_pos zero, if_pos zero]
      cases body with
      | nil => rfl
      | cons c body =>
        by_cases sign : c = '-'
        · subst sign
          simp [minus]
        · simp [sign]
    · rw [if_neg zero, if_neg zero]

theorem render_directive (f : Field) (v : Value) : f.directive.render v = f.shown v := by
  have same : f.directive.body v = f.content v := by
    unfold Field.content Field.directive
    generalize f.places.map Field.limited = places
    cases f.conversion <;> cases places <;> rfl
  rw [Directive.render, pad_directive, same, Field.shown]

theorem length_filled (flags : List Char) (width : Nat) (body : List Char) :
    (Field.filled flags width body).length = max width body.length := by
  unfold Field.filled
  split
  · exact List.length_rightpad
  · split
    · split
      · rename_i sign
        obtain ⟨digits, rfl⟩ := List.head?_eq_some_iff.1 sign
        simp only [List.tail_cons, List.length_cons, List.length_leftpad]
        omega
      · exact List.length_leftpad
    · exact List.length_leftpad

theorem fill_items (items : List Item) (args : List Value) (n : Nat) :
    fill (items.map Item.segment) (args.drop n) = Item.shownFrom args n items := by
  induction items generalizing n with
  | nil => rfl
  | cons item items ih =>
    cases item with
    | char c plain => simp [Item.segment, fill, Item.shownFrom, ih]
    | percent => simp [Item.segment, fill, Item.shownFrom, ih]
    | field f =>
      have next : (args.drop n).headD .zero = args.getD n (.number 0.0) := by
        rw [List.headD_eq_head?_getD, List.head?_drop, List.getD_eq_getElem?_getD]
        rfl
      rw [List.map_cons, Item.segment, fill, next, render_directive, List.tail_drop, ih, Item.shownFrom]

end Showing

/-- A text with its percent signs doubled. -/
def doubled (cs : List Char) : List Char := cs.flatMap fun c => if c = '%' then ['%', '%'] else [c]

theorem exists_items (cs : List Char) : ∃ items : List Item, items.flatMap Item.text = doubled cs ∧
    ∀ args n, Item.shownFrom args n items = cs := by
  induction cs with
  | nil => exact ⟨[], rfl, fun _ _ => rfl⟩
  | cons c cs ih =>
    obtain ⟨items, text, shown⟩ := ih
    by_cases percent : c = '%'
    · subst percent
      exact ⟨.percent :: items, congrArg ('%' :: '%' :: ·) text, fun args n => congrArg ('%' :: ·) (shown args n)⟩
    · refine ⟨.char c percent :: items, ?_, fun args n => congrArg (c :: ·) (shown args n)⟩
      rw [List.flatMap_cons, text, doubled, doubled, List.flatMap_cons, if_neg percent]
      rfl

theorem format_items (items : List Item) (args : List Value) :
    format (String.ofList (items.flatMap Item.text)) args = String.ofList (Item.shownFrom args 0 items) := by
  rw [format, String.toList_ofList, parse_items, ← fill_items items args 0, List.drop_zero]

/-- A template shows its items one after the other: the `n`-th directive shows the `n`-th value, zero if there is
none, filled up to its width, and characters and percent signs take no value. A directive shows as many characters
as its width asks for, but never more than 256 for that, and all of what it makes of its value. In particular a
text with its percent signs doubled shows as it stands. -/
theorem format_follows_grammar (items : List Item) (args : List Value) :
    format (String.ofList (items.flatMap Item.text)) args = String.ofList (Item.shownFrom args 0 items) ∧
    (∀ (f : Field) (v : Value),
      (f.shown v).length = max (min (Decimal.ofDigits f.width) 256) (f.content v).length) ∧
    ∀ text : String, format (String.ofList (doubled text.toList)) args = text := by
  refine ⟨format_items items args, fun f v => length_filled _ _ _, fun text => ?_⟩
  obtain ⟨items, written, shown⟩ := exists_items text.toList
  rw [← written, format_items, shown, String.ofList_toList]

end Template

end Breadboard
