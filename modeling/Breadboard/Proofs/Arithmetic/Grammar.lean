import Breadboard.Calc.Arithmetic

set_option autoImplicit false

/-!
The grammar of arithmetic: sums of products of operands, from left to right. Main statement: a list of
tokens is worth something just if it is spelled by an expression that is nested no deeper than allowed,
divides by no zero and has a finite value, and it is worth that value.
-/
namespace Breadboard.Arithmetic

/-- A plus or a minus, in front of an operand or between summands. -/
inductive Sign where
  | plus
  | minus
  deriving DecidableEq, Repr

namespace Sign

def char : Sign → Char
  | plus => '+'
  | minus => '-'

/-- The value of a signed operand. -/
def apply : Sign → Float → Float
  | plus, x => x
  | minus, x => -x

/-- The value of a sum or a difference. -/
def combine : Sign → Float → Float → Float
  | plus, x, y => x + y
  | minus, x, y => x - y

end Sign

/-- What stands between the factors of a product. -/
inductive Scaling where
  | times
  | dividedBy
  | modulo
  deriving DecidableEq, Repr

namespace Scaling

def char : Scaling → Char
  | times => '*'
  | dividedBy => '/'
  | modulo => '%'

/-- The value of a product, a quotient or a remainder, if nothing is divided by zero. -/
def apply : Scaling → Float → Float → Option Float
  | times, x, y => some (x * y)
  | dividedBy, x, y => if y == 0.0 then none else some (x / y)
  | modulo, x, y => if y == 0.0 then none else some (Decimal.remainder x y)

end Scaling

/-- The layers of the grammar. -/
inductive Level where
  | operand
  | product
  | sum
  deriving DecidableEq, Repr

/-- Expressions over atoms. A product is a product with one more factor behind it, a sum a sum with one more
summand. -/
inductive Tree (α : Type) : Level → Type where
  | atom (a : α) : Tree α .operand
  | signed (s : Sign) (u : Tree α .operand) : Tree α .operand
  | group (e : Tree α .sum) : Tree α .operand
  | single (u : Tree α .operand) : Tree α .product
  | scaled (p : Tree α .product) (op : Scaling) (u : Tree α .operand) : Tree α .product
  | whole (p : Tree α .product) : Tree α .sum
  | summed (e : Tree α .sum) (s : Sign) (p : Tree α .product) : Tree α .sum

/-- An atom, or an operator or a parenthesis. -/
inductive Symbol (α : Type) where
  | atom (a : α)
  | mark (c : Char)

namespace Tree

variable {α : Type} {l : Level}

def symbols {l : Level} : Tree α l → List (Symbol α)
  | .atom a => [.atom a]
  | .signed s u => .mark s.char :: u.symbols
  | .group e => .mark '(' :: (e.symbols ++ [.mark ')'])
  | .single u => u.symbols
  | .scaled p op u => p.symbols ++ .mark op.char :: u.symbols
  | .whole p => p.symbols
  | .summed e s p => e.symbols ++ .mark s.char :: p.symbols

/-- The largest number of signs and parentheses around an atom. -/
def depth {l : Level} : Tree α l → Nat
  | .atom _ => 0
  | .signed _ u => u.depth + 1
  | .group e => e.depth + 1
  | .single u => u.depth
  | .scaled p _ u => max p.depth u.depth
  | .whole p => p.depth
  | .summed e _ p => max e.depth p.depth

/-- The value of an expression whose atoms have values, if nothing is divided by zero. -/
def value (worth : α → Float) {l : Level} : Tree α l → Option Float
  | .atom a => some (worth a)
  | .signed s u => (u.value worth).map s.apply
  | .group e => e.value worth
  | .single u => u.value worth
  | .scaled p op u => do
    let x ← p.value worth
    let y ← u.value worth
    op.apply x y
  | .whole p => p.value worth
  | .summed e s p => do
    let x ← e.value worth
    let y ← p.value worth
    some (s.combine x y)

section Values

variable (worth : α → Float) (u : Tree α .operand) (p : Tree α .product) (e : Tree α .sum)

@[simp] theorem value_signed (s : Sign) : (signed s u).value worth = (u.value worth).map s.apply := rfl

@[simp] theorem value_group : (group e).value worth = e.value worth := rfl

@[simp] theorem value_single : (single u).value worth = u.value worth := rfl

@[simp] theorem value_scaled (op : Scaling) : (scaled p op u).value worth =
    (p.value worth).bind fun x => (u.value worth).bind fun y => op.apply x y := rfl

@[simp] theorem value_whole : (whole p).value worth = p.value worth := rfl

@[simp] theorem value_summed (s : Sign) : (summed e s p).value worth =
    (e.value worth).bind fun x => (p.value worth).bind fun y => some (s.combine x y) := rfl

end Values

end Tree

-- The token that an operator or a parenthesis is.
def markToken (c : Char) : Token := if c = '(' then .opening else if c = ')' then .closing else .op c

namespace Symbol

def token : Symbol Float → Token
  | atom x => .number x
  | mark c => markToken c

end Symbol

/-- The tokens of an expression over numbers. -/
def Tree.tokens {l : Level} (t : Tree Float l) : List Token := t.symbols.map Symbol.token

section Parsing

variable {c : Char} {n fuel : Nat} {x y : Float} {ts rest : List Token} {f : List Token → Part} {l : Level}

theorem Sign.token_eq (s : Sign) : Symbol.token (.mark s.char) = .op s.char := by cases s <;> rfl

theorem Scaling.token_eq (op : Scaling) : Symbol.token (.mark op.char) = .op op.char := by cases op <;> rfl

namespace Tree

@[simp] theorem tokens_atom (x : Float) : (atom x).tokens = [.number x] := rfl

@[simp] theorem tokens_signed (s : Sign) (u : Tree Float .operand) :
    (signed s u).tokens = .op s.char :: u.tokens := by
  rw [← s.token_eq]
  rfl

@[simp] theorem tokens_group (e : Tree Float .sum) :
    (group e).tokens = .opening :: (e.tokens ++ [.closing]) :=
  congrArg (List.cons Token.opening) List.map_append

@[simp] theorem tokens_single (u : Tree Float .operand) : (single u).tokens = u.tokens := rfl

@[simp] theorem tokens_scaled (p : Tree Float .product) (op : Scaling) (u : Tree Float .operand) :
    (scaled p op u).tokens = p.tokens ++ .op op.char :: u.tokens := by
  rw [← op.token_eq]
  exact List.map_append

@[simp] theorem tokens_whole (p : Tree Float .product) : (whole p).tokens = p.tokens := rfl

@[simp] theorem tokens_summed (e : Tree Float .sum) (s : Sign) (p : Tree Float .product) :
    (summed e s p).tokens = e.tokens ++ .op s.char :: p.tokens := by
  rw [← s.token_eq]
  exact List.map_append

end Tree

theorem Sign.exists_char (isSign : (c = '+' || c = '-') = true) : ∃ s : Sign, s.char = c := by
  simp only [Bool.or_eq_true, decide_eq_true_eq] at isSign
  rcases isSign with rfl | rfl
  · exact ⟨plus, rfl⟩
  · exact ⟨minus, rfl⟩

theorem Scaling.exists_char (isScaling : (c = '*' || c = '/' || c = '%') = true) :
    ∃ op : Scaling, op.char = c := by
  simp only [Bool.or_eq_true, decide_eq_true_eq] at isScaling
  rcases isScaling with (rfl | rfl) | rfl
  · exact ⟨times, rfl⟩
  · exact ⟨dividedBy, rfl⟩
  · exact ⟨modulo, rfl⟩

theorem applyFactor_char (op : Scaling) (x y : Float) : applyFactor op.char x y = op.apply x y := by
  cases op <;> rfl

-- One lemma for each thing that the parser can meet.
theorem factorsAfter_op : factorsAfter f (fuel + 1) x (.op c :: ts) =
    if c = '*' || c = '/' || c = '%' then
      (f ts).bind fun (y, rest) => (applyFactor c x y).bind fun z => factorsAfter f fuel z rest
    else some (x, .op c :: ts) := rfl

theorem summandsAfter_op : summandsAfter f (fuel + 1) x (.op c :: ts) =
    if c = '+' || c = '-' then
      (product f ts).bind fun (y, rest) => summandsAfter f fuel (if c = '+' then x + y else x - y) rest
    else some (x, .op c :: ts) := rfl

theorem factor_op : factor (n + 1) (.op c :: ts) =
    if c = '+' || c = '-' then
      (factor n ts).bind fun (x, rest) => some (if c = '-' then -x else x, rest)
    else none := rfl

theorem factor_opening : factor (n + 1) (.opening :: ts) = (sum (factor n) ts).bind fun
    | (x, .closing :: rest) => some (x, rest)
    | _ => none := rfl

theorem factorsAfter_scaling (op : Scaling) : factorsAfter f (fuel + 1) x (.op op.char :: ts) =
    (f ts).bind fun (y, rest) => (op.apply x y).bind fun z => factorsAfter f fuel z rest := by
  have isScaling : (op.char = '*' || op.char = '/' || op.char = '%') = true := by cases op <;> rfl
  rw [factorsAfter_op, if_pos isScaling]
  simp only [applyFactor_char]

theorem factorsAfter_stop (stops : ∀ op : Scaling, ts.head? ≠ some (.op op.char)) :
    factorsAfter f fuel x ts = some (x, ts) := by
  cases fuel with
  | zero => rfl
  | succ fuel =>
    cases ts with
    | nil => rfl
    | cons t ts =>
      cases t with
      | op c =>
        by_cases isScaling : (c = '*' || c = '/' || c = '%') = true
        · obtain ⟨op, rfl⟩ := Scaling.exists_char isScaling
          exact absurd rfl (stops op)
        · rw [factorsAfter_op, if_neg isScaling]
      | _ => rfl

theorem summandsAfter_sign (s : Sign) : summandsAfter f (fuel + 1) x (.op s.char :: ts) =
    (product f ts).bind fun (y, rest) => summandsAfter f fuel (s.combine x y) rest := by
  cases s <;> rfl

theorem summandsAfter_stop (stops : ∀ s : Sign, ts.head? ≠ some (.op s.char)) :
    summandsAfter f fuel x ts = some (x, ts) := by
  cases fuel with
  | zero => rfl
  | succ fuel =>
    cases ts with
    | nil => rfl
    | cons t ts =>
      cases t with
      | op c =>
        by_cases isSign : (c = '+' || c = '-') = true
        · obtain ⟨s, rfl⟩ := Sign.exists_char isSign
          exact absurd rfl (stops s)
        · rw [summandsAfter_op, if_neg isSign]
      | _ => rfl

theorem factor_number : factor n (.number x :: ts) = some (x, ts) := by cases n <;> rfl

theorem factor_sign (s : Sign) :
    factor (n + 1) (.op s.char :: ts) = (factor n ts).map fun (x, rest) => (s.apply x, rest) := by
  have isSign : (s.char = '+' || s.char = '-') = true := by cases s <;> rfl
  rw [factor_op, if_pos isSign]
  cases factor n ts with
  | none => rfl
  | some part => cases s <;> rfl

-- A list of tokens goes on with an operator of some kind, or what is read ends in front of it.
theorem op_or_stop {β : Type} (char : β → Char) (ts : List Token) :
    (∃ (b : β) (rest : List Token), ts = .op (char b) :: rest) ∨ ∀ b, ts.head? ≠ some (.op (char b)) := by
  by_cases goes : ∃ b, ts.head? = some (.op (char b))
  · obtain ⟨b, first⟩ := goes
    obtain ⟨rest, rfl⟩ := List.head?_eq_some_iff.1 first
    exact .inl ⟨b, rest, rfl⟩
  · exact .inr fun b first => goes ⟨b, first⟩

end Parsing

section Soundness

variable {n fuel : Nat} {x y : Float} {ts rest : List Token} {f : List Token → Part} {l : Level}

/-- Whatever a parser reads is an expression with the value that the parser gives. -/
def Sound (n : Nat) (l : Level) (f : List Token → Part) : Prop :=
  ∀ ⦃ts x rest⦄, f ts = some (x, rest) →
    ∃ t : Tree Float l, t.depth ≤ n ∧ t.tokens ++ rest = ts ∧ t.value id = some x

-- The product read so far grows by a factor at a time.
theorem factorsAfter_sound (sound : Sound n .operand f) (p : Tree Float .product) (shallow : p.depth ≤ n)
    (worth : p.value id = some x) (read : factorsAfter f fuel x ts = some (y, rest)) :
    ∃ p' : Tree Float .product, p'.depth ≤ n ∧ p'.tokens ++ rest = p.tokens ++ ts ∧ p'.value id = some y := by
  induction fuel generalizing p x ts with
  | zero =>
    obtain ⟨rfl, rfl⟩ := Prod.mk.inj (Option.some.inj read)
    exact ⟨p, shallow, rfl, worth⟩
  | succ fuel ih =>
    rcases op_or_stop Scaling.char ts with ⟨op, ts, rfl⟩ | stops
    · rw [factorsAfter_scaling, Option.bind_eq_some_iff] at read
      obtain ⟨⟨z, behind⟩, factored, read⟩ := read
      obtain ⟨w, applied, read⟩ := Option.bind_eq_some_iff.1 read
      obtain ⟨u, low, text, value⟩ := sound factored
      have grown : (p.scaled op u).value id = some w := by simp [worth, value, applied]
      obtain ⟨p', shallow', text', value'⟩ := ih (p.scaled op u) (Nat.max_le.2 ⟨shallow, low⟩) grown read
      refine ⟨p', shallow', ?_, value'⟩
      rw [text', ← text]
      simp
    · rw [factorsAfter_stop stops] at read
      obtain ⟨rfl, rfl⟩ := Prod.mk.inj (Option.some.inj read)
      exact ⟨p, shallow, rfl, worth⟩

theorem product_sound (sound : Sound n .operand f) : Sound n .product (product f) := by
  intro ts x rest read
  obtain ⟨⟨y, behind⟩, factored, read⟩ := Option.bind_eq_some_iff.1 read
  obtain ⟨u, low, text, value⟩ := sound factored
  obtain ⟨p, shallow, text', value'⟩ := factorsAfter_sound sound (.single u) low value read
  exact ⟨p, shallow, text'.trans text, value'⟩

-- The sum read so far grows by a summand at a time.
theorem summandsAfter_sound (sound : Sound n .operand f) (e : Tree Float .sum) (shallow : e.depth ≤ n)
    (worth : e.value id = some x) (read : summandsAfter f fuel x ts = some (y, rest)) :
    ∃ e' : Tree Float .sum, e'.depth ≤ n ∧ e'.tokens ++ rest = e.tokens ++ ts ∧ e'.value id = some y := by
  induction fuel generalizing e x ts with
  | zero =>
    obtain ⟨rfl, rfl⟩ := Prod.mk.inj (Option.some.inj read)
    exact ⟨e, shallow, rfl, worth⟩
  | succ fuel ih =>
    rcases op_or_stop Sign.char ts with ⟨s, ts, rfl⟩ | stops
    · rw [summandsAfter_sign, Option.bind_eq_some_iff] at read
      obtain ⟨⟨z, behind⟩, multiplied, read⟩ := read
      obtain ⟨p, low, text, value⟩ := product_sound sound multiplied
      have grown : (e.summed s p).value id = some (s.combine x z) := by simp [worth, value]
      obtain ⟨e', shallow', text', value'⟩ := ih (e.summed s p) (Nat.max_le.2 ⟨shallow, low⟩) grown read
      refine ⟨e', shallow', ?_, value'⟩
      rw [text', ← text]
      simp
    · rw [summandsAfter_stop stops] at read
      obtain ⟨rfl, rfl⟩ := Prod.mk.inj (Option.some.inj read)
      exact ⟨e, shallow, rfl, worth⟩

theorem sum_sound (sound : Sound n .operand f) : Sound n .sum (sum f) := by
  intro ts x rest read
  obtain ⟨⟨y, behind⟩, multiplied, read⟩ := Option.bind_eq_some_iff.1 read
  obtain ⟨p, low, text, value⟩ := product_sound sound multiplied
  obtain ⟨e, shallow, text', value'⟩ := summandsAfter_sound sound (.whole p) low value read
  exact ⟨e, shallow, text'.trans text, value'⟩

-- What a factor may be: a number, however deep it stands, or a sign or a group, one layer up.
theorem number_sound (read : factor n (.number y :: ts) = some (x, rest)) :
    ∃ u : Tree Float .operand, u.depth ≤ n ∧ u.tokens ++ rest = .number y :: ts ∧ u.value id = some x := by
  rw [factor_number] at read
  obtain ⟨rfl, rfl⟩ := Prod.mk.inj (Option.some.inj read)
  exact ⟨.atom y, Nat.zero_le _, rfl, rfl⟩

theorem signed_sound (sound : Sound n .operand (factor n)) (s : Sign)
    (read : factor (n + 1) (.op s.char :: ts) = some (x, rest)) :
    ∃ u : Tree Float .operand, u.depth ≤ n + 1 ∧ u.tokens ++ rest = .op s.char :: ts ∧ u.value id = some x := by
  rw [factor_sign, Option.map_eq_some_iff] at read
  obtain ⟨⟨y, behind⟩, inner, eq⟩ := read
  obtain ⟨rfl, rfl⟩ := Prod.mk.inj eq
  obtain ⟨u, low, text, value⟩ := sound inner
  refine ⟨.signed s u, Nat.succ_le_succ low, ?_, by simp [value]⟩
  rw [← text, Tree.tokens_signed, List.cons_append]

theorem group_sound (sound : Sound n .operand (factor n))
    (read : factor (n + 1) (.opening :: ts) = some (x, rest)) :
    ∃ u : Tree Float .operand, u.depth ≤ n + 1 ∧ u.tokens ++ rest = .opening :: ts ∧ u.value id = some x := by
  rw [factor_opening, Option.bind_eq_some_iff] at read
  obtain ⟨⟨y, behind⟩, inner, read⟩ := read
  obtain ⟨e, low, text, value⟩ := sum_sound sound inner
  cases behind with
  | nil => cases read
  | cons t behind =>
    cases t with
    | closing =>
      obtain ⟨rfl, rfl⟩ := Prod.mk.inj (Option.some.inj read)
      refine ⟨.group e, Nat.succ_le_succ low, ?_, value⟩
      rw [← text]
      simp
    | _ => cases read

theorem factor_sound (n : Nat) : Sound n .operand (factor n) := by
  induction n with
  | zero =>
    intro ts x rest read
    cases ts with
    | nil => cases read
    | cons t ts =>
      cases t with
      | number y => exact number_sound read
      | _ => cases read
  | succ n sound =>
    intro ts x rest read
    cases ts with
    | nil => cases read
    | cons t ts =>
      cases t with
      | number y => exact number_sound read
      | op c =>
        by_cases isSign : (c = '+' || c = '-') = true
        · obtain ⟨s, rfl⟩ := Sign.exists_char isSign
          exact signed_sound sound s read
        · rw [factor_op, if_neg isSign] at read
          cases read
      | opening => exact group_sound sound read
      | _ => cases read

end Soundness

section Completeness

variable {n fuel fuel' : Nat} {x : Float} {ts rest : List Token} {f : List Token → Part} {l : Level}

-- With fuel for all tokens, more fuel makes no difference.
theorem factorsAfter_fuel (uses : ∀ ts x rest, f ts = some (x, rest) → rest.length ≤ ts.length)
    (enough : ts.length ≤ fuel) (enough' : ts.length ≤ fuel') :
    factorsAfter f fuel x ts = factorsAfter f fuel' x ts := by
  induction fuel generalizing fuel' x ts with
  | zero =>
    obtain rfl := List.length_eq_zero_iff.1 (Nat.le_zero.1 enough)
    cases fuel' <;> rfl
  | succ fuel ih =>
    rcases op_or_stop Scaling.char ts with ⟨op, ts, rfl⟩ | stops
    · obtain ⟨fuel', rfl⟩ := Nat.exists_eq_add_of_le' (Nat.le_trans (Nat.le_add_left 1 _) enough')
      rw [factorsAfter_scaling, factorsAfter_scaling]
      refine Option.bind_congr fun part read => Option.bind_congr fun z _ => ?_
      have shorter := uses ts part.1 part.2 read
      simp only [List.length_cons] at enough enough'
      exact ih (by omega) (by omega)
    · rw [factorsAfter_stop stops, factorsAfter_stop stops]

theorem summandsAfter_fuel (uses : ∀ ts x rest, product f ts = some (x, rest) → rest.length ≤ ts.length)
    (enough : ts.length ≤ fuel) (enough' : ts.length ≤ fuel') :
    summandsAfter f fuel x ts = summandsAfter f fuel' x ts := by
  induction fuel generalizing fuel' x ts with
  | zero =>
    obtain rfl := List.length_eq_zero_iff.1 (Nat.le_zero.1 enough)
    cases fuel' <;> rfl
  | succ fuel ih =>
    rcases op_or_stop Sign.char ts with ⟨s, ts, rfl⟩ | stops
    · obtain ⟨fuel', rfl⟩ := Nat.exists_eq_add_of_le' (Nat.le_trans (Nat.le_add_left 1 _) enough')
      rw [summandsAfter_sign, summandsAfter_sign]
      refine Option.bind_congr fun part read => ?_
      have shorter := uses ts part.1 part.2 read
      simp only [List.length_cons] at enough enough'
      exact ih (by omega) (by omega)
    · rw [summandsAfter_stop stops, summandsAfter_stop stops]

theorem Sound.uses (sound : Sound n l f) (ts : List Token) (x : Float) (rest : List Token)
    (read : f ts = some (x, rest)) : rest.length ≤ ts.length := by
  obtain ⟨t, -, rfl, -⟩ := sound read
  simp

/-- The parser of a layer. -/
def part (n : Nat) : Level → List Token → Part
  | .operand => factor n
  | .product => product (factor n)
  | .sum => sum (factor n)

/-- What the parser of a layer does behind an expression of that layer. -/
def goOn (n : Nat) : Level → Float → List Token → Part
  | .operand, x, ts => some (x, ts)
  | .product, x, ts => factorsAfter (factor n) ts.length x ts
  | .sum, x, ts => summandsAfter (factor n) ts.length x ts

/-- An expression is read as a whole. A sum has to end there: a factor behind it would belong to its last
summand. -/
def IsRead (t : Tree Float l) : Prop :=
  ∀ ⦃n : Nat⦄ ⦃ts : List Token⦄, t.depth ≤ n → (l = .sum → ∀ op : Scaling, ts.head? ≠ some (.op op.char)) →
    part n l (t.tokens ++ ts) = (t.value id).bind fun x => goOn n l x ts

namespace IsRead

variable {u : Tree Float .operand} {p : Tree Float .product} {e : Tree Float .sum}

theorem operand (read : IsRead u) (shallow : u.depth ≤ n) (ts : List Token) :
    factor n (u.tokens ++ ts) = (u.value id).bind fun x => some (x, ts) :=
  read shallow (by simp)

theorem product (read : IsRead p) (shallow : p.depth ≤ n) (ts : List Token) :
    Arithmetic.product (factor n) (p.tokens ++ ts) =
      (p.value id).bind fun x => factorsAfter (factor n) ts.length x ts :=
  read shallow (by simp)

theorem sum (read : IsRead e) (shallow : e.depth ≤ n) (ends : ∀ op : Scaling, ts.head? ≠ some (.op op.char)) :
    Arithmetic.sum (factor n) (e.tokens ++ ts) =
      (e.value id).bind fun x => summandsAfter (factor n) ts.length x ts :=
  read shallow fun _ => ends

theorem signed (read : IsRead u) (s : Sign) : IsRead (.signed s u) := by
  intro n ts shallow _
  obtain ⟨n, rfl⟩ := Nat.exists_eq_add_of_le' (Nat.le_trans (Nat.le_add_left 1 _) shallow)
  change factor (n + 1) ((Tree.signed s u).tokens ++ ts) = _
  rw [Tree.tokens_signed, List.cons_append, factor_sign, read.operand (Nat.le_of_succ_le_succ shallow),
    Tree.value_signed]
  cases u.value id <;> rfl

theorem group (read : IsRead e) : IsRead (.group e) := by
  intro n ts shallow _
  obtain ⟨n, rfl⟩ := Nat.exists_eq_add_of_le' (Nat.le_trans (Nat.le_add_left 1 _) shallow)
  have ends (op : Scaling) : (Token.closing :: ts).head? ≠ some (.op op.char) := by simp
  have inner := read.sum (Nat.le_of_succ_le_succ shallow) ends
  change factor (n + 1) ((Tree.group e).tokens ++ ts) = _
  rw [Tree.tokens_group, List.cons_append, List.append_assoc, List.singleton_append, factor_opening, inner,
    Tree.value_group]
  cases e.value id with
  | none => rfl
  | some x =>
    rw [Option.bind_some, summandsAfter_stop (by simp)]
    rfl

theorem single (read : IsRead u) : IsRead (.single u) := by
  intro n ts shallow _
  change Arithmetic.product (factor n) (u.tokens ++ ts) = _
  rw [Arithmetic.product, read.operand shallow, Tree.value_single]
  cases u.value id with
  | none => rfl
  | some x => exact factorsAfter_fuel (factor_sound n).uses (by simp) (Nat.le_refl _)

theorem scaled (front : IsRead p) (op : Scaling) (last : IsRead u) : IsRead (.scaled p op u) := by
  intro n ts shallow _
  obtain ⟨low, low'⟩ := Nat.max_le.1 shallow
  change Arithmetic.product (factor n) ((Tree.scaled p op u).tokens ++ ts) = _
  rw [Tree.tokens_scaled, List.append_assoc, List.cons_append, front.product low, Tree.value_scaled]
  cases p.value id with
  | none => rfl
  | some x =>
    rw [Option.bind_some, List.length_cons, factorsAfter_scaling, last.operand low']
    cases u.value id with
    | none => rfl
    | some y =>
      simp only [Option.bind_some]
      refine Option.bind_congr fun z _ => ?_
      exact factorsAfter_fuel (factor_sound n).uses (by simp) (Nat.le_refl _)

theorem whole (read : IsRead p) : IsRead (.whole p) := by
  intro n ts shallow ends
  change Arithmetic.sum (factor n) (p.tokens ++ ts) = _
  rw [Arithmetic.sum, read.product shallow, Tree.value_whole]
  cases p.value id with
  | none => rfl
  | some x =>
    rw [Option.bind_some, factorsAfter_stop (ends rfl)]
    exact summandsAfter_fuel (product_sound (factor_sound n)).uses (by simp) (Nat.le_refl _)

theorem summed (front : IsRead e) (s : Sign) (last : IsRead p) : IsRead (.summed e s p) := by
  intro n ts shallow ends
  obtain ⟨low, low'⟩ := Nat.max_le.1 shallow
  have apart (op : Scaling) : (Token.op s.char :: (p.tokens ++ ts)).head? ≠ some (.op op.char) := by
    cases s <;> cases op <;> simp [Sign.char, Scaling.char]
  change Arithmetic.sum (factor n) ((Tree.summed e s p).tokens ++ ts) = _
  rw [Tree.tokens_summed, List.append_assoc, List.cons_append, front.sum low apart, Tree.value_summed]
  cases e.value id with
  | none => rfl
  | some x =>
    rw [Option.bind_some, List.length_cons, summandsAfter_sign, last.product low']
    cases p.value id with
    | none => rfl
    | some y =>
      simp only [Option.bind_some, factorsAfter_stop (ends rfl)]
      exact summandsAfter_fuel (product_sound (factor_sound n)).uses (by simp) (Nat.le_refl _)

end IsRead

theorem isRead (t : Tree Float l) : IsRead t := by
  induction t with
  | atom x => exact fun _ _ _ _ => factor_number
  | signed s _ read => exact read.signed s
  | group _ read => exact read.group
  | single _ read => exact read.single
  | scaled _ op _ front last => exact front.scaled op last
  | whole _ read => exact read.whole
  | summed _ s _ front last => exact front.summed s last

end Completeness

/-- The tokens of an expression are worth its value. -/
theorem tokensValue?_tokens (e : Tree Float .sum) (shallow : e.depth ≤ maxNesting) :
    tokensValue? e.tokens = (e.value id).filter Float.isFinite := by
  have ends (op : Scaling) : ([] : List Token).head? ≠ some (.op op.char) := by simp
  have read := (isRead e).sum shallow ends
  rw [List.append_nil] at read
  rw [tokensValue?, read]
  cases e.value id with
  | none => rfl
  | some x => simp [summandsAfter, Option.filter]

/-- Tokens that are worth something are those of an expression. -/
theorem exists_of_tokensValue? {ts : List Token} {x : Float} (worth : tokensValue? ts = some x) :
    ∃ e : Tree Float .sum, e.tokens = ts ∧ e.depth ≤ maxNesting ∧ e.value id = some x ∧ x.isFinite = true := by
  rw [tokensValue?] at worth
  split at worth
  · rename_i y read
    split at worth
    · rename_i finite
      obtain rfl := Option.some.inj worth
      obtain ⟨e, shallow, text, value⟩ := sum_sound (factor_sound maxNesting) read
      exact ⟨e, by rw [← text, List.append_nil], shallow, value, finite⟩
    · cases worth
  · cases worth

end Breadboard.Arithmetic
