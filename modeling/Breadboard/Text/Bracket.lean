import Breadboard.Text.Literal

set_option autoImplicit false

/-!
Brackets in code: balance, the bracket that closes another, the brace blocks of a text, and
splitting at separators outside of all brackets. Brackets inside literals never count.
-/
namespace Breadboard.Text

inductive Bracket where
  | round
  | curly
  | square
  deriving DecidableEq, Repr

namespace Bracket

def opener : Bracket → Char
  | round => '('
  | curly => '\x7b'
  | square => '['

def closer : Bracket → Char
  | round => ')'
  | curly => '\x7d'
  | square => ']'

def ofOpener? (c : Char) : Option Bracket :=
  [round, curly, square].find? (·.opener == c)

/-- What one character adds to the balance of its own bracket. -/
def weight (b : Bracket) (c : Char) : Int :=
  if c = b.opener then 1 else if c = b.closer then -1 else 0

/-- Opening minus closing brackets in the code of a text. -/
def balance (b : Bracket) : Quote → List Char → Int
  | _, [] => 0
  | q, c :: cs => (if q.isCode c then b.weight c else 0) + b.balance (q.next c) cs

@[simp] theorem balance_nil (b : Bracket) (q : Quote) : b.balance q [] = 0 := rfl

theorem balance_append (b : Bracket) (q : Quote) (a cs : List Char) :
    b.balance q (a ++ cs) = b.balance q a + b.balance (q.after a) cs := by
  induction a generalizing q with
  | nil => simp [balance]
  | cons c a ih => simp only [List.cons_append, balance, ih, Quote.after_cons]; omega

/-- Cuts a text behind an opening bracket at the closing one, where `depth` more are open. -/
def close (b : Bracket) : Quote → Nat → List Char → Option (List Char × List Char)
  | _, _, [] => none
  | q, depth, c :: cs =>
    if q.isCode c && c == b.closer then
      match depth with
      | 0 => some ([], cs)
      | depth + 1 => (b.close (q.next c) depth cs).map fun (inside, rest) => (c :: inside, rest)
    else
      (b.close (q.next c) (if q.isCode c && c == b.opener then depth + 1 else depth) cs).map
        fun (inside, rest) => (c :: inside, rest)

theorem close_eq {b : Bracket} {q : Quote} {depth : Nat} {cs inside rest : List Char}
    (h : b.close q depth cs = some (inside, rest)) : cs = inside ++ b.closer :: rest := by
  induction cs generalizing q depth inside with
  | nil => simp [close] at h
  | cons c cs ih =>
    unfold close at h
    split at h
    · rename_i hc
      have hcc : c = b.closer := by simp_all
      cases depth with
      | zero => simp_all
      | succ depth =>
        obtain ⟨⟨i, r⟩, hi, he⟩ := Option.map_eq_some_iff.1 h
        obtain ⟨rfl, rfl⟩ := Prod.mk.inj he
        simp [ih hi]
    · obtain ⟨⟨i, r⟩, hi, he⟩ := Option.map_eq_some_iff.1 h
      obtain ⟨rfl, rfl⟩ := Prod.mk.inj he
      simp [ih hi]

/-- What stands in the bracket that opens a text, and what follows the closing one. -/
def enclosed? (b : Bracket) : List Char → Option (List Char × List Char)
  | [] => none
  | c :: cs => if c = b.opener then b.close .code 0 cs else none

end Bracket

/-- The byte position of the bracket that closes the one at byte `start`. -/
def matchingClose? (cs : List Char) (start : Nat) : Option Nat := do
  let c :: rest ← dropBytes? start cs | none
  let b ← Bracket.ofOpener? c
  let (inside, _) ← b.close .code 0 rest
  some (start + 1 + byteSize inside)

/-- A brace block: the text in front of it, read backwards, and what stands between its braces. -/
structure Block where
  behind : List Char
  inside : List Char

namespace Block

/-- The byte position of the opening brace. -/
def start (b : Block) : Nat := byteSize b.behind

/-- The byte position of the closing brace, or the end of the text for an unclosed block. -/
def stop (b : Block) : Nat := b.start + 1 + byteSize b.inside

/-- The line of the opening brace. -/
def line (b : Block) : Nat := newlines b.behind + 1

end Block

/-- Where a scan for blocks stands: outside of them, with the text so far read backwards, or inside
one, with `depth` more braces open. -/
inductive BlockScan where
  | outside (behind : List Char)
  | within (behind inside : List Char) (depth : Nat)

/-- Takes one character of code. Gives the block that it closes, if it closes one. -/
def BlockScan.code (c : Char) : BlockScan → BlockScan × Option Block
  | outside behind =>
    if c = Bracket.curly.opener then (within behind [] 0, none) else (outside (c :: behind), none)
  | within behind inside depth =>
    if c = Bracket.curly.closer then
      match depth with
      | 0 => (outside (c :: inside ++ Bracket.curly.opener :: behind), some ⟨behind, inside.reverse⟩)
      | depth + 1 => (within behind (c :: inside) depth, none)
    else if c = Bracket.curly.opener then (within behind (c :: inside) (depth + 1), none)
    else (within behind (c :: inside) depth, none)

/-- Takes one character of a literal. -/
def BlockScan.literal (c : Char) : BlockScan → BlockScan
  | outside behind => outside (c :: behind)
  | within behind inside depth => within behind (c :: inside) depth

def blocksFrom : Quote → BlockScan → List Char → List Block
  | _, .outside _, [] => []
  | _, .within behind inside _, [] => [⟨behind, inside.reverse⟩]
  | q, scan, c :: cs =>
    if q.isCode c then
      let (scan, done) := scan.code c
      done.toList ++ blocksFrom .code scan cs
    else blocksFrom (q.next c) (scan.literal c) cs

theorem blocksFrom_cons (q : Quote) (scan : BlockScan) (c : Char) (cs : List Char) :
    blocksFrom q scan (c :: cs) =
      if q.isCode c then (scan.code c).2.toList ++ blocksFrom .code (scan.code c).1 cs
      else blocksFrom (q.next c) (scan.literal c) cs := by
  cases scan <;> rfl

/-- The brace blocks of a text that stand in no other block. An unclosed one runs to the end. -/
def blocks (cs : List Char) : List Block := blocksFrom .code (.outside []) cs

/-- How a character moves the depth of brackets of all kinds. -/
def depthStep (c : Char) : Int :=
  if c = '(' || c = '[' || c = '\x7b' then 1 else if c = ')' || c = ']' || c = '\x7d' then -1 else 0

/-- Splits at `sep` in code at depth zero; `skip` characters of a separator are still to be passed
over. Gives the first part and the others. -/
def splitTopFrom (sep : List Char) : Quote → Int → Nat → List Char → List Char × List (List Char)
  | _, _, _, [] => ([], [])
  | q, depth, skip + 1, _ :: cs => splitTopFrom sep q depth skip cs
  | q, depth, 0, c :: cs =>
    if q.isCode c then
      let depth := depth + depthStep c
      if depth = 0 ∧ sep ≠ [] ∧ sep.isPrefixOf (c :: cs) then
        let (first, others) := splitTopFrom sep .code depth (sep.length - 1) cs
        ([], first :: others)
      else
        let (first, others) := splitTopFrom sep .code depth 0 cs
        (c :: first, others)
    else
      let (first, others) := splitTopFrom sep (q.next c) depth 0 cs
      (c :: first, others)

/-- The parts of a text between the separators that stand outside brackets and literals. -/
def splitTop (sep cs : List Char) : List (List Char) :=
  let (first, others) := splitTopFrom sep .code 0 0 cs
  first :: others

@[simp] theorem splitTop_ne_nil (sep cs : List Char) : splitTop sep cs ≠ [] := by
  simp [splitTop]

/-- The part of a text in front of its first top-level separator. -/
def beforeTop (sep cs : List Char) : List Char := (splitTopFrom sep .code 0 0 cs).1

/-- The text in front of the first top-level `sep` and the text behind it. -/
def cutTop? (sep cs : List Char) : Option (List Char × List Char) :=
  match splitTopFrom sep .code 0 0 cs with
  | (_, []) => none
  | (first, _ :: _) => some (first, cs.drop (first.length + sep.length))

/-- The byte position of the first top-level `sep`. -/
def findTop? (sep cs : List Char) : Option Nat := (cutTop? sep cs).map fun cut => byteSize cut.1

/-- The arguments of a call, trimmed; a blank list has none. -/
def splitArgs (cs : List Char) : List (List Char) :=
  if isBlankText cs then [] else (splitTop [','] cs).map trim

end Breadboard.Text
