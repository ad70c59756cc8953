import Breadboard.Screen.Log
import Breadboard.Screen.Pins
import Breadboard.Screen.Source

set_option autoImplicit false

/-!
Scrolling. Main statements: the source pane shows the line that was executed last and leaves no row empty while
there are lines, the pins pane shows the selected pin, and the serial monitor goes no further than its last page
once there is output.
-/
namespace Breadboard.Screen

section Pictures

variable {row : Row} {rows : List Row} {width height : Nat}

theorem Picture.mem_fill (ground : Style) (fits : rows.length ≤ height) (member : row ∈ rows) :
    row ∈ fill width height ground rows := by
  have whole : rows.take height = rows := List.take_of_length_le fits
  rw [fill, List.take_append, whole]
  exact List.mem_append_left _ member

theorem mem_framed (focused : Bool) (title : String) {inside : Picture} (tall : 2 ≤ height) (member : row ∈ inside) :
    sideRow (edgeStyle focused) width row ∈ framed focused title width height inside := by
  obtain ⟨h, rfl⟩ := Nat.exists_eq_add_of_le' tall
  exact List.mem_cons_of_mem _ (List.mem_append_left _ (List.mem_map_of_mem member))

theorem textRows_eq (tall : 3 ≤ height) : textRows height = height - 2 := Nat.max_eq_left (by omega)

theorem one_le_textRows (height : Nat) : 1 ≤ textRows height := Nat.le_max_right ..

end Pictures

section Sources

theorem length_numberedLines (offset rows : Nat) (lines : List (List Char)) :
    (numberedLines offset rows lines).length = min rows (lines.length - offset) := by
  simp [numberedLines]

theorem mem_numberedLines {offset rows number : Nat} {text : List Char} {lines : List (List Char)}
    (above : offset < number) (below : number ≤ offset + rows) (known : lines[number - 1]? = some text) :
    (number, text) ∈ numberedLines offset rows lines := by
  have index : offset + (number - 1 - offset) = number - 1 := by omega
  have count : (List.range' (offset + 1) rows)[number - 1 - offset]? = some number := by
    rw [List.getElem?_range' (by omega)]
    exact congrArg some (by omega)
  have line : (lines.drop offset)[number - 1 - offset]? = some text := by rw [List.getElem?_drop, index, known]
  refine List.mem_of_getElem? (i := number - 1 - offset) ?_
  rw [numberedLines, List.getElem?_zip_eq_some]
  exact ⟨count, line⟩

-- Wherever the row of the current line is, the line comes to stand between the first row and the last, and no
-- row is left over as long as there are lines for all of them.
theorem SourceScroll.follow_offset (s : SourceScroll) {rows total current : Nat} (some_ : 1 ≤ rows)
    (first : 0 < current) (last : current ≤ total) :
    (s.follow rows total current).offset < current ∧ current ≤ (s.follow rows total current).offset + rows ∧
      (s.follow rows total current).offset ≤ total - rows := by
  have offset : (s.follow rows total current).offset =
      min (current - 1 - min (s.row.getD (rows / 2)) (rows - 1)) (total - rows) := if_pos ⟨first, last⟩
  rw [offset]
  omega

namespace SourcePane

variable (p : SourcePane) (scroll : SourceScroll) (width height : Nat)

/-- The lines that the pane hands on to be shown, each with its number. -/
def shown : List (Nat × List Char) := numberedLines (p.scrolled scroll height).offset (textRows height) p.lines

/-- A line as it stands in the pane. -/
def rowOf (entry : Nat × List Char) : Row :=
  sideRow (edgeStyle p.focused) width (Row.flowing .left (width - 2) .plain (p.line entry.1 entry.2))

theorem mem_draw {entry : Nat × List Char} (tall : 3 ≤ height) (member : entry ∈ p.shown scroll height) :
    p.rowOf width entry ∈ (p.draw scroll width height).1 := by
  let rows := ((p.shown scroll height).map fun e => p.line e.1 e.2).map (Row.flowing .left (width - 2) .plain)
  have fits : rows.length ≤ height - 2 := by
    have few : (p.shown scroll height).length ≤ textRows height := by
      rw [shown, length_numberedLines]
      exact Nat.min_le_left ..
    rw [textRows_eq tall] at few
    simpa only [rows, List.length_map] using few
  have line : p.line entry.1 entry.2 ∈ (p.shown scroll height).map fun e => p.line e.1 e.2 :=
    List.mem_map.2 ⟨entry, member, rfl⟩
  have row : Row.flowing .left (width - 2) .plain (p.line entry.1 entry.2) ∈ rows := List.mem_map_of_mem line
  exact mem_framed p.focused " Sketch " (by omega) (Picture.mem_fill .plain fits row)

theorem current_shown (first : 0 < p.current) (last : p.current ≤ p.lines.length) :
    ∃ text, p.lines[p.current - 1]? = some text ∧ (p.current, text) ∈ p.shown scroll height := by
  have inside : p.current - 1 < p.lines.length := by omega
  obtain ⟨above, below, -⟩ := scroll.follow_offset (one_le_textRows height) first last
  have known := List.getElem?_eq_getElem inside
  exact ⟨_, known, mem_numberedLines above below known⟩

theorem length_shown (first : 0 < p.current) (last : p.current ≤ p.lines.length)
    (long : textRows height ≤ p.lines.length) : (p.shown scroll height).length = textRows height := by
  obtain ⟨-, -, filled⟩ := scroll.follow_offset (one_le_textRows height) first last
  have offset : (p.scrolled scroll height).offset ≤ p.lines.length - textRows height := filled
  rw [shown, length_numberedLines]
  omega

end SourcePane

end Sources

namespace PinsPane

variable (p : PinsPane) (scroll width height : Nat)

theorem scrolled_le : p.scrolled scroll height ≤ p.selected ∧
    p.selected < p.scrolled scroll height + pinRows height := by
  have some_ : 1 ≤ pinRows height := Nat.le_max_right ..
  unfold scrolled
  split
  · omega
  · split <;> omega

/-- The pins that the pane hands on to be shown, each with its place in the table. -/
def shown : List ((Pin × PinState) × Nat) := (p.pins.zipIdx.drop (p.scrolled scroll height)).take (pinRows height)

/-- A pin as it stands in the pane. -/
def rowOf (entry : (Pin × PinState) × Nat) : Row := sideRow (edgeStyle p.focused) width (p.row (width - 2) entry)

theorem mem_draw {entry : (Pin × PinState) × Nat} (tall : 4 ≤ height) (member : entry ∈ p.shown scroll height) :
    p.rowOf width entry ∈ (p.draw scroll width height).1 := by
  let rows := Row.entry (width - 2) .plain header :: (p.shown scroll height).map (p.row (width - 2))
  have fits : rows.length ≤ height - 2 := by
    have few : (p.shown scroll height).length ≤ pinRows height := List.length_take_le _ _
    have planned : pinRows height = height - 3 := Nat.max_eq_left (by omega)
    simp only [rows, List.length_cons, List.length_map]
    omega
  have row : p.row (width - 2) entry ∈ rows := List.mem_cons_of_mem _ (List.mem_map_of_mem member)
  exact mem_framed p.focused " Pins " (by omega) (Picture.mem_fill .plain fits row)

theorem selected_shown {entry : Pin × PinState} (known : p.pins[p.selected]? = some entry) :
    (entry, p.selected) ∈ p.shown scroll height := by
  obtain ⟨above, below⟩ := p.scrolled_le scroll height
  have listed : p.pins.zipIdx[p.selected]? = some (entry, p.selected) := by simp [known]
  refine List.mem_of_getElem? (i := p.selected - p.scrolled scroll height) ?_
  rw [shown, List.getElem?_take_of_lt (by omega), List.getElem?_drop, Nat.add_sub_cancel' above, listed]

end PinsPane

namespace LogPane

variable (p : LogPane) (scroll width height : Nat)

theorem scrolled_le (some_ : p.lines ≠ []) : p.scrolled scroll height ≤ p.lines.length - textRows height := by
  have filled : p.lines.isEmpty = false := by simpa using some_
  rw [scrolled, filled]
  exact Nat.min_le_right ..

theorem scrolled_of_none (none : p.lines = []) : p.scrolled scroll height = scroll := by
  rw [scrolled, none]
  rfl

/-- The lines that the pane hands on to be shown if there is output. -/
def shown : List Line := (p.lines.drop (p.scrolled scroll height)).take (textRows height)

/-- A line as it stands in the pane. -/
def rowOf (line : Line) : Row :=
  sideRow (edgeStyle p.focused) width ((Row.blank 1 .plain ++ Row.entry (width - 3) .plain line).take (width - 2))

theorem mem_draw {line : Line} (tall : 3 ≤ height) (member : line ∈ p.shown scroll height) :
    p.rowOf width line ∈ (p.draw scroll width height).1 := by
  have some_ : p.lines ≠ [] := List.ne_nil_of_mem (List.mem_of_mem_drop (List.mem_of_mem_take member))
  have filled : p.lines.isEmpty = false := by simpa using some_
  let rows := (p.shown scroll height).map fun l =>
    (Row.blank 1 .plain ++ Row.entry (width - 3) .plain l).take (width - 2)
  have fits : rows.length ≤ height - 2 := by
    have few : (p.shown scroll height).length ≤ textRows height := List.length_take_le _ _
    rw [textRows_eq tall] at few
    simpa only [rows, List.length_map] using few
  have row : (Row.blank 1 .plain ++ Row.entry (width - 3) .plain line).take (width - 2) ∈ rows :=
    List.mem_map_of_mem (f := fun l => (Row.blank 1 .plain ++ Row.entry (width - 3) .plain l).take (width - 2)) member
  have inside : (p.draw scroll width height).1 =
      framed p.focused " Serial Monitor " width height (Picture.fill (width - 2) (height - 2) .plain rows) := by
    simp only [draw, filled]
    rfl
  rw [inside]
  exact mem_framed p.focused " Serial Monitor " (by omega) (Picture.mem_fill .plain fits row)

-- The farthest scroll is that of the last page, whose last line is the newest.
theorem newest_shown {newest : Line} (last : p.lines.getLast? = some newest) (few : p.lines.length ≤ farthest) :
    (p.shown farthest height).getLast? = some newest := by
  have some_ : p.lines ≠ [] := by
    rintro none
    rw [none] at last
    cases last
  have rows := one_le_textRows height
  have many := List.length_pos_iff.2 some_
  have filled : p.lines.isEmpty = false := by simpa using some_
  have offset : p.scrolled farthest height = p.lines.length - textRows height := by
    rw [scrolled, filled]
    exact Nat.min_eq_right (by omega)
  have page : (p.lines.drop (p.lines.length - textRows height)).length ≤ textRows height := by
    rw [List.length_drop]
    omega
  rw [shown, offset, List.take_of_length_le page, List.getLast?_drop, if_neg (by omega), last]

end LogPane

end Breadboard.Screen
