import OsU.Lib.LineColumn
import OsU.Proof.Saving

/-!
# `j` and `k`

The two scans of `editor.c` agree with the lines of the text: `j` and `k` move the
cursor to the next and the last line, into the same column or to the end of the line.
Nothing is asked of the length of the text or of what is behind it.

Lines are those of the text split at its line feeds, so an empty text has one line and a
line feed at the end begins another, empty one. A position is a line and a column, and
the cursor has exactly one (`unique`), the end of a line included: there the cursor is
on the line feed.
-/

set_option autoImplicit false

namespace OsU

open Cells LineColumn

/-- The lines of the buffer. -/
def Editor.lines (e : Editor) : List (List UInt8) := e.content.splitOn 0x0A

/-- `e'` is the editor redrawn, with the cursor elsewhere; the text has been read only. -/
structure Editor.OnlyMoved (e e' : Editor) : Prop where
  text : e'.text.val = e.text.val
  rest : e' = { e.draw with text := e'.text, cursor := e'.cursor }

/-- The cursor is in column `c` of line `i`, and `j` and `k` take it where they should:
to the same column of the next line, or to its end if it is shorter. In the first and in
the last line the key does nothing, and in none does it change anything but the cursor.
-/
structure Editor.MovesByLine (e : Editor) (i c : Nat) : Prop where
  cursor : At e.lines e.cursor i c
  unique : ∀ i' c', At e.lines e.cursor i' c' → i' = i ∧ c' = c
  down : ∀ l, e.lines[i + 1]? = some l → At e.lines (e.key 0x6A).cursor (i + 1) (min c l.length)
  down_last : e.lines[i + 1]? = none → (e.key 0x6A).cursor = e.cursor
  up : ∀ j l, i = j + 1 → e.lines[j]? = some l →
    At e.lines (e.key 0x6B).cursor j (min c l.length)
  up_first : i = 0 → (e.key 0x6B).cursor = e.cursor
  only_down : e.OnlyMoved (e.key 0x6A)
  only_up : e.OnlyMoved (e.key 0x6B)

section Lines

variable {e : Editor} {z : TextCursor UInt8}

/-- The cursor, and the text on either side of it. -/
theorem Editor.splits_self (h : e.cursor ≤ e.len) :
    e.Splits ⟨(e.text.slice 0 e.cursor).reverse, e.text.slice e.cursor (e.len - e.cursor)⟩ where
  left := (List.reverse_reverse _).symm
  right := rfl
  cursor_le := h

theorem Editor.Splits.lines_eq (h : e.Splits z) : e.lines = z.text.splitOn 0x0A := by
  rw [Editor.lines, Editor.content, h.text_eq]

theorem Editor.Splits.draw (h : e.Splits z) : e.draw.Splits z := h.stay e.draw_val rfl rfl

theorem Editor.down_rest (e : Editor) :
    e.down = { e with text := e.down.text, cursor := e.down.cursor } := by
  unfold Editor.down
  dsimp only
  split_ifs <;> rfl

theorem Editor.up_rest (e : Editor) :
    e.up = { e with text := e.up.text, cursor := e.up.cursor } := by
  unfold Editor.up
  dsimp only
  split_ifs <;> rfl

theorem Editor.key_down (hw : e.waits = .key) (hm : e.mode = .normal) :
    e.key 0x6A = e.draw.down := by
  rw [Editor.key, hw]
  simp only [hm]
  rfl

theorem Editor.key_up (hw : e.waits = .key) (hm : e.mode = .normal) : e.key 0x6B = e.draw.up := by
  rw [Editor.key, hw]
  simp only [hm]
  rfl

/-- **Vertical motion.** At a key in normal mode the cursor is in one place of the lines
of the text. `j` and `k` take it to the same column of the line below or above, or to
its end when that line is shorter; from the last or first line it does not move. -/
theorem editor_moves_by_line (hw : e.waits = .key) (hm : e.mode = .normal)
    (hc : e.cursor ≤ e.len) : ∃ i c, e.MovesByLine i c := by
  -- The text left and right of the cursor, and what is known of the two motions there.
  have h := Editor.splits_self hc
  generalize (⟨(e.text.slice 0 e.cursor).reverse, e.text.slice e.cursor (e.len - e.cursor)⟩ :
    TextCursor UInt8) = z at h
  have hat := at_cursor 0x0A z
  obtain ⟨hdown, hlast⟩ := down_line 0x0A z
  obtain ⟨hup, hfirst⟩ := up_line 0x0A z
  have hdrawn := h.draw
  refine ⟨z.left.count 0x0A, z.column 0x0A, ?_⟩
  rw [← h.lines_eq] at hat hdown hlast hup
  rw [← h.cursor_eq] at hat
  constructor
  case cursor => exact hat
  case unique => exact fun i' c' h' => hat.unique h'
  case down =>
    intro l hl
    rw [Editor.key_down hw hm, hdrawn.moveDown.cursor_eq]
    exact hdown l hl
  case down_last =>
    intro hnone
    rw [Editor.key_down hw hm, hdrawn.moveDown.cursor_eq, hlast hnone, h.cursor_eq]
  case up =>
    intro j l hj hl
    rw [Editor.key_up hw hm, hdrawn.moveUp.cursor_eq]
    exact hup j l hj hl
  case up_first =>
    intro hzero
    rw [Editor.key_up hw hm, hdrawn.moveUp.cursor_eq, hfirst hzero, h.cursor_eq]
  case only_down =>
    rw [Editor.key_down hw hm]
    exact ⟨(Editor.down_val _).1.trans e.draw_val, Editor.down_rest _⟩
  case only_up =>
    rw [Editor.key_up hw hm]
    exact ⟨(Editor.up_val _).1.trans e.draw_val, Editor.up_rest _⟩

end Lines

/-- The lines `ab` and `c` with the cursor behind the `a`. -/
def twoLines : Editor :=
  { newFile with text := ⟨fun i => [0x61, 0x62, 0x0A, 0x63].getD i 0, 4⟩, len := 4, cursor := 1 }

theorem editor_moves_by_line_two : ∃ i c, twoLines.MovesByLine i c :=
  editor_moves_by_line rfl rfl (show 1 ≤ 4 by decide)

end OsU
