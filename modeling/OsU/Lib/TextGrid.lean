import OsU.Lib.Sheet

/-!
# A screen of text

`rows` rows of cells with a cursor; leaving the last row moves all rows up and blanks
the last. `Tail` says that such a screen shows the end of a sheet: it does as long as
both are written to at the same places.

The cells outside the screen are not restricted, and `Tail` says nothing of them.
Setting a cell or moving the cursor elsewhere is allowed to a grid, and ends its being a
`Tail`.
-/

set_option autoImplicit false

universe u

/-- The cursor, and what each cell holds. -/
structure TextGrid (α : Type u) where
  row : Nat
  col : Nat
  cell : Nat → Nat → α

namespace TextGrid

variable {α : Type u}

def clear (blank : α) : TextGrid α := ⟨0, 0, fun _ _ => blank⟩

/-- The cell at the cursor. -/
def set (x : α) (g : TextGrid α) : TextGrid α :=
  { g with cell := fun r c => if r = g.row ∧ c = g.col then x else g.cell r c }

/-- All rows move up. -/
def scroll (rows : Nat) (blank : α) (g : TextGrid α) : TextGrid α :=
  { g with cell := fun r c => if r + 1 < rows then g.cell (r + 1) c else blank }

/-- The beginning of the next row. -/
def newline (rows : Nat) (blank : α) (g : TextGrid α) : TextGrid α :=
  if g.row + 1 < rows then { g with row := g.row + 1, col := 0 }
  else { g.scroll rows blank with col := 0 }

/-- Column `col`, or the next row when there is no such column. -/
def goto (rows cols : Nat) (blank : α) (col : Nat) (g : TextGrid α) : TextGrid α :=
  if col < cols then { g with col := col } else g.newline rows blank

/-- The cursor is on the screen. -/
structure Inside (rows cols : Nat) (g : TextGrid α) : Prop where
  row : g.row < rows
  col : g.col < cols

section Inside

variable {rows cols : Nat} {g : TextGrid α}

theorem Inside.newline (h : g.Inside rows cols) (blank : α) :
    (g.newline rows blank).Inside rows cols := by
  have hcols := Nat.zero_lt_of_lt h.col
  unfold TextGrid.newline
  split
  · exact ⟨‹_›, hcols⟩
  · exact ⟨h.row, hcols⟩

theorem Inside.goto (h : g.Inside rows cols) (blank : α) (col : Nat) :
    (g.goto rows cols blank col).Inside rows cols := by
  unfold TextGrid.goto
  split
  · exact ⟨h.row, ‹_›⟩
  · exact h.newline blank

end Inside

/-! ## The end of a sheet -/

/-- The screen shows the last rows of the sheet, and `blank` where nothing was placed.
The sheet grows without end and never scrolls, so a line that has gone off the top is
still on it. -/
structure Tail (rows : Nat) (blank : α) (g : TextGrid α) (s : Sheet α) : Prop where
  row : g.row = min s.row (rows - 1)
  col : g.col = s.col
  cell : ∀ y < rows, ∀ x, g.cell y x = (s.view rows y x).getD blank
  ends : s.Ends

section Tail

variable {rows : Nat} {blank : α} {g : TextGrid α} {s : Sheet α}

theorem Tail.clear (rows : Nat) (blank : α) : Tail rows blank (TextGrid.clear blank) Sheet.blank where
  row := (Nat.zero_min _).symm
  col := rfl
  cell _ _ _ := rfl
  ends _ _ _ := rfl

/-- An element, with the cursor behind it. -/
theorem Tail.write (h : Tail rows blank g s) (x : α) :
    Tail rows blank { g.set x with col := g.col + 1 } (s.write x) where
  row := h.row
  col := congrArg (· + 1) h.col
  cell y hy c := by
    rw [Sheet.view_write]
    change (if y = g.row ∧ c = g.col then x else g.cell y c) = _
    rw [h.row, h.col, h.cell y hy c]
    split <;> rfl
  ends := h.ends.write x

theorem Tail.newline (h : Tail rows blank g s) (hr : 0 < rows) :
    Tail rows blank (g.newline rows blank) s.newline := by
  have hrow := h.row
  unfold TextGrid.newline
  split
  · -- the window stays
    have hlt : s.row < rows - 1 := by omega
    refine ⟨?_, rfl, fun y hy x => ?_, h.ends.newline⟩
    · change g.row + 1 = min (s.row + 1) (rows - 1)
      omega
    · rw [Sheet.view_newline_of_lt hlt]
      exact h.cell y hy x
  · have hle : rows - 1 ≤ s.row := by omega
    refine ⟨?_, rfl, fun y hy x => ?_, h.ends.newline⟩
    · change g.row = min (s.row + 1) (rows - 1)
      omega
    · rw [Sheet.view_newline_of_le hle]
      change (if y + 1 < rows then g.cell (y + 1) x else blank) = _
      split
      · exact h.cell (y + 1) ‹_› x
      · rw [show y + 1 = rows by omega, h.ends.view_height hr hle]
        rfl

/-- **An element, and the end of the row if it is full.** -/
theorem Tail.put (h : Tail rows blank g s) {cols : Nat} (hr : 0 < rows) (hc : s.col < cols) (x : α) :
    Tail rows blank ((g.set x).goto rows cols blank (g.col + 1)) (s.put cols x) := by
  have hw := h.write x
  have hcol : g.col + 1 = (s.write x).col := congrArg (· + 1) h.col
  unfold TextGrid.goto Sheet.put
  by_cases hfull : (s.write x).col = cols
  · rw [if_neg (by omega), if_pos hfull]
    exact hw.newline hr
  · have hlt : (s.write x).col < cols := Nat.lt_of_le_of_ne hc hfull
    rw [if_pos (by omega), if_neg hfull]
    exact hw

end Tail

end TextGrid
