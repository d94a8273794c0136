import OsU.Lib.Runs
import OsU.Lib.Sheet
import OsU.Kernel.Vga

/-!
# The console shows the tail of the output

`layout` places the characters on a sheet with no last row; the screen is the window of
25 rows that follows its end. A character is written in both at the same place
(`Shows.write`), and the end of a line moves both, with a scroll of the screen if the
window has no row left (`Shows.newline`).

So the scrolling, which copies 24 rows one row up and blanks the last, is the same as
moving the window down by one, and a screen is explained by everything that was ever
written and not by the screen before it. Backspace and carriage return are left out,
since they go back on the sheet; what backspace does within a line is in `Typing`.
-/

set_option autoImplicit false

namespace OsU

open Runs

/-- The virtual layout of a character. -/
def layout (c : UInt8) (s : Sheet UInt8) : Sheet UInt8 :=
  if c = 0x0A then s.newline else s.put vgaWidth c

/-- The console shows the last 25 rows of the sheet. `cells` is the screen, with a blank
where nothing is laid out; `top` says that no cell outside the screen has been touched,
and `ends` that the sheet has nothing behind its end. -/
structure Shows (v : Vga) (s : Sheet UInt8) : Prop where
  x : v.cursorX.toNat = s.col
  y : v.cursorY.toNat = min s.row 24
  cells : ∀ y < 25, ∀ x < 80,
    v.mem.val (y * 80 + x) = makeCell ((s.view 25 y x).getD 0x20) v.color
  top : v.mem.top ≤ 2000
  ends : s.Ends

theorem vgaClear_mem (v : Vga) :
    (vgaClear v).mem = v.mem.fill 0 (vgaWidth * vgaHeight) (makeCell 0x20 v.color) := by
  simp only [vgaClear, Vga.updateCursor_mem]

theorem Shows.clear (mem : Nat → UInt16) (x y color : UInt8) (hw : UInt16) :
    Shows (vgaClear ⟨⟨mem, 0⟩, x, y, color, hw⟩) Sheet.blank where
  x := rfl
  y := rfl
  cells := by
    intro y hy x hx
    have hin : 0 ≤ y * 80 + x ∧ y * 80 + x < 0 + vgaWidth * vgaHeight := by
      unfold vgaWidth vgaHeight
      omega
    rw [vgaClear_mem, Cells.fill_val, if_pos hin]
    rfl
  top := by
    rw [vgaClear_mem]
    exact Cells.fill_top_le _ _ (Nat.zero_le _) (by decide)
  ends := fun _ _ _ => rfl

section Moves

variable {v : Vga} {s : Sheet UInt8}

/-- The cursor at the beginning of the next row, which may be under the screen. -/
def Vga.newline (v : Vga) : Vga := { v with cursorX := 0, cursorY := v.cursorY + 1 }

/-- A character at the cursor. -/
def Vga.write (v : Vga) (c : UInt8) : Vga :=
  { v with mem := v.mem.set v.pos (makeCell c v.color), cursorX := v.cursorX + 1 }

theorem Shows.write (h : Shows v s) (hx : s.col < 80) (c : UInt8) :
    Shows (v.write c) (s.write c) where
  x := by
    change (v.cursorX + 1).toNat = s.col + 1
    rw [UInt8.toNat_add, h.x]
    exact Nat.mod_eq_of_lt (show s.col + 1 < 256 by omega)
  y := h.y
  cells := by
    intro y hy x hx'
    have hpos : v.pos = min s.row 24 * 80 + s.col := by rw [Vga.pos, h.x, h.y]; rfl
    rw [Sheet.view_write]
    change Function.update v.mem.val v.pos _ _ = _
    by_cases hat : y = min s.row 24 ∧ x = s.col
    · obtain ⟨hy', hx'⟩ := hat
      rw [if_pos ⟨hy', hx'⟩, hy', hx', ← hpos, Function.update_self]
      rfl
    · rw [if_neg hat, Function.update_of_ne (by omega), h.cells y hy x hx']
      rfl
  top := by
    change max v.mem.top (v.pos + 1) ≤ 2000
    have hpos : v.pos = min s.row 24 * 80 + s.col := by rw [Vga.pos, h.x, h.y]; rfl
    have htop := h.top
    omega
  ends := h.ends.write c

theorem Vga.scrollIfNeeded_of_lt (h : v.cursorY.toNat < vgaHeight) : v.scrollIfNeeded = v := if_pos h

/-- The rows are copied one behind the other, which is one copy of all of them: a row is
copied before the next one overwrites it. -/
theorem copyRows (m : Cells UInt16) (n : Nat) :
    (List.range n).foldl (fun m y => m.copyUp (y * vgaWidth) ((y + 1) * vgaWidth) vgaWidth) m =
      m.copyUp 0 vgaWidth (n * vgaWidth) := by
  induction n with
  | zero =>
    rw [Nat.zero_mul]
    rfl
  | succ n ih =>
    rw [List.range_succ, List.foldl_append, ih, List.foldl_cons, List.foldl_nil, Nat.succ_mul,
      Cells.copyUp_add, Nat.zero_add, Nat.add_comm vgaWidth (n * vgaWidth)]

theorem Vga.scrollIfNeeded_of_ge (h : vgaHeight ≤ v.cursorY.toNat) :
    v.scrollIfNeeded = { v with
      mem := (v.mem.copyUp 0 80 1920).fill 1920 80 (makeCell 0x20 v.color)
      cursorY := 24 } := by
  unfold Vga.scrollIfNeeded
  rw [if_neg (Nat.not_lt.mpr h), copyRows]
  rfl

/-- **The end of a line.** -/
theorem Shows.newline (h : Shows v s) : Shows v.newline.scrollIfNeeded s.newline := by
  have hy : v.newline.cursorY.toNat = min s.row 24 + 1 := by
    change (v.cursorY + 1).toNat = _
    rw [UInt8.toNat_add, h.y]
    exact Nat.mod_eq_of_lt (show min s.row 24 + 1 < 256 by omega)
  by_cases hrow : s.row < 24
  · rw [Vga.scrollIfNeeded_of_lt (by unfold vgaHeight; omega)]
    refine ⟨rfl, ?_, ?_, h.top, h.ends.newline⟩
    · change v.newline.cursorY.toNat = min (s.row + 1) 24
      omega
    · rw [Sheet.view_newline_of_lt hrow]
      exact h.cells
  · rw [Vga.scrollIfNeeded_of_ge (by unfold vgaHeight; omega)]
    have hle : 25 - 1 ≤ s.row := Nat.le_of_not_lt hrow
    refine ⟨rfl, ?_, ?_, ?_, h.ends.newline⟩
    · change 24 = min (s.row + 1) 24
      omega
    · intro y hy x hx
      rw [Sheet.view_newline_of_le hle]
      change ((v.mem.copyUp 0 80 1920).fill 1920 80 (makeCell 0x20 v.color)).val (y * 80 + x) = _
      rw [Cells.fill_val]
      by_cases hlast : y = 24
      · -- the new row is blank, on the screen and on the sheet
        subst hlast
        rw [if_pos (by omega), h.ends.view_height (by decide) hle]
        rfl
      · rw [if_neg (by omega), Cells.copyUp_val _ (by decide), if_pos (by omega),
          show y * 80 + x + (80 - 0) = (y + 1) * 80 + x by omega, h.cells (y + 1) (by omega) x hx]
        rfl
    · exact Cells.fill_top_le _ _ (Cells.copyUp_top_le _ h.top (by decide) (by decide)) (by decide)

theorem Shows.updateCursor (h : Shows v s) : Shows v.updateCursor s := ⟨h.x, h.y, h.cells, h.top, h.ends⟩

theorem vgaPutc_newline (v : Vga) : vgaPutc 0x0A v = v.newline.scrollIfNeeded.updateCursor := rfl

theorem vgaPutc_write {c : UInt8} (hn : c ≠ 0x0A) (hb : c ≠ 0x08) (hr : c ≠ 0x0D) (v : Vga) :
    vgaPutc c v = (if (v.write c).cursorX.toNat ≥ vgaWidth then (v.write c).newline
      else v.write c).scrollIfNeeded.updateCursor := by
  unfold vgaPutc
  rw [if_neg hn, if_neg hr, if_neg hb]
  rfl

/-- **One character.** -/
theorem Shows.putc (h : Shows v s) (hx : s.col < 80) {c : UInt8} (hb : c ≠ 0x08) (hr : c ≠ 0x0D) :
    Shows (vgaPutc c v) (layout c s) := by
  unfold layout
  by_cases hn : c = 0x0A
  · rw [if_pos hn, hn, vgaPutc_newline]
    exact h.newline.updateCursor
  · have hw := h.write hx c
    rw [vgaPutc_write hn hb hr, if_neg hn, hw.x, Sheet.put]
    by_cases hfull : (s.write c).col = vgaWidth
    · rw [if_pos (Nat.le_of_eq hfull.symm), if_pos hfull]
      exact hw.newline.updateCursor
    · have hlt : (s.write c).col < vgaWidth := Nat.lt_of_le_of_ne hx hfull
      rw [if_neg (Nat.not_le.mpr hlt), if_neg hfull, Vga.scrollIfNeeded_of_lt]
      · exact hw.updateCursor
      · rw [hw.y]
        exact Nat.lt_succ_of_le (Nat.min_le_right _ _)

theorem vgaPutc_color (c : UInt8) (v : Vga) : (vgaPutc c v).color = v.color := by
  have hscroll : ∀ w : Vga, w.scrollIfNeeded.color = w.color := by
    intro w
    unfold Vga.scrollIfNeeded
    split <;> rfl
  unfold vgaPutc
  rw [Vga.updateCursor_color, hscroll]
  split_ifs <;> rfl

/-- The hardware's cursor is the driver's. -/
theorem vgaPutc_hwCursor (c : UInt8) (v : Vga) :
    (vgaPutc c v).hwCursor = UInt16.ofNat (vgaPutc c v).pos := by
  unfold vgaPutc
  rw [Vga.updateCursor_hwCursor, Vga.updateCursor_pos]

end Moves

/-- **The text console shows the tail of the output.** After any characters but `\b` and `\r` the
screen is the last 25 rows of their layout, blank where nothing is laid out; the cursor is at the
next place, and no cell outside the screen is touched. -/
theorem console_tail (mem : Nat → UInt16) (x y color : UInt8) (hw : UInt16) {cs : List UInt8}
    (h : ∀ c ∈ cs, c ≠ 0x08 ∧ c ≠ 0x0D) :
    let v := run vgaPutc (vgaClear ⟨⟨mem, 0⟩, x, y, color, hw⟩) cs
    let s := run layout Sheet.blank cs
    (∀ y < 25, ∀ x < 80,
        v.mem.val (y * 80 + x) = makeCell ((s.cell (s.row - 24 + y) x).getD 0x20) color) ∧
      v.cursorX.toNat = s.col ∧ v.cursorY.toNat = min s.row 24 ∧
      v.hwCursor.toNat = min s.row 24 * 80 + s.col ∧ v.mem.top ≤ 2000 := by
  intro v s
  obtain ⟨hshows, hcol, hcolor, hcursor⟩ : Shows v s ∧ s.col < 80 ∧ v.color = color ∧
      v.hwCursor = UInt16.ofNat v.pos := by
    -- A simulation between the console and the sheet, started by the clear and kept by
    -- each character.
    refine run_simulation (R := fun v s => Shows v s ∧ s.col < 80 ∧ v.color = color ∧
      v.hwCursor = UInt16.ofNat v.pos) ?_ h
      ⟨.clear mem x y color hw, show 0 < 80 by decide, ?_, ?_⟩
    rotate_left
    · simp only [vgaClear, Vga.updateCursor_color]
    · simp only [vgaClear, Vga.updateCursor_hwCursor, Vga.updateCursor_pos]
    rintro v s c ⟨hv, hs, hc, -⟩ ⟨hb, hr⟩
    refine ⟨hv.putc hs hb hr, ?_, (vgaPutc_color c v).trans hc, vgaPutc_hwCursor c v⟩
    unfold layout
    split
    · exact (show 0 < 80 by decide)
    · exact Sheet.put_col_lt hs c
  refine ⟨fun y hy x hx => hcolor ▸ hshows.cells y hy x hx, hshows.x, hshows.y, ?_, hshows.top⟩
  rw [hcursor, Vga.pos, hshows.x, hshows.y]
  exact Nat.mod_eq_of_lt (show min s.row 24 * 80 + s.col < 65536 by omega)

/-- A word and a line break. -/
theorem console_tail_word :
    let v := run vgaPutc (vgaClear ⟨⟨fun _ => 0, 0⟩, 3, 4, 7, 0⟩) [0x68, 0x69, 0x0A]
    v.mem.val 1 = makeCell 0x69 7 ∧ v.cursorX.toNat = 0 ∧ v.cursorY.toNat = 1 := by
  have hchars : ∀ c ∈ ([0x68, 0x69, 0x0A] : List UInt8), c ≠ 0x08 ∧ c ≠ 0x0D := by simp
  obtain ⟨hcells, hx, hy, -⟩ := console_tail (fun _ => 0) 3 4 7 0 hchars
  exact ⟨hcells 0 (by decide) 1 (by decide), hx, hy⟩

end OsU
