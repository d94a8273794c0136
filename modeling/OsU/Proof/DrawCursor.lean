import OsU.Kernel.Editor
import OsU.Proof.Console

/-!
# Where the editor puts its cursor

`draw_editor` counts rows and columns by itself, and the console wraps and scrolls by
itself. The editor ends a full row when the next character comes, and the console has
ended it already: every full row puts the text one row further down than the editor
counts, and every row that is scrolled brings it one row back. `Pen` has the editor's
counts and the number of full rows; `SheetAt` says where the console is then.

So the cursor sits on its character when the two errors cancel, which is a matter of
counting (`placeOf_eq_cursorPlace`). It can also sit on another character that looks the
same, or on an empty cell when the character is a blank; what the screen shows cannot
tell these apart, and the exact condition has them as cases.

The counts are functions of the text, with no screen in them, and the loop is followed
by one invariant (`DrawnTo`) that has the counts, the sheet the console shows, and what
was noted at the cursor. The header is one line that must fit its row, or the count of
the rows would be off from the start.
-/

set_option autoImplicit false

namespace OsU

open Runs CString

/-! ## The editor's counts -/

/-- The row and the column that `draw_editor` counts, and the rows it has filled. -/
structure Pen where
  row : Nat
  col : Nat
  full : Nat

namespace Pen

/-- A full row is ended before the next character. -/
def wrap (p : Pen) : Pen := if p.col ≥ vgaWidth then { p with row := p.row + 1, col := 0 } else p

/-- A character is drawn. -/
def put (p : Pen) : Pen :=
  { p with col := p.col + 1, full := if p.col + 1 = vgaWidth then p.full + 1 else p.full }

/-- A character of the text is taken, while there is a row for it. The loop stops in the
middle of a round when the row it has just ended was the last. -/
def next (p : Pen) (c : UInt8) : Pen :=
  if p.row ≥ vgaHeight then p
  else if c = 0x0A then { p with row := p.row + 1, col := 0 }
  else if p.wrap.row ≥ vgaHeight then p.wrap else p.wrap.put

end Pen

/-- The counts when the loop is at a character of the text. -/
def penAt (text : Nat → UInt8) : Nat → Pen
  | 0 => ⟨1, 0, 0⟩
  | i + 1 => (penAt text i).next (text i)

/-- The loop draws the character. -/
def Draws (text : Nat → UInt8) (i : Nat) : Prop :=
  text i ≠ 0x0A ∧ (penAt text i).wrap.row < vgaHeight

instance (text : Nat → UInt8) (i : Nat) : Decidable (Draws text i) :=
  inferInstanceAs (Decidable (_ ∧ _))

/-- The place of a character on a sheet with no last row. -/
def placeOf (text : Nat → UInt8) (i : Nat) : Nat × Nat :=
  ((penAt text i).wrap.row + (penAt text i).wrap.full, (penAt text i).wrap.col)

/-- The rows that have been scrolled away when the text is drawn. -/
def scrolled (text : Nat → UInt8) (len : Nat) : Nat :=
  (penAt text len).row + (penAt text len).full - (vgaHeight - 1)

/-- The place of the sheet that the cursor is on when the text is drawn. The cursor is
put on the screen last, by its row on the screen, so that rows scrolled after it was
noted count against it. -/
def cursorPlace (text : Nat → UInt8) (len cursor : Nat) : Nat × Nat :=
  (scrolled text len + (penAt text cursor).row, min (penAt text cursor).col (vgaWidth - 1))

/-- The character that has been drawn at a place, from the characters before `i`. -/
def drawnAt (text : Nat → UInt8) : Nat → Nat × Nat → Option UInt8
  | 0, _ => none
  | i + 1, place =>
    if Draws text i ∧ placeOf text i = place then some (text i) else drawnAt text i place

section Counts

variable {text : Nat → UInt8}

theorem Pen.row_le_wrap (p : Pen) : p.row ≤ p.wrap.row := by
  unfold Pen.wrap
  split
  · exact Nat.le_succ _
  · exact le_rfl

theorem Pen.wrap_col_lt (p : Pen) : p.wrap.col < vgaWidth := by
  unfold Pen.wrap
  split
  · exact Nat.zero_lt_succ 79
  · omega

theorem penAt_col_le (i : Nat) : (penAt text i).col ≤ vgaWidth := by
  induction i with
  | zero => exact Nat.zero_le _
  | succ i ih =>
    rw [penAt, Pen.next]
    split
    · exact ih
    · split
      · exact Nat.zero_le _
      · split
        · exact (Pen.wrap_col_lt _).le
        · exact Pen.wrap_col_lt _

/-- Without a row the loop is over. -/
theorem penAt_over {i k : Nat} (h : vgaHeight ≤ (penAt text i).row) (hk : i ≤ k) :
    penAt text k = penAt text i := by
  induction k, hk using Nat.le_induction with
  | base => rfl
  | succ k _ ih =>
    rw [penAt, ih, Pen.next, if_pos h]

theorem drawnAt_over {i k : Nat} (h : vgaHeight ≤ (penAt text i).row) (hk : i ≤ k)
    (place : Nat × Nat) : drawnAt text k place = drawnAt text i place := by
  induction k, hk using Nat.le_induction with
  | base => rfl
  | succ k hk ih =>
    have hnot : ¬ (Draws text k ∧ placeOf text k = place) := by
      rintro ⟨⟨-, hrow⟩, -⟩
      rw [penAt_over h hk] at hrow
      exact absurd (h.trans (Pen.row_le_wrap _)) (not_le.mpr hrow)
    rw [drawnAt, if_neg hnot, ih]

end Counts

/-! ## The console's counts -/

/-- The sheet when the loop is at a character: full rows have been ended. The console's
column is 0 where the editor's is that of a full row. -/
structure SheetAt (text : Nat → UInt8) (i : Nat) (s : Sheet UInt8) : Prop where
  row : s.row = (penAt text i).row + (penAt text i).full
  col : s.col = if (penAt text i).col = vgaWidth then 0 else (penAt text i).col
  cell : ∀ r c, 1 ≤ r → s.cell r c = drawnAt text i (r, c)

namespace SheetAt

variable {text : Nat → UInt8} {i : Nat} {s : Sheet UInt8} (h : SheetAt text i s)

include h

theorem col_lt : s.col < vgaWidth := by
  have hle : (penAt text i).col ≤ vgaWidth := penAt_col_le i
  rw [h.col]
  split
  · exact Nat.zero_lt_succ 79
  · omega

/-- The text ends its line. -/
theorem newline (hrow : (penAt text i).row < vgaHeight) (hn : text i = 0x0A) :
    SheetAt text (i + 1) s.newline := by
  have hnext : penAt text (i + 1) = ⟨(penAt text i).row + 1, 0, (penAt text i).full⟩ := by
    rw [penAt, Pen.next, if_neg (not_le.mpr hrow), if_pos hn]
  refine ⟨?_, ?_, fun r c hr => ?_⟩
  · rw [hnext]
    change s.row + 1 = (penAt text i).row + 1 + (penAt text i).full
    rw [h.row]
    omega
  · rw [hnext]
    rfl
  · rw [drawnAt, if_neg (fun hd => hd.1.1 hn)]
    exact h.cell r c hr

/-- The editor ends a full row. -/
theorem wrap {s' : Sheet UInt8}
    (hs : s' = if (penAt text i).col ≥ vgaWidth then s.newline else s) :
    s'.row = (penAt text i).wrap.row + (penAt text i).wrap.full ∧
      s'.col = (penAt text i).wrap.col ∧ s'.cell = s.cell := by
  have hle : (penAt text i).col ≤ vgaWidth := penAt_col_le i
  rw [hs, Pen.wrap]
  split
  · refine ⟨?_, rfl, rfl⟩
    change s.row + 1 = (penAt text i).row + 1 + (penAt text i).full
    rw [h.row]
    omega
  · rename_i hlt
    refine ⟨h.row, ?_, rfl⟩
    rw [h.col, if_neg (by omega)]

/-- There is no row for the character then. -/
theorem stop {s' : Sheet UInt8}
    (hs : s' = if (penAt text i).col ≥ vgaWidth then s.newline else s)
    (hrow : (penAt text i).row < vgaHeight) (hn : text i ≠ 0x0A)
    (hlast : vgaHeight ≤ (penAt text i).wrap.row) : SheetAt text (i + 1) s' := by
  obtain ⟨hr, hc, hcell⟩ := h.wrap hs
  have hnext : penAt text (i + 1) = (penAt text i).wrap := by
    rw [penAt, Pen.next, if_neg (not_le.mpr hrow), if_neg hn, if_pos hlast]
  refine ⟨by rw [hnext, hr], ?_, fun r c hr => ?_⟩
  · rw [hnext, if_neg (Pen.wrap_col_lt _).ne, hc]
  · rw [drawnAt, if_neg (fun hd => absurd hd.1.2 (not_lt.mpr hlast)), hcell]
    exact h.cell r c hr

/-- Or it is drawn. -/
theorem put {s' : Sheet UInt8}
    (hs : s' = if (penAt text i).col ≥ vgaWidth then s.newline else s)
    (hd : Draws text i) : SheetAt text (i + 1) (s'.put vgaWidth (text i)) := by
  obtain ⟨hr, hc, hcell⟩ := h.wrap hs
  have hrow : (penAt text i).row < vgaHeight := (Pen.row_le_wrap _).trans_lt hd.2
  have hnext : penAt text (i + 1) = (penAt text i).wrap.put := by
    rw [penAt, Pen.next, if_neg (not_le.mpr hrow), if_neg hd.1, if_neg (not_le.mpr hd.2)]
  have hwrite : ∀ r c, 1 ≤ r → (s'.write (text i)).cell r c = drawnAt text (i + 1) (r, c) := by
    intro r c hr'
    rw [drawnAt, ← h.cell r c hr', ← hcell]
    refine if_congr ?_ rfl rfl
    rw [placeOf, ← hr, ← hc, Prod.mk.injEq, and_iff_right hd, eq_comm, eq_comm (a := c)]
  rw [Sheet.put]
  by_cases hfull : (s'.write (text i)).col = vgaWidth
  · have hfull' : (penAt text i).wrap.col + 1 = vgaWidth := hc ▸ hfull
    rw [if_pos hfull]
    refine ⟨?_, ?_, hwrite⟩
    · rw [hnext, Pen.put, if_pos hfull']
      change s'.row + 1 = (penAt text i).wrap.row + ((penAt text i).wrap.full + 1)
      omega
    · rw [hnext, Pen.put, if_pos hfull']
      rfl
  · have hfull' : ¬ (penAt text i).wrap.col + 1 = vgaWidth := hc ▸ hfull
    rw [if_neg hfull]
    refine ⟨?_, ?_, hwrite⟩
    · rw [hnext, Pen.put, if_neg hfull']
      exact hr
    · rw [hnext, Pen.put, if_neg hfull', if_neg hfull']
      exact congrArg (· + 1) hc

end SheetAt

/-! ## The loop

The loop keeps two accounts: the counts `row` and `col`, and the cursor of the screen.
They go together except at the end of a row: the screen goes on to the next one as soon as
a row is full, the counts only when there is another character. -/

namespace Drawing

/-- A character is taken, and the counts are noted at the cursor. -/
def take (cursor i : Nat) (d : Drawing) : Drawing :=
  let d := if i = cursor then { d with curRow := d.row, curCol := d.col } else d
  { d with buf := d.buf.use i }

/-- A full row is ended. -/
def wrap (d : Drawing) : Drawing := if d.col ≥ vgaWidth then d.newline else d

/-- A character is drawn. -/
def put (c : UInt8) (d : Drawing) : Drawing := { d with vga := vgaPutc c d.vga, col := d.col + 1 }

/-- Where the loop begins. -/
def start (title : List UInt8) (buf : Cells UInt8) (vga : Vga) : Drawing where
  buf := buf
  row := 1
  col := 0
  curRow := 1
  curCol := 0
  vga := vgaPuts title (vgaClear vga)

section Take

variable (cursor i : Nat) (d : Drawing)

@[simp] theorem take_buf : (d.take cursor i).buf.val = d.buf.val := by
  unfold take
  split <;> rfl

@[simp] theorem take_row : (d.take cursor i).row = d.row := by
  unfold take
  split <;> rfl

@[simp] theorem take_col : (d.take cursor i).col = d.col := by
  unfold take
  split <;> rfl

@[simp] theorem take_vga : (d.take cursor i).vga = d.vga := by
  unfold take
  split <;> rfl

end Take

@[simp] theorem wrap_buf (d : Drawing) : d.wrap.buf = d.buf := by
  unfold wrap
  split <;> rfl

@[simp] theorem wrap_curRow (d : Drawing) : d.wrap.curRow = d.curRow := by
  unfold wrap
  split <;> rfl

@[simp] theorem wrap_curCol (d : Drawing) : d.wrap.curCol = d.curCol := by
  unfold wrap
  split <;> rfl

end Drawing

theorem drawLoop_succ (cursor n i : Nat) (d : Drawing) :
    drawLoop cursor (n + 1) i d =
      if d.row < vgaHeight then
        if (d.take cursor i).buf.val i = 0x0A then
          drawLoop cursor n (i + 1) (d.take cursor i).newline
        else if (d.take cursor i).wrap.row ≥ vgaHeight then (d.take cursor i).wrap
        else drawLoop cursor n (i + 1)
          ((d.take cursor i).wrap.put ((d.take cursor i).buf.val i))
      else d := rfl

/-- The characters of a text. -/
def Printed (text : Nat → UInt8) (len : Nat) : Prop :=
  ∀ i < len, text i = 0x0A ∨ (0x20 ≤ text i ∧ text i ≤ 0x7E)

instance (text : Nat → UInt8) (len : Nat) : Decidable (Printed text len) :=
  inferInstanceAs (Decidable (∀ i < len, _))

theorem Printed.shown {text : Nat → UInt8} {len i : Nat} (h : Printed text len) (hi : i < len) :
    text i ≠ 0x08 ∧ text i ≠ 0x0D := by
  rcases h i hi with hn | ⟨hlo, -⟩
  · rw [hn]
    decide
  · constructor <;> intro heq <;> rw [heq] at hlo <;> exact absurd hlo (by decide)

/-- The screen and the counts when the loop is at a character; the cursor's are noted
once the loop is behind it. The color is that of the console and never changes. -/
structure DrawnTo (text : Nat → UInt8) (color : UInt8) (cursor i : Nat) (d : Drawing) : Prop where
  buf : d.buf.val = text
  row : d.row = (penAt text i).row
  col : d.col = (penAt text i).col
  sheet : ∃ s, Shows d.vga s ∧ SheetAt text i s
  color : d.vga.color = color
  cursor : cursor < i → (penAt text cursor).row < vgaHeight →
    d.curRow = (penAt text cursor).row ∧ d.curCol = (penAt text cursor).col

namespace DrawnTo

variable {text : Nat → UInt8} {color : UInt8} {cursor i : Nat} {d : Drawing}
  (h : DrawnTo text color cursor i d)

include h

/-- No row is left. -/
theorem full {k : Nat} (hfull : vgaHeight ≤ (penAt text i).row) (hk : i ≤ k) :
    DrawnTo text color cursor k d := by
  obtain ⟨s, hs, hat⟩ := h.sheet
  refine ⟨h.buf, ?_, ?_, ⟨s, hs, ?_, ?_, fun r c hr => ?_⟩, h.color, fun _ hrow => ?_⟩
  · rw [penAt_over hfull hk, h.row]
  · rw [penAt_over hfull hk, h.col]
  · rw [penAt_over hfull hk, hat.row]
  · rw [penAt_over hfull hk, hat.col]
  · rw [drawnAt_over hfull hk, hat.cell r c hr]
  · refine h.cursor (not_le.mp fun hle => ?_) hrow
    rw [penAt_over hfull hle] at hrow
    exact absurd hfull (not_le.mpr hrow)

theorem take_cursor (hlt : cursor < i + 1) (hrow : (penAt text cursor).row < vgaHeight) :
    (d.take cursor i).curRow = (penAt text cursor).row ∧
      (d.take cursor i).curCol = (penAt text cursor).col := by
  unfold Drawing.take
  by_cases heq : i = cursor
  · subst heq
    rw [if_pos rfl]
    exact ⟨h.row, h.col⟩
  · rw [if_neg heq]
    exact h.cursor (by omega) hrow

theorem newline (hrow : (penAt text i).row < vgaHeight) (hn : text i = 0x0A) :
    DrawnTo text color cursor (i + 1) (d.take cursor i).newline := by
  obtain ⟨s, hs, hat⟩ := h.sheet
  have hnext : penAt text (i + 1) = ⟨(penAt text i).row + 1, 0, (penAt text i).full⟩ := by
    rw [penAt, Pen.next, if_neg (not_le.mpr hrow), if_pos hn]
  refine ⟨(Drawing.take_buf ..).trans h.buf, ?_, ?_, ⟨s.newline, ?_, hat.newline hrow hn⟩, ?_,
    h.take_cursor⟩
  · rw [hnext, ← h.row, ← Drawing.take_row cursor i d]
    rfl
  · rw [hnext]
    rfl
  · change Shows (vgaPutc 0x0A (d.take cursor i).vga) s.newline
    rw [Drawing.take_vga]
    exact hs.putc hat.col_lt (by decide) (by decide)
  · change (vgaPutc 0x0A (d.take cursor i).vga).color = color
    rw [vgaPutc_color, Drawing.take_vga, h.color]

/-- The editor has ended a full row. -/
theorem wrap :
    (d.take cursor i).wrap.row = (penAt text i).wrap.row ∧
      (d.take cursor i).wrap.col = (penAt text i).wrap.col ∧
      (d.take cursor i).wrap.vga.color = color ∧
      ∃ s s' : Sheet UInt8, SheetAt text i s ∧ Shows (d.take cursor i).wrap.vga s' ∧
        s' = if (penAt text i).col ≥ vgaWidth then s.newline else s := by
  obtain ⟨s, hs, hat⟩ := h.sheet
  unfold Drawing.wrap Pen.wrap
  rw [Drawing.take_col, h.col]
  split
  · refine ⟨?_, rfl, ?_, s, s.newline, hat, ?_, rfl⟩
    · rw [← h.row, ← Drawing.take_row cursor i d]
      rfl
    · change (vgaPutc 0x0A (d.take cursor i).vga).color = color
      rw [vgaPutc_color, Drawing.take_vga, h.color]
    · change Shows (vgaPutc 0x0A (d.take cursor i).vga) s.newline
      rw [Drawing.take_vga]
      exact hs.putc hat.col_lt (by decide) (by decide)
  · refine ⟨?_, ?_, ?_, s, s, hat, ?_, rfl⟩
    · rw [Drawing.take_row, h.row]
    · rw [Drawing.take_col, h.col]
    · rw [Drawing.take_vga, h.color]
    · rw [Drawing.take_vga]
      exact hs

theorem stop (hrow : (penAt text i).row < vgaHeight) (hn : text i ≠ 0x0A)
    (hlast : vgaHeight ≤ (penAt text i).wrap.row) :
    DrawnTo text color cursor (i + 1) (d.take cursor i).wrap := by
  obtain ⟨hr, hc, hcolor, s, s', hat, hs', heq⟩ := h.wrap
  have hnext : penAt text (i + 1) = (penAt text i).wrap := by
    rw [penAt, Pen.next, if_neg (not_le.mpr hrow), if_neg hn, if_pos hlast]
  refine ⟨?_, hnext ▸ hr, hnext ▸ hc, ⟨s', hs', hat.stop heq hrow hn hlast⟩, hcolor, ?_⟩
  · rw [Drawing.wrap_buf, Drawing.take_buf, h.buf]
  · rw [Drawing.wrap_curRow, Drawing.wrap_curCol]
    exact h.take_cursor

theorem put (hb : text i ≠ 0x08) (hr : text i ≠ 0x0D) (hd : Draws text i) :
    DrawnTo text color cursor (i + 1) ((d.take cursor i).wrap.put (text i)) := by
  obtain ⟨hrow, hcol, hcolor, s, s', hat, hs', heq⟩ := h.wrap
  have hlt : (penAt text i).row < vgaHeight := (Pen.row_le_wrap _).trans_lt hd.2
  have hnext : penAt text (i + 1) = (penAt text i).wrap.put := by
    rw [penAt, Pen.next, if_neg (not_le.mpr hlt), if_neg hd.1, if_neg (not_le.mpr hd.2)]
  have hwide : s'.col < 80 := (hat.wrap heq).2.1 ▸ Pen.wrap_col_lt _
  refine ⟨?_, ?_, ?_, ⟨s'.put vgaWidth (text i), ?_, hat.put heq hd⟩, ?_, ?_⟩
  · exact (congrArg Cells.val (Drawing.wrap_buf _)).trans ((Drawing.take_buf ..).trans h.buf)
  · rw [hnext]
    exact hrow
  · rw [hnext]
    exact congrArg (· + 1) hcol
  · have hputc := hs'.putc hwide hb hr
    rw [layout, if_neg hd.1] at hputc
    exact hputc
  · exact (vgaPutc_color _ _).trans hcolor
  · change cursor < i + 1 → _ →
      (d.take cursor i).wrap.curRow = _ ∧ (d.take cursor i).wrap.curCol = _
    rw [Drawing.wrap_curRow, Drawing.wrap_curCol]
    exact h.take_cursor

end DrawnTo

/-- **The loop.** It ends behind the text or where no row is left, with the cursor's counts noted if
it has come to the cursor. -/
theorem drawLoop_drawn {text : Nat → UInt8} {color : UInt8} {len cursor : Nat}
    (hp : Printed text len) (n : Nat) {i : Nat} (hi : i + n = len) {d : Drawing}
    (h : DrawnTo text color cursor i d) :
    DrawnTo text color cursor len (drawLoop cursor n i d) := by
  induction n generalizing i d with
  | zero => exact (show i = len from hi) ▸ h
  | succ n ih =>
    have hi' : i + 1 + n = len := by omega
    have hlen : i < len := by omega
    -- The loop stops below the screen; it starts a new row at a line feed or past the
    -- last column, and draws any other character.
    have hchar : (d.take cursor i).buf.val i = text i := by rw [Drawing.take_buf, h.buf]
    rw [drawLoop_succ, hchar]
    by_cases hrow : d.row < vgaHeight
    swap
    · rw [if_neg hrow]
      exact h.full (h.row ▸ not_lt.mp hrow) hlen.le
    rw [if_pos hrow]
    rw [h.row] at hrow
    by_cases hn : text i = 0x0A
    · rw [if_pos hn]
      exact ih hi' (h.newline hrow hn)
    rw [if_neg hn, h.wrap.1]
    by_cases hlast : vgaHeight ≤ (penAt text i).wrap.row
    · rw [if_pos hlast]
      have hstop := h.stop hrow hn hlast
      refine hstop.full ?_ hlen
      rw [penAt, Pen.next, if_neg (not_le.mpr hrow), if_neg hn, if_pos hlast]
      exact hlast
    · rw [if_neg hlast]
      exact ih hi' (h.put (hp.shown hlen).1 (hp.shown hlen).2 ⟨hn, not_le.mp hlast⟩)

/-! ## The header

As long as the header does not reach the end of its row, the line break behind it takes
the cursor to the second row, which is where the counts of `draw_editor` begin. -/

/-- The first line of the screen. -/
def headerLine (name : List UInt8) (mode : Mode) (msg : List UInt8) : List UInt8 :=
  ascii "[" ++ (if mode = .insert then ascii "INSERT" else ascii "NORMAL") ++ ascii "] " ++
    cstr name ++ ascii " | " ++ cstr msg

/-- At most `n` columns of the first row are written, and the rest of the screen is
blank: so it is while the header of `draw_editor` is written. -/
structure OnTop (color : UInt8) (n : Nat) (v : Vga) : Prop where
  x : v.cursorX.toNat ≤ n
  y : v.cursorY = 0
  top : v.mem.top ≤ 2000
  cells : ∃ line : Nat → UInt8, ∀ y < 25, ∀ x < 80,
    v.mem.val (y * 80 + x) = makeCell (if y = 0 then line x else 0x20) color
  color : v.color = color

namespace OnTop

variable {color : UInt8} {n : Nat} {v : Vga}

theorem clear (mem : Nat → UInt16) (x y color : UInt8) (hw : UInt16) :
    OnTop color 0 (vgaClear ⟨⟨mem, 0⟩, x, y, color, hw⟩) where
  x := le_rfl
  y := rfl
  color := rfl
  top := (Shows.clear mem x y color hw).top
  cells := by
    refine ⟨fun _ => 0x20, fun r hr c hc => ?_⟩
    rw [(Shows.clear mem x y color hw).cells r hr c hc, ite_self]
    rfl

theorem mono (h : OnTop color n v) {m : Nat} (hnm : n ≤ m) : OnTop color m v :=
  { h with x := h.x.trans hnm }

/-- A cell of the first row is written. -/
theorem set (h : OnTop color n v) (hx : v.cursorX.toNat < 80) (c : UInt8) :
    OnTop color n { v with mem := v.mem.set v.pos (makeCell c color) } where
  x := h.x
  y := h.y
  color := h.color
  top := by
    have htop := h.top
    change max v.mem.top (v.pos + 1) ≤ 2000
    rw [Vga.pos, h.y]
    change max v.mem.top (0 * 80 + v.cursorX.toNat + 1) ≤ 2000
    omega
  cells := by
    obtain ⟨line, hline⟩ := h.cells
    have hpos : v.pos = v.cursorX.toNat := by
      rw [Vga.pos, h.y]
      exact Nat.zero_add _
    refine ⟨Function.update line v.cursorX.toNat c, fun r hr k hk => ?_⟩
    change Function.update v.mem.val v.pos _ _ = _
    rw [hpos]
    by_cases hat : r * 80 + k = v.cursorX.toNat
    · obtain ⟨rfl, rfl⟩ : r = 0 ∧ k = v.cursorX.toNat := by omega
      rw [hat, Function.update_self, if_pos rfl, Function.update_self]
    · rw [Function.update_of_ne hat, hline r hr k hk]
      congr 1
      refine if_ctx_congr Iff.rfl (fun hr0 => ?_) (fun _ => rfl)
      rw [Function.update_of_ne (by omega)]

/-- Any character but a line break stays in the row, while it has room. -/
theorem putc (h : OnTop color n v) (hn : n + 1 < 80) {c : UInt8} (hc : c ≠ 0x0A) :
    OnTop color (n + 1) (vgaPutc c v) := by
  obtain rfl := h.color
  have hx := h.x
  have settle : ∀ {w : Vga}, OnTop v.color (n + 1) w →
      OnTop v.color (n + 1) (if w.cursorX.toNat ≥ vgaWidth then
        { w with cursorX := 0, cursorY := w.cursorY + 1 } else w).scrollIfNeeded.updateCursor := by
    intro w hw
    rw [if_neg (show ¬ w.cursorX.toNat ≥ vgaWidth from not_le.mpr (hw.x.trans_lt hn)),
      Vga.scrollIfNeeded_of_lt]
    · exact ⟨hw.x, hw.y, hw.top, hw.cells, hw.color⟩
    · rw [hw.y]
      decide
  unfold vgaPutc
  rw [if_neg hc]
  refine settle ?_
  split
  · exact ⟨Nat.zero_le _, h.y, h.top, h.cells, h.color⟩
  · split
    · split
      · have hback : (v.cursorX - 1).toNat ≤ n := by
          rw [UInt8.toNat_sub_of_le _ _ ‹v.cursorX > 0›]
          omega
        have hb : OnTop v.color n { v with cursorX := v.cursorX - 1 } :=
          ⟨hback, h.y, h.top, h.cells, h.color⟩
        exact (hb.set (by change (v.cursorX - 1).toNat < 80; omega) 0x20).mono n.le_succ
      · exact h.mono n.le_succ
    · have hs := h.set (by omega) c
      refine ⟨?_, hs.y, hs.top, hs.cells, hs.color⟩
      change (v.cursorX + 1).toNat ≤ n + 1
      rw [UInt8.toNat_add]
      exact (Nat.mod_le _ _).trans (Nat.succ_le_succ hx)

theorem puts (h : OnTop color n v) {cs : List UInt8} (hn : n + cs.length < 80)
    (hcs : (0x0A : UInt8) ∉ cs) :
    OnTop color (n + cs.length) (cs.foldl (fun v c => vgaPutc c v) v) := by
  induction cs generalizing n v with
  | nil => exact h
  | cons c cs ih =>
    rw [List.length_cons] at hn
    rw [List.mem_cons, not_or] at hcs
    have hput := h.putc (by omega) (Ne.symm hcs.1)
    have hrest := ih hput (by omega) hcs.2
    rw [List.length_cons, Nat.add_comm cs.length, ← Nat.add_assoc]
    exact hrest

/-- The line break after it. -/
theorem newline (h : OnTop color n v) :
    ∃ s, Shows (vgaPutc 0x0A v) s ∧ s.row = 1 ∧ s.col = 0 ∧ ∀ r c, 1 ≤ r → s.cell r c = none := by
  obtain ⟨line, hline⟩ := h.cells
  let s : Sheet UInt8 :=
    ⟨0, v.cursorX.toNat, fun r c => if r = 0 then some (line c) else none⟩
  have hshows : Shows v s := by
    refine ⟨rfl, by rw [h.y]; rfl, fun r hr c hc => ?_, h.top, fun r c hr => ?_⟩
    · rw [hline r hr c hc, h.color]
      change _ = makeCell ((if 0 - 24 + r = 0 then some (line c) else none).getD 0x20) color
      rw [Nat.zero_sub, Nat.zero_add]
      split <;> rfl
    · exact if_neg (Nat.ne_of_gt hr)
  exact ⟨s.newline, hshows.newline.updateCursor, rfl, rfl,
    fun r c hr => if_neg (Nat.ne_of_gt hr)⟩

end OnTop

theorem zero_not_mem_headerLine (name : List UInt8) (mode : Mode) (msg : List UInt8) :
    (0 : UInt8) ∉ headerLine name mode msg := by
  have hcstr (text : List UInt8) : (0 : UInt8) ∉ cstr text := by
    intro hmem
    have hne := List.mem_takeWhile_imp hmem
    simp at hne
  unfold headerLine
  simp only [List.mem_append, not_or]
  refine ⟨⟨⟨⟨⟨by decide, ?_⟩, by decide⟩, hcstr name⟩, by decide⟩, hcstr msg⟩
  split <;> decide

/-- The header leaves the rest of the screen to the text. -/
theorem vgaPuts_header {name msg : List UInt8} {mode : Mode}
    (hlen : (headerLine name mode msg).length < 80)
    (hline : (0x0A : UInt8) ∉ headerLine name mode msg) (mem : Nat → UInt16) (x y color : UInt8)
    (hw : UInt16) (buf : Cells UInt8) (cursor : Nat) :
    DrawnTo buf.val color cursor 0
      (.start (headerLine name mode msg ++ [0x0A]) buf ⟨⟨mem, 0⟩, x, y, color, hw⟩) := by
  have hz : (headerLine name mode msg ++ [0x0A]).takeWhile (· ≠ 0) =
      headerLine name mode msg ++ [0x0A] := by
    refine List.takeWhile_eq_self_iff.mpr fun c hc => decide_eq_true ?_
    rintro rfl
    rcases List.mem_append.mp hc with hc | hc
    · exact zero_not_mem_headerLine _ _ _ hc
    · exact absurd hc (by decide)
  have htop := (OnTop.clear mem x y color hw).puts (by omega) hline
  obtain ⟨s, hs, hrow, hcol, hcell⟩ := htop.newline
  have hputs : vgaPuts (headerLine name mode msg ++ [0x0A])
      (vgaClear ⟨⟨mem, 0⟩, x, y, color, hw⟩) = vgaPutc 0x0A
        ((headerLine name mode msg).foldl (fun v c => vgaPutc c v)
          (vgaClear ⟨⟨mem, 0⟩, x, y, color, hw⟩)) := by
    rw [vgaPuts, hz, List.foldl_append]
    rfl
  refine ⟨rfl, rfl, rfl, ⟨s, ?_, hrow, hcol, hcell⟩, ?_, fun hlt => absurd hlt (Nat.not_lt_zero _)⟩
  · rw [Drawing.start, hputs]
    exact hs
  · rw [Drawing.start, hputs]
    exact (vgaPutc_color _ _).trans htop.color

/-! ## The cell at the cursor -/

theorem one_le_penAt_row (text : Nat → UInt8) (i : Nat) : 1 ≤ (penAt text i).row := by
  induction i with
  | zero => exact le_rfl
  | succ i ih =>
    rw [penAt, Pen.next]
    split
    · exact ih
    · split
      · exact Nat.le_add_left 1 _
      · have hwrap := ih.trans (Pen.row_le_wrap _)
        split
        · exact hwrap
        · exact hwrap

/-- A column behind the last is the last. -/
theorem vgaSetCursor_clamp (col row : Nat) (v : Vga) :
    vgaSetCursor (if col ≥ vgaWidth then vgaWidth - 1 else col)
      (if row ≥ vgaHeight then vgaHeight - 1 else row) v = vgaSetCursor col row v := by
  have hx : ∀ {n m : Nat}, 0 < m → (if (if n ≥ m then m - 1 else n) ≥ m then m - 1
      else if n ≥ m then m - 1 else n) = if n ≥ m then m - 1 else n := by
    intro n m hm
    split_ifs <;> omega
  unfold vgaSetCursor
  rw [hx (by decide), hx (by decide)]

theorem makeCell_inj {a b col : UInt8} : makeCell a col = makeCell b col ↔ a = b := by
  have hcol : (col.toUInt16 <<< 8).toUInt8 = 0 := by
    rw [← UInt8.toNat_inj, UInt16.toNat_toUInt8, UInt16.toNat_shiftLeft]
    change (col.toUInt16.toNat <<< 8) % 65536 % 256 = 0
    rw [Nat.shiftLeft_eq]
    omega
  have hlow (c : UInt8) : (makeCell c col).toUInt8 = c := by
    rw [makeCell, UInt16.toUInt8_or, hcol, UInt8.or_zero, UInt8.toUInt8_toUInt16]
  exact ⟨fun h => by rw [← hlow a, h, hlow], congrArg (makeCell · col)⟩

/-- The cell at the hardware's cursor. -/
theorem Shows.cell_at {v : Vga} {s : Sheet UInt8} (h : Shows v s) (col : Nat) {row : Nat}
    (hrow : row < vgaHeight) :
    (vgaSetCursor col row v).mem.val (vgaSetCursor col row v).hwCursor.toNat =
      makeCell ((s.view 25 row (min col (vgaWidth - 1))).getD 0x20) v.color := by
  have hcol : (if col ≥ vgaWidth then vgaWidth - 1 else col) = min col (vgaWidth - 1) := by
    split <;> omega
  have hlt : min col (vgaWidth - 1) < 80 := by
    unfold vgaWidth
    omega
  have hpos : (vgaSetCursor col row v).hwCursor.toNat = row * 80 + min col (vgaWidth - 1) := by
    unfold vgaSetCursor
    rw [hcol, if_neg (not_le.mpr hrow), Vga.updateCursor_hwCursor, Vga.pos, UInt16.toNat_ofNat']
    generalize min col (vgaWidth - 1) = k at hlt
    unfold vgaHeight at hrow
    change ((UInt8.ofNat row).toNat * 80 + (UInt8.ofNat k).toNat) % 65536 = row * 80 + k
    have hcell : row * 80 + k < 65536 := by omega
    rw [UInt8.toNat_ofNat', UInt8.toNat_ofNat', Nat.mod_eq_of_lt (hrow.trans (by decide)),
      Nat.mod_eq_of_lt (hlt.trans (by decide)), Nat.mod_eq_of_lt hcell]
  rw [hpos]
  exact h.cells row hrow _ hlt

theorem drawEditor_of_lt {len cursor : Nat} (h : cursor < len) (name : List UInt8)
    (buf : Cells UInt8) (mode : Mode) (msg : List UInt8) (vga : Vga) :
    let d := drawLoop cursor len 0 (.start (headerLine name mode msg ++ [0x0A]) buf vga)
    (drawEditor name buf len cursor mode msg vga).2 = vgaSetCursor d.curCol d.curRow d.vga := by
  intro d
  have hne : ¬ (cursor = len ∧ d.row < vgaHeight) := fun heq => absurd heq.1 h.ne
  have hend : (if cursor = len ∧ d.row < vgaHeight then
      { d with curRow := d.row, curCol := d.col } else d) = d := if_neg hne
  rw [← vgaSetCursor_clamp]
  change (let e := if cursor = len ∧ d.row < vgaHeight then
      { d with curRow := d.row, curCol := d.col } else d
    vgaSetCursor (if e.curCol ≥ vgaWidth then vgaWidth - 1 else e.curCol)
      (if e.curRow ≥ vgaHeight then vgaHeight - 1 else e.curRow) e.vga) = _
  rw [hend]

/-- **What is under the cursor.** The column the cursor had, on the row it had, on the screen that
has been scrolled since. -/
theorem drawEditor_cell {name msg : List UInt8} {mode : Mode}
    (hlen : (headerLine name mode msg).length < 80)
    (hline : (0x0A : UInt8) ∉ headerLine name mode msg) (mem : Nat → UInt16) (x y color : UInt8)
    (hw : UInt16) {buf : Cells UInt8} {len cursor : Nat} (hp : Printed buf.val len)
    (hcur : cursor < len) (hd : Draws buf.val cursor) {v : Vga}
    (hv : v = (drawEditor name buf len cursor mode msg ⟨⟨mem, 0⟩, x, y, color, hw⟩).2) :
    v.mem.val v.hwCursor.toNat =
      makeCell ((drawnAt buf.val len (cursorPlace buf.val len cursor)).getD 0x20) color := by
  have hrow : (penAt buf.val cursor).row < vgaHeight := (Pen.row_le_wrap _).trans_lt hd.2
  have hend := drawLoop_drawn hp len (Nat.zero_add len)
    (vgaPuts_header hlen hline mem x y color hw buf cursor)
  obtain ⟨hcurRow, hcurCol⟩ := hend.cursor hcur hrow
  obtain ⟨s, hs, hat⟩ := hend.sheet
  have hset := hv.trans (drawEditor_of_lt hcur name buf mode msg ⟨⟨mem, 0⟩, x, y, color, hw⟩)
  rw [hcurRow, hcurCol] at hset
  have hcell := hs.cell_at (penAt buf.val cursor).col hrow
  rw [← hset, hend.color, Sheet.view, Sheet.first, hat.row, hat.cell] at hcell
  · exact hcell
  · exact (one_le_penAt_row _ _).trans (Nat.le_add_left _ _)

/-! ## One character for a place -/

/-- The number of the place the pen is at, row by row. -/
def Pen.place (p : Pen) : Nat := (p.row + p.full) * vgaWidth + p.col % vgaWidth

section Places

variable {text : Nat → UInt8} {i j k : Nat}

theorem Pen.place_le_wrap {p : Pen} (h : p.col ≤ vgaWidth) : p.place ≤ p.wrap.place := by
  unfold Pen.wrap Pen.place
  split
  · unfold vgaWidth at *
    dsimp only
    omega
  · exact le_rfl

theorem Pen.place_lt_put {p : Pen} (h : p.col < vgaWidth) : p.place < p.put.place := by
  unfold Pen.put Pen.place
  unfold vgaWidth at *
  dsimp only
  split <;> omega

theorem place_le_succ (i : Nat) : (penAt text i).place ≤ (penAt text (i + 1)).place := by
  have hle : (penAt text i).col ≤ vgaWidth := penAt_col_le i
  have hwrap := Pen.place_le_wrap hle
  rw [penAt, Pen.next]
  split
  · exact le_rfl
  · split
    · unfold Pen.place vgaWidth at *
      dsimp only
      omega
    · split
      · exact hwrap
      · exact hwrap.trans (Pen.place_lt_put (Pen.wrap_col_lt _)).le

theorem place_mono (h : i ≤ k) : (penAt text i).place ≤ (penAt text k).place := by
  induction k, h using Nat.le_induction with
  | base => exact le_rfl
  | succ k _ ih => exact ih.trans (place_le_succ k)

/-- A character is drawn before the place of the next one. -/
theorem Draws.place_lt (hd : Draws text i) :
    (penAt text i).wrap.place < (penAt text (i + 1)).place := by
  have hrow : (penAt text i).row < vgaHeight := (Pen.row_le_wrap _).trans_lt hd.2
  rw [penAt, Pen.next, if_neg (not_le.mpr hrow), if_neg hd.1, if_neg (not_le.mpr hd.2)]
  exact Pen.place_lt_put (Pen.wrap_col_lt _)

/-- A place has one character at most. -/
theorem Draws.placeOf_ne (hd : Draws text j) (h : j < k) : placeOf text j ≠ placeOf text k := by
  intro heq
  have hlt : (penAt text j).wrap.place < (penAt text k).wrap.place :=
    (hd.place_lt.trans_le (place_mono h)).trans_le (Pen.place_le_wrap (penAt_col_le k))
  rw [placeOf, placeOf, Prod.mk.injEq] at heq
  rw [Pen.place, Pen.place, heq.1, heq.2] at hlt
  exact absurd hlt (lt_irrefl _)

theorem drawnAt_eq_some {place : Nat × Nat} {b : UInt8} :
    drawnAt text k place = some b ↔
      ∃ j < k, Draws text j ∧ placeOf text j = place ∧ text j = b := by
  induction k with
  | zero =>
    rw [drawnAt]
    exact ⟨nofun, fun ⟨j, hj, _⟩ => absurd hj (Nat.not_lt_zero j)⟩
  | succ k ih =>
    rw [drawnAt]
    by_cases hk : Draws text k ∧ placeOf text k = place
    · rw [if_pos hk]
      constructor
      · intro heq
        exact ⟨k, k.lt_succ_self, hk.1, hk.2, Option.some.inj heq⟩
      · rintro ⟨j, hj, hd, hplace, rfl⟩
        rcases Nat.lt_succ_iff_lt_or_eq.mp hj with hj | rfl
        · exact absurd (hplace.trans hk.2.symm) (hd.placeOf_ne hj)
        · rfl
    · rw [if_neg hk, ih]
      constructor
      · rintro ⟨j, hj, hrest⟩
        exact ⟨j, hj.trans k.lt_succ_self, hrest⟩
      · rintro ⟨j, hj, hd, hplace, hb⟩
        rcases Nat.lt_succ_iff_lt_or_eq.mp hj with hj | rfl
        · exact ⟨j, hj, hd, hplace, hb⟩
        · exact absurd ⟨hd, hplace⟩ hk

theorem drawnAt_eq_none {place : Nat × Nat} :
    drawnAt text k place = none ↔ ∀ j < k, Draws text j → placeOf text j ≠ place := by
  rw [Option.eq_none_iff_forall_ne_some]
  constructor
  · intro h j hj hd hplace
    exact h (text j) (drawnAt_eq_some.mpr ⟨j, hj, hd, hplace, rfl⟩)
  · intro h b hb
    obtain ⟨j, hj, hd, hplace, -⟩ := drawnAt_eq_some.mp hb
    exact h j hj hd hplace

end Places

/-! ## The character under the cursor -/

/-- The place of the character is that of the cursor, while the row is not full and the
rows that were full before it are as many as have been scrolled. -/
theorem placeOf_eq_cursorPlace {text : Nat → UInt8} {len cursor : Nat} :
    placeOf text cursor = cursorPlace text len cursor ↔
      (penAt text cursor).col < vgaWidth ∧ (penAt text cursor).full = scrolled text len := by
  have hle : (penAt text cursor).col ≤ vgaWidth := penAt_col_le cursor
  rw [placeOf, cursorPlace, Prod.mk.injEq, Pen.wrap]
  unfold vgaWidth at *
  split
  · dsimp only
    omega
  · omega

/-- **When the cursor sits on the character it edits.** When its place on the screen has not moved;
or when another character like it, or the blank screen if it is a blank, is there. -/
theorem draw_editor_cursor {name msg : List UInt8} {mode : Mode}
    (hlen : (headerLine name mode msg).length < 80)
    (hline : (0x0A : UInt8) ∉ headerLine name mode msg) (mem : Nat → UInt16) (x y color : UInt8)
    (hw : UInt16) {buf : Cells UInt8} {len cursor : Nat}
    (hp : Printed buf.val len) (hcur : cursor < len) (hd : Draws buf.val cursor) :
    let v := (drawEditor name buf len cursor mode msg ⟨⟨mem, 0⟩, x, y, color, hw⟩).2
    v.mem.val v.hwCursor.toNat = makeCell (buf.val cursor) color ↔
      ((penAt buf.val cursor).col < vgaWidth ∧
          (penAt buf.val cursor).full = scrolled buf.val len) ∨
        (∃ j < len, j ≠ cursor ∧ Draws buf.val j ∧
          placeOf buf.val j = cursorPlace buf.val len cursor ∧ buf.val j = buf.val cursor) ∨
        ((∀ j < len, Draws buf.val j → placeOf buf.val j ≠ cursorPlace buf.val len cursor) ∧
          buf.val cursor = 0x20) := by
  intro v
  -- What is in the cell: the last character drawn there, or the blank it was cleared
  -- to.
  rw [drawEditor_cell hlen hline mem x y color hw hp hcur hd rfl, makeCell_inj,
    ← placeOf_eq_cursorPlace]
  cases hat : drawnAt buf.val len (cursorPlace buf.val len cursor) with
  | none =>
    have hnone := drawnAt_eq_none.mp hat
    constructor
    · intro hb
      exact .inr (.inr ⟨hnone, hb.symm⟩)
    · rintro (hplace | ⟨j, hj, -, hdj, hplace, -⟩ | ⟨-, hb⟩)
      · exact absurd hplace (hnone cursor hcur hd)
      · exact absurd hplace (hnone j hj hdj)
      · exact hb.symm
  | some b =>
    obtain ⟨j, hj, hdj, hplace, rfl⟩ := drawnAt_eq_some.mp hat
    constructor
    · intro hb
      by_cases hjc : j = cursor
      · exact .inl (hjc ▸ hplace)
      · exact .inr (.inl ⟨j, hj, hjc, hdj, hplace, hb⟩)
    · rintro (hplace' | ⟨k, hk, -, hdk, hplace', hb⟩ | ⟨hnone, -⟩)
      · have hsome := drawnAt_eq_some.mpr ⟨cursor, hcur, hd, hplace', rfl⟩
        exact Option.some.inj (hat.symm.trans hsome)
      · have hsome := drawnAt_eq_some.mpr ⟨k, hk, hdk, hplace', hb⟩
        exact Option.some.inj (hat.symm.trans hsome)
      · exact absurd hplace (hnone j hj hdj)

/-- Two characters on the first row. -/
theorem draw_editor_cursor_second :
    let buf : Cells UInt8 := ⟨fun i => if i = 0 then 0x68 else 0x69, 0⟩
    let v := (drawEditor (ascii "a") buf 2 1 .normal [] ⟨⟨fun _ => 0, 0⟩, 0, 0, 7, 0⟩).2
    v.mem.val v.hwCursor.toNat = makeCell 0x69 7 := by
  intro buf
  have hp : Printed buf.val 2 := by decide
  have hd : Draws buf.val 1 := by decide
  exact (draw_editor_cursor (by decide) (by decide) (fun _ => 0) 0 0 7 0 hp (by decide) hd).mpr
    (.inl (by decide))

/-- A character and 24 line breaks. The last one scrolls the screen, and the cursor stays. -/
theorem draw_editor_cursor_scrolled :
    let buf : Cells UInt8 := ⟨fun i => if i = 0 then 0x61 else 0x0A, 0⟩
    let v := (drawEditor (ascii "a") buf 25 0 .normal [] ⟨⟨fun _ => 0, 0⟩, 0, 0, 7, 0⟩).2
    Printed buf.val 25 ∧ Draws buf.val 0 ∧ (headerLine (ascii "a") .normal []).length < 80 ∧
      v.mem.val v.hwCursor.toNat ≠ makeCell 0x61 7 := by
  intro buf v
  have hp : Printed buf.val 25 := by decide
  have hd : Draws buf.val 0 := by decide
  have hlen : (headerLine (ascii "a") .normal []).length < 80 := by decide
  have hline : (0x0A : UInt8) ∉ headerLine (ascii "a") .normal [] := by decide
  have hblank : drawnAt buf.val 25 (2, 0) = none := by decide +kernel
  have hplace : cursorPlace buf.val 25 0 = (2, 0) := by decide +kernel
  have hcell : v.mem.val v.hwCursor.toNat =
      makeCell ((drawnAt buf.val 25 (cursorPlace buf.val 25 0)).getD 0x20) 7 :=
    drawEditor_cell hlen hline (fun _ => 0) 0 0 7 0 hp (by decide) hd rfl
  refine ⟨hp, hd, hlen, fun heq => ?_⟩
  rw [hcell, hplace, hblank] at heq
  exact absurd (makeCell_inj.mp heq) (by decide)

end OsU
