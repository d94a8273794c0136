import OsU.Lib.TextGrid
import OsU.Proof.Scrolling

/-!
# The graphics console is a screen of text

`TextScreen` is what the console is for: cells of characters with two colors each, a
cursor, and the colors in use. `Displays` says that the frame buffer is its picture.
Every call of `gfxcon.c` keeps it so: a character is drawn in the cell of the cursor,
and the end of a row moves both up. Where the screen is not a whole number of cells,
what is left over is background.

The colors belong to the cells, since a color that is set later does not change what is
drawn already. The margin has no cells, and `scroll_up` moves pixels and not cells: it
gives the last 16 rows of pixels the color that is the background then. So a background
other than the first one is asked for only where there is no margin (`Whole`).

The second half does for this console what `Console` does for the other: a text is laid
out on a sheet with no last row, and the screen has its last rows.
-/

set_option autoImplicit false

namespace OsU

/-- The rows of characters of a mode. -/
def ModeInfo.rows (m : ModeInfo) : Nat := m.height.toNat / 16

def ModeInfo.cols (m : ModeInfo) : Nat := m.width.toNat / 8

/-- The screen is a whole number of cells. -/
def ModeInfo.Whole (m : ModeInfo) : Prop := 8 * m.cols = m.width.toNat ∧ 16 * m.rows = m.height.toNat

instance (m : ModeInfo) : Decidable m.Whole := inferInstanceAs (Decidable (_ ∧ _))

/-- A character and its colors. -/
structure TextCell where
  char : UInt8
  fg : UInt32
  bg : UInt32
  deriving DecidableEq, Repr

/-- The cells, the cursor, and the colors in use. -/
structure TextScreen where
  grid : TextGrid TextCell
  fg : UInt32
  bg : UInt32

namespace TextScreen

variable (m : ModeInfo)

/-- A character in the colors in use. -/
def cellOf (c : UInt8) (t : TextScreen) : TextCell := ⟨c, t.fg, t.bg⟩

def blank (t : TextScreen) : TextCell := t.cellOf 0x20

/-- An empty screen, in the colors of `gfxcon_init`. -/
def start : TextScreen := ⟨.clear ⟨0x20, 0x00FF00, 0⟩, 0x00FF00, 0⟩

def newline (t : TextScreen) : TextScreen := { t with grid := t.grid.newline m.rows t.blank }

def goto (col : Nat) (t : TextScreen) : TextScreen :=
  { t with grid := t.grid.goto m.rows m.cols t.blank col }

/-- A character in the cell of the cursor. -/
def set (c : UInt8) (t : TextScreen) : TextScreen := { t with grid := t.grid.set (t.cellOf c) }

/-- One column back. -/
def back (t : TextScreen) : TextScreen := { t with grid := { t.grid with col := t.grid.col - 1 } }

def putc (c : UInt8) (t : TextScreen) : TextScreen :=
  if c = 0x0A then t.newline m
  else if c = 0x0D then t.goto m 0
  else if c = 0x09 then t.goto m ((t.grid.col + 8) / 8 * 8)
  else if c = 0x08 then if 0 < t.grid.col then t.back.set 0x20 else t
  else if 32 ≤ c ∧ c < 128 then (t.set c).goto m (t.grid.col + 1)
  else t

def step (t : TextScreen) : ConOp → TextScreen
  | .putc c => t.putc m c
  | .puts s => (s.takeWhile (· ≠ 0)).foldl (fun t c => t.putc m c) t
  | .clear => { t with grid := .clear t.blank }
  | .setFg color => { t with fg := color }
  | .setBg color => { t with bg := color }
  | .setCursor row col => { t with grid := { t.grid with
      row := min row.toNat (m.rows - 1)
      col := min col.toNat (m.cols - 1) } }

def run (ops : List ConOp) (t : TextScreen) : TextScreen := ops.foldl (step m) t

/-- The color of a pixel. -/
def pixel (t : TextScreen) (x y : Nat) : UInt32 :=
  if x / 8 < m.cols ∧ y / 16 < m.rows then
    let cell := t.grid.cell (y / 16) (x / 8)
    glyphColor cell.char cell.fg cell.bg (x % 8) (y % 16)
  else t.bg

end TextScreen

/-- The glyph of a blank has no foreground. -/
theorem glyphColor_blank (fg bg : UInt32) (col row : Nat) : glyphColor 0x20 fg bg col row = bg := by
  have hglyph : (font8x16.getD 0 []).getD row 0 = 0 := by
    change (List.replicate 16 0).getD row 0 = 0
    rw [List.getD_eq_getElem?_getD, List.getElem?_replicate]
    split <;> rfl
  change (if ((font8x16.getD 0 []).getD row 0 &&& _) ≠ 0 then fg else bg) = bg
  rw [hglyph, if_neg (by simp)]

/-- The frame buffer is the picture of the text screen. The counts and colors of the
driver are those of the text screen, and each pixel is the one its cell gives it. -/
structure Displays (m : ModeInfo) (g : Gfxcon) (t : TextScreen) : Prop where
  active : g.gfxActive = true
  frame : OnFrame m g.vesa
  cols : g.gfxCols = m.cols
  rows : g.gfxRows = m.rows
  row : g.cursorRow = t.grid.row
  col : g.cursorCol = t.grid.col
  inside : t.grid.Inside m.rows m.cols
  fg : g.fgColor = t.fg
  bg : g.bgColor = t.bg
  margin : m.Whole ∨ t.bg = 0
  pixels : ∀ x y, x < m.width.toNat → y < m.height.toNat →
    pixelAt (point x y) g.vesa = m.shown (t.pixel m x y)

section Steps

variable {m : ModeInfo} {g : Gfxcon} {t : TextScreen}

/-- The end of `gfxcon_putc`: a column behind the last goes to the next row, and then
the picture is scrolled as often as the cursor is below the last row. -/
def Gfxcon.settle (g : Gfxcon) : Gfxcon :=
  let g := if g.cursorCol ≥ g.gfxCols then
      { g with cursorCol := 0, cursorRow := g.cursorRow + 1 }
    else g
  g.scrollLoop (g.cursorRow - g.gfxRows + 1).toNat

/-- Only the cursor is moved. -/
theorem Displays.moved (h : Displays m g t) (row col : Nat) (hrow : row < m.rows)
    (hcol : col < m.cols) :
    Displays m { g with cursorRow := row, cursorCol := col }
      { t with grid := { t.grid with row := row, col := col } } :=
  { h with row := rfl, col := rfl, inside := ⟨hrow, hcol⟩ }

/-- The picture of a screen with a character in the cell of the cursor. -/
theorem TextScreen.pixel_set (h : t.grid.Inside m.rows m.cols) (c : UInt8) (x y : Nat) :
    (t.set c).pixel m x y =
      if x / 8 = t.grid.col ∧ y / 16 = t.grid.row then glyphColor c t.fg t.bg (x % 8) (y % 16)
      else t.pixel m x y := by
  unfold TextScreen.pixel TextScreen.set TextGrid.set
  dsimp only
  by_cases hat : x / 8 = t.grid.col ∧ y / 16 = t.grid.row
  · rw [if_pos hat, if_pos ⟨hat.1 ▸ h.col, hat.2 ▸ h.row⟩, if_pos hat.symm]
    rfl
  · have hnot : ¬ (y / 16 = t.grid.row ∧ x / 8 = t.grid.col) := fun hin => hat hin.symm
    simp only [if_neg hat, if_neg hnot]

/-- A character is drawn in the cell of the cursor. -/
theorem Displays.drawChar (h : Displays m g t) (hm : m.Roomy) (c : UInt8) :
    Displays m (g.drawChar c) (t.set c) := by
  have hrow := h.inside.row
  have hcol := h.inside.col
  unfold ModeInfo.rows at hrow
  unfold ModeInfo.cols at hcol
  obtain ⟨hframe, hpix⟩ := vesaPutChar_pixels hm h.frame t.grid.row t.grid.col
    (by omega) (by omega) c g.fgColor g.bgColor
  have hx : BitVec.ofInt 32 (g.cursorCol * 8) = BitVec.ofNat 32 (8 * t.grid.col) := by
    rw [h.col, Int.mul_comm]
    exact BitVec.ofInt_natCast 32 (8 * t.grid.col)
  have hy : BitVec.ofInt 32 (g.cursorRow * 16) = BitVec.ofNat 32 (16 * t.grid.row) := by
    rw [h.row, Int.mul_comm]
    exact BitVec.ofInt_natCast 32 (16 * t.grid.row)
  rw [Gfxcon.drawChar, hx, hy]
  refine { h with frame := hframe, inside := ⟨h.inside.row, h.inside.col⟩, pixels := ?_ }
  intro x y hx hy
  rw [hpix x y hx hy, h.pixels x y hx hy, TextScreen.pixel_set h.inside, h.fg, h.bg]
  split <;> rfl

/-- The picture of the screen with all rows moved up. -/
theorem TextScreen.pixel_scroll (x y : Nat) :
    { t with grid := t.grid.scroll m.rows t.blank }.pixel m x y =
      if y + 16 < m.height.toNat then t.pixel m x (y + 16) else t.bg := by
  have hblank : ∀ i j, glyphColor t.blank.char t.blank.fg t.blank.bg i j = t.bg := fun i j =>
    glyphColor_blank _ _ _ _
  have hnext : (y + 16) / 16 = y / 16 + 1 ∧ (y + 16) % 16 = y % 16 := by omega
  unfold TextScreen.pixel TextGrid.scroll
  rw [hnext.1, hnext.2]
  dsimp only
  by_cases hin : x / 8 < m.cols ∧ y / 16 < m.rows
  · rw [if_pos hin]
    by_cases hlast : y / 16 + 1 < m.rows
    · rw [if_pos hlast, if_pos (by unfold ModeInfo.rows at hlast; omega), if_pos ⟨hin.1, hlast⟩]
    · have hout : ¬ (x / 8 < m.cols ∧ y / 16 + 1 < m.rows) := fun h => hlast h.2
      simp only [if_neg hlast, hblank, if_neg hout, ite_self]
  · have hout : ¬ (x / 8 < m.cols ∧ y / 16 + 1 < m.rows) := fun h =>
      hin ⟨h.1, Nat.lt_of_succ_lt h.2⟩
    simp only [if_neg hin, if_neg hout, ite_self]

/-- **The end of a row**, with the cursor below the last row if it was on it. Then both
scroll, once. -/
theorem Displays.newline (h : Displays m g t) (hm : m.Roomy) (h16 : 16 ≤ m.height.toNat) :
    Displays m ({ g with cursorCol := 0, cursorRow := g.cursorRow + 1 }.scrollLoop
      (g.cursorRow + 1 - g.gfxRows + 1).toNat) (t.newline m) := by
  have hin := h.inside.newline t.blank
  have hrow := h.inside.row
  unfold TextScreen.newline
  by_cases hlast : t.grid.row + 1 < m.rows
  · have hgrid : t.grid.newline m.rows t.blank = { t.grid with row := t.grid.row + 1, col := 0 } :=
      if_pos hlast
    -- There is a row below: the loop that scrolls is not entered.
    have hn : (g.cursorRow + 1 - g.gfxRows + 1).toNat = 0 := by
      rw [h.row, h.rows]
      omega
    rw [hgrid] at hin
    rw [hn, Gfxcon.scrollLoop, hgrid, h.row]
    exact h.moved _ _ hin.row hin.col
  · have hgrid : t.grid.newline m.rows t.blank = { t.grid.scroll m.rows t.blank with col := 0 } :=
      if_neg hlast
    -- There is none: it is gone through once, which brings the cursor back to the last
    -- row.
    have hn : (g.cursorRow + 1 - g.gfxRows + 1).toNat = 1 := by
      rw [h.row, h.rows]
      omega
    obtain ⟨s', hs', hscroll⟩ := scrollUp_scrolled hm h16
      (g := { g with cursorCol := 0, cursorRow := g.cursorRow + 1 }) h.active h.frame
    have hge : g.cursorRow + 1 ≥ g.gfxRows := by
      rw [h.row, h.rows]
      omega
    have hback : g.cursorRow + 1 - 1 = t.grid.row := by
      rw [h.row]
      omega
    rw [hgrid] at hin
    rw [hn, Gfxcon.scrollLoop, if_pos hge, hs', Gfxcon.scrollLoop, hgrid]
    refine { h with frame := hscroll.frame, row := hback, col := rfl, inside := hin, pixels := ?_ }
    intro x y hx hy
    have hpix : ({ t with grid := { t.grid.scroll m.rows t.blank with col := 0 } } :
        TextScreen).pixel m x y = _ := t.pixel_scroll x y
    rw [hscroll.pixels x y hx hy, hpix]
    split
    · exact h.pixels x (y + 16) hx ‹_›
    · rw [← h.bg]

/-- The cursor goes to a column, or to the next row. -/
theorem Displays.goto (h : Displays m g t) (hm : m.Roomy) (h16 : 16 ≤ m.height.toNat) (col : Nat) :
    Displays m { g with cursorCol := col }.settle (t.goto m col) := by
  unfold TextScreen.goto TextGrid.goto Gfxcon.settle
  by_cases hlt : col < m.cols
  · have hin : ¬ (col : Int) ≥ g.gfxCols := by
      rw [h.cols]
      omega
    have hn : (g.cursorRow - g.gfxRows + 1).toNat = 0 := by
      have hrow := h.inside.row
      rw [h.row, h.rows]
      omega
    simp only [if_neg hin, if_pos hlt, hn, Gfxcon.scrollLoop]
    exact { h with col := rfl, inside := ⟨h.inside.row, hlt⟩ }
  · have hout : (col : Int) ≥ g.gfxCols := by
      rw [h.cols]
      omega
    simp only [if_pos hout, if_neg hlt]
    exact h.newline hm h16

theorem Displays.settle (h : Displays m g t) (hm : m.Roomy) (h16 : 16 ≤ m.height.toNat) :
    Displays m g.settle t := by
  have hgoto := h.goto hm h16 t.grid.col
  unfold TextScreen.goto TextGrid.goto at hgoto
  rw [if_pos h.inside.col, ← h.col] at hgoto
  exact hgoto

/-- **One character.** -/
theorem Displays.putc (h : Displays m g t) (hm : m.Roomy) (h16 : 16 ≤ m.height.toNat) (c : UInt8) :
    Displays m (gfxconPutc c g) (t.putc m c) := by
  have hcols : ¬ (0 : Int) ≥ g.gfxCols := by
    have hcol := h.inside.col
    rw [h.cols]
    omega
  -- What each kind of character does, and then the same for all: a row that is full is
  -- left, and a screen that is full is moved up.
  have hsettle : gfxconPutc c g = Gfxcon.settle
      (if c = 0x0A then { g with cursorCol := 0, cursorRow := g.cursorRow + 1 }
      else if c = 0x0D then { g with cursorCol := 0 }
      else if c = 0x09 then { g with cursorCol := (g.cursorCol + 8) / 8 * 8 }
      else if c = 0x08 then
        if g.cursorCol > 0 then { g with cursorCol := g.cursorCol - 1 }.drawChar 0x20 else g
      else if 32 ≤ c ∧ c < 128 then { g.drawChar c with cursorCol := g.cursorCol + 1 }
      else g) := by
    rw [gfxconPutc, if_neg (by simp [h.active])]
    rfl
  rw [hsettle]
  unfold TextScreen.putc
  split_ifs with hn hr ht hb hpos hpos' hpos' hprint
  · unfold Gfxcon.settle
    simp only [if_neg hcols]
    exact h.newline hm h16
  · exact h.goto hm h16 0
  · have htab : (g.cursorCol + 8) / 8 * 8 = ((t.grid.col + 8) / 8 * 8 : Nat) := by
      rw [h.col]
      omega
    rw [htab]
    exact h.goto hm h16 _
  · have hcol := h.inside.col
    have hback : g.cursorCol - 1 = (t.grid.col - 1 : Nat) := by
      rw [h.col]
      omega
    rw [hback]
    have hmoved := h.moved _ (t.grid.col - 1) h.inside.row (by omega)
    rw [← h.row] at hmoved
    exact (hmoved.drawChar hm 0x20).settle hm h16
  · rw [h.col] at hpos
    omega
  · rw [h.col] at hpos
    omega
  · exact h.settle hm h16
  · have hnext : g.cursorCol + 1 = (t.grid.col + 1 : Nat) := by
      rw [h.col]
      omega
    rw [hnext]
    exact (h.drawChar hm c).goto hm h16 _
  · exact h.settle hm h16

theorem Displays.puts (h : Displays m g t) (hm : m.Roomy) (h16 : 16 ≤ m.height.toNat)
    (cs : List UInt8) :
    Displays m (cs.foldl (fun g c => gfxconPutc c g) g) (cs.foldl (fun t c => t.putc m c) t) := by
  induction cs generalizing g t with
  | nil => exact h
  | cons c cs ih => exact ih (h.putc hm h16 c)

/-- The screen after `gfxcon_clear`, which may show anything before. -/
theorem displays_clear (hm : m.Roomy) (hrows : 0 < m.rows) (hcols : 0 < m.cols)
    (hactive : g.gfxActive = true) (hframe : OnFrame m g.vesa) (hgc : g.gfxCols = m.cols)
    (hgr : g.gfxRows = m.rows) (hfg : g.fgColor = t.fg) (hbg : g.bgColor = t.bg)
    (hmargin : m.Whole ∨ t.bg = 0) :
    Displays m (gfxconClear g) { t with grid := .clear t.blank } := by
  obtain ⟨hkeep, hpix⟩ := vesaClear_pixels hm hframe g.bgColor
  rw [gfxconClear, if_neg (by simp [hactive])]
  refine ⟨hactive, hkeep, hgc, hgr, rfl, rfl, ⟨hrows, hcols⟩, hfg, hbg, hmargin, ?_⟩
  intro x y hx hy
  have hblank : ∀ i j, glyphColor t.blank.char t.blank.fg t.blank.bg i j = t.bg := fun i j =>
    glyphColor_blank _ _ _ _
  rw [hpix x y hx hy, TextScreen.pixel, hbg]
  simp only [TextGrid.clear, hblank, ite_self]

theorem Displays.setBg (h : Displays m g t) {color : UInt32} (hc : m.Whole ∨ color = 0) :
    Displays m (gfxconSetBg color g) { t with bg := color } := by
  refine ⟨h.active, h.frame, h.cols, h.rows, h.row, h.col, h.inside, h.fg, rfl, hc, ?_⟩
  intro x y hx hy
  refine (h.pixels x y hx hy).trans (congrArg m.shown ?_)
  unfold TextScreen.pixel
  by_cases hin : x / 8 < m.cols ∧ y / 16 < m.rows
  · rw [if_pos hin, if_pos hin]
  · -- left over by the cells
    have hsome : ¬ m.Whole := by
      rintro ⟨hw, hh⟩
      exact hin (by omega)
    rw [if_neg hin, if_neg hin]
    exact (h.margin.resolve_left hsome).trans (hc.resolve_left hsome).symm

theorem Displays.setCursor (h : Displays m g t) (row col : Int) :
    Displays m (gfxconSetCursor row col g) (t.step m (.setCursor row col)) := by
  have hr := h.inside.row
  have hc := h.inside.col
  have hmoved := h.moved (min row.toNat (m.rows - 1)) (min col.toNat (m.cols - 1))
    (by omega) (by omega)
  have hclamp : ∀ (v : Int) (n : Nat), 0 < n →
      (if (if v < 0 then 0 else v) ≥ (n : Int) then (n : Int) - 1 else if v < 0 then 0 else v) =
        (min v.toNat (n - 1) : Nat) := by
    intro v n hn
    split_ifs <;> omega
  rw [← hclamp row m.rows (by omega), ← hclamp col m.cols (by omega), ← h.rows, ← h.cols] at hmoved
  exact hmoved

/-- **One call.** -/
theorem Displays.step (h : Displays m g t) (hm : m.Roomy) (h16 : 16 ≤ m.height.toNat) {op : ConOp}
    (hbg : ∀ color, op = .setBg color → m.Whole ∨ color = 0) :
    Displays m (op.step g) (t.step m op) := by
  cases op with
  | putc c => exact h.putc hm h16 c
  | puts cs => exact h.puts hm h16 _
  | clear =>
    exact displays_clear hm (Nat.zero_lt_of_lt h.inside.row) (Nat.zero_lt_of_lt h.inside.col)
      h.active h.frame h.cols h.rows h.fg h.bg h.margin
  | setFg color => exact { h with fg := rfl }
  | setBg color => exact h.setBg (hbg color rfl)
  | setCursor row col => exact h.setCursor row col

end Steps

/-- The console after `vesa_init` and `gfxcon_init`. -/
def ModeInfo.console (m : ModeInfo) (g : Gfxcon) : Gfxcon :=
  gfxconInit { g with vesa := vesaInit m g.vesa }

section Runs

variable {m : ModeInfo}

theorem displays_init (ha : m.Accepted) (hm : m.Roomy) (h8 : 8 ≤ m.width.toNat)
    (h16 : 16 ≤ m.height.toNat) (g : Gfxcon) : Displays m (m.console g) TextScreen.start := by
  obtain ⟨hfb, hw, hbpp⟩ := ha
  have hgo : ¬ (m.framebuffer = 0 ∨ m.width = 0 ∨ (m.bpp ≠ 24 ∧ m.bpp ≠ 32)) := by tauto
  rw [ModeInfo.console, vesaInit, if_neg hgo, gfxconInit, if_neg Bool.noConfusion]
  have hcols : (if m.width.toNat / 8 ≤ 0 then (100 : Int) else (m.width.toNat / 8 : Nat)) =
      m.cols := if_neg (by omega)
  have hrows : (if m.height.toNat / 16 ≤ 0 then (37 : Int) else (m.height.toNat / 16 : Nat)) =
      m.rows := if_neg (by omega)
  exact displays_clear (t := TextScreen.start) hm (by unfold ModeInfo.rows; omega)
    (by unfold ModeInfo.cols; omega) rfl ⟨rfl, rfl, rfl, rfl, rfl, rfl⟩ hcols hrows rfl rfl
    (Or.inr rfl)

theorem Displays.run {g : Gfxcon} {t : TextScreen} (h : Displays m g t) (hm : m.Roomy)
    (h16 : 16 ≤ m.height.toNat) {ops : List ConOp}
    (hbg : ∀ color, .setBg color ∈ ops → m.Whole ∨ color = 0) :
    Displays m (conRun ops g) (t.run m ops) := by
  induction ops generalizing g t with
  | nil => exact h
  | cons op ops ih =>
    refine ih (h.step hm h16 ?_) fun color hc => hbg color (List.mem_cons_of_mem _ hc)
    rintro color rfl
    exact hbg color List.mem_cons_self

/-- **The frame buffer is the picture of a screen of text.** Whatever is called after
the console is initialised, every pixel has the color that the text screen gives it, and
the cursor stays inside; where the screen is not a whole number of cells the background
must not be changed. The mode has room for one cell at least, and its rows for their
pixels. -/
theorem gfxcon_displays (ha : m.Accepted) (hm : m.Roomy) (h8 : 8 ≤ m.width.toNat)
    (h16 : 16 ≤ m.height.toNat) (g : Gfxcon) (ops : List ConOp)
    (hbg : ∀ color, .setBg color ∈ ops → m.Whole ∨ color = 0) :
    let g' := conRun ops (m.console g)
    let t := TextScreen.start.run m ops
    (∀ x y, x < m.width.toNat → y < m.height.toNat →
        vesaGetPixel (BitVec.ofNat 32 x) (BitVec.ofNat 32 y) g'.vesa = m.shown (t.pixel m x y)) ∧
      g'.cursorRow = t.grid.row ∧ g'.cursorCol = t.grid.col ∧ t.grid.Inside m.rows m.cols := by
  intro g' t
  have h : Displays m g' t := (displays_init ha hm h8 h16 g).run hm h16 hbg
  exact ⟨h.pixels, h.row, h.col, h.inside⟩

/-- The console of `smallMode` before `gfxcon_init`. -/
def Gfxcon.boot : Gfxcon := ⟨Vesa.boot, false, 0, 0, 0x00FF00, 0, 0, 0⟩

/-- A character that is rubbed out, and another in its place in a second color. -/
theorem gfxcon_displays_rubout :
    vesaGetPixel 11 2 (conRun [.putc 0x42, .putc 0x43, .putc 0x08, .setFg 0xFF0000, .putc 0x41]
      (smallMode.console Gfxcon.boot)).vesa = 0xFF0000 := by
  have h := gfxcon_displays (m := smallMode) (by decide) ⟨by decide, by decide⟩ (by decide)
    (by decide) Gfxcon.boot [.putc 0x42, .putc 0x43, .putc 0x08, .setFg 0xFF0000, .putc 0x41]
    (fun color hc => by simp at hc)
  exact (h.1 11 2 (by decide) (by decide)).trans (by decide)

/-! ## Text -/

/-- The layout of a character on rows of `cols` columns. -/
def layoutOn (cols : Nat) (c : UInt8) (s : Sheet UInt8) : Sheet UInt8 :=
  if c = 0x0A then s.newline else s.put cols c

/-- The text screen shows the end of a sheet of characters, in the colors in use. -/
structure TextScreen.Shows (m : ModeInfo) (t : TextScreen) (s : Sheet UInt8) : Prop where
  inside : t.grid.Inside m.rows m.cols
  tail : t.grid.Tail m.rows t.blank (s.map t.cellOf)

theorem TextScreen.Shows.putc {t : TextScreen} {s : Sheet UInt8} (h : t.Shows m s) {c : UInt8}
    (hc : c = 0x0A ∨ 32 ≤ c ∧ c < 128) :
    (t.putc m c).Shows m (layoutOn m.cols c s) ∧ (t.putc m c).cellOf = t.cellOf := by
  have hrows := Nat.zero_lt_of_lt h.inside.row
  by_cases hn : c = 0x0A
  · rw [TextScreen.putc, if_pos hn, layoutOn, if_pos hn]
    exact ⟨⟨h.inside.newline _, h.tail.newline hrows⟩, rfl⟩
  · obtain ⟨hlow, hhigh⟩ := hc.resolve_left hn
    have hne : ∀ k : UInt8, k < 32 → c ≠ k := by
      rintro k hk rfl
      exact absurd hk (UInt8.not_lt.mpr hlow)
    rw [TextScreen.putc, if_neg hn, if_neg (hne _ (by decide)), if_neg (hne _ (by decide)),
      if_neg (hne _ (by decide)), if_pos ⟨hlow, hhigh⟩, layoutOn, if_neg hn]
    have hcol : (s.map t.cellOf).col < m.cols := h.tail.col ▸ h.inside.col
    have hput := h.tail.put hrows hcol (t.cellOf c)
    rw [← Sheet.map_put] at hput
    exact ⟨⟨TextGrid.Inside.goto (g := t.grid.set _) ⟨h.inside.row, h.inside.col⟩ _ _, hput⟩, rfl⟩

theorem TextScreen.Shows.puts {t : TextScreen} {s : Sheet UInt8} (h : t.Shows m s) {cs : List UInt8}
    (hcs : ∀ c ∈ cs, c = 0x0A ∨ 32 ≤ c ∧ c < 128) :
    (cs.foldl (fun t c => t.putc m c) t).Shows m (cs.foldl (fun s c => layoutOn m.cols c s) s) ∧
      (cs.foldl (fun t c => t.putc m c) t).cellOf = t.cellOf := by
  induction cs generalizing t s with
  | nil => exact ⟨h, rfl⟩
  | cons c cs ih =>
    obtain ⟨hstep, hcell⟩ := h.putc (hcs c List.mem_cons_self)
    obtain ⟨hrest, hsame⟩ := ih hstep fun d hd => hcs d (List.mem_cons_of_mem c hd)
    exact ⟨hrest, hsame.trans hcell⟩

theorem TextScreen.Shows.pixel_eq {t : TextScreen} {s : Sheet UInt8} (h : t.Shows m s) {x y : Nat}
    (hx : x / 8 < m.cols) (hy : y / 16 < m.rows) :
    t.pixel m x y = glyphColor ((s.view m.rows (y / 16) (x / 8)).getD 0x20) t.fg t.bg (x % 8)
      (y % 16) := by
  have hcell : t.grid.cell (y / 16) (x / 8) =
      t.cellOf ((s.view m.rows (y / 16) (x / 8)).getD 0x20) := by
    refine (h.tail.cell _ hy _).trans ?_
    rw [Sheet.view_map, TextScreen.blank]
    cases s.view m.rows (y / 16) (x / 8) <;> rfl
  rw [TextScreen.pixel, if_pos ⟨hx, hy⟩, hcell, TextScreen.cellOf]

/-- **The graphics console shows the tail of the output.** After a text of printable characters
and line breaks the pixels are the glyphs of the last rows of its layout, green on black. -/
theorem gfxcon_tail (ha : m.Accepted) (hm : m.Roomy) (h8 : 8 ≤ m.width.toNat)
    (h16 : 16 ≤ m.height.toNat) (g : Gfxcon) (cs : List UInt8)
    (h : ∀ c ∈ cs, c = 0x0A ∨ 32 ≤ c ∧ c < 128) :
    let g' := gfxconPuts cs (m.console g)
    let s := cs.foldl (fun s c => layoutOn m.cols c s) Sheet.blank
    (∀ x y, x < 8 * m.cols → y < 16 * m.rows →
        vesaGetPixel (BitVec.ofNat 32 x) (BitVec.ofNat 32 y) g'.vesa =
          m.shown (glyphColor ((s.view m.rows (y / 16) (x / 8)).getD 0x20) 0x00FF00 0 (x % 8)
            (y % 16))) ∧
      g'.cursorRow = (min s.row (m.rows - 1) : Nat) ∧ g'.cursorCol = s.col := by
  intro g' s
  have hinit := displays_init ha hm h8 h16 g
  -- None of the characters is the zero at which `gfxcon_puts` stops.
  have hzero : cs.takeWhile (· ≠ 0) = cs := by
    have hne : ∀ c ∈ cs, decide (c ≠ 0) = true := by
      intro c hc
      refine decide_eq_true ?_
      rintro rfl
      rcases h 0 hc with h0 | ⟨hlow, -⟩
      · exact absurd h0 (by decide)
      · exact absurd hlow (by decide)
    have happ : (cs ++ []).takeWhile (· ≠ 0) = cs ++ ([] : List UInt8).takeWhile (· ≠ 0) :=
      List.takeWhile_append_of_pos hne
    rwa [List.takeWhile_nil, List.append_nil] at happ
  have hdisp := hinit.puts hm h16 (cs.takeWhile (· ≠ 0))
  rw [hzero] at hdisp
  -- The driver shows the text screen (`gfxcon_displays`), and the text screen the last
  -- rows of the sheet.
  have hstart : TextScreen.start.Shows m Sheet.blank :=
    ⟨hinit.inside, TextGrid.Tail.clear m.rows TextScreen.start.blank⟩
  obtain ⟨hshows, hcell⟩ := hstart.puts h
  have hfg : (cs.foldl (fun t c => t.putc m c) TextScreen.start).fg = 0x00FF00 :=
    congrArg (fun f => (f 0).fg) hcell
  have hbg : (cs.foldl (fun t c => t.putc m c) TextScreen.start).bg = 0 :=
    congrArg (fun f => (f 0).bg) hcell
  have hputs : gfxconPuts cs (m.console g) = cs.foldl (fun g c => gfxconPutc c g) (m.console g) := by
    rw [gfxconPuts, hzero]
  rw [← hputs] at hdisp
  refine ⟨fun x y hx hy => ?_, ?_, ?_⟩
  · have hxc : x / 8 < m.cols := by omega
    have hyr : y / 16 < m.rows := by omega
    have hxw : x < m.width.toNat := by
      unfold ModeInfo.cols at hx
      omega
    have hyh : y < m.height.toNat := by
      unfold ModeInfo.rows at hy
      omega
    refine (hdisp.pixels x y hxw hyh).trans (congrArg m.shown ?_)
    rw [hshows.pixel_eq hxc hyr, hfg, hbg]
  · rw [hdisp.row, hshows.tail.row]
    rfl
  · rw [hdisp.col, hshows.tail.col]
    rfl

/-- Four lines on a screen that has room for three. -/
theorem gfxcon_tail_four :
    vesaGetPixel 3 34 (gfxconPuts [0x42, 0x0A, 0x43, 0x0A, 0x44, 0x0A, 0x41]
      (smallMode.console Gfxcon.boot)).vesa = 0x00FF00 := by
  have h := gfxcon_tail (m := smallMode) (by decide) ⟨by decide, by decide⟩ (by decide) (by decide)
    Gfxcon.boot [0x42, 0x0A, 0x43, 0x0A, 0x44, 0x0A, 0x41] (by decide +kernel)
  exact (h.1 3 34 (by decide) (by decide)).trans (by decide)

end Runs

end OsU
