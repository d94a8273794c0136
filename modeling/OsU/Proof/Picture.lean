import Mathlib.Data.List.TakeWhile
import OsU.Proof.DoubleBuffer
import OsU.Proof.LineDraw
import OsU.Proof.Terminal

/-!
# The picture of the desktop

The background is a line in every row of the screen, so what it is drawn over makes no
difference: the calls of a frame make one picture (`frame_pixel`). And they are the
calls that the terminal, the window and the pointer stand for, whatever else the buffers
hold (`deskCalls_eq`).

Both say that a picture depends on less than the state does. The first compares two
drivers with different bytes on the screen, by the set of points on which they agree
already (`SamePixels`): a pixel that is set joins the set, and a background adds a row
at a time until it has every point. The second compares two states of the desktop that
show the same terminal, whose buffers may differ behind the text that counts.
-/

set_option autoImplicit false

namespace OsU

open ByteMem CString

/-! ## Pixels that agree -/

/-- Two drivers on whose screens the points of `A` are the same. -/
structure SamePixels (m : ModeInfo) (A : BitVec 32 × BitVec 32 → Prop) (s t : Vesa) : Prop where
  left : OnFrame m s
  right : OnFrame m t
  pixel : ∀ p, A p → pixelAt p s = pixelAt p t

section SamePixels

variable {m : ModeInfo} {A B : BitVec 32 × BitVec 32 → Prop} {s t : Vesa}

theorem SamePixels.mono (h : SamePixels m A s t) (hB : ∀ p, m.OnScreen p → B p → A p) :
    SamePixels m B s t where
  left := h.left
  right := h.right
  pixel p hp := by
    by_cases hon : m.OnScreen p
    · exact h.pixel p (hB p hon hp)
    · rw [h.left.pixelAt_off hon, h.right.pixelAt_off hon]

/-- A pixel that is set is the same. -/
theorem SamePixels.putPixel (h : SamePixels m A s t) (hm : m.Roomy) (p : BitVec 32 × BitVec 32)
    (color : UInt32) :
    SamePixels m (fun q => A q ∨ q = p) (vesaPutPixel p.1 p.2 color s)
      (vesaPutPixel p.1 p.2 color t) := by
  have hpaints := putPixel_paints hm p color
  have hset : SamePixels m (fun q => m.OnScreen q ∧ q = p ∨ A q) (vesaPutPixel p.1 p.2 color s)
      (vesaPutPixel p.1 p.2 color t) := by
    refine ⟨hpaints.keeps s h.left, hpaints.keeps t h.right, fun q hq => ?_⟩
    by_cases hin : m.OnScreen q ∧ q = p
    · rw [hpaints.inside s q h.left hin, hpaints.inside t q h.right hin]
    · rw [hpaints.outside s q h.left hin, hpaints.outside t q h.right hin]
      exact h.pixel q (hq.resolve_left hin)
  refine hset.mono fun q hon hq => ?_
  cases hq with
  | inl hA => exact .inr hA
  | inr heq => exact .inl ⟨hon, heq⟩

theorem steers_same (hm : m.Roomy) : Steers (SamePixels m A) where
  on _ _ h := ⟨h.left.enabled, h.right.enabled⟩
  putPixel x y color _ _ h := (h.putPixel hm (x, y) color).mono fun _ _ hA => .inl hA

theorem SamePixels.plot (h : SamePixels m A s t) (hm : m.Roomy) (color : UInt32)
    (l : List (Int × Int)) :
    SamePixels m (fun q => A q ∨ ∃ p ∈ l, q = (.ofInt 32 p.1, .ofInt 32 p.2)) (plot color l s)
      (plot color l t) := by
  induction l generalizing A s t with
  | nil =>
    refine h.mono fun q _ hq => ?_
    refine hq.resolve_right ?_
    rintro ⟨p, hp, -⟩
    exact List.not_mem_nil hp
  | cons p l ih =>
    refine (ih (h.putPixel hm (.ofInt 32 p.1, .ofInt 32 p.2) color)).mono fun q _ hq => ?_
    rcases hq with hA | ⟨r, hr, heq⟩
    · exact .inl (.inl hA)
    · rcases List.mem_cons.mp hr with rfl | hr
      · exact .inl (.inr heq)
      · exact .inr ⟨r, hr, heq⟩

end SamePixels

/-! ## The background -/

/-- A line call plots the points of its line. -/
theorem lineCall_plots {x0 y0 x1 y1 : Int} (h : Near x0 y0 x1 y1) (color : UInt32) :
    ∃ l, DrawnLine x0 y0 x1 y1 l ∧ ∀ s,
      (lineCall (.ofInt 32 x0) (.ofInt 32 y0) (.ofInt 32 x1) (.ofInt 32 y1) color).step s =
        plot color l s := by
  have hfit : ∀ v : Int, |v| < 2 ^ 28 → (BitVec.ofInt 32 v).toInt = v := fun v hv =>
    (fitsInt_of_abs_lt (hv.trans (by norm_num))).toInt
  obtain ⟨n, l, htrace, hline⟩ := drawTrace_line h
  refine ⟨l, hline, fun s => ?_⟩
  rw [drawTrace_eq h] at htrace
  have hdone := lineTrace_mono htrace hline.length.le
  rw [← drawTrace_eq h] at hdone
  rw [lineCall, hfit x0 h.x0, hfit y0 h.y0, hfit x1 h.x1, hfit y1 h.y1]
  exact vesaDrawLine_trace h hdone color s

/-- A level line to the right goes through every point of its row. It has as many points
as the row has columns, and each step goes one to the right. -/
theorem DrawnLine.level {x1 y : Int} (hx : 0 ≤ x1) {l : List (Int × Int)}
    (h : DrawnLine 0 y x1 y l) {k : Nat} (hk : k ≤ x1) : ((k : Int), y) ∈ l := by
  have haxis := h.wide (by simp)
  have hlen : l.length = x1.toNat + 1 := by
    rw [h.length]
    omega
  -- each point of the line is one to the right of the one before, in the same row
  have hget : ∀ k : Nat, k < l.length → l[k]? = some ((k : Int), y) := by
    intro k
    induction k with
    | zero =>
      intro _
      rw [← List.head?_eq_getElem?]
      exact h.first
    | succ k ih =>
      intro hlt
      have hnext := List.getElem?_eq_getElem hlt
      obtain ⟨hq, hq'⟩ := haxis.step k _ _ (ih (Nat.lt_of_succ_lt hlt)) hnext
      have hsign : (x1 - 0).sign = 1 := Int.sign_eq_one_of_pos (by omega)
      rw [hsign] at hq
      rw [sub_self, Int.sign_zero, add_zero, or_self] at hq'
      rw [hnext, ← Prod.mk.eta (p := l[k + 1]), hq, hq', Nat.cast_succ]
  exact List.mem_of_getElem? (hget k (by omega))

section Background

variable {m : ModeInfo} {A : BitVec 32 × BitVec 32 → Prop} {s t v : Vesa}

/-- One row of the background. -/
theorem SamePixels.row (h : SamePixels m A s t) (hm : m.Roomy) (hpos : 0 < m.width.toNat) {y : Nat}
    (hy : y < 2 ^ 16) (color : UInt32) :
    SamePixels m (fun q => A q ∨ q.1.toNat < m.width.toNat ∧ q.2 = .ofNat 32 y)
      ((lineCall 0 (.ofNat 32 y) (.ofNat 32 m.width.toNat - 1) (.ofNat 32 y) color).step s)
      ((lineCall 0 (.ofNat 32 y) (.ofNat 32 m.width.toNat - 1) (.ofNat 32 y) color).step t) := by
  have hlt := m.width.toNat_lt
  have hright : BitVec.ofNat 32 m.width.toNat - 1 = .ofInt 32 (m.width.toNat - 1 : Int) := by
    rw [ofInt_sub]
    rfl
  have hrow : BitVec.ofNat 32 y = .ofInt 32 (y : Int) := rfl
  have hnear : Near (0 : Int) y (m.width.toNat - 1) y :=
    ⟨by norm_num, by rw [Nat.abs_cast]; omega, by rw [abs_of_nonneg] <;> omega,
      by rw [Nat.abs_cast]; omega⟩
  obtain ⟨l, hline, hplot⟩ := lineCall_plots hnear color
  have hzero : (0 : BitVec 32) = .ofInt 32 0 := rfl
  rw [hzero, hright, hrow, hplot, hplot]
  refine (h.plot hm color l).mono fun q _ hq => ?_
  rcases hq with hA | ⟨hx, hqy⟩
  · exact .inl hA
  · refine .inr ⟨_, hline.level (by omega) (k := q.1.toNat) (by omega), ?_⟩
    have hqx : BitVec.ofInt 32 (q.1.toNat : Int) = q.1 := by
      simp
    exact Prod.ext hqx.symm hqy

/-- The rows of the background, as far as they are drawn. -/
theorem SamePixels.rows (h : SamePixels m A s t) (hm : m.Roomy) (hpos : 0 < m.width.toNat)
    (hw : v.width = m.width) {n : Nat} (hn : n ≤ 2 ^ 16) :
    SamePixels m (fun q => A q ∨ q.1.toNat < m.width.toNat ∧ q.2.toNat < n)
      (drawRun ((List.range n).map fun y => lineCall 0 (.ofNat 32 y) (.ofNat 32 v.width.toNat - 1)
        (.ofNat 32 y) (backgroundColor v y)) s)
      (drawRun ((List.range n).map fun y => lineCall 0 (.ofNat 32 y) (.ofNat 32 v.width.toNat - 1)
        (.ofNat 32 y) (backgroundColor v y)) t) := by
  induction n with
  | zero =>
    refine h.mono fun q _ hq => ?_
    exact hq.resolve_right fun hrow => Nat.not_lt_zero _ hrow.2
  | succ n ih =>
    have hrow := (ih (by omega)).row hm hpos (y := n) (by omega) (backgroundColor v n)
    simp only [drawRun, List.range_succ, List.map_append, List.map_singleton, List.foldl_append,
      List.foldl_cons, List.foldl_nil, hw] at hrow ⊢
    refine hrow.mono fun q _ hq => ?_
    rcases hq with hA | ⟨hx, hy⟩
    · exact .inl (.inl hA)
    · rcases Nat.lt_succ_iff_lt_or_eq.mp hy with hlt | heq
      · exact .inl (.inr ⟨hx, hlt⟩)
      · exact .inr ⟨hx, BitVec.eq_of_toNat_eq (by simp; omega)⟩

/-- **The background covers the screen.** -/
theorem same_background (hm : m.Roomy) (hpos : 0 < m.width.toNat) (hw : v.width = m.width)
    (hh : v.height = m.height) (hs : OnFrame m s) (ht : OnFrame m t) :
    SamePixels m (fun _ => True) (drawRun (drawBackground v) s) (drawRun (drawBackground v) t) := by
  have hlt := m.height.toNat_lt
  have hstart : SamePixels m (fun _ => False) s t := ⟨hs, ht, fun _ hq => hq.elim⟩
  have hrows := hstart.rows hm hpos hw (n := v.height.toNat) (by rw [hh]; omega)
  refine hrows.mono fun q hon _ => ?_
  rw [hh]
  exact .inr hon.toNat

end Background

/-! ## A frame -/

/-- The calls of a frame. -/
def deskCalls (v : Vesa) (ticks : BitVec 32) (g : Gui) : List DrawOp :=
  drawBackground v ++ drawForeground v ticks g

theorem putStringFrom_plain (x : BitVec 32) (fg bg color : UInt32) (cx y : BitVec 32)
    (s : List UInt8) : .clear color ∉ putStringFrom x fg bg cx y s := by
  induction s generalizing cx y with
  | nil => exact List.not_mem_nil
  | cons c s ih =>
    rw [putStringFrom]
    split
    · exact ih _ _
    · simp [ih]

/-- No frame is begun by clearing the screen. -/
theorem foreground_plain (v : Vesa) (ticks : BitVec 32) (g : Gui) (color : UInt32) :
    .clear color ∉ drawForeground v ticks g := by
  have hstring : ∀ x y (s : List UInt8) fg bg, .clear color ∉ vesaPutString x y s fg bg :=
    fun x y s fg bg => putStringFrom_plain x fg bg color x y s
  have hlast : .clear color ∉ drawLastKey g := by
    rw [drawLastKey]
    split
    · exact List.not_mem_nil
    · exact hstring _ _ _ _ _
  simp [drawForeground, drawTaskbar, drawWindow, windowCalls, drawCursor, vesaDrawRect, lineCall,
    hstring, hlast]

section Frame

variable {m : ModeInfo} {s t v : Vesa}

/-- **A frame is one picture**, whatever it is drawn over: the background covers the
screen, and the calls behind it only set pixels. -/
theorem frame_pixel (hm : m.Roomy) (hpos : 0 < m.width.toNat) (hw : v.width = m.width)
    (hh : v.height = m.height) (hs : OnFrame m s) (ht : OnFrame m t) (ticks : BitVec 32) (g : Gui)
    (p : BitVec 32 × BitVec 32) :
    pixelAt p (drawRun (deskCalls v ticks g) s) = pixelAt p (drawRun (deskCalls v ticks g) t) := by
  -- behind the background the two screens are the same, and they stay so
  have hback := same_background hm hpos hw hh hs ht
  have hfront := (steers_same hm).drawRun (drawForeground v ticks g)
    (fun color hmem => absurd hmem (foreground_plain v ticks g color)) _ _ hback
  rw [deskCalls, drawRun, drawRun, List.foldl_append, List.foldl_append]
  exact hfront.pixel p trivial

end Frame

/-! ## What is in it -/

namespace Terminal

/-- The window with the terminal in it. Six of its rows are drawn, the oldest ones. -/
def window (win : GuiWindow) (t : Terminal) : List DrawOp :=
  windowCalls win (t.rows.take 6).length (fun i => t.rows.getD i []) (ascii "> " ++ t.edit)

/-- The last key, in the corner of the window. -/
def keyName (win : GuiWindow) (t : Terminal) : List DrawOp :=
  vesaPutString (win.x + winPad).toBitVec (win.y + win.h - 20).toBitVec t.lastKey 0xFFFF00
    (vesaRgb 30 30 40)

/-- The calls that draw the desktop: the background, the task bar, the window and the
pointer, in this order, so that the window lies over the task bar and the pointer over
all. -/
def desktop (v : Vesa) (ticks : BitVec 32) (win : GuiWindow) (x y : Int32) (t : Terminal) :
    List DrawOp :=
  drawBackground v ++ (drawTaskbar v ticks ++ t.window win ++ t.keyName win ++
    drawCursor x.toBitVec y.toBitVec)

end Terminal

section Calls

variable {g : Gui} {t : Terminal}

/-- The window shows the lines it is given. -/
theorem windowCalls_congr {win : GuiWindow} {n : Nat} {line line' : Nat → List UInt8}
    {prompt : List UInt8} (h : ∀ i < n, line i = line' i) :
    windowCalls win n line prompt = windowCalls win n line' prompt := by
  have hlines : ∀ call : Nat → List UInt8 → List DrawOp,
      (List.range n).flatMap (fun i => call i (line i)) =
        (List.range n).flatMap fun i => call i (line' i) :=
    fun call => List.flatMap_congr fun i hi => by rw [h i (List.mem_range.mp hi)]
  exact congrArg (fun calls => _ ++ calls ++ _) (hlines _)

theorem GuiShows.promptText_eq (h : GuiShows g t) : promptText g = ascii "> " ++ t.edit := by
  have hlen : g.inputLen = t.edit.length := by rw [← h.edit, length_toList]
  have hroom := h.room
  rw [promptText, Nat.min_eq_left (by omega), h.edit]
  have hprompt : ∀ b ∈ ascii "> ", decide (b ≠ 0) = true := forall_mem_of_all (by decide)
  refine List.takeWhile_eq_self_iff.mpr ?_
  intro b hb
  rcases List.mem_append.mp hb with hb | hb
  · exact hprompt b hb
  · exact decide_eq_true (ne_zero_of_printable (h.printable b hb))

theorem GuiShows.drawLastKey_eq (h : GuiShows g t) : drawLastKey g = t.keyName g.mainWin := by
  rw [drawLastKey, Terminal.keyName, h.lastKey.text_eq (by decide)]
  split
  · rename_i hzero
    have hnil : t.lastKey = [] := by
      cases hk : t.lastKey with
      | nil => rfl
      | cons b s =>
        have hkey := h.lastKey
        rw [hk] at hkey
        have hb : g.lastKey 0 = b := hkey.chars 0 b rfl
        exact absurd (hb.symm.trans hzero) (hkey.nonzero b List.mem_cons_self)
    rw [hnil]
    rfl
  · rfl

/-- **The calls of a frame are those of the terminal.** -/
theorem GuiShows.deskCalls_eq (h : GuiShows g t) (v : Vesa) (ticks : BitVec 32) :
    deskCalls v ticks g = t.desktop v ticks g.mainWin g.ms.x g.ms.y := by
  have hlen := t.length_rows
  have hcount : min g.logCount 6 = (t.rows.take 6).length := by
    rw [h.count, List.length_take, hlen]
    exact Nat.min_comm _ _
  have hrow : ∀ i < (t.rows.take 6).length, (g.logLines i).text 64 = t.rows.getD i [] := by
    intro i hi
    have hlt : i < t.rows.length := by
      rw [List.length_take] at hi
      omega
    have hget := List.getElem?_eq_getElem hlt
    rw [(h.rows i _ hget).text_eq (by decide), List.getD_eq_getElem?_getD, hget]
    rfl
  have hwindow : drawWindow g = t.window g.mainWin := by
    rw [drawWindow, Terminal.window, hcount, h.promptText_eq]
    exact windowCalls_congr hrow
  rw [deskCalls, Terminal.desktop, drawForeground, hwindow, h.drawLastKey_eq]

end Calls

end OsU
