import OsU.Kernel.Gui
import OsU.Proof.Pointer

/-!
# The window on the desktop

The window follows the pointer while the left button is down, as far as the desktop
goes: it keeps on the screen and above the task bar, and the pointer keeps its place in
the title bar unless the edge of the desktop holds the window back.

`gui_run` subtracts where the title bar was hit from where the pointer is, and then
moves the window back inside with two tests on each axis. `toInt_slide` says that those
tests are the nearest place on the desktop, and that nothing in between leaves the range
of an `int`. They are in an order that matters: the test against the far edge comes
last, so on a screen smaller than the window it would be pushed out at the near one.
`ModeInfo.Spacious` keeps that from happening, and lets the window come up where
`gui_run` puts it.
-/

set_option autoImplicit false

namespace OsU

/-- A screen with room for the window where it comes up. -/
structure ModeInfo.Spacious (m : ModeInfo) : Prop where
  width : 600 ≤ m.width.toNat
  height : 324 ≤ m.height.toNat

/-- The window is on the screen, above the task bar, with all of its 520 by 240 points.
Its size never changes, so the place is all there is to it. -/
structure OnDesktop (m : ModeInfo) (win : GuiWindow) : Prop where
  w : win.w = 520
  h : win.h = 240
  x : 0 ≤ win.x.toInt ∧ win.x.toInt + 520 ≤ m.width.toNat
  y : 0 ≤ win.y.toInt ∧ win.y.toInt + 240 + 24 ≤ m.height.toNat

/-- The coordinates are of a point of the screen. -/
def PointsAt (m : ModeInfo) (x y : Int32) : Prop :=
  (0 ≤ x.toInt ∧ x.toInt < m.width.toNat) ∧ 0 ≤ y.toInt ∧ y.toInt < m.height.toNat

/-- The pointer holds the window by its title bar: the window is where the pointer has
it, or at the edge of the desktop that is nearest. The offsets are those at which the
title bar was hit, 520 points wide and 18 high. -/
structure Grip (m : ModeInfo) (g : Gui) : Prop where
  button : leftButton g.ms.buttons = true
  offX : 0 ≤ g.mainWin.dragOffX.toInt ∧ g.mainWin.dragOffX.toInt < 520
  offY : 0 ≤ g.mainWin.dragOffY.toInt ∧ g.mainWin.dragOffY.toInt < 18
  x : g.mainWin.x.toInt =
    clampTo (m.width.toNat - 519) (g.ms.x.toInt - g.mainWin.dragOffX.toInt)
  y : g.mainWin.y.toInt =
    clampTo (m.height.toNat - 263) (g.ms.y.toInt - g.mainWin.dragOffY.toInt)

/-- What holds of the window and the pointer. It is asked for the copy of the mouse's
state that `gui_run` works with, not for the driver's own. -/
structure WindowOk (m : ModeInfo) (g : Gui) : Prop where
  desk : OnDesktop m g.mainWin
  pointer : PointsAt m g.ms.x g.ms.y
  grip : g.mainWin.dragging = true → Grip m g

/-! ## Sums that fit -/

theorem toInt32_ofInt {v : Int} (h : -2 ^ 31 ≤ v) (h' : v < 2 ^ 31) :
    (Int32.ofInt v).toInt = v := by
  rw [Int32.toInt_ofInt]
  exact Int.bmod_eq_of_le (by simpa using h) (by simpa using h')

theorem toInt32_add {a b : Int32} (h : -2 ^ 31 ≤ a.toInt + b.toInt)
    (h' : a.toInt + b.toInt < 2 ^ 31) : (a + b).toInt = a.toInt + b.toInt := by
  rw [Int32.toInt_add]
  exact Int.bmod_eq_of_le (by simpa using h) (by simpa using h')

theorem toInt32_sub {a b : Int32} (h : -2 ^ 31 ≤ a.toInt - b.toInt)
    (h' : a.toInt - b.toInt < 2 ^ 31) : (a - b).toInt = a.toInt - b.toInt := by
  rw [Int32.toInt_sub]
  exact Int.bmod_eq_of_le (by simpa using h) (by simpa using h')

section Screen

variable {m : ModeInfo} {s : Vesa}

theorem toInt_widthInt (hw : s.width = m.width) : s.widthInt.toInt = m.width.toNat := by
  have hlt := m.width.toNat_lt
  rw [Vesa.widthInt, hw]
  exact toInt32_ofInt (by omega) (by omega)

theorem toInt_heightInt (hh : s.height = m.height) : s.heightInt.toInt = m.height.toNat := by
  have hlt := m.height.toNat_lt
  rw [Vesa.heightInt, hh]
  exact toInt32_ofInt (by omega) (by omega)

theorem toInt_barTop (hh : s.height = m.height) :
    (s.heightInt - guiBarH).toInt = m.height.toNat - 24 := by
  have hlt := m.height.toNat_lt
  have hheight := toInt_heightInt hh
  have hbar : guiBarH.toInt = 24 := rfl
  rw [toInt32_sub (by omega) (by omega), hheight, hbar]

end Screen

/-! ## A drag

One axis at a time: the two tests of `gui_run` keep the side of the window between 0 and
the limit, and if neither of them strikes the window goes where the pointer has it. -/

/-- One axis of the drag: the two tests of `gui_run`, for a side of length `w` on a desktop of size
`limit`. -/
theorem toInt_slide {v off w limit : Int32} {l n : Nat} (hv : 0 ≤ v.toInt ∧ v.toInt < 2 ^ 16)
    (hoff : 0 ≤ off.toInt ∧ off.toInt < 2 ^ 16) (hw : w.toInt = n) (hlimit : limit.toInt = l)
    (hn : n ≤ l) (hl : l < 2 ^ 16) :
    (if (if v - off < 0 then 0 else v - off) + w > limit then limit - w
      else if v - off < 0 then 0 else v - off).toInt =
        clampTo (l - n + 1) (v.toInt - off.toInt) := by
  have hsub := toInt32_sub (a := v) (b := off) (by omega) (by omega)
  have hzero : (0 : Int32).toInt = 0 := rfl
  have hleft : (if v - off < 0 then 0 else v - off).toInt = max 0 (v.toInt - off.toInt) := by
    simp only [Int32.lt_iff_toInt_lt, hsub, hzero]
    split <;> omega
  have hsum : ((if v - off < 0 then 0 else v - off) + w).toInt =
      max 0 (v.toInt - off.toInt) + n := by
    rw [toInt32_add (by omega) (by omega), hleft, hw]
  have hright := toInt32_sub (a := limit) (b := w) (by omega) (by omega)
  generalize (if v - off < 0 then 0 else v - off) = x at hleft hsum ⊢
  rw [clampTo]
  split
  · rename_i hover
    have hlt := Int32.lt_iff_toInt_lt.mp hover
    omega
  · rename_i hfits
    have hle : ¬ limit.toInt < (x + w).toInt := fun hlt => hfits (Int32.lt_iff_toInt_lt.mpr hlt)
    omega

section Poll

variable {m : ModeInfo} {s : Vesa} {g : Gui}

/-- A window that is not dragged stays. -/
theorem guiMove_idle (h : g.mainWin.dragging = false) : guiMove s g = g := if_pos h

/-- A window that is dragged goes where the pointer has it. -/
theorem guiMove_grip (hw : s.width = m.width) (hh : s.height = m.height) (hm : m.Spacious)
    (hdesk : OnDesktop m g.mainWin) (hp : PointsAt m g.ms.x g.ms.y)
    (hdrag : g.mainWin.dragging = true) (hbutton : leftButton g.ms.buttons = true)
    (hx : 0 ≤ g.mainWin.dragOffX.toInt ∧ g.mainWin.dragOffX.toInt < 520)
    (hy : 0 ≤ g.mainWin.dragOffY.toInt ∧ g.mainWin.dragOffY.toInt < 18) :
    OnDesktop m (guiMove s g).mainWin ∧ (guiMove s g).ms = g.ms ∧ Grip m (guiMove s g) := by
  obtain ⟨hwide, hhigh⟩ := hm
  have hw' := m.width.toNat_lt
  have hh' := m.height.toNat_lt
  have hwinW : g.mainWin.w.toInt = (520 : Nat) := by
    rw [hdesk.w]
    rfl
  have hwinH : g.mainWin.h.toInt = (240 : Nat) := by
    rw [hdesk.h]
    rfl
  have hbar : (s.heightInt - guiBarH).toInt = (m.height.toNat - 24 : Nat) := by
    rw [toInt_barTop hh]
    omega
  obtain ⟨⟨hpx, hpx'⟩, hpy, hpy'⟩ := hp
  have hxs := toInt_slide (v := g.ms.x) ⟨hpx, by omega⟩
    (show 0 ≤ g.mainWin.dragOffX.toInt ∧ _ from ⟨hx.1, by omega⟩) hwinW (toInt_widthInt hw)
    (by omega) (by omega)
  have hys := toInt_slide (v := g.ms.y) ⟨hpy, by omega⟩
    (show 0 ≤ g.mainWin.dragOffY.toInt ∧ _ from ⟨hy.1, by omega⟩) hwinH hbar (by omega)
    (by omega)
  -- `guiMove` sets the two coordinates one after the other; both are what `toInt_slide`
  -- speaks of.
  have hmove : guiMove s g = { g with mainWin := { g.mainWin with
      x := if (if g.ms.x - g.mainWin.dragOffX < 0 then 0 else g.ms.x - g.mainWin.dragOffX) +
          g.mainWin.w > s.widthInt then s.widthInt - g.mainWin.w
        else if g.ms.x - g.mainWin.dragOffX < 0 then 0 else g.ms.x - g.mainWin.dragOffX
      y := if (if g.ms.y - g.mainWin.dragOffY < 0 then 0 else g.ms.y - g.mainWin.dragOffY) +
          g.mainWin.h > s.heightInt - guiBarH then s.heightInt - guiBarH - g.mainWin.h
        else if g.ms.y - g.mainWin.dragOffY < 0 then 0 else g.ms.y - g.mainWin.dragOffY } } := by
    rw [guiMove]
    exact if_neg (by simp [hdrag])
  rw [hmove]
  have hxeq : (((m.width.toNat : Nat) : Int) - ((520 : Nat) : Int) + 1) = m.width.toNat - 519 := by
    omega
  have hyeq : (((m.height.toNat - 24 : Nat) : Int) - ((240 : Nat) : Int) + 1) =
      m.height.toNat - 263 := by omega
  rw [hxeq] at hxs
  rw [hyeq] at hys
  refine ⟨⟨hdesk.w, hdesk.h, ?_, ?_⟩, rfl, ⟨hbutton, hx, hy, hxs, hys⟩⟩
  · have hmem := clampTo_mem (show (0 : Int) < m.width.toNat - 519 by omega)
      (g.ms.x.toInt - g.mainWin.dragOffX.toInt)
    dsimp only
    omega
  · have hmem := clampTo_mem (show (0 : Int) < m.height.toNat - 263 by omega)
      (g.ms.y.toInt - g.mainWin.dragOffY.toInt)
    dsimp only
    omega

/-- Where the title bar is hit. -/
theorem inTitle_offsets (hdesk : OnDesktop m g.mainWin) (hp : PointsAt m g.ms.x g.ms.y)
    (h : g.mainWin.inTitle g.ms.x g.ms.y = true) :
    (0 ≤ (g.ms.x - g.mainWin.x).toInt ∧ (g.ms.x - g.mainWin.x).toInt < 520) ∧
      0 ≤ (g.ms.y - g.mainWin.y).toInt ∧ (g.ms.y - g.mainWin.y).toInt < 18 := by
  have hw := m.width.toNat_lt
  have hh := m.height.toNat_lt
  obtain ⟨hx, hx'⟩ := hdesk.x
  obtain ⟨hy, hy'⟩ := hdesk.y
  obtain ⟨⟨hpx, hpx'⟩, hpy, hpy'⟩ := hp
  have hside : g.mainWin.w.toInt = 520 := by
    rw [hdesk.w]
    rfl
  have hbar : winTitleH.toInt = 18 := rfl
  have hright := toInt32_add (a := g.mainWin.x) (b := g.mainWin.w) (by omega) (by omega)
  have hbelow := toInt32_add (a := g.mainWin.y) (b := winTitleH) (by omega) (by omega)
  have hdx := toInt32_sub (a := g.ms.x) (b := g.mainWin.x) (by omega) (by omega)
  have hdy := toInt32_sub (a := g.ms.y) (b := g.mainWin.y) (by omega) (by omega)
  simp only [GuiWindow.inTitle, ge_iff_le, decide_eq_true_eq, Int32.le_iff_toInt_le,
    Int32.lt_iff_toInt_lt, hright, hbelow] at h
  omega

/-- **A poll of the mouse** keeps the window on the desktop, and in the grip of the pointer as long
as the button is down. -/
theorem WindowOk.polled (h : WindowOk m g) (hlast : g.lastButtons = g.ms.buttons)
    (hw : s.width = m.width) (hh : s.height = m.height) (hm : m.Spacious) {ms : MouseState}
    (hp : PointsAt m ms.x ms.y) : WindowOk m (guiMove s (guiButtons { g with ms := ms })) := by
  have hpressed : g.mainWin.dragging = true → leftButton g.lastButtons = true := by
    intro hdrag
    rw [hlast]
    exact (h.grip hdrag).button
  have hstays : g.mainWin.dragging = false → WindowOk m (guiMove s { g with ms := ms }) := by
    intro hidle
    rw [guiMove_idle (g := { g with ms := ms }) hidle]
    exact ⟨h.desk, hp, fun hdrag => by simp [hidle] at hdrag⟩
  unfold guiButtons
  dsimp only
  split
  · -- the button goes down: the window was not dragged
    rename_i hpress
    have hidle : g.mainWin.dragging = false := by
      by_contra hdrag
      simp [hpressed (by simpa using hdrag)] at hpress
    split
    · rename_i htitle
      obtain ⟨hx, hy⟩ := inTitle_offsets (g := { g with ms := ms }) h.desk hp htitle
      obtain ⟨hdesk, hms, hgrip⟩ := guiMove_grip (s := s) (g := { g with
        ms := ms
        mainWin := { g.mainWin with
          dragging := true
          dragOffX := ms.x - g.mainWin.x
          dragOffY := ms.y - g.mainWin.y } }) hw hh hm
        ⟨h.desk.w, h.desk.h, h.desk.x, h.desk.y⟩ hp rfl hpress.1 hx hy
      exact ⟨hdesk, hms ▸ hp, fun _ => hgrip⟩
    · exact hstays hidle
  · rename_i hpress
    split
    · rw [guiMove_idle rfl]
      exact ⟨⟨h.desk.w, h.desk.h, h.desk.x, h.desk.y⟩, hp, fun hdrag => by simp at hdrag⟩
    · -- the button stays as it was: a drag goes on
      rename_i hrelease
      cases hdrag : g.mainWin.dragging with
      | false => exact hstays hdrag
      | true =>
        have hgrip := h.grip hdrag
        have hdown : leftButton ms.buttons = true := by
          by_contra hup
          exact hrelease ⟨by simpa using hup, hpressed hdrag⟩
        obtain ⟨hdesk, hms, hgrip'⟩ := guiMove_grip (s := s) (g := { g with ms := ms }) hw hh hm
          h.desk hp hdrag hdown hgrip.offX hgrip.offY
        exact ⟨hdesk, hms ▸ hp, fun _ => hgrip'⟩

end Poll

end OsU
