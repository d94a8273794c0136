import OsU.Lib.Runs
import OsU.Proof.Picture
import OsU.Proof.TypedLine
import OsU.Proof.Window

/-!
# `gui_run` among its interrupts

Keys, mouse packets and ticks come between any two statements of the loop. `DeskRun.Inv` is what
holds between two steps: the buffers hold the terminal that the keys read so far have made, the
window is on the desktop, and what is on the screen is what was there in an earlier moment of rest
or, in `vesa_present`, the first bytes of the next picture and the others of that one.

## What a picture is of

The background is drawn first, then `draw_taskbar` reads the ticks, and from there on the frame is
that of one moment: no statement between it and the poll of the next round changes the terminal, the
window or the pointer. So the picture that is made, copied and left on the screen while `gui_run`
sleeps is that of the desktop as it is, but for the ticks.

What has been on the screen and which ticks have been read is a matter of the whole run. It is a
parameter here, a `History`, which only grows along a run (`DeskRun.Inv.mono`); what a step adds to
it is assumed of it in `DeskRun.Inv.statement`.
-/

set_option autoImplicit false

namespace OsU

open Runs ByteMem CString

/-- The desktop, the characters the keyboard's handler has put in its buffer since `gui_run` was
called and those that `gui_run` has taken out. -/
structure DeskRun where
  desk : Desktop
  accepted : List UInt8
  returned : List UInt8

/-- The keyboard's part of it. -/
def DeskRun.keys (r : DeskRun) : KeyRun :=
  ⟨r.desk.keyboard, r.desk.dequeue, r.accepted, r.returned⟩

/-- What an event is for the keyboard. -/
def DeskRun.keysAfter (r : DeskRun) : DeskEvent → KeyRun
  | .key scancode => r.keys.scan scancode
  | .statement => match r.desk.point with
    | .keys => r.keys.step .statement
    | _ => r.keys
  | _ => r.keys

def DeskRun.step (e : DeskEvent) (r : DeskRun) : DeskRun :=
  ⟨r.desk.step e, (r.keysAfter e).accepted, (r.keysAfter e).returned⟩

/-- `gui_run` is called. -/
def DeskRun.boot (d : Desktop) : DeskRun := ⟨guiStart d, [], []⟩

/-- The coordinates that `mouse_poll` has copied when it is at `p`. -/
def TmpOk (m : ModeInfo) (tmp : MouseState) : Poll → Prop
  | .test => True
  | .x => True
  | .y => 0 ≤ tmp.x.toInt ∧ tmp.x.toInt < m.width.toNat
  | _ => PointsAt m tmp.x tmp.y

/-- The pointer is on a screen of mode `m`. -/
structure MouseOk (m : ModeInfo) (s : Mouse) : Prop where
  screen : OnScreen s
  width : s.screenW.toInt = m.width.toNat
  height : s.screenH.toInt = m.height.toNat

/-- A driver with the size of the mode. -/
def ModeInfo.plain (m : ModeInfo) : Vesa :=
  { Vesa.boot with
    width := m.width
    height := m.height
    pitch := m.pitch
    bpp := m.bpp
    enabled := true }

/-- What the calls `ops` draw, whatever they are drawn over, is the picture in `screen`. -/
def Depicts (m : ModeInfo) (ops : List DrawOp) (screen : Nat → UInt8) : Prop :=
  ∀ s s' p, OnFrame m s → OnFrame m s' → s.frame.val = screen →
    pixelAt p s = pixelAt p (drawRun ops s')

/-- The calls that draw the terminal which the keys make, the window and the pointer. -/
def deskOf (m : ModeInfo) (returned : List UInt8) (ticks : BitVec 32) (g : Gui) : List DrawOp :=
  (Terminal.keys returned).desktop m.plain ticks g.mainWin g.ms.x g.ms.y

/-- What a run has behind it: the screens of its moments of rest, and the ticks that task bars have
been drawn for. -/
structure History where
  screen : (Nat → UInt8) → Prop
  ticks : BitVec 32 → Prop

structure History.Le (H H' : History) : Prop where
  screen : ∀ f, H.screen f → H'.screen f
  ticks : ∀ t, H.ticks t → H'.ticks t

/-- The picture in `screen` is the desktop of this moment, with the ticks of an earlier one. -/
def DeskShown (m : ModeInfo) (H : History) (returned : List UInt8) (g : Gui)
    (screen : Nat → UInt8) : Prop :=
  ∃ ticks, H.ticks ticks ∧ Depicts m (deskOf m returned ticks g) screen

/-- The calls that have been made for the next frame, and those to come, are the calls
of a desktop: of the window and the pointer as they are now, and of the ticks at some
moment of the run. -/
def Progress (m : ModeInfo) (H : History) (returned : List UInt8) (d : Desktop)
    (made : List DrawOp) : Prop :=
  match d.point with
  | .background calls => made ++ calls = drawBackground m.plain
  | .foreground calls => ∃ ticks, H.ticks ticks ∧ made ++ calls = deskOf m returned ticks d.gui
  | .present _ => ∃ ticks, H.ticks ticks ∧ made = deskOf m returned ticks d.gui
  | _ => True

/-- The bytes of the next frame that are on the screen. -/
def GuiPoint.presented : GuiPoint → Nat
  | .present i => i
  | _ => 0

/-- Before the loop has read the keys of this round. -/
def GuiPoint.Reading : GuiPoint → Prop
  | .wait _ | .poll _ | .keys => True
  | _ => False

/-- Between a frame and the next poll of the mouse. -/
def GuiPoint.Polling : GuiPoint → Prop
  | .sleep _ | .wait _ | .poll _ => True
  | _ => False

/-- Nothing is being drawn. -/
def GuiPoint.Resting : GuiPoint → Prop
  | .wait _ | .poll _ | .keys | .sleep _ => True
  | _ => False

/-- Between a frame and the next round. -/
def GuiPoint.Asleep : GuiPoint → Prop
  | .sleep _ => True
  | _ => False

/-- What is on the screen, and what is being drawn behind it. -/
structure ScreenOk (m : ModeInfo) (H : History) (returned : List UInt8) (d : Desktop) : Prop where
  going : d.point ≠ .done → ∃ old s made,
    Behind m (copied d.point.presented (drawRun made s).frame.val old) (drawRun made s) d.vesa ∧
      OnFrame m s ∧ Progress m H returned d made ∧ H.screen old
  done : d.point = .done → OnFrame m d.vesa ∧ H.screen d.vesa.frame.val

/-- The buffers hold the terminal that the keys read so far have made, and it is open as long as
keys are read. -/
structure DeskRun.Typed (r : DeskRun) : Prop where
  shows : GuiShows r.desk.gui (Terminal.keys r.returned)
  reading : r.desk.point.Reading → r.desk.gui.running = true

/-- What holds between two steps: of what was typed, of the window, of the mouse driver,
of the variables of the poll, and of what is on the screen. -/
structure DeskRun.Inv (m : ModeInfo) (H : History) (r : DeskRun) : Prop where
  typed : r.Typed
  window : WindowOk m r.desk.gui
  mouse : MouseOk m r.desk.mouse
  buttons : r.desk.point.Polling → r.desk.gui.lastButtons = r.desk.gui.ms.buttons
  tmp : ∀ p, r.desk.point = .poll p → TmpOk m r.desk.tmp p
  screen : ScreenOk m H r.returned r.desk

/-! ## An interrupt -/

section Interrupt

variable {p : GuiPoint}

/-- It lets an `hlt` go on and moves nothing else. -/
theorem GuiPoint.interrupt_cases (p : GuiPoint) :
    p.interrupt = p ∨ (∃ h h', p = .wait h ∧ p.interrupt = .wait h') ∨
      ∃ s s', p = .sleep s ∧ p.interrupt = .sleep s' := by
  cases p with
  | wait h => exact .inr (.inl ⟨h, h.interrupt, rfl, rfl⟩)
  | sleep s => exact .inr (.inr ⟨s, s.interrupt, rfl, rfl⟩)
  | poll | keys | background | foreground | present | done => exact .inl rfl

theorem GuiPoint.Reading.of_interrupt (h : p.interrupt.Reading) : p.Reading := by
  cases p with
  | wait | poll | keys => trivial
  | background | foreground | present | sleep | done => exact h.elim

theorem GuiPoint.Polling.of_interrupt (h : p.interrupt.Polling) : p.Polling := by
  cases p with
  | wait | poll | sleep => trivial
  | keys | background | foreground | present | done => exact h.elim

theorem GuiPoint.Asleep.of_interrupt (h : p.interrupt.Asleep) : p.Asleep := by
  cases p with
  | sleep => trivial
  | wait | poll | keys | background | foreground | present | done => exact h.elim

theorem GuiPoint.interrupt_poll {q : Poll} (h : p.interrupt = .poll q) : p = .poll q := by
  cases p with
  | wait | sleep => cases h
  | poll | keys | background | foreground | present | done => exact h

theorem GuiPoint.Resting.presented (h : p.Resting) : p.presented = 0 := by
  cases p with
  | present | background | foreground | done => exact h.elim
  | wait | poll | keys | sleep => rfl

theorem GuiPoint.Resting.ne_done (h : p.Resting) : p ≠ .done := by
  rintro rfl
  exact h.elim

end Interrupt

/-! ## The keyboard -/

/-- A statement of `keyboard_try_getchar` is one of `dequeue_char`. -/
theorem Desktop.pollKeys_dequeue (d : Desktop) :
    d.pollKeys.dequeue = (d.dequeue.next d.keyboard).1 ∧
      d.pollKeys.keyboard = (d.dequeue.next d.keyboard).2.1 := by
  unfold Desktop.pollKeys
  dsimp only
  split
  · exact ⟨rfl, rfl⟩
  · split <;> exact ⟨rfl, rfl⟩

/-- Every other statement leaves the keyboard alone. -/
theorem Desktop.statement_keyboard {d : Desktop} (hpoint : d.point ≠ .keys) :
    d.statement.dequeue = d.dequeue ∧ d.statement.keyboard = d.keyboard := by
  obtain ⟨keyboard, dequeue, mouse, timer, vesa, gui, tmp, point⟩ := d
  cases point with
  | keys => exact absurd rfl hpoint
  | poll p =>
    cases p with
    | test =>
      unfold Desktop.statement Desktop.pollMouse
      dsimp only
      split <;> exact ⟨rfl, rfl⟩
    | x | y | buttons | dx | dy | clear => exact ⟨rfl, rfl⟩
  | background calls => cases calls <;> exact ⟨rfl, rfl⟩
  | foreground calls => cases calls <;> exact ⟨rfl, rfl⟩
  | present i =>
    unfold Desktop.statement
    dsimp only
    split <;> exact ⟨rfl, rfl⟩
  | sleep s =>
    unfold Desktop.statement
    dsimp only
    split
    · exact ⟨rfl, rfl⟩
    · split <;> exact ⟨rfl, rfl⟩
  | wait h => cases h <;> exact ⟨rfl, rfl⟩
  | done => exact ⟨rfl, rfl⟩

/-- What the run says of the keyboard is what happens to it. -/
theorem DeskRun.step_keys (r : DeskRun) (e : DeskEvent) : (r.step e).keys = r.keysAfter e := by
  obtain ⟨desk, accepted, returned⟩ := r
  cases e with
  | key scancode =>
    obtain ⟨hkbd, hconsumer, -⟩ :=
      KeyRun.scan_kbd ⟨desk.keyboard, desk.dequeue, accepted, returned⟩ scancode
    exact congrArg₂ (fun kbd consumer => KeyRun.mk kbd consumer _ _) hkbd.symm hconsumer.symm
  | mouse status data => rfl
  | tick => rfl
  | statement =>
    by_cases hpoint : desk.point = .keys
    · obtain ⟨keyboard, dequeue, mouse, timer, vesa, gui, tmp, point⟩ := desk
      obtain rfl : point = .keys := hpoint
      obtain ⟨hdequeue, hkbd⟩ := Desktop.pollKeys_dequeue
        ⟨keyboard, dequeue, mouse, timer, vesa, gui, tmp, .keys⟩
      exact congrArg₂ (fun kbd consumer => KeyRun.mk kbd consumer _ _) hkbd hdequeue
    · obtain ⟨hdequeue, hkbd⟩ := Desktop.statement_keyboard hpoint
      have hafter : DeskRun.keysAfter ⟨desk, accepted, returned⟩ .statement =
          ⟨desk.keyboard, desk.dequeue, accepted, returned⟩ := by
        unfold DeskRun.keysAfter
        dsimp only
        split
        · exact absurd ‹_› hpoint
        · rfl
      rw [DeskRun.keys, DeskRun.step, hafter]
      exact congrArg₂ (fun kbd consumer => KeyRun.mk kbd consumer _ _) hkbd hdequeue

theorem DeskRun.keysAfter_inv {r : DeskRun} {held : List UInt8} (h : r.keys.Inv held)
    (e : DeskEvent) : ∃ held', (r.keysAfter e).Inv held' := by
  cases e with
  | key scancode => exact h.scan scancode
  | mouse status data => exact ⟨held, h⟩
  | tick => exact ⟨held, h⟩
  | statement =>
    unfold DeskRun.keysAfter
    dsimp only
    split
    · exact h.step .statement
    · exact ⟨held, h⟩

/-! ## The mouse -/

theorem MouseOk.irq {m : ModeInfo} {s : Mouse} (h : MouseOk m s) (status data : UInt8) :
    MouseOk m (s.irqHandler status data) := by
  have hscreen := h.screen.step (.irq status data)
  have hsize : (s.irqHandler status data).screenW = s.screenW ∧
      (s.irqHandler status data).screenH = s.screenH := by
    rw [Mouse.irqHandler]
    dsimp only
    split_ifs <;> exact ⟨rfl, rfl⟩
  exact ⟨hscreen, hsize.1 ▸ h.width, hsize.2 ▸ h.height⟩

theorem MouseOk.pointsAt {m : ModeInfo} {s : Mouse} (h : MouseOk m s) :
    PointsAt m s.mouseX s.mouseY := by
  have hx := h.screen.x
  have hy := h.screen.y
  rw [h.width] at hx
  rw [h.height] at hy
  exact ⟨hx, hy⟩

/-! ## The buffers -/

section Buffers

variable {m : ModeInfo} {g : Gui} {t : Terminal}

/-- The polls of the mouse leave the terminal. -/
theorem GuiShows.moved (h : GuiShows g t) (win : GuiWindow) (ms : MouseState) (buttons : UInt8) :
    GuiShows { g with mainWin := win, ms := ms, lastButtons := buttons } t :=
  ⟨h.edit, h.room, h.printable, h.count, h.rows, h.last, h.lastKey, h.running⟩

/-- A drag is about the window. -/
theorem guiDrag_eq (s : Vesa) (g : Gui) :
    ∃ win, guiMove s (guiButtons g) = { g with mainWin := win } := by
  have hbuttons : ∃ win, guiButtons g = { g with mainWin := win } := by
    unfold guiButtons
    split_ifs
    · exact ⟨_, rfl⟩
    · exact ⟨g.mainWin, rfl⟩
    · exact ⟨_, rfl⟩
    · exact ⟨g.mainWin, rfl⟩
  obtain ⟨win, hwin⟩ := hbuttons
  rw [hwin, guiMove]
  dsimp only
  split_ifs <;> exact ⟨_, rfl⟩

theorem guiLogLine_window (s : ByteMem) (g : Gui) :
    (guiLogLine s g).mainWin = g.mainWin ∧ (guiLogLine s g).ms = g.ms ∧
      (guiLogLine s g).lastButtons = g.lastButtons := by
  unfold guiLogLine
  split <;> exact ⟨rfl, rfl, rfl⟩

/-- A key is not. -/
theorem guiKey_window (c : UInt8) (g : Gui) :
    (guiKey c g).mainWin = g.mainWin ∧ (guiKey c g).ms = g.ms ∧
      (guiKey c g).lastButtons = g.lastButtons := by
  unfold guiKey
  dsimp only
  split_ifs
  all_goals first
    | exact ⟨rfl, rfl, rfl⟩
    | exact guiLogLine_window _ _

theorem WindowOk.congr (h : WindowOk m g) {g' : Gui} (hwin : g'.mainWin = g.mainWin)
    (hms : g'.ms = g.ms) : WindowOk m g' where
  desk := hwin ▸ h.desk
  pointer := hms ▸ h.pointer
  grip hdrag := by
    rw [hwin] at hdrag
    obtain ⟨hbutton, hx, hy, hwx, hwy⟩ := h.grip hdrag
    exact ⟨hms ▸ hbutton, hwin ▸ hx, hwin ▸ hy, hwin ▸ hms ▸ hwx, hwin ▸ hms ▸ hwy⟩

end Buffers

/-! ## The screen -/

section Screen

variable {m : ModeInfo} {H H' : History} {screen old : Nat → UInt8} {returned : List UInt8}
  {d d' : Desktop} {v s : Vesa} {made : List DrawOp}

theorem drawBackground_eq (hw : v.width = m.width) (hh : v.height = m.height) :
    drawBackground v = drawBackground m.plain := by
  simp only [drawBackground, backgroundColor, hw, hh, ModeInfo.plain]

theorem drawForeground_eq (hw : v.width = m.width) (hh : v.height = m.height) (ticks : BitVec 32)
    (g : Gui) : drawForeground v ticks g = drawForeground m.plain ticks g := by
  have hwidth : v.widthInt = m.plain.widthInt := by
    rw [Vesa.widthInt, hw]
    rfl
  have hheight : v.heightInt = m.plain.heightInt := by
    rw [Vesa.heightInt, hh]
    rfl
  rw [drawForeground, drawForeground, drawTaskbar, drawTaskbar, hwidth, hheight]

theorem drawRun_append (ops calls : List DrawOp) (s : Vesa) :
    drawRun (ops ++ calls) s = drawRun calls (drawRun ops s) := List.foldl_append

/-- A picture is what the rows hold. -/
theorem Depicts.congr {ops : List DrawOp} {screen' : Nat → UInt8} (h : Depicts m ops screen)
    (hm : m.Roomy) (hrows : ∀ a < m.pitch.toNat * m.height.toNat, screen' a = screen a) :
    Depicts m ops screen' := by
  intro s s' p hs hs' hframe
  let same : Vesa := { s with frame := ⟨screen, s.frame.top⟩ }
  have hsame : OnFrame m same :=
    ⟨hs.enabled, hs.width, hs.height, hs.pitch, hs.bpp, hs.target⟩
  rw [← h same s' p hsame hs' rfl]
  exact pixelAt_congr hm hsame hs (fun a ha => hframe ▸ hrows a ha) p

/-- **A frame is a picture**: what it was drawn over makes no difference. -/
theorem depicts_made (hm : m.Roomy) (hpos : 0 < m.width.toNat) {g : Gui} {t : Terminal}
    (hshows : GuiShows g t) {ticks : BitVec 32}
    (hmade : made = t.desktop m.plain ticks g.mainWin g.ms.x g.ms.y) (hs : OnFrame m s)
    (hfront : OnFrame m (drawRun made s)) : Depicts m made (drawRun made s).frame.val := by
  intro s₁ s' p hs₁ hs' hframe
  have hcalls : made = deskCalls m.plain ticks g := hmade.trans (hshows.deskCalls_eq _ _).symm
  have hsame := frame_pixel (v := m.plain) hm hpos rfl rfl hs hs' ticks g p
  rw [← hcalls] at hsame
  rw [← hsame]
  exact pixelAt_congr hm hfront hs₁ (fun a _ => congrFun hframe a) p

theorem Progress.mono (h : Progress m H returned d made) (hmore : H.Le H') :
    Progress m H' returned d made := by
  unfold Progress at h ⊢
  split at h
  · exact h
  · obtain ⟨ticks, hticks, hdesk⟩ := h
    exact ⟨ticks, hmore.ticks _ hticks, hdesk⟩
  · obtain ⟨ticks, hticks, hdesk⟩ := h
    exact ⟨ticks, hmore.ticks _ hticks, hdesk⟩
  · trivial

theorem ScreenOk.mono (h : ScreenOk m H returned d) (hmore : H.Le H') :
    ScreenOk m H' returned d where
  going hgoing := by
    obtain ⟨old, s, made, hbehind, hs, hmade, hold⟩ := h.going hgoing
    exact ⟨old, s, made, hbehind, hs, hmade.mono hmore, hmore.screen _ hold⟩
  done hdone := ⟨(h.done hdone).1, hmore.screen _ (h.done hdone).2⟩

/-- Where nothing is being copied. -/
theorem ScreenOk.behind (h : ScreenOk m H returned d) (hgoing : d.point ≠ .done)
    (hnone : d.point.presented = 0) : ∃ old s made, Behind m old (drawRun made s) d.vesa ∧
      OnFrame m s ∧ Progress m H returned d made ∧ H.screen old := by
  obtain ⟨old, s, made, hbehind, hrest⟩ := h.going hgoing
  rw [hnone, copied_zero] at hbehind
  exact ⟨old, s, made, hbehind, hrest⟩

theorem ScreenOk.of_behind (hgoing : d.point ≠ .done) (hnone : d.point.presented = 0)
    (hbehind : Behind m old (drawRun made s) d.vesa) (hs : OnFrame m s)
    (hmade : Progress m H returned d made) (hold : H.screen old) :
    ScreenOk m H returned d where
  going _ := by
    refine ⟨old, s, made, ?_, hs, hmade, hold⟩
    rw [hnone, copied_zero]
    exact hbehind
  done hdone := absurd hdone hgoing

theorem GuiPoint.Resting.progress (h : d.point.Resting) : Progress m H returned d made := by
  unfold Progress
  cases hpoint : d.point with
  | wait | poll | keys | sleep => trivial
  | background | foreground | present | done =>
    rw [hpoint] at h
    exact h.elim

/-- A step outside the drawing. -/
theorem ScreenOk.quiet (h : ScreenOk m H returned d) (hrest : d.point.Resting)
    (hvesa : d'.vesa = d.vesa) (hrest' : d'.point.Resting) {returned' : List UInt8} :
    ScreenOk m H returned' d' := by
  obtain ⟨old, s, made, hbehind, hs, -, hold⟩ := h.behind hrest.ne_done hrest.presented
  exact .of_behind hrest'.ne_done hrest'.presented (hvesa ▸ hbehind) hs hrest'.progress hold

/-- An interrupt. -/
theorem ScreenOk.interrupt (h : ScreenOk m H returned d) (hvesa : d'.vesa = d.vesa)
    (hpoint : d'.point = d.point.interrupt) (hgui : d'.gui = d.gui) :
    ScreenOk m H returned d' := by
  rcases d.point.interrupt_cases with hsame | ⟨w, w', hw, hw'⟩ | ⟨s, s', hs, hs'⟩
  · rw [hsame] at hpoint
    refine ⟨fun hgoing => ?_, fun hdone => hvesa ▸ h.done (hpoint ▸ hdone)⟩
    obtain ⟨old, s, made, hbehind, hs, hmade, hold⟩ := h.going (hpoint ▸ hgoing)
    refine ⟨old, s, made, ?_, hs, ?_, hold⟩
    · rwa [hpoint, hvesa]
    · rwa [Progress, hpoint, hgui]
  · exact h.quiet (hw ▸ trivial) hvesa (hpoint ▸ hw' ▸ trivial)
  · exact h.quiet (hs ▸ trivial) hvesa (hpoint ▸ hs' ▸ trivial)

/-- A frame is begun. -/
theorem ScreenOk.begin (h : ScreenOk m H returned d) (hrest : d.point.Resting)
    (hvesa : d'.vesa = d.vesa) (hpoint : d'.point = .background (drawBackground d.vesa))
    {returned' : List UInt8} : ScreenOk m H returned' d' := by
  obtain ⟨old, s, made, hbehind, -, -, hold⟩ := h.behind hrest.ne_done hrest.presented
  -- it is drawn over what the one before has left
  have hnext : Behind m old (drawRun [] (drawRun made s)) d'.vesa := hvesa ▸ hbehind
  refine .of_behind (by rw [hpoint]; exact GuiPoint.noConfusion) (by rw [hpoint]; rfl) hnext
    hbehind.front ?_ hold
  rw [Progress, hpoint]
  exact drawBackground_eq hbehind.back.width hbehind.back.height

/-- A call is made. -/
theorem ScreenOk.call (h : ScreenOk m H returned d) (hgoing : d.point ≠ .done)
    (hnone : d.point.presented = 0) (op : DrawOp) (hvesa : d'.vesa = op.step d.vesa)
    (hgoing' : d'.point ≠ .done) (hnone' : d'.point.presented = 0)
    (hprogress : ∀ made, Progress m H returned d made →
      Progress m H returned d' (made ++ [op])) : ScreenOk m H returned d' := by
  obtain ⟨old, s, made, hbehind, hs, hmade, hold⟩ := h.behind hgoing hnone
  refine .of_behind hgoing' hnone' ?_ hs (hprogress made hmade) hold
  rw [hvesa, drawRun_append]
  exact hbehind.drawRun [op]

/-- The background is drawn, and the ticks are read: the frame is one of this moment. -/
theorem ScreenOk.front (h : ScreenOk m H returned d) (hpoint : d.point = .background [])
    (hvesa : d'.vesa = d.vesa) {ticks : BitVec 32}
    (hpoint' : d'.point = .foreground (drawForeground d.vesa ticks d.gui))
    (hgui : d'.gui = d.gui) (hshows : GuiShows d.gui (Terminal.keys returned))
    (hticks : H.ticks ticks) : ScreenOk m H returned d' := by
  obtain ⟨old, s, made, hbehind, hs, hmade, hold⟩ := h.behind
    (by rw [hpoint]; exact GuiPoint.noConfusion) (by rw [hpoint]; rfl)
  refine .of_behind (by rw [hpoint']; exact GuiPoint.noConfusion) (by rw [hpoint']; rfl)
    (hvesa ▸ hbehind) hs ?_ hold
  rw [Progress, hpoint] at hmade
  have hback : made = drawBackground m.plain := (List.append_nil made).symm.trans hmade
  have hdesk : made ++ drawForeground d.vesa ticks d.gui = deskOf m returned ticks d.gui := by
    rw [drawForeground_eq hbehind.back.width hbehind.back.height, hback]
    exact hshows.deskCalls_eq _ _
  rw [Progress, hpoint', hgui]
  exact ⟨ticks, hticks, hdesk⟩

/-- The frame is drawn. -/
theorem ScreenOk.drawn (h : ScreenOk m H returned d) (hpoint : d.point = .foreground [])
    (hvesa : d'.vesa = d.vesa) (hpoint' : d'.point = .present 0) (hgui : d'.gui = d.gui) :
    ScreenOk m H returned d' := by
  obtain ⟨old, s, made, hbehind, hs, hmade, hold⟩ := h.behind
    (by rw [hpoint]; exact GuiPoint.noConfusion) (by rw [hpoint]; rfl)
  refine .of_behind (by rw [hpoint']; exact GuiPoint.noConfusion) (by rw [hpoint']; rfl)
    (hvesa ▸ hbehind) hs ?_ hold
  rw [Progress, hpoint] at hmade
  obtain ⟨ticks, hticks, hdesk⟩ := hmade
  rw [List.append_nil] at hdesk
  rw [Progress, hpoint', hgui]
  exact ⟨ticks, hticks, hdesk⟩

/-- A byte of it is copied. -/
theorem ScreenOk.copy (h : ScreenOk m H returned d) {i : Nat}
    (hpoint : d.point = .present i) (hvesa : d'.vesa = d.vesa.presentByte i)
    (hpoint' : d'.point = .present (i + 1)) (hgui : d'.gui = d.gui) :
    ScreenOk m H returned d' where
  going _ := by
    obtain ⟨old, s, made, hbehind, hs, hmade, hold⟩ :=
      h.going (by rw [hpoint]; exact GuiPoint.noConfusion)
    refine ⟨old, s, made, ?_, hs, ?_, hold⟩
    · rw [hpoint] at hbehind
      rw [hpoint', hvesa]
      exact copied_succ i _ _ ▸ hbehind.presentByte i
    · rw [Progress, hpoint] at hmade
      rwa [Progress, hpoint', hgui]
  done hdone := by
    rw [hpoint'] at hdone
    cases hdone

/-- All of it has been, and it is there in a moment of rest. -/
theorem ScreenOk.present (h : ScreenOk m H returned d) (hgoing : d.point ≠ .done)
    (hvesa : d'.vesa = d.vesa) (hrest : d'.point.Resting) (hscreen : H.screen d'.vesa.frame.val) :
    ScreenOk m H returned d' := by
  obtain ⟨old, s, made, hbehind, hs, -, -⟩ := h.going hgoing
  rw [hvesa, hbehind.screen] at hscreen
  exact .of_behind hrest.ne_done hrest.presented (hvesa ▸ hbehind) hs hrest.progress hscreen

/-- The desktop is left: the back buffer is turned off. -/
theorem ScreenOk.leave (h : ScreenOk m H returned d) (hrest : d.point.Resting)
    (hvesa : d'.vesa = vesaSetBackbuffer false d.vesa) (hpoint' : d'.point = .done) :
    ScreenOk m H returned d' where
  going hne := absurd hpoint' hne
  done _ := by
    obtain ⟨old, s, made, hbehind, hs, hmade, hold⟩ := h.behind hrest.ne_done hrest.presented
    rw [hvesa]
    refine ⟨hbehind.back.seen, ?_⟩
    have hframe : (vesaSetBackbuffer false d.vesa).frame.val = old := hbehind.screen
    rw [hframe]
    exact hold

end Screen

/-! ## A statement -/

section Statement

variable {m : ModeInfo} {H : History} {keyboard : Keyboard} {dequeue : Dequeue} {mouse : Mouse}
  {timer : Timer} {vesa : Vesa} {gui : Gui} {tmp : MouseState} {point : GuiPoint}
  {accepted returned : List UInt8}

/-! ### The terminal -/

/-- A statement that leaves the keys. -/
theorem DeskRun.Typed.quiet
    (h : Typed ⟨⟨keyboard, dequeue, mouse, timer, vesa, gui, tmp, point⟩, accepted, returned⟩)
    {keyboard' : Keyboard} {dequeue' : Dequeue} {mouse' : Mouse} {timer' : Timer} {vesa' : Vesa}
    {tmp' : MouseState} {point' : GuiPoint} {accepted' : List UInt8} {win : GuiWindow}
    {ms : MouseState} {buttons : UInt8} (hreading : point'.Reading → gui.running = true) :
    Typed ⟨⟨keyboard', dequeue', mouse', timer', vesa', { gui with
      mainWin := win, ms := ms, lastButtons := buttons }, tmp', point'⟩, accepted', returned⟩ :=
  ⟨h.shows.moved win ms buttons, hreading⟩

/-- The end of the poll. -/
theorem DeskRun.Typed.polled {p : Poll}
    (h : Typed ⟨⟨keyboard, dequeue, mouse, timer, vesa, gui, tmp, .poll p⟩, accepted, returned⟩)
    {mouse' : Mouse} (ms : MouseState) :
    Typed ⟨Desktop.polled ⟨keyboard, dequeue, mouse', timer, vesa, gui, tmp, .poll p⟩ ms, accepted,
      returned⟩ := by
  obtain ⟨win, hwin⟩ := guiDrag_eq vesa { gui with ms := ms }
  rw [Desktop.polled, hwin]
  exact h.quiet fun _ => h.reading trivial

/-! A statement of `keyboard_try_getchar`: the test, the read and the release of `dequeue_char`. -/

theorem DeskRun.step_keys_empty (h : keyboard.kbdHead = keyboard.kbdTail) :
    step .statement ⟨⟨keyboard, .test, mouse, timer, vesa, gui, tmp, .keys⟩, accepted, returned⟩ =
      ⟨⟨keyboard, .test, mouse, timer, vesa, gui, tmp, .background (drawBackground vesa)⟩, accepted,
        returned⟩ := by
  simp [step, Desktop.step, Desktop.statement, Desktop.pollKeys, Dequeue.next, h, keysAfter, keys,
    KeyRun.step]

theorem DeskRun.step_keys_found (h : keyboard.kbdHead ≠ keyboard.kbdTail) :
    step .statement ⟨⟨keyboard, .test, mouse, timer, vesa, gui, tmp, .keys⟩, accepted, returned⟩ =
      ⟨⟨keyboard, .read, mouse, timer, vesa, gui, tmp, .keys⟩, accepted, returned⟩ := by
  simp [step, Desktop.step, Desktop.statement, Desktop.pollKeys, Dequeue.next, h, keysAfter, keys,
    KeyRun.step]

theorem DeskRun.step_keys_read :
    step .statement ⟨⟨keyboard, .read, mouse, timer, vesa, gui, tmp, .keys⟩, accepted, returned⟩ =
      ⟨⟨keyboard, .release (keyboard.kbdBuf keyboard.kbdTail), mouse, timer, vesa, gui, tmp, .keys⟩,
        accepted, returned⟩ := by
  simp [step, Desktop.step, Desktop.statement, Desktop.pollKeys, Dequeue.next, keysAfter, keys,
    KeyRun.step]

theorem DeskRun.step_keys_release {out : UInt8} :
    step .statement ⟨⟨keyboard, .release out, mouse, timer, vesa, gui, tmp, .keys⟩, accepted,
        returned⟩ =
      ⟨⟨{ keyboard with kbdTail := (keyboard.kbdTail + 1) % kbdBufSize }, .test, mouse, timer, vesa,
          guiKey out gui, tmp,
          if (guiKey out gui).running then .keys else .background (drawBackground vesa)⟩, accepted,
        returned ++ [out]⟩ := by
  simp [step, Desktop.step, Desktop.statement, Desktop.pollKeys, Dequeue.next, keysAfter, keys,
    KeyRun.step]

/-- What it does next, and where the loop goes. -/
theorem DeskRun.step_keys_cases :
    (dequeue = .test ∧ keyboard.kbdHead = keyboard.kbdTail ∧
      step .statement ⟨⟨keyboard, dequeue, mouse, timer, vesa, gui, tmp, .keys⟩, accepted,
          returned⟩ =
        ⟨⟨keyboard, .test, mouse, timer, vesa, gui, tmp, .background (drawBackground vesa)⟩,
          accepted, returned⟩) ∨
    (∃ dequeue', step .statement ⟨⟨keyboard, dequeue, mouse, timer, vesa, gui, tmp, .keys⟩,
          accepted, returned⟩ =
        ⟨⟨keyboard, dequeue', mouse, timer, vesa, gui, tmp, .keys⟩, accepted, returned⟩) ∨
    ∃ out keyboard', dequeue = .release out ∧
      step .statement ⟨⟨keyboard, dequeue, mouse, timer, vesa, gui, tmp, .keys⟩, accepted,
          returned⟩ =
        ⟨⟨keyboard', .test, mouse, timer, vesa, guiKey out gui, tmp,
          if (guiKey out gui).running then .keys else .background (drawBackground vesa)⟩, accepted,
          returned ++ [out]⟩ := by
  cases dequeue with
  | test =>
    by_cases hempty : keyboard.kbdHead = keyboard.kbdTail
    · exact .inl ⟨rfl, hempty, step_keys_empty hempty⟩
    · exact .inr (.inl ⟨.read, step_keys_found hempty⟩)
  | read => exact .inr (.inl ⟨_, step_keys_read⟩)
  | release out => exact .inr (.inr ⟨out, _, rfl, step_keys_release⟩)

/-- The other points where a statement has a choice. -/
theorem DeskRun.step_test :
    step .statement ⟨⟨keyboard, dequeue, mouse, timer, vesa, gui, tmp, .poll .test⟩, accepted,
        returned⟩ =
      if mouse.mouseUpdated = false then
        ⟨Desktop.polled ⟨keyboard, dequeue, mouse, timer, vesa, gui, tmp, .poll .test⟩ gui.ms,
          accepted, returned⟩
      else ⟨⟨keyboard, dequeue, mouse, timer, vesa, gui, tmp, .poll .x⟩, accepted, returned⟩ := by
  split
  · rename_i hold
    simp [step, Desktop.step, Desktop.statement, Desktop.pollMouse, hold, keysAfter, keys]
  · rename_i hnew
    simp [step, Desktop.step, Desktop.statement, Desktop.pollMouse, hnew, keysAfter, keys]

theorem DeskRun.step_present {i : Nat} :
    step .statement ⟨⟨keyboard, dequeue, mouse, timer, vesa, gui, tmp, .present i⟩, accepted,
        returned⟩ =
      if i < vesa.presentTotal then
        ⟨⟨keyboard, dequeue, mouse, timer, vesa.presentByte i, gui, tmp, .present (i + 1)⟩, accepted,
          returned⟩
      else
        ⟨⟨keyboard, dequeue, mouse, timer, vesa, { gui with lastButtons := gui.ms.buttons }, tmp,
          .sleep (timerSleep 16 timer)⟩, accepted, returned⟩ := by
  split
  · rename_i hmore
    simp [step, Desktop.step, Desktop.statement, hmore, keysAfter, keys]
  · rename_i hlast
    simp [step, Desktop.step, Desktop.statement, hlast, keysAfter, keys]

/-- The loop of `timer_sleep` goes on. -/
theorem DeskRun.step_asleep {s s' : Sleep} (h : s.next timer = some s') :
    step .statement ⟨⟨keyboard, dequeue, mouse, timer, vesa, gui, tmp, .sleep s⟩, accepted,
        returned⟩ =
      ⟨⟨keyboard, dequeue, mouse, timer, vesa, gui, tmp, .sleep s'⟩, accepted, returned⟩ := by
  simp [step, Desktop.step, Desktop.statement, h, keysAfter, keys]

/-- It has ended. -/
theorem DeskRun.step_woken {s : Sleep} (h : s.next timer = none) :
    step .statement ⟨⟨keyboard, dequeue, mouse, timer, vesa, gui, tmp, .sleep s⟩, accepted,
        returned⟩ =
      if gui.running = true then
        ⟨⟨keyboard, dequeue, mouse, timer, vesa, gui, tmp, .wait .before⟩, accepted, returned⟩
      else
        ⟨⟨keyboard, dequeue, mouse, timer, vesaSetBackbuffer false vesa, gui, tmp, .done⟩, accepted,
          returned⟩ := by
  split
  · rename_i hrunning
    simp [step, Desktop.step, Desktop.statement, h, hrunning, keysAfter, keys]
  · rename_i hstopped
    simp [step, Desktop.step, Desktop.statement, h, hstopped, keysAfter, keys]

/-- **A statement types nothing else.** -/
theorem DeskRun.Typed.statement {r : DeskRun} (h : r.Typed) : (r.step .statement).Typed := by
  obtain ⟨⟨keyboard, dequeue, mouse, timer, vesa, gui, tmp, point⟩, accepted, returned⟩ := r
  cases point with
  | wait w => cases w <;> exact h.quiet fun _ => h.reading trivial
  | poll p =>
    cases p with
    | test =>
      rw [step_test]
      split
      · exact h.polled gui.ms
      · exact h.quiet fun _ => h.reading trivial
    | x | y | buttons | dx | dy => exact h.quiet fun _ => h.reading trivial
    | clear => exact h.polled tmp
  | keys =>
    have hrunning : gui.running = true := h.reading trivial
    have hopen : (Terminal.keys returned).closed = false := by
      have hshows : gui.running = !(Terminal.keys returned).closed := h.shows.running
      simpa [hrunning] using hshows
    rcases @step_keys_cases keyboard dequeue mouse timer vesa gui tmp accepted returned with
      ⟨-, -, hstep⟩ | ⟨d, hstep⟩ | ⟨out, k, -, hstep⟩
    · rw [hstep]
      exact h.quiet fun hf => hf.elim
    · rw [hstep]
      exact h.quiet fun _ => hrunning
    · rw [hstep]
      have hshows : GuiShows (guiKey out gui) (Terminal.keys (returned ++ [out])) := by
        rw [Terminal.keys_append]
        exact h.shows.key hopen out
      -- the loop reads on only if the key has not closed the terminal
      refine ⟨hshows, fun hreading => ?_⟩
      by_contra hstop
      dsimp only at hreading hstop
      rw [if_neg hstop] at hreading
      exact hreading.elim
  | background calls => cases calls <;> exact h.quiet fun hf => hf.elim
  | foreground calls => cases calls <;> exact h.quiet fun hf => hf.elim
  | present i =>
    rw [step_present]
    split <;> exact h.quiet fun hf => hf.elim
  | sleep s =>
    cases hnext : s.next timer with
    | some s' =>
      rw [step_asleep hnext]
      exact h.quiet fun hf => hf.elim
    | none =>
      rw [step_woken hnext]
      split
      · rename_i hrunning
        exact h.quiet fun _ => hrunning
      · exact h.quiet fun hf => hf.elim
  | done => exact h

/-! ### The screen -/

theorem DeskRun.Inv.mono {r : DeskRun} (h : r.Inv m H) {H' : History} (hmore : H.Le H') :
    r.Inv m H' :=
  ⟨h.typed, h.window, h.mouse, h.buttons, h.tmp, h.screen.mono hmore⟩

/-- The end of the poll: the window is moved. -/
theorem DeskRun.Inv.polled {p : Poll}
    (h : Inv m H ⟨⟨keyboard, dequeue, mouse, timer, vesa, gui, tmp, .poll p⟩, accepted,
      returned⟩) (hm : m.Spacious) {mouse' : Mouse} (hmouse : MouseOk m mouse') {ms : MouseState}
    (hms : PointsAt m ms.x ms.y) :
    Inv m H ⟨Desktop.polled ⟨keyboard, dequeue, mouse', timer, vesa, gui, tmp, .poll p⟩
      ms, accepted, returned⟩ := by
  obtain ⟨old, s, made, hbehind, -⟩ := h.screen.behind GuiPoint.noConfusion rfl
  have hwindow := h.window.polled (h.buttons trivial) hbehind.back.width hbehind.back.height hm hms
  exact ⟨h.typed.polled ms, hwindow, hmouse, fun hf => hf.elim, fun q hq => GuiPoint.noConfusion hq,
    h.screen.quiet trivial (by rfl) (by trivial)⟩

/-- A statement of the poll before its last. -/
theorem DeskRun.Inv.fetched {p p' : Poll}
    (h : Inv m H ⟨⟨keyboard, dequeue, mouse, timer, vesa, gui, tmp, .poll p⟩, accepted,
      returned⟩) {tmp' : MouseState} (htmp : TmpOk m tmp' p') :
    Inv m H ⟨⟨keyboard, dequeue, mouse, timer, vesa, gui, tmp', .poll p'⟩, accepted,
      returned⟩ := by
  refine ⟨h.typed.quiet fun _ => h.typed.reading trivial, h.window, h.mouse,
    fun _ => h.buttons trivial, fun q hq => ?_, h.screen.quiet trivial (by rfl) (by trivial)⟩
  obtain rfl := GuiPoint.poll.inj hq
  exact htmp

/-- A statement of `keyboard_try_getchar`. -/
theorem DeskRun.Inv.pollKeys
    (h : Inv m H ⟨⟨keyboard, dequeue, mouse, timer, vesa, gui, tmp, .keys⟩, accepted,
      returned⟩) :
    Inv m H (step .statement ⟨⟨keyboard, dequeue, mouse, timer, vesa, gui, tmp, .keys⟩,
      accepted, returned⟩) := by
  have htyped := h.typed.statement
  rcases @step_keys_cases keyboard dequeue mouse timer vesa gui tmp accepted returned with
    ⟨-, -, hstep⟩ | ⟨d, hstep⟩ | ⟨out, k, -, hstep⟩
  · -- the buffer of the keyboard is empty: a frame is begun
    rw [hstep] at htyped ⊢
    exact ⟨htyped, h.window, h.mouse, fun hf => hf.elim, fun q hq => GuiPoint.noConfusion hq,
      h.screen.begin trivial (by rfl) rfl⟩
  · -- `dequeue_char` goes on
    rw [hstep] at htyped ⊢
    exact ⟨htyped, h.window, h.mouse, h.buttons, h.tmp, h.screen.quiet trivial (by rfl) (by trivial)⟩
  · obtain ⟨hwin, hms, -⟩ := guiKey_window out gui
    have hwindow := h.window.congr hwin hms
    rw [hstep] at htyped ⊢
    by_cases hgo : (guiKey out gui).running = true
    · rw [if_pos hgo] at htyped ⊢
      exact ⟨htyped, hwindow, h.mouse, fun hf => hf.elim, fun q hq => GuiPoint.noConfusion hq,
        h.screen.quiet trivial (by rfl) (by trivial)⟩
    · rw [if_neg hgo] at htyped ⊢
      exact ⟨htyped, hwindow, h.mouse, fun hf => hf.elim, fun q hq => GuiPoint.noConfusion hq,
        h.screen.begin trivial (by rfl) rfl⟩

/-- **A statement** of `gui_run`, of any kind, with what it adds to the history: the ticks that the
task bar is drawn for, and the screen that it leaves at rest. -/
theorem DeskRun.Inv.statement {r : DeskRun} (h : r.Inv m H) (hsize : m.Spacious)
    (hticks : r.desk.point = .background [] → H.ticks r.desk.timer.tickCount)
    (hscreen : (r.step .statement).desk.point.Asleep →
      H.screen (r.step .statement).desk.vesa.frame.val) : (r.step .statement).Inv m H := by
  have htyped := h.typed.statement
  obtain ⟨⟨keyboard, dequeue, mouse, timer, vesa, gui, tmp, point⟩, accepted, returned⟩ := r
  cases point with
  | wait w =>
    -- An `hlt` that goes on, or waits: only the point changes.
    have hrest : ∀ w', Inv m H
        ⟨⟨keyboard, dequeue, mouse, timer, vesa, gui, tmp, .wait w'⟩, accepted, returned⟩ :=
      fun w' => ⟨h.typed.quiet fun _ => h.typed.reading trivial, h.window, h.mouse,
        fun _ => h.buttons trivial, fun q hq => GuiPoint.noConfusion hq,
        h.screen.quiet trivial (by rfl) (by trivial)⟩
    cases w with
    | before => exact hrest .halted
    | halted => exact hrest .halted
    | behind =>
      refine ⟨htyped, h.window, h.mouse, fun _ => h.buttons trivial, fun q hq => ?_,
        h.screen.quiet trivial (by rfl) (by trivial)⟩
      obtain rfl := GuiPoint.poll.inj hq
      trivial
  | poll p =>
    cases p with
    | test =>
      -- The flag is tested: without it the poll is over, and the window moves as the
      -- old position has it.
      rw [step_test]
      split
      · exact h.polled hsize h.mouse h.window.pointer
      · exact h.fetched trivial
    | x => exact h.fetched h.mouse.pointsAt.1
    | y => exact h.fetched ⟨h.tmp _ rfl, h.mouse.pointsAt.2⟩
    | buttons => exact h.fetched (h.tmp _ rfl)
    | dx => exact h.fetched (h.tmp _ rfl)
    | dy => exact h.fetched (h.tmp _ rfl)
    | clear =>
      have hmouse : MouseOk m { mouse with mouseUpdated := false } :=
        ⟨⟨h.mouse.screen.x, h.mouse.screen.y⟩, h.mouse.width, h.mouse.height⟩
      exact h.polled hsize hmouse (h.tmp _ rfl)
  | keys => exact h.pollKeys
  | background calls =>
    cases calls with
    | nil =>
      -- The ticks are read, and what is drawn from now on is of this moment.
      exact ⟨htyped, h.window, h.mouse, fun hf => hf.elim, fun q hq => GuiPoint.noConfusion hq,
        h.screen.front rfl (by rfl) rfl rfl h.typed.shows (hticks rfl)⟩
    | cons op calls =>
      refine ⟨htyped, h.window, h.mouse, fun hf => hf.elim, fun q hq => GuiPoint.noConfusion hq, ?_⟩
      refine h.screen.call GuiPoint.noConfusion rfl op (by rfl) GuiPoint.noConfusion rfl
        fun made hmade => ?_
      exact (List.append_assoc ..).trans hmade
  | foreground calls =>
    cases calls with
    | nil =>
      exact ⟨htyped, h.window, h.mouse, fun hf => hf.elim, fun q hq => GuiPoint.noConfusion hq,
        h.screen.drawn rfl (by rfl) rfl rfl⟩
    | cons op calls =>
      refine ⟨htyped, h.window, h.mouse, fun hf => hf.elim, fun q hq => GuiPoint.noConfusion hq, ?_⟩
      refine h.screen.call GuiPoint.noConfusion rfl op (by rfl) GuiPoint.noConfusion rfl
        fun made hmade => ?_
      obtain ⟨ticks, hread, hdesk⟩ := hmade
      exact ⟨ticks, hread, (List.append_assoc ..).trans hdesk⟩
  | present i =>
    -- A byte more is copied, or the picture is complete and is a screen of the history.
    rw [step_present] at htyped hscreen ⊢
    split
    · rename_i hmore
      rw [if_pos hmore] at htyped
      exact ⟨htyped, h.window, h.mouse, fun hf => hf.elim, fun q hq => GuiPoint.noConfusion hq,
        h.screen.copy rfl (by rfl) rfl rfl⟩
    · rename_i hlast
      rw [if_neg hlast] at htyped hscreen
      exact ⟨htyped, h.window.congr rfl rfl, h.mouse, fun _ => rfl,
        fun q hq => GuiPoint.noConfusion hq,
        h.screen.present GuiPoint.noConfusion (by rfl) (by trivial) (hscreen trivial)⟩
  | sleep s =>
    cases hnext : s.next timer with
    | some s' =>
      rw [step_asleep hnext] at htyped ⊢
      exact ⟨htyped, h.window, h.mouse, fun _ => h.buttons trivial,
        fun q hq => GuiPoint.noConfusion hq, h.screen.quiet trivial (by rfl) (by trivial)⟩
    | none =>
      rw [step_woken hnext] at htyped ⊢
      split at htyped
      · rename_i hrunning
        rw [if_pos hrunning]
        exact ⟨htyped, h.window, h.mouse, fun _ => h.buttons trivial,
          fun q hq => GuiPoint.noConfusion hq, h.screen.quiet trivial (by rfl) (by trivial)⟩
      · rename_i hstopped
        rw [if_neg hstopped]
        exact ⟨htyped, h.window, h.mouse, fun hf => hf.elim, fun q hq => GuiPoint.noConfusion hq,
          h.screen.leave trivial (by rfl) rfl⟩
  | done => exact h

end Statement

end OsU
