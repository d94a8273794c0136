import OsU.Proof.DesktopRun

/-!
# The desktop, over whole runs

What holds of `gui_run` at any time, whatever keys are pressed and however the mouse moves: its
terminal is the one the keys make, and its window stays on the desktop and in the grip of the
pointer. What is seen of it is in `OsU/Proof/DeskRound.lean`.

## What is assumed of the mode

- For the terminal: `vesa_init` has accepted the mode and its pixels fit the back buffer
  (`Desktop.Ready`). In a larger mode `draw_background` writes over the variables behind it, those
  of `gui.c` among them, and nothing holds.
- For the window: the screen has room for it besides (`Desktop.Opens`).
- For what is seen: the rows have room for the pixels, and fit the back buffer to the end of the
  last one (`Desktop.Displays`). 800 by 600 with four bytes a pixel is the largest such mode; 1024 by
  768 with three bytes is too large for any of this.
-/

set_option autoImplicit false

namespace OsU

open Runs ByteMem CString

/-! ## The beginning -/

/-- The kernel, as `gui_run` is called in mode `m`: the driver has accepted the mode, no drawing call
leaves the back buffer, and the rows of the log have never been written to their last byte. -/
structure Desktop.Ready (m : ModeInfo) (v : Vesa) (d : Desktop) : Prop where
  accepted : m.Accepted
  inside : m.extent ≤ vesaBackbufferMax
  vesa : d.vesa = vesaInit m v
  rows : ∀ i < 8, d.gui.logLines i 63 = 0

/-- The screen has room for the window. -/
structure Desktop.Opens (m : ModeInfo) (v : Vesa) (d : Desktop) : Prop extends d.Ready m v where
  spacious : m.Spacious

/-- The rows have room for the pixels, and the back buffer for the rows. -/
structure Desktop.Displays (m : ModeInfo) (v : Vesa) (d : Desktop) : Prop extends d.Opens m v where
  roomy : m.Roomy
  fits : m.pitch.toNat * m.height.toNat ≤ vesaBackbufferMax

/-- What a run has behind it: the screen in front of the first statement and those of its sleeps,
and the ticks at its calls of `draw_taskbar`. -/
def history (d : Desktop) (es : List DeskEvent) : History where
  screen f := ∃ es₀, es₀ <+: es ∧
    let r := run DeskRun.step (.boot d) es₀
    (es₀ = [] ∨ r.desk.point.Asleep) ∧ f = r.desk.vesa.frame.val
  ticks t := ∃ es₀, es₀ <+: es ∧
    let r := run DeskRun.step (.boot d) es₀
    r.desk.point = .background [] ∧ t = r.desk.timer.tickCount

theorem history_le {d : Desktop} {es es' : List DeskEvent} (h : es <+: es') :
    (history d es).Le (history d es') where
  screen _ := fun ⟨es₀, hes₀, hrest⟩ => ⟨es₀, hes₀.trans h, hrest⟩
  ticks _ := fun ⟨es₀, hes₀, hrest⟩ => ⟨es₀, hes₀.trans h, hrest⟩

section Boot

variable {m : ModeInfo} {d : Desktop} {v : Vesa}

theorem Desktop.Ready.enabled (h : d.Ready m v) : d.vesa.enabled = true := by
  rw [h.vesa]
  exact (vesaInit_enabled m v).mpr h.accepted

/-- The two lines that greet. -/
theorem shows_start {g : Gui} (hlen : g.inputLen = 0) (hcount : g.logCount = 0)
    (hkey : g.lastKey 0 = 0) (hrows : ∀ i < 8, g.logLines i 63 = 0) (hrunning : g.running = true) :
    GuiShows (guiLogLine (ofList (ascii "ESC exits to shell."))
      (guiLogLine (ofList (ascii "GUI ready. Type text and press Enter.")) g)) Terminal.start := by
  have hempty : GuiShows g ⟨[], [], [], false⟩ := by
    refine ⟨?_, by simp, by simp, hcount, ?_, hrows, ⟨by simp, by simp, by simp, hkey⟩, hrunning⟩
    · rw [hlen]
      rfl
    · intro i row hi
      simp [Terminal.rows] at hi
  have hfirst : (ofList (ascii "GUI ready. Type text and press Enter.")).Stores 63
      (ascii "GUI ready. Type text and press Enter.") :=
    stores_ofList (by decide) (forall_mem_of_all (by decide))
  have hsecond : (ofList (ascii "ESC exits to shell.")).Stores 63 (ascii "ESC exits to shell.") :=
    stores_ofList (by decide) (forall_mem_of_all (by decide))
  exact (hempty.log hfirst).log hsecond

/-- The buffers and the locals of `gui_run` in front of its loop. -/
theorem guiStart_gui (h : d.vesa.enabled = true) :
    (guiStart d).gui = { guiLogLine (ofList (ascii "ESC exits to shell."))
      (guiLogLine (ofList (ascii "GUI ready. Type text and press Enter.")) { d.gui with
        mainWin := { d.gui.mainWin with x := 80, y := 60, w := 520, h := 240, dragging := false }
        inputLen := 0
        logCount := 0
        lastKey := d.gui.lastKey.put 0 0
        running := true }) with
      ms := { x := d.vesa.widthInt / 2, y := d.vesa.heightInt / 2, buttons := 0, dx := 0, dy := 0 }
      lastButtons := 0 } := by
  rw [guiStart, if_neg (by simp [h])]
  rfl

/-- What it has done to the drivers. -/
theorem guiStart_drivers (h : d.vesa.enabled = true) :
    (guiStart d).mouse = (d.mouse.setBounds d.vesa.widthInt d.vesa.heightInt).init ∧
      (guiStart d).vesa = vesaSetBackbuffer true d.vesa ∧ (guiStart d).point = .wait .before ∧
      (guiStart d).keyboard = d.keyboard.flush ∧ (guiStart d).dequeue = .test := by
  rw [guiStart, if_neg (by simp [h])]
  exact ⟨rfl, rfl, rfl, rfl, rfl⟩

theorem typed_boot (hd : d.Ready m v) : (DeskRun.boot d).Typed := by
  have hstart : (DeskRun.boot d).desk.gui = _ := guiStart_gui hd.enabled
  have hshows := shows_start (g := { d.gui with
    mainWin := { d.gui.mainWin with x := 80, y := 60, w := 520, h := 240, dragging := false }
    inputLen := 0
    logCount := 0
    lastKey := d.gui.lastKey.put 0 0
    running := true }) rfl rfl rfl hd.rows rfl
  have htyped : GuiShows (DeskRun.boot d).desk.gui Terminal.start := by
    rw [hstart]
    exact hshows.moved _ _ _
  exact ⟨htyped, fun _ => htyped.running⟩

theorem keys_boot (hd : d.Ready m v) : (DeskRun.boot d).keys.Inv [] := by
  obtain ⟨-, -, -, hkbd, hdequeue⟩ := guiStart_drivers hd.enabled
  have hkeys : (DeskRun.boot d).keys = ⟨d.keyboard.flush, .test, [], []⟩ :=
    congrArg₂ (fun kbd consumer => KeyRun.mk kbd consumer [] []) hkbd hdequeue
  rw [hkeys]
  exact ⟨.empty _ (show 0 < kbdBufSize by decide), rfl, fun h => Dequeue.noConfusion h,
    fun _ h => Dequeue.noConfusion h⟩

/-- The pointer is put in the middle of the screen. -/
theorem mouseOk_boot (hsize : m.Spacious) (hw : d.vesa.width = m.width)
    (hh : d.vesa.height = m.height) :
    MouseOk m (d.mouse.setBounds d.vesa.widthInt d.vesa.heightInt).init ∧
      PointsAt m (d.vesa.widthInt / 2) (d.vesa.heightInt / 2) := by
  obtain ⟨hwide, hhigh⟩ := hsize
  have hwi := toInt_widthInt hw
  have hhi := toInt_heightInt hh
  have hwpos : d.vesa.widthInt > 0 := Int32.lt_iff_toInt_lt.mpr (by rw [hwi]; simp; omega)
  have hhpos : d.vesa.heightInt > 0 := Int32.lt_iff_toInt_lt.mpr (by rw [hhi]; simp; omega)
  have hbounds : (d.mouse.setBounds d.vesa.widthInt d.vesa.heightInt).screenW = d.vesa.widthInt ∧
      (d.mouse.setBounds d.vesa.widthInt d.vesa.heightInt).screenH = d.vesa.heightInt := by
    rw [setBounds_eq]
    exact ⟨if_pos hwpos, if_pos hhpos⟩
  generalize d.mouse.setBounds d.vesa.widthInt d.vesa.heightInt = s at hbounds ⊢
  have hmouse : MouseOk m s.init := by
    refine ⟨onScreen_init ?_ ?_, ?_, ?_⟩
    · rw [hbounds.1, hwi]
      omega
    · rw [hbounds.2, hhi]
      omega
    · exact (congrArg Int32.toInt hbounds.1).trans hwi
    · exact (congrArg Int32.toInt hbounds.2).trans hhi
  have hx : s.init.mouseX = d.vesa.widthInt / 2 := congrArg (· / 2) hbounds.1
  have hy : s.init.mouseY = d.vesa.heightInt / 2 := congrArg (· / 2) hbounds.2
  have hmiddle := hmouse.pointsAt
  rw [hx, hy] at hmiddle
  exact ⟨hmouse, hmiddle⟩

/-- The window is put on the desktop, and nothing holds it. -/
theorem windowOk_boot (hsize : m.Spacious) (hd : d.Ready m v) (hw : d.vesa.width = m.width)
    (hh : d.vesa.height = m.height) : WindowOk m (guiStart d).gui := by
  have hgui := guiStart_gui hd.enabled
  have hwin : (guiStart d).gui.mainWin =
      { d.gui.mainWin with x := 80, y := 60, w := 520, h := 240, dragging := false } := by
    rw [hgui]
    rfl
  have hms : (guiStart d).gui.ms.x = d.vesa.widthInt / 2 ∧
      (guiStart d).gui.ms.y = d.vesa.heightInt / 2 := by
    rw [hgui]
    exact ⟨rfl, rfl⟩
  refine ⟨?_, ?_, ?_⟩
  · rw [hwin]
    have hx : (80 : Int32).toInt = 80 := rfl
    have hy : (60 : Int32).toInt = 60 := rfl
    refine ⟨rfl, rfl, ?_, ?_⟩
    · have hwide := hsize.width
      dsimp only
      omega
    · have hhigh := hsize.height
      dsimp only
      omega
  · rw [hms.1, hms.2]
    exact (mouseOk_boot hsize hw hh).2
  · intro hdrag
    rw [hwin] at hdrag
    cases hdrag

/-- Nothing has been drawn: what is seen is what there was. -/
theorem screenOk_boot (hd : d.Ready m v) : ScreenOk m (history d []) [] (guiStart d) := by
  obtain ⟨-, hvesa, hpoint, -⟩ := guiStart_drivers hd.enabled
  have hbehind := behind_start hd.accepted v
  have hback : (guiStart d).vesa = m.start v := by rw [hvesa, hd.vesa, ModeInfo.start]
  rw [← hback] at hbehind
  have hnone : Behind m (guiStart d).vesa.frame.val (drawRun [] (m.onScreen v)) (guiStart d).vesa :=
    hbehind
  refine .of_behind (by rw [hpoint]; exact GuiPoint.noConfusion) (by rw [hpoint]; rfl) hnone
    hbehind.front ?_ ⟨[], List.prefix_refl _, .inl rfl, rfl⟩
  rw [Progress, hpoint]
  trivial

/-- **The desktop comes up.** -/
theorem inv_boot (hd : d.Opens m v) : (DeskRun.boot d).Inv m (history d []) := by
  have hback := (behind_start hd.accepted v).back
  rw [ModeInfo.start, ← hd.vesa] at hback
  have hw : d.vesa.width = m.width := hback.width
  have hh : d.vesa.height = m.height := hback.height
  obtain ⟨hmouse, -, hpoint, -⟩ := guiStart_drivers hd.enabled
  have hgui := guiStart_gui hd.enabled
  refine ⟨typed_boot hd.toReady, windowOk_boot hd.spacious hd.toReady hw hh, ?_, ?_, ?_,
    screenOk_boot hd.toReady⟩
  · change MouseOk m (guiStart d).mouse
    rw [hmouse]
    exact (mouseOk_boot hd.spacious hw hh).1
  · intro _
    change (guiStart d).gui.lastButtons = (guiStart d).gui.ms.buttons
    rw [hgui]
  · intro p hp
    change (guiStart d).point = .poll p at hp
    rw [hpoint] at hp
    cases hp

end Boot

/-! ## Any step -/

section Step

variable {m : ModeInfo} {H : History} {r : DeskRun}

/-- The handler of the keyboard takes no character out. -/
theorem DeskRun.step_key_returned (r : DeskRun) (scancode : UInt8) :
    (r.step (.key scancode)).returned = r.returned :=
  (KeyRun.scan_kbd r.keys scancode).2.2

theorem DeskRun.Typed.step (h : r.Typed) (e : DeskEvent) : (r.step e).Typed := by
  cases e with
  | key scancode =>
    refine ⟨?_, fun hreading => h.reading hreading.of_interrupt⟩
    rw [r.step_key_returned scancode]
    exact h.shows
  | mouse status data => exact ⟨h.shows, fun hreading => h.reading hreading.of_interrupt⟩
  | tick => exact ⟨h.shows, fun hreading => h.reading hreading.of_interrupt⟩
  | statement => exact h.statement

/-- **Interrupts and statements** keep what holds between two of them. -/
theorem DeskRun.Inv.step (h : r.Inv m H) (hsize : m.Spacious) (e : DeskEvent)
    (hticks : r.desk.point = .background [] → H.ticks r.desk.timer.tickCount)
    (hscreen : (r.step e).desk.point.Asleep → H.screen (r.step e).desk.vesa.frame.val) :
    (r.step e).Inv m H := by
  have htyped := h.typed.step e
  have hbuttons : r.desk.point.interrupt.Polling →
      r.desk.gui.lastButtons = r.desk.gui.ms.buttons := fun hp => h.buttons hp.of_interrupt
  have htmp : ∀ p, r.desk.point.interrupt = .poll p → TmpOk m r.desk.tmp p :=
    fun p hp => h.tmp p (GuiPoint.interrupt_poll hp)
  cases e with
  | key scancode =>
    refine ⟨htyped, h.window, h.mouse, hbuttons, htmp, ?_⟩
    rw [r.step_key_returned scancode]
    exact h.screen.interrupt (by rfl) (by rfl) (by rfl)
  | mouse status data =>
    exact ⟨htyped, h.window, h.mouse.irq status data, hbuttons, htmp,
      h.screen.interrupt (by rfl) (by rfl) (by rfl)⟩
  | tick =>
    exact ⟨htyped, h.window, h.mouse, hbuttons, htmp,
      h.screen.interrupt (by rfl) (by rfl) (by rfl)⟩
  | statement => exact h.statement hsize hticks hscreen

end Step

/-! ## A screen of 800 by 600 -/

/-- 800 columns, 600 rows, four bytes a pixel: as much as the back buffer has room for. -/
def deskMode : ModeInfo := ⟨0xFD000000, 800, 600, 3200, 32⟩

/-- The kernel in that mode, before `gui_run`. -/
def bootDesktop : Desktop where
  keyboard := keyboardInit fun _ => 0
  dequeue := .test
  mouse := .boot
  timer := ⟨0, timerFreq⟩
  vesa := vesaInit deskMode Vesa.boot
  gui := ⟨⟨0, 0, 0, 0, false, 0, 0⟩, fun _ => 0, 0, fun _ _ => 0, 0, fun _ => 0, false,
    ⟨0, 0, 0, 0, 0⟩, 0⟩
  tmp := ⟨0, 0, 0, 0, 0⟩
  point := .wait .before

theorem bootDesktop_displays : bootDesktop.Displays deskMode Vesa.boot where
  accepted := by decide
  inside := by decide
  vesa := rfl
  rows _ _ := rfl
  roomy := ⟨by decide, by decide⟩
  fits := by decide
  spacious := ⟨by decide, by decide⟩

/-- The key with the letter a wakes the loop, and it comes as far as the keys. -/
def letterTyped : List DeskEvent := .statement :: .key 0x1E :: List.replicate 5 .statement

/-- The pointer is moved up to the title bar of the window, and the button is pressed there. -/
def titlePressed : List DeskEvent :=
  .statement :: ([0x08, 0, 127, 0x09, 0, 113] : List UInt8).map (.mouse 0x20) ++
    List.replicate 8 .statement

/-! ## Any run -/

section Run

variable {m : ModeInfo} {d : Desktop} {v : Vesa}

/-- Between two steps of any run. -/
theorem typed_run (hd : d.Ready m v) (es : List DeskEvent) :
    (∃ held, (run DeskRun.step (.boot d) es).keys.Inv held) ∧
      (run DeskRun.step (.boot d) es).Typed := by
  have hstep : ∀ (r : DeskRun) (e : DeskEvent), ((∃ held, r.keys.Inv held) ∧ r.Typed) →
      (∃ held, (r.step e).keys.Inv held) ∧ (r.step e).Typed := by
    rintro r e ⟨⟨held, hkeys⟩, htyped⟩
    rw [r.step_keys e]
    exact ⟨DeskRun.keysAfter_inv hkeys e, htyped.step e⟩
  exact run_of_step hstep es ⟨⟨[], keys_boot hd⟩, typed_boot hd⟩

/-- **The terminal is the one the keys make.** Whatever comes between the statements of `gui_run`,
every character the keyboard's handler has accepted is in its buffer or has been taken out, in the
order typed, and the buffers of `gui.c` hold the terminal that those taken out make. -/
theorem gui_terminal (hd : d.Ready m v) (es : List DeskEvent) :
    let r := run DeskRun.step (.boot d) es
    ∃ held,
      Ring.Holds r.desk.keyboard.kbdBuf kbdBufSize r.desk.keyboard.kbdHead r.desk.keyboard.kbdTail
        held ∧
      r.accepted = r.returned ++ held ∧ GuiShows r.desk.gui (Terminal.keys r.returned) := by
  intro r
  obtain ⟨⟨held, hkeys⟩, htyped⟩ := typed_run hd es
  exact ⟨held, hkeys.ring, hkeys.conserved, htyped.shows⟩

theorem gui_terminal_letter :
    let r := run DeskRun.step (.boot bootDesktop) letterTyped
    r.accepted = ascii "a" ∧ r.returned = ascii "a" ∧
      GuiShows r.desk.gui (Terminal.keys (ascii "a")) := by
  intro r
  have hreturned : r.returned = ascii "a" := by decide +kernel
  have haccepted : r.accepted = ascii "a" := by decide +kernel
  obtain ⟨held, -, -, hshows⟩ := gui_terminal bootDesktop_displays.toReady letterTyped
  refine ⟨haccepted, hreturned, ?_⟩
  rw [← hreturned]
  exact hshows

theorem Desktop.Opens.inv_run (h : d.Opens m v) (es : List DeskEvent) :
    (run DeskRun.step (.boot d) es).Inv m (history d es) := by
  induction es using List.reverseRecOn with
  | nil => exact inv_boot h
  | append_singleton es e ih =>
    have hlast : run DeskRun.step (.boot d) (es ++ [e]) =
        (run DeskRun.step (.boot d) es).step e := by
      rw [run_append, run_cons, run_nil]
    rw [hlast]
    -- what the step adds to the history is there behind it
    refine (ih.mono (history_le (List.prefix_append ..))).step h.spacious e
      (fun hpoint => ⟨es, List.prefix_append .., hpoint, rfl⟩) fun hasleep => ?_
    exact ⟨es ++ [e], List.prefix_refl _, .inr (hlast ▸ hasleep), by rw [hlast]⟩

/-- **The window stays on the desktop**, the pointer on the screen, and a window that is dragged is
where the pointer has it, or at the edge of the desktop that is nearest. -/
theorem gui_window (h : d.Opens m v) (es : List DeskEvent) :
    WindowOk m (run DeskRun.step (.boot d) es).desk.gui :=
  (h.inv_run es).window

theorem gui_window_pressed :
    Grip deskMode (run DeskRun.step (.boot bootDesktop) titlePressed).desk.gui := by
  have hwindow := gui_window bootDesktop_displays.toOpens titlePressed
  exact hwindow.grip (by decide +kernel)

end Run

end OsU
