import OsU.Kernel.Keyboard
import OsU.Kernel.Mouse
import OsU.Kernel.Timer
import OsU.Kernel.Vesa
import OsU.Lib.CString
import OsU.Lib.TextBuffer

/-!
# `gui.c` — the desktop

A window with a terminal in it, a task bar and a pointer. `gui_run` is one loop: it waits for an
interrupt, polls the mouse and the keyboard, draws everything, presents it and sleeps. Interrupts
come between any two of its statements.

## What is one step here

- The two `hlt`, of the loop and of `timer_sleep`, are those of `OsU/Kernel/Timer.lean`: a loop that
  is halted there goes on behind an interrupt, and behind nothing else.
- The polls are there one statement at a time: they read what the handlers write.
- `vesa_present` is there one byte at a time: what it writes is seen as it is written.
- A call of a drawing function is one step. It writes to the back buffer, which no handler reads
  and which is not seen. So is what touches the variables of `gui.c` only, with the statement before.

What a drawing function does is given by the calls of `vesa.c` it makes, in their order. No other
process draws meanwhile.
-/

set_option autoImplicit false

namespace OsU

open CString ByteMem

/-- GUI_BAR_H -/
def guiBarH : Int32 := 24

/-- WIN_TITLE_H -/
def winTitleH : Int32 := 18

/-- WIN_PAD -/
def winPad : Int32 := 6

/-- `gui_window_t` -/
structure GuiWindow where
  x : Int32
  y : Int32
  w : Int32
  h : Int32
  dragging : Bool
  dragOffX : Int32
  dragOffY : Int32

/-- The globals of `gui.c`, and the locals of `gui_run` that outlive a round of its
loop. -/
structure Gui where
  mainWin : GuiWindow
  inputLine : ByteMem
  inputLen : Nat
  logLines : Nat → ByteMem
  logCount : Nat
  lastKey : ByteMem
  running : Bool
  ms : MouseState
  lastButtons : UInt8

/-! ## The terminal -/

/-- `gui_log_line`: into the next of eight rows, or, when all are in use, into the last
one after the others have moved up. Strings are cut at 63 bytes. -/
def guiLogLine (s : ByteMem) (g : Gui) : Gui :=
  if g.logCount < 8 then
    { g with
      logLines := Function.update g.logLines g.logCount (copyText s 63 0 (g.logLines g.logCount))
      logCount := g.logCount + 1 }
  else
    let rows := (List.range 7).foldl
      (fun rows i => Function.update rows i (moveText (rows (i + 1)) 63 0 (rows i))) g.logLines
    { g with logLines := Function.update rows 7 (copyText s 63 0 (rows 7)) }

/-- What the loop of `gui_run` does with a character: ESC ends the loop, a newline
closes the line and logs it if it is not empty, a rubout shortens it, and a printable
character is added as long as there is room. -/
def guiKey (c : UInt8) (g : Gui) : Gui :=
  if c = 27 then { g with running := false }
  else if c = 0x08 then if g.inputLen > 0 then { g with inputLen := g.inputLen - 1 } else g
  else if c = 0x0D then g
  else if c = 0x0A then
    let g := { g with inputLine := g.inputLine.put g.inputLen 0 }
    let g := if g.inputLen > 0 then guiLogLine g.inputLine g else g
    { g with inputLen := 0 }
  else
    let g := if 32 ≤ c ∧ c ≤ 126 ∧ g.inputLen + 1 < 128 then
      { g with inputLine := g.inputLine.put g.inputLen c, inputLen := g.inputLen + 1 } else g
    if 32 ≤ c ∧ c ≤ 126 then { g with lastKey := (g.lastKey.put 0 c).put 1 0 }
    else { g with lastKey := ((g.lastKey.put 0 0x5E).put 1 (0x40 + (c &&& 0x1F))).put 2 0 }

/-! ## The window -/

/-- Is the left button down? -/
def leftButton (buttons : UInt8) : Bool := buttons &&& 0x01 ≠ 0

/-- The point is in the title bar. -/
def GuiWindow.inTitle (win : GuiWindow) (mx my : Int32) : Bool :=
  mx ≥ win.x ∧ mx < win.x + win.w ∧ my ≥ win.y ∧ my < win.y + winTitleH

/-- A drag begins with the button, on the title bar, and ends with it. Only the edges
count: a button that was down before the pointer came to the title bar does not begin
one. The offset keeps the point of the window that was taken under the pointer. -/
def guiButtons (g : Gui) : Gui :=
  if leftButton g.ms.buttons = true ∧ leftButton g.lastButtons = false then
    if g.mainWin.inTitle g.ms.x g.ms.y then
      { g with mainWin := { g.mainWin with
          dragging := true
          dragOffX := g.ms.x - g.mainWin.x
          dragOffY := g.ms.y - g.mainWin.y } }
    else g
  else if leftButton g.ms.buttons = false ∧ leftButton g.lastButtons = true then
    { g with mainWin := { g.mainWin with dragging := false } }
  else g

/-- `(int)vesa_width` -/
def Vesa.widthInt (s : Vesa) : Int32 := Int32.ofInt s.width.toNat

/-- `(int)vesa_height` -/
def Vesa.heightInt (s : Vesa) : Int32 := Int32.ofInt s.height.toNat

/-- A window that is dragged follows the pointer, as far as the desktop goes. The two
bounds are applied one after the other, so on a screen smaller than the window the
second one wins. -/
def guiMove (s : Vesa) (g : Gui) : Gui :=
  let win := g.mainWin
  if win.dragging = false then g
  else
    let x := g.ms.x - win.dragOffX
    let y := g.ms.y - win.dragOffY
    let x := if x < 0 then 0 else x
    let y := if y < 0 then 0 else y
    let x := if x + win.w > s.widthInt then s.widthInt - win.w else x
    let y := if y + win.h > s.heightInt - guiBarH then s.heightInt - guiBarH - win.h else y
    { g with mainWin := { win with x := x, y := y } }

/-! ## Drawing -/

/-- VESA_RGB -/
def vesaRgb (r g b : UInt32) : UInt32 := r <<< 16 ||| g <<< 8 ||| b

/-- `vesa_draw_line`, for as many rounds as its loop takes: the longer of the two
distances, and one for the first point. -/
def lineCall (x0 y0 x1 y1 : BitVec 32) (color : UInt32) : DrawOp :=
  .drawLine (max (x1.toInt - x0.toInt).natAbs (y1.toInt - y0.toInt).natAbs + 1) x0 y0 x1 y1 color

/-- The loop of `vesa_put_string`, in the column `cx`. -/
def putStringFrom (x : BitVec 32) (fg bg : UInt32) :
    BitVec 32 → BitVec 32 → List UInt8 → List DrawOp
  | _, _, [] => []
  | cx, y, c :: s =>
    if c = 0x0A then putStringFrom x fg bg x (y + 16) s
    else .putChar cx y c fg bg :: putStringFrom x fg bg (cx + 8) y s

/-- `vesa_put_string` -/
def vesaPutString (x y : BitVec 32) (s : List UInt8) (fg bg : UInt32) : List DrawOp :=
  putStringFrom x fg bg x y s

/-- `vesa_draw_rect` -/
def vesaDrawRect (x y w h : BitVec 32) (color : UInt32) : List DrawOp :=
  [lineCall x y (x + w - 1) y color, lineCall x (y + h - 1) (x + w - 1) (y + h - 1) color,
    lineCall x y x (y + h - 1) color, lineCall (x + w - 1) y (x + w - 1) (y + h - 1) color]

/-- The color of a row of the background. -/
def backgroundColor (s : Vesa) (y : Nat) : UInt32 :=
  let shade := UInt8.ofNat (40 + y * 80 / s.height.toNat)
  vesaRgb (shade / 2).toUInt32 (shade / 2).toUInt32 shade.toUInt32

/-- `draw_background` -/
def drawBackground (s : Vesa) : List DrawOp :=
  (List.range s.height.toNat).map fun y =>
    lineCall 0 (.ofNat 32 y) (.ofNat 32 s.width.toNat - 1) (.ofNat 32 y) (backgroundColor s y)

/-- The digits that `draw_taskbar` writes to `tmp`, the last one first. -/
def secondsDigits : Nat → BitVec 32 → List UInt8
  | 0, _ => []
  | t + 1, secs =>
    if secs = 0 then [] else UInt8.ofNat (0x30 + (secs % 10).toNat) :: secondsDigits t (secs / 10)

/-- The seconds since the start, as `draw_taskbar` writes them to `buf`. -/
def secondsText (ticks : BitVec 32) : List UInt8 :=
  let secs := ticks / timerFreq
  (if secs = 0 then ascii "0" else (secondsDigits 16 secs).reverse) ++ ascii "s"

/-- `draw_taskbar`: a bar along the lower edge with a line above it, the name at its
left and the seconds at its right. The text is right aligned by its length, and at the
left edge where the screen is too narrow for it. -/
def drawTaskbar (s : Vesa) (ticks : BitVec 32) : List DrawOp :=
  let y := (s.heightInt - guiBarH).toBitVec
  let width := s.widthInt.toBitVec
  let bar := vesaRgb 20 20 30
  let buf := secondsText ticks
  let tx := s.widthInt - Int32.ofInt (buf.length * 8) - 8
  let tx := if tx < 0 then 0 else tx
  [.fillRect 0 y width guiBarH.toBitVec bar, lineCall 0 y (width - 1) y (vesaRgb 80 80 120)] ++
    vesaPutString 8 (y + 4) (ascii "OsU") 0xFFFFFF bar ++
    vesaPutString tx.toBitVec (y + 4) buf 0xFFFFFF bar

/-- The prompt and the line behind it. -/
def promptText (g : Gui) : List UInt8 :=
  (ascii "> " ++ g.inputLine.toList (min g.inputLen 157)).takeWhile (· ≠ 0)

/-- The calls of `draw_window`, for the strings that it finds in the buffers: `n` lines of the log,
and the prompt. -/
def windowCalls (win : GuiWindow) (n : Nat) (line : Nat → List UInt8) (prompt : List UInt8) :
    List DrawOp :=
  let x := win.x.toBitVec
  let y := win.y.toBitVec
  let w := win.w.toBitVec
  let h := win.h.toBitVec
  let title := winTitleH.toBitVec
  let contentX := x + winPad.toBitVec
  let contentY := y + title + winPad.toBitVec
  let inner := vesaRgb 30 30 40
  [.fillRect x y w h inner] ++ vesaDrawRect x y w h (vesaRgb 120 120 160) ++
    [.fillRect x y w title (vesaRgb 50 50 80),
      lineCall x (y + title - 1) (x + w - 1) (y + title - 1) (vesaRgb 90 90 120)] ++
    vesaPutString contentX (y + 2) (ascii "OsU Terminal") 0xFFFFFF (vesaRgb 50 50 80) ++
    (List.range n).flatMap (fun i =>
      vesaPutString contentX (contentY + .ofNat 32 (i * 16)) (line i) (vesaRgb 210 230 255)
        inner) ++
    vesaPutString contentX (contentY + .ofNat 32 (6 * 16)) prompt 0x00FF00 inner

/-- `draw_window` -/
def drawWindow (g : Gui) : List DrawOp :=
  windowCalls g.mainWin (min g.logCount 6) (fun i => (g.logLines i).text 64) (promptText g)

/-- The call of `gui_run` that shows the last key. -/
def drawLastKey (g : Gui) : List DrawOp :=
  if g.lastKey 0 = 0 then []
  else
    vesaPutString (g.mainWin.x + winPad).toBitVec (g.mainWin.y + g.mainWin.h - 20).toBitVec
      (g.lastKey.text 16) 0xFFFF00 (vesaRgb 30 30 40)

/-- `draw_cursor` -/
def drawCursor (x y : BitVec 32) : List DrawOp :=
  [.fillRect x y 8 8 0xFFFFFF] ++ vesaDrawRect x y 8 8 0 ++ [.putPixel (x + 3) (y + 3) 0]

/-- What is drawn in front of the background. -/
def drawForeground (s : Vesa) (ticks : BitVec 32) (g : Gui) : List DrawOp :=
  drawTaskbar s ticks ++ drawWindow g ++ drawLastKey g ++ drawCursor g.ms.x.toBitVec g.ms.y.toBitVec

/-! ## The loop, one statement at a time -/

/-- Where `mouse_poll` is. -/
inductive Poll where
  | test | x | y | buttons | dx | dy | clear
  deriving DecidableEq, Repr

/-- Where `gui_run` is. A point is between two statements, or inside a call that is
there in more than one step; what such a call has left to do is in the point itself. -/
inductive GuiPoint where
  /-- At the `sti; hlt` of its loop. -/
  | wait (h : Hlt)
  /-- In `mouse_poll`. -/
  | poll (p : Poll)
  /-- In `keyboard_try_getchar`, at the statement its `Dequeue` names. -/
  | keys
  /-- In `draw_background`, with the calls that are left. -/
  | background (calls : List DrawOp)
  /-- In the drawing behind it. -/
  | foreground (calls : List DrawOp)
  /-- In `vesa_present`, with `i` bytes copied. -/
  | present (i : Nat)
  /-- In `timer_sleep`. -/
  | sleep (s : Sleep)
  /-- Returned. -/
  | done

/-- Behind an interrupt: a processor that was halted goes on. -/
def GuiPoint.interrupt : GuiPoint → GuiPoint
  | .wait h => .wait h.interrupt
  | .sleep s => .sleep s.interrupt
  | p => p

/-- The drivers, and `gui_run` among their interrupts. Each driver is the one of its own
module, with all of its globals: what a handler leaves for `gui_run` is left in them,
and nowhere else. -/
structure Desktop where
  keyboard : Keyboard
  dequeue : Dequeue
  mouse : Mouse
  timer : Timer
  vesa : Vesa
  gui : Gui
  /-- `tmp` -/
  tmp : MouseState
  point : GuiPoint

/-- `keyboard_flush` -/
def Keyboard.flush (k : Keyboard) : Keyboard :=
  { k with kbdHead := 0, kbdTail := 0, extendedKey := 0 }

/-- `gui_run` up to its loop. Without a graphics mode it returns at once. What is in
`input_line` and in the rows of the log from an earlier run stays there; the two counts
make it unseen. What `mouse_init` says to the controller is not here, it reads and
writes no variable. -/
def guiStart (d : Desktop) : Desktop :=
  if d.vesa.enabled = false then { d with point := .done }
  else
    let s := vesaSetBackbuffer true d.vesa
    let win := { d.gui.mainWin with x := 80, y := 60, w := 520, h := 240, dragging := false }
    let g := { d.gui with
      mainWin := win
      inputLen := 0
      logCount := 0
      lastKey := d.gui.lastKey.put 0 0 }
    let g := guiLogLine (ofList (ascii "GUI ready. Type text and press Enter.")) g
    let g := guiLogLine (ofList (ascii "ESC exits to shell.")) g
    { d with
      keyboard := d.keyboard.flush
      dequeue := .test
      mouse := (d.mouse.setBounds s.widthInt s.heightInt).init
      vesa := s
      gui := { g with
        running := true
        ms := { x := s.widthInt / 2, y := s.heightInt / 2, buttons := 0, dx := 0, dy := 0 }
        lastButtons := 0 }
      point := .wait .before }

/-- What follows the poll of the mouse, up to the poll of the keyboard. -/
def Desktop.polled (d : Desktop) (ms : MouseState) : Desktop :=
  { d with gui := guiMove d.vesa (guiButtons { d.gui with ms := ms }), point := .keys }

/-- The next statement of `mouse_poll`. A packet that comes in the middle of it is seen
in the fields that have not been read yet, and lost with the flag that the last
statement clears. The loop takes `tmp` only when `mouse_poll` has answered that there
was something new. -/
def Desktop.pollMouse (d : Desktop) : Poll → Desktop
  | .test =>
    if d.mouse.mouseUpdated = false then d.polled d.gui.ms else { d with point := .poll .x }
  | .x => { d with tmp := { d.tmp with x := d.mouse.mouseX }, point := .poll .y }
  | .y => { d with tmp := { d.tmp with y := d.mouse.mouseY }, point := .poll .buttons }
  | .buttons => { d with tmp := { d.tmp with buttons := d.mouse.mouseButtons }, point := .poll .dx }
  | .dx => { d with tmp := { d.tmp with dx := d.mouse.mouseDx }, point := .poll .dy }
  | .dy => { d with tmp := { d.tmp with dy := d.mouse.mouseDy }, point := .poll .clear }
  | .clear => { d with mouse := { d.mouse with mouseUpdated := false } }.polled d.tmp

/-- The next statement of `keyboard_try_getchar`, and what the loop does with its
character. The loop calls it until the ring is empty; ESC leaves that loop at once, with
the characters behind it still in the ring, and the picture is drawn once more. -/
def Desktop.pollKeys (d : Desktop) : Desktop :=
  let r := d.dequeue.next d.keyboard
  let d' := { d with dequeue := r.1, keyboard := r.2.1 }
  match r.2.2 with
  | some c =>
    let g := guiKey c d.gui
    { d' with gui := g, point := if g.running then .keys else .background (drawBackground d.vesa) }
  | none =>
    if d.dequeue = .test ∧ r.1 = .test then
      { d' with point := .background (drawBackground d.vesa) }
    else d'

/-- The next statement of `gui_run`. At an `hlt` there is none as long as the processor is halted:
the state stays what it is until an interrupt comes. In `vesa_present` the bounds of the loop are
those of the mode, which nothing changes meanwhile. -/
def Desktop.statement (d : Desktop) : Desktop :=
  match d.point with
  | .wait h =>
    match h.next with
    | some h => { d with point := .wait h }
    | none => { d with point := .poll .test }
  | .poll p => d.pollMouse p
  | .keys => d.pollKeys
  | .background [] =>
    -- the ticks that `draw_taskbar` shows are those of this moment
    { d with point := .foreground (drawForeground d.vesa d.timer.tickCount d.gui) }
  | .background (op :: calls) => { d with vesa := op.step d.vesa, point := .background calls }
  | .foreground [] => { d with point := .present 0 }
  | .foreground (op :: calls) => { d with vesa := op.step d.vesa, point := .foreground calls }
  | .present i =>
    if i < d.vesa.presentTotal then
      { d with vesa := d.vesa.presentByte i, point := .present (i + 1) }
    else
      { d with
        gui := { d.gui with lastButtons := d.gui.ms.buttons }
        point := .sleep (timerSleep 16 d.timer) }
  | .sleep s =>
    match s.next d.timer with
    | some s => { d with point := .sleep s }
    | none =>
      if d.gui.running then { d with point := .wait .before }
      else { d with vesa := vesaSetBackbuffer false d.vesa, point := .done }
  | .done => d

/-- An interrupt, or the next statement of `gui_run`. -/
inductive DeskEvent where
  | key (scancode : UInt8)
  | mouse (status data : UInt8)
  | tick
  | statement

/-- A handler runs to its end before the next statement, with interrupts disabled;
behind it a halted processor goes on. -/
def Desktop.step : DeskEvent → Desktop → Desktop
  | .key scancode, d =>
    { d with keyboard := d.keyboard.irqHandler scancode, point := d.point.interrupt }
  | .mouse status data, d =>
    { d with mouse := d.mouse.irqHandler status data, point := d.point.interrupt }
  | .tick, d => { d with timer := d.timer.ticks 1, point := d.point.interrupt }
  | .statement, d => d.statement

end OsU
