import Mathlib.Tactic

/-!
# `mouse.c` — the pointer

The interrupt handler takes one byte at a time from the PS/2 controller; three of them
are a packet, and the third moves the pointer. What `mouse_init` says to the controller
is left out: it is waiting and writing to ports, and sets nothing here.

The two ports are the arguments of the handler: what the status register reads, and what
the data register does. A byte that is not the mouse's, or that cannot begin a packet,
is passed over, and a packet that has lost a byte is completed by the first byte of the
next one.

The movements are the two low bytes of the packet taken as signed bytes. The sign bits
and the overflow bits that the first byte has for them are not looked at by the source,
nor here.
-/

set_option autoImplicit false

namespace OsU

/-- `mouse_state_t`, what `mouse_poll` copies for its caller. -/
structure MouseState where
  x : Int32
  y : Int32
  buttons : UInt8
  dx : Int8
  dy : Int8

/-- The globals of `mouse.c`. -/
structure Mouse where
  mouseX : Int32
  mouseY : Int32
  mouseButtons : UInt8
  mouseDx : Int8
  mouseDy : Int8
  mouseUpdated : Bool
  screenW : Int32
  screenH : Int32
  packet : Nat → UInt8
  packetIndex : Nat

namespace Mouse

/-- The globals as the kernel is loaded. -/
def boot : Mouse where
  mouseX := 0
  mouseY := 0
  mouseButtons := 0
  mouseDx := 0
  mouseDy := 0
  mouseUpdated := false
  screenW := 800
  screenH := 600
  packet := fun _ => 0
  packetIndex := 0

/-- The two tests that keep a coordinate on the screen. -/
def keepOn (size v : Int32) : Int32 :=
  let v := if v < 0 then 0 else v
  if v ≥ size then size - 1 else v

/-- What the handler does once the packet is complete. The two distances are signed
bytes; the bits of the first byte that would extend them, and those that say they
overflow, are not looked at. Up on the table is down in the packet, so the vertical one
is subtracted. -/
def takePacket (s : Mouse) : Mouse :=
  let b := s.packet 0
  let dx := (s.packet 1).toInt8
  let dy := (s.packet 2).toInt8
  let x := s.mouseX + dx.toInt32
  let y := s.mouseY - dy.toInt32
  { s with
    packetIndex := 0
    mouseX := keepOn s.screenW x
    mouseY := keepOn s.screenH y
    mouseButtons := b &&& 0x07
    mouseDx := dx
    mouseDy := dy
    mouseUpdated := true }

/-- `mouse_irq_handler`, with what the status port and the data port read. -/
def irqHandler (status data : UInt8) (s : Mouse) : Mouse :=
  if status &&& 0x20 = 0 then s
  else if s.packetIndex = 0 ∧ data &&& 0x08 = 0 then s
  else
    let s := { s with
      packet := Function.update s.packet s.packetIndex data
      packetIndex := s.packetIndex + 1 }
    if s.packetIndex < 3 then s else s.takePacket

/-- `mouse_set_bounds` -/
def setBounds (width height : Int32) (s : Mouse) : Mouse :=
  let s := if width > 0 then { s with screenW := width } else s
  let s := if height > 0 then { s with screenH := height } else s
  let s := if s.mouseX ≥ s.screenW then { s with mouseX := s.screenW - 1 } else s
  if s.mouseY ≥ s.screenH then { s with mouseY := s.screenH - 1 } else s

/-- `mouse_init` -/
def init (s : Mouse) : Mouse :=
  { s with
    packetIndex := 0
    mouseUpdated := false
    mouseX := s.screenW / 2
    mouseY := s.screenH / 2
    mouseButtons := 0 }

/-- `mouse_poll`: the state for the caller, when there is a new one. -/
def poll (s : Mouse) : Option MouseState × Mouse :=
  if s.mouseUpdated = false then (none, s)
  else
    (some
      { x := s.mouseX, y := s.mouseY, buttons := s.mouseButtons, dx := s.mouseDx, dy := s.mouseDy },
      { s with mouseUpdated := false })

end Mouse

/-- What happens to the driver: an interrupt, or a call of a function. -/
inductive MouseEvent where
  | irq (status data : UInt8)
  | setBounds (width height : Int32)
  | poll

def MouseEvent.step (s : Mouse) : MouseEvent → Mouse
  | irq status data => s.irqHandler status data
  | setBounds width height => s.setBounds width height
  | poll => s.poll.2

end OsU
