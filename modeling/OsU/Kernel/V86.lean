import OsU.Lib.WordMem

/-!
# `v86.c` — BIOS calls in virtual 8086 mode

The fault handler and its emulator get the registers that the interrupt stub has saved
as an array of words, `regs` for the one and `esp` for the other; `SavedReg` has the
place of each field of `registers_t` in it. The model indexes the array as the code
does, by number, and leaves it to the results to say which field a number is.

The frame is on the kernel's stack and kept apart from the memory below 1 MB that the
emulated instructions read and write. The stack of the virtual machine is in that
memory, addressed by the words the emulator takes for SS and SP.

The instructions for ports and HLT are stepped over, as in the source: no port is read
or written, so the model has none.
-/

set_option autoImplicit false

namespace OsU

/-- EFLAGS_VM -/
def eflagsVm : BitVec 32 := 0x00020000

/-- EFLAGS_IF -/
def eflagsIf : BitVec 32 := 0x00000200

/-- The fields of `registers_t`, in order. -/
inductive SavedReg where
  | edi | esi | ebp | esp | ebx | edx | ecx | eax
  | gs | fs | es | ds | intNo | errCode | eip | cs | eflags
  deriving DecidableEq, Repr

/-- The word of the frame a field is. -/
def SavedReg.index (r : SavedReg) : Nat := r.ctorIdx

/-- What `v86_handle_gpf` stores through `v86_regs`, when the call is over. -/
structure BiosRegs where
  ax : BitVec 16
  bx : BitVec 16
  cx : BitVec 16
  dx : BitVec 16
  deriving DecidableEq

/-- The variables of `v86.c`, with the frame of the fault and the memory. -/
structure V86 where
  active : Bool
  /-- `*v86_regs` -/
  regs : Option BiosRegs
  done : Bool
  frame : Nat → BitVec 32
  mem : WordMem

namespace V86

/-- A word of the frame is set. -/
def setReg (i : Nat) (v : BitVec 32) (s : V86) : V86 :=
  { s with frame := Function.update s.frame i v }

/-- The linear address of a segment and an offset, in 20 bits. -/
def stackTop (s : V86) : BitVec 32 := ((s.frame 11 <<< 4) + s.frame 3) &&& 0xFFFFF

/-- The entry of an interrupt in the vector table at 0: offset and segment. -/
def ivt (s : V86) (n : BitVec 8) : BitVec 16 × BitVec 16 :=
  (s.mem.load16 (4 * n.setWidth 32), s.mem.load16 (4 * n.setWidth 32 + 2))

/-- The low half of a word. -/
def low (v : BitVec 32) : BitVec 16 := v.setWidth 16

/-- `emulate_instruction`: how far the instruction pointer is to be moved, -1 for an
instruction it does not know. INT pushes and jumps by writing the words of the frame,
and IRET pops into them. -/
def emulateInstruction (ip : BitVec 32) (s : V86) : Int × V86 :=
  let opcode := s.mem ip
  let v86Sp := s.stackTop
  if opcode = 0xCD then
    let intNum := s.mem (ip + 1)
    if intNum = 0xFF then (2, { s with done := true })
    else
      let new := s.ivt intNum
      let mem := s.mem.store16 (v86Sp - 2) (low (s.frame 10))
      let mem := mem.store16 (v86Sp - 4) (low (s.frame 9))
      let mem := mem.store16 (v86Sp - 6) (low (s.frame 8 + 2))
      let s := { s with mem := mem }.setReg 3 ((v86Sp - 6) &&& 0xFFFF)
      (0, (s.setReg 8 (new.1.setWidth 32)).setReg 9 (new.2.setWidth 32))
  else if opcode = 0xCF then
    let newIp := s.mem.load16 v86Sp
    let newCs := s.mem.load16 (v86Sp + 2)
    let newFlags := s.mem.load16 (v86Sp + 4)
    let s := s.setReg 3 ((v86Sp + 6) &&& 0xFFFF)
    let s := (s.setReg 8 (newIp.setWidth 32)).setReg 9 (newCs.setWidth 32)
    (0, s.setReg 10 ((s.frame 10 &&& 0xFFFF0000) ||| newFlags.setWidth 32))
  else if opcode = 0xFA then (1, s.setReg 10 (s.frame 10 &&& ~~~eflagsIf))
  else if opcode = 0xFB then (1, s.setReg 10 (s.frame 10 ||| eflagsIf))
  else if opcode = 0x9C then
    let mem := s.mem.store16 (v86Sp - 2) (low (s.frame 10))
    (1, { s with mem := mem }.setReg 3 ((v86Sp - 2) &&& 0xFFFF))
  else if opcode = 0x9D then
    let flags := s.mem.load16 v86Sp
    let s := s.setReg 3 ((v86Sp + 2) &&& 0xFFFF)
    (1, s.setReg 10 ((s.frame 10 &&& 0xFFFF0000) ||| flags.setWidth 32))
  else if opcode = 0xF4 ∨ opcode = 0xEE ∨ opcode = 0xEF ∨ opcode = 0xEC ∨ opcode = 0xED then (1, s)
  else (-1, s)

/-- The linear address of an instruction. -/
def codeAddr (cs ip : BitVec 16) : BitVec 32 := (cs.setWidth 32 <<< 4) + ip.setWidth 32

/-- `v86_handle_gpf`. The first test is whether a call is under way, the second is a bit
of a word of the frame, and everything else is behind these. -/
def handleGpf (s : V86) : Int × V86 :=
  if s.active = false then (0, s)
  else if s.frame 2 &&& eflagsVm = 0 then (0, s)
  else
    let r := s.emulateInstruction (codeAddr (low (s.frame 1)) (low (s.frame 0)))
    let s := r.2
    if r.1 < 0 then (1, { s with done := true })
    else
      let s := if r.1 > 0 then s.setReg 0 (s.frame 0 + BitVec.ofInt 32 r.1) else s
      if s.done then
        (1, { s with
          regs := s.regs.map fun _ =>
            ⟨low (s.frame 7), low (s.frame 6), low (s.frame 5), low (s.frame 4)⟩
          active := false })
      else (1, s)

end V86

end OsU
