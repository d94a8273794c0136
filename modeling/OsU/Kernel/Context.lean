import OsU.Lib.WordMem

/-!
# `context.asm` — the context switch

The few 386 instructions `context_switch` is written with, at privilege level 0, and the
routine itself as a list of them. `eip` is where the `ret` that ends the routine goes;
inside the routine control only moves forward, so a branch is the number of instructions
it skips, and running a list is by recursion on it.

## What an instruction is

Each instruction has its effect on the general registers, `esp`, the flags and memory,
and nothing is left out of these: the flags that `test` writes are written, because
`popfd` then has to be seen to bring them back. `pushfd` and `popfd` do not move every
flag: the image `pushfd` stores has VM and RF clear, and `popfd` leaves VM, VIF and VIP
as they were, clears RF and keeps bit 1 set. "Resumes with its flags" can therefore only
mean the flags `popfd` writes.

Addresses wrap in 32 bits, and memory is words at any address, aligned or not. There is
no stack segment limit and no paging; the kernel runs with flat segments.
-/

set_option autoImplicit false

namespace OsU

/-- The general registers other than `esp`. -/
inductive Reg where
  | eax | ecx | edx | ebx | ebp | esi | edi
  deriving DecidableEq, Repr

/-- The part of the processor that the routine reads and writes. -/
structure Cpu where
  reg : Reg → BitVec 32
  esp : BitVec 32
  eip : BitVec 32
  eflags : BitVec 32
  mem : WordMem

/-- ZF, the flag `jz` tests. -/
def zeroFlag : BitVec 32 := 0x40

/-- The flags `test` writes: CF, PF, ZF, SF and OF. -/
def testMask : BitVec 32 := 0x8C5

/-- The flags `popfd` does not write: VM, VIF and VIP. -/
def keptMask : BitVec 32 := 0x1A0000

/-- The flags `popfd` writes. -/
def popfdMask : BitVec 32 := 0x247FD5

/-- The word `pushfd` stores. -/
def pushfdImage (f : BitVec 32) : BitVec 32 := f &&& 0x00FCFFFF

/-- EFLAGS after `popfd` of the word `v`: some flags are those of before, some are those
of the word, and bit 1 is always set. -/
def popfdFlags (f v : BitVec 32) : BitVec 32 := f &&& keptMask ||| v &&& popfdMask ||| 2

/-- Do an even number of the low eight bits stand? -/
def evenParity (v : BitVec 32) : Bool := ((List.range 8).countP fun i => v.getLsbD i) % 2 == 0

/-- EFLAGS after `test` of a value against itself. CF and OF are clear, SF and PF are
those of the value. -/
def testFlags (f v : BitVec 32) : BitVec 32 :=
  f &&& ~~~testMask ||| (if v = 0 then zeroFlag else 0) |||
    (if v.msb then 0x80 else 0) ||| (if evenParity v then 0x4 else 0)

/-- The instructions of the routine, with the operands it uses them with. -/
inductive Instr where
  | pushfd
  | popfd
  | ret
  /-- `push r` -/
  | push (r : Reg)
  /-- `pop r` -/
  | pop (r : Reg)
  /-- `mov r, [esp + d]` -/
  | load (r : Reg) (d : BitVec 32)
  /-- `mov [r], esp` -/
  | saveEsp (r : Reg)
  /-- `mov esp, [esp + d]` -/
  | loadEsp (d : BitVec 32)
  /-- `test r, r` -/
  | test (r : Reg)
  /-- `jz`, over the next `n` instructions -/
  | jz (n : Nat)
  deriving DecidableEq, Repr

namespace Cpu

def setReg (c : Cpu) (r : Reg) (v : BitVec 32) : Cpu :=
  { c with reg := fun q => if q = r then v else c.reg q }

def pushWord (c : Cpu) (v : BitVec 32) : Cpu :=
  { c with esp := c.esp - 4, mem := c.mem.store (c.esp - 4) v }

/-- The word on top of the stack. -/
def top (c : Cpu) : BitVec 32 := c.mem.load c.esp

def dropWord (c : Cpu) : Cpu := { c with esp := c.esp + 4 }

/-- One instruction, other than the jump. -/
def exec (c : Cpu) : Instr → Cpu
  | .pushfd => c.pushWord (pushfdImage c.eflags)
  | .popfd => { c.dropWord with eflags := popfdFlags c.eflags c.top }
  | .ret => { c.dropWord with eip := c.top }
  | .push r => c.pushWord (c.reg r)
  | .pop r => c.dropWord.setReg r c.top
  | .load r d => c.setReg r (c.mem.load (c.esp + d))
  | .saveEsp r => { c with mem := c.mem.store (c.reg r) c.esp }
  | .loadEsp d => { c with esp := c.mem.load (c.esp + d) }
  | .test r => { c with eflags := testFlags c.eflags (c.reg r) }
  | .jz _ => c

/-- Run a routine to its end, skipping the first `skip` instructions. -/
def run (c : Cpu) : List Instr → Nat → Cpu
  | [], _ => c
  | _ :: rest, skip + 1 => c.run rest skip
  | .jz n :: rest, 0 => c.run rest (if c.eflags &&& zeroFlag = 0 then 0 else n)
  | i :: rest, 0 => (c.exec i).run rest 0

end Cpu

/-- `context_switch`, in the order of the source. The two offsets are those of the
arguments behind eight pushed words and the return address. -/
def contextSwitch : List Instr :=
  [.pushfd, .push .eax, .push .ecx, .push .edx, .push .ebx, .push .ebp, .push .esi, .push .edi,
   .load .eax 36, .test .eax, .jz 1, .saveEsp .eax,
   .loadEsp 40,
   .pop .edi, .pop .esi, .pop .ebp, .pop .ebx, .pop .edx, .pop .ecx, .pop .eax, .popfd, .ret]

/-- The general registers in the order `context_switch` pushes them. -/
def pushedRegs : List Reg := [.eax, .ecx, .edx, .ebx, .ebp, .esi, .edi]

/-! ## Flags -/

/-- The flags that `test` has written are all among those that `popfd` writes, so
nothing of them survives the routine. -/
theorem popfdFlags_testFlags (f v w : BitVec 32) :
    popfdFlags (testFlags f v) w = popfdFlags f w := by
  have hz : (if v = 0 then zeroFlag else 0) &&& keptMask = 0#32 := by split <;> decide
  have hs : (if v.msb then (0x80 : BitVec 32) else 0) &&& keptMask = 0#32 := by split <;> decide
  have hp : (if evenParity v then (0x4 : BitVec 32) else 0) &&& keptMask = 0#32 := by
    split <;> decide
  have hk : ~~~testMask &&& keptMask = keptMask := by decide
  simp only [popfdFlags, testFlags, BitVec.and_or_distrib_right, hz, hs, hp, BitVec.and_assoc, hk,
    BitVec.or_zero]

theorem testFlags_zero (f v : BitVec 32) : testFlags f v &&& zeroFlag = 0 ↔ v ≠ 0 := by
  have hs : (if v.msb then (0x80 : BitVec 32) else 0) &&& zeroFlag = 0#32 := by split <;> decide
  have hp : (if evenParity v then (0x4 : BitVec 32) else 0) &&& zeroFlag = 0#32 := by
    split <;> decide
  have hk : ~~~testMask &&& zeroFlag = 0#32 := by decide
  simp only [testFlags, BitVec.and_or_distrib_right, hs, hp, BitVec.and_assoc, hk, BitVec.or_zero,
    BitVec.and_zero, BitVec.zero_or]
  by_cases h : v = 0
  · rw [if_pos h]
    exact iff_of_false (by decide) (fun hv => hv h)
  · rw [if_neg h]
    exact iff_of_true (by decide) h

end OsU
