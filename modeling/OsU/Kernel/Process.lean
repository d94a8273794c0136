import OsU.Lib.ByteMem
import OsU.Kernel.Context

/-!
# `process.c` — process slots

The process table and `process_create`. A slot's kernel stack is the array of words it
is in the source, `stack_ptr` is the address of one of them, and `Image` is where the
linker put the table and `process_wrapper`. `StackHeld` is the bridge to the machine
`context_switch` runs on: the part of the slot's stack from `stack_ptr` up is in memory
as the table has it.

The words `process_create` pushes are listed as the source pushes them, with its own
comments on what each is meant to be. What `context_switch` takes them for is another
matter (`Proof/Spawn`).

A slot is an index below 16, and `current_process` is a slot or the null pointer; that
it never points elsewhere is built in. The pid counter is 32 bits wide and comes round.
-/

set_option autoImplicit false

namespace OsU

/-- `process_state_t`. Nothing in the kernel makes a process BLOCKED. -/
inductive ProcessState where
  | unused
  | ready
  | running
  | blocked
  | zombie
  deriving DecidableEq, Repr

/-- `process_t`, but for `context`, which nothing reads or writes. The stack is the
array itself, as words; what a running process has pushed since is the processor's, not
this field's. -/
structure Process where
  pid : BitVec 32
  state : ProcessState
  stack : Fin 1024 → BitVec 32
  stackPtr : BitVec 32
  name : ByteMem
  priority : BitVec 32
  timeSlice : BitVec 32
  totalTicks : BitVec 32
  exitCode : Int

/-- A slot after `memset`. -/
def Process.zero : Process where
  pid := 0
  state := .unused
  stack := fun _ => 0
  stackPtr := 0
  name := fun _ => 0
  priority := 0
  timeSlice := 0
  totalTicks := 0
  exitCode := 0

/-- The globals of `process.c`; `current` is the slot `current_process` points to. That
it points into the table, or nowhere, is the type: nothing stores another pointer there.
-/
structure Procs where
  table : Fin 16 → Process
  current : Option (Fin 16)
  nextPid : BitVec 32
  enabled : Bool

/-- `process_init`: all slots unused, no current process, and the scheduler off until
`scheduler_init`. -/
def processInit : Procs where
  table := fun _ => .zero
  current := none
  nextPid := 1
  enabled := false

/-- Addresses the linker chooses. -/
structure Image where
  processTable : BitVec 32
  processWrapper : BitVec 32

/-- `&process_table[i].stack[j]`: a slot is 4196 bytes, its stack starts 48 bytes in. -/
def Image.stackAddr (img : Image) (i : Fin 16) (j : Fin 1024) : BitVec 32 :=
  img.processTable + BitVec.ofNat 32 (4196 * i + 48 + 4 * j)

/-- `find_free_slot` -/
def Procs.findFreeSlot (k : Procs) : Option (Fin 16) :=
  (List.finRange 16).find? fun i => (k.table i).state = .unused

/-- A stack under construction: the array, and the index `sp` is at. -/
abbrev StackBuild : Type := (Fin 1024 → BitVec 32) × Fin 1024

/-- `*sp = v` -/
def StackBuild.put (s : StackBuild) (v : BitVec 32) : StackBuild :=
  (fun j => if j = s.2 then v else s.1 j, s.2)

/-- `*sp-- = v` -/
def StackBuild.push (s : StackBuild) (v : BitVec 32) : StackBuild :=
  ((s.put v).1, s.2 - 1)

/-- The words `process_create` stores with `*sp-- = …`, in order, which is from the
highest address down. The comments are those of the source; what `context_switch` makes
of the words is another matter (`OsU/Proof/Switch.lean`). -/
def createdWords (img : Image) (entry : BitVec 32) : List (BitVec 32) :=
  [entry,               -- argument to wrapper
   0,                   -- fake return address
   img.processWrapper,  -- EIP
   0x202,               -- EFLAGS
   0, 0, 0, 0,          -- EAX, ECX, EDX, EBX
   0,                   -- ESP (placeholder)
   0, 0]                -- EBP, ESI

/-- The initial stack; the last store, of EDI, leaves `sp` in place. -/
def createdStack (img : Image) (entry : BitVec 32) : StackBuild :=
  ((createdWords img entry).foldl StackBuild.push (fun _ => 0, 1023)).put 0

/-- The slot `process_create` fills in, from a slot of zeros: the name is cut to 31
bytes, and the first time slice is 10 ticks. -/
def createdProcess (img : Image) (i : Fin 16) (pid : BitVec 32) (name : List UInt8)
    (entry : BitVec 32) : Process :=
  let len := min name.length 31
  { Process.zero with
    pid := pid
    state := .ready
    priority := 1
    timeSlice := 10
    name := (Process.zero.name.copy 0 (.ofList name) len).put len 0
    stack := (createdStack img entry).1
    stackPtr := img.stackAddr i (createdStack img entry).2 }

/-- `process_create`: the value it returns, and the globals after it. Without a free
slot nothing happens. -/
def processCreate (img : Image) (k : Procs) (name : List UInt8) (entry : BitVec 32) :
    Int × Procs :=
  match k.findFreeSlot with
  | none => (-1, k)
  | some i =>
    let p := createdProcess img i k.nextPid name entry
    (p.pid.toInt, { k with table := Function.update k.table i p, nextPid := k.nextPid + 1 })

/-- The stack of slot `i`, from `stack_ptr` up, is in memory as `p` has it. -/
def StackHeld (img : Image) (i : Fin 16) (p : Process) (m : WordMem) : Prop :=
  ∀ j sp : Fin 1024, p.stackPtr = img.stackAddr i sp → sp ≤ j →
    m.load (img.stackAddr i j) = p.stack j

/-! ## What `process_create` leaves -/

theorem findFreeSlot_unused {k : Procs} {i : Fin 16} (h : k.findFreeSlot = some i) :
    (k.table i).state = .unused := by
  simpa using List.find?_some h

theorem processCreate_table {k : Procs} {i : Fin 16} (h : k.findFreeSlot = some i) (img : Image)
    (name : List UInt8) (entry : BitVec 32) :
    (processCreate img k name entry).2.table i = createdProcess img i k.nextPid name entry := by
  simp [processCreate, h]

/-- The table after a `process_create` that found slot `i`: the slot is new, the others are kept. -/
theorem processCreate_slot {k : Procs} {i : Fin 16} (h : k.findFreeSlot = some i) (img : Image)
    (name : List UInt8) (entry : BitVec 32) (j : Fin 16) :
    (processCreate img k name entry).2.table j =
      if j = i then createdProcess img i k.nextPid name entry else k.table j := by
  by_cases hj : j = i
  · rw [if_pos hj, hj, processCreate_table h]
  · simp [processCreate, h, hj]

/-- Nothing else changes but the pid counter. -/
theorem processCreate_rest {k : Procs} {i : Fin 16} (h : k.findFreeSlot = some i) (img : Image)
    (name : List UInt8) (entry : BitVec 32) :
    (processCreate img k name entry).2.current = k.current ∧
      (processCreate img k name entry).2.enabled = k.enabled ∧
      (processCreate img k name entry).2.nextPid = k.nextPid + 1 := by
  simp [processCreate, h]

theorem processCreate_full {k : Procs} (h : k.findFreeSlot = none) (img : Image)
    (name : List UInt8) (entry : BitVec 32) :
    (processCreate img k name entry).2 = k := by
  simp [processCreate, h]

theorem createdStack_sp (img : Image) (entry : BitVec 32) :
    (createdStack img entry).2 = 1012 := by
  simp only [createdStack, createdWords, List.foldl_cons, List.foldl_nil, StackBuild.push,
    StackBuild.put]
  decide

/-- The twelve words of the frame, lowest address first. -/
theorem createdStack_frame (img : Image) (entry : BitVec 32) :
    [1012, 1013, 1014, 1015, 1016, 1017, 1018, 1019, 1020, 1021, 1022, 1023].map
        (createdStack img entry).1 =
      [0, 0, 0, 0, 0, 0, 0, 0, 0x202, img.processWrapper, 0, entry] := by
  simp [createdStack, createdWords, StackBuild.push, StackBuild.put]

/-- A word of the created stack sits as many words above `stack_ptr` as its index says. -/
theorem stackAddr_add (img : Image) (i : Fin 16) {j k : Fin 1024} (n : Nat)
    (h : k.val = j.val + n) :
    img.stackAddr i k = img.stackAddr i j + BitVec.ofNat 32 (4 * n) := by
  rw [Image.stackAddr, Image.stackAddr, h]
  have he : 4196 * i.val + 48 + 4 * (j.val + n) = 4196 * i.val + 48 + 4 * j.val + 4 * n := by ring
  rw [he, BitVec.ofNat_add, BitVec.add_assoc]

end OsU
