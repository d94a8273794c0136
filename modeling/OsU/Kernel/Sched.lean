import OsU.Lib.Cyclic
import OsU.Lib.Runs
import OsU.Kernel.Process

/-!
# `process.c` — the scheduler

The rest of `process.c` as functions on the globals. A routine that can reach
`context_switch` takes `sp`, the stack pointer `context_switch` will save, and reports
what `schedule` did: the slot it made RUNNING, and the arguments of its call of
`context_switch` if it made one. Nothing in `process.c` touches the globals after that
call, so the effect of a routine is complete when the CPU leaves it, whether or not it
ever comes back.

## Where the stack pointer goes

The store through `old_sp` is made by `context_switch`, in another context's time, and
is part of the routine here (`saveSp`), because nothing reads the slot in between.
`old_sp` is null for no caller: with no current process `schedule` passes the address of
a local, and what is saved there is lost when `schedule` is left.

## What is not here

Interrupts, and which code calls these routines, are in `Entry`. A process that spins,
halts or returns does so between two calls and leaves no trace in the globals.
-/

set_option autoImplicit false

namespace OsU

/-- The arguments of a call of `context_switch`: `old_sp` is `&process_table[i].stack_ptr` for
`some i`, and the address of a local of `schedule` for `none`. -/
structure SwitchArgs where
  oldSp : Option (Fin 16)
  newSp : BitVec 32
  deriving DecidableEq, Repr

/-- A `schedule` that found a process: the slot, and its call of `context_switch`. -/
structure Dispatch where
  next : Fin 16
  switch : Option SwitchArgs
  deriving DecidableEq, Repr

namespace Procs

def modify (k : Procs) (i : Fin 16) (f : Process → Process) : Procs :=
  { k with table := fun j => if j = i then f (k.table j) else k.table j }

def setState (k : Procs) (i : Fin 16) (st : ProcessState) : Procs :=
  k.modify i fun p => { p with state := st }

/-- The slot's process has ended: a zombie, with its exit code. -/
def markZombie (k : Procs) (i : Fin 16) (code : Int) : Procs :=
  k.modify i fun p => { p with state := .zombie, exitCode := code }

/-- `find_process` -/
def findProcess (k : Procs) (pid : BitVec 32) : Option (Fin 16) :=
  (List.finRange 16).find? fun i => (k.table i).pid = pid ∧ (k.table i).state ≠ .unused

/-- `cleanup_zombies`: their slots are free, and nothing else about them is reset. -/
def cleanupZombies (k : Procs) : Procs :=
  { k with table := fun i =>
      if (k.table i).state = .zombie then { k.table i with state := .unused, pid := 0 }
      else k.table i }

/-- Where `schedule` starts its search: after the current slot. -/
def start (k : Procs) : Nat :=
  match k.current with
  | some i => i + 1
  | none => 0

/-- The search of `schedule` for the next READY slot: once around the table, from behind
the current slot, which is looked at last. -/
def search (k : Procs) : Option (Fin 16) :=
  Cyclic.scan (fun i => (k.table i).state = .ready) k.start

/-- A RUNNING current process is READY again. -/
def requeue (k : Procs) : Procs :=
  match k.current with
  | some o => if (k.table o).state = .running then k.setState o .ready else k
  | none => k

/-- `context_switch` storing the stack pointer through `&process_table[i].stack_ptr`. -/
def saveSp (k : Procs) (i : Fin 16) (sp : BitVec 32) : Procs :=
  k.modify i fun p => { p with stackPtr := sp }

/-- The end of `schedule`, with `next` found. If that is the current slot, it goes on
without a switch. -/
def switchTo (k : Procs) (next : Fin 16) (sp : BitVec 32) : Procs × Dispatch :=
  let k' := { k.requeue.setState next .running with current := some next }
  match k.current with
  | some o =>
    if o ≠ next then
      (k'.saveSp o sp, ⟨next, some ⟨some o, (k'.table next).stackPtr⟩⟩)
    else (k', ⟨next, none⟩)
  | none => (k', ⟨next, some ⟨none, (k'.table next).stackPtr⟩⟩)

end Procs

/-- `schedule`. Zombies are cleared away first, the current one among them, if it has
just ended; when no slot is READY the caller goes on, whatever its slot is by then. -/
def schedule (sp : BitVec 32) (k : Procs) : Procs × Option Dispatch :=
  if k.enabled = false then (k, none)
  else
    let k := k.cleanupZombies
    match k.search with
    | none => (k, none)
    | some next =>
      let r := k.switchTo next sp
      (r.1, some r.2)

/-- `process_exit`. A caller that `schedule` comes back to stays in its `hlt` loop. -/
def processExit (code : Int) (sp : BitVec 32) (k : Procs) : Procs × Option Dispatch :=
  match k.current with
  | none => (k, none)
  | some i => schedule sp (k.markZombie i code)

/-- `process_yield` -/
def processYield (sp : BitVec 32) (k : Procs) : Procs × Option Dispatch := schedule sp k

/-- `process_kill`: its result, the globals, and what `schedule` did. Another process is
only marked; its slot is cleared by the next `schedule`. -/
def processKill (pid sp : BitVec 32) (k : Procs) : Int × Procs × Option Dispatch :=
  match k.findProcess pid with
  | none => (-1, k, none)
  | some i =>
    let k' := k.markZombie i (-1)
    if k.current = some i then (0, schedule sp k') else (0, k', none)

/-- `scheduler_init` -/
def schedulerInit (k : Procs) : Procs := { k with enabled := true }

/-- The accounting of `scheduler_tick` for the current slot, before it looks at the slice. -/
def Process.tick (p : Process) : Process :=
  { p with
    totalTicks := p.totalTicks + 1
    timeSlice := if p.timeSlice.toNat > 0 then p.timeSlice - 1 else p.timeSlice }

/-- `scheduler_tick`: nothing without a current process. The slice is refilled when it
has come to 0, and then `schedule` decides. -/
def schedulerTick (sp : BitVec 32) (k : Procs) : Procs × Option Dispatch :=
  match k.enabled, k.current with
  | true, some i =>
    let k := k.modify i Process.tick
    if (k.table i).timeSlice = 0 then
      schedule sp (k.modify i fun p => { p with timeSlice := 10 })
    else (k, none)
  | _, _ => (k, none)

/-- A call of one of the routines of `process.c`, whoever makes it: also those that
nothing in the kernel calls. `sp` is the stack pointer at the call, which a switch
saves. -/
inductive ProcOp where
  | create (name : List UInt8) (entry : BitVec 32)
  | kill (pid sp : BitVec 32)
  | exit (code : Int) (sp : BitVec 32)
  | yield (sp : BitVec 32)
  | init
  | tick (sp : BitVec 32)

/-- The globals after a call, and what `schedule` did in it. -/
def ProcOp.exec (img : Image) : ProcOp → Procs → Procs × Option Dispatch
  | .create name entry, k => ((processCreate img k name entry).2, none)
  | .kill pid sp, k => (processKill pid sp k).2
  | .exit code sp, k => processExit code sp k
  | .yield sp, k => processYield sp k
  | .init, k => (schedulerInit k, none)
  | .tick sp, k => schedulerTick sp k

/-- The stack pointer the call's `context_switch` saves, if it makes one. -/
def ProcOp.sp : ProcOp → BitVec 32
  | .create _ _ => 0
  | .kill _ sp => sp
  | .exit _ sp => sp
  | .yield sp => sp
  | .init => 0
  | .tick sp => sp

/-- The call ends the current process. -/
def ProcOp.EndsCurrent (k : Procs) : ProcOp → Prop
  | .exit _ _ => k.current ≠ none
  | .kill pid _ => ∃ i, k.findProcess pid = some i ∧ k.current = some i
  | _ => False

instance (k : Procs) : (op : ProcOp) → Decidable (op.EndsCurrent k)
  | .create _ _ => inferInstanceAs (Decidable False)
  | .kill pid _ =>
    inferInstanceAs (Decidable (∃ i, k.findProcess pid = some i ∧ k.current = some i))
  | .exit _ _ => inferInstanceAs (Decidable (k.current ≠ none))
  | .yield _ => inferInstanceAs (Decidable False)
  | .init => inferInstanceAs (Decidable False)
  | .tick _ => inferInstanceAs (Decidable False)

/-- The globals after a call. -/
def ProcOp.step (img : Image) (op : ProcOp) (k : Procs) : Procs := (op.exec img k).1

/-- The slot a call made RUNNING, if any. -/
def ProcOp.dispatched (img : Image) (op : ProcOp) (k : Procs) : Option (Fin 16) :=
  (op.exec img k).2.map Dispatch.next

end OsU
