import OsU.Lib.CString
import OsU.Kernel.Sched

/-!
# `idt.c`, `timer.c`, `syscall.c`, `shell.c` — who calls the scheduler

`isr_handler_c` runs the handler of an interrupt and then, for the sixteen lines of the
PIC, acknowledges it with `outb(0x20, 0x20)`. Two handlers reach `process.c`: the
timer's, on interrupt 32, and the system call's, whose SYS_YIELD is a call of
`scheduler_tick`. Either can be left in the middle, by a switch, and is finished when
the context that was in it runs again: so `Machine` keeps for every slot where its
context was when it left the CPU.

The timer line is in service from the delivery of interrupt 32 to the next acknowledge,
and the PIC delivers none of its lines meanwhile. This is the whole of the PIC that
matters here; masks and priorities are not in the model, since the kernel unmasks all
lines it uses and the timer has the highest priority.

## A step

A step takes the machine from one moment outside interrupt handlers to the next. If a
handler is left by a switch, the step goes on in the context that was switched to, up to
where that one is outside handlers again (`goOn`): nothing can be delivered in between,
because interrupts are disabled in a handler.
-/

set_option autoImplicit false

namespace OsU

open CString

/-- Where a context is when it leaves the CPU: what is still to be done for it when it
comes back. A handler that was left by a switch goes on then, and acknowledges its
interrupt then. -/
inductive Left where
  /-- It has not run yet. -/
  | fresh
  /-- In a call of `process.c` made outside an interrupt handler. -/
  | call
  /-- In the handler of an interrupt, called by `isr_handler_c`. -/
  | handler (intNo : Nat)
  deriving DecidableEq, Repr

/-- Is the interrupt a line of the PIC, to be acknowledged? -/
def isIrq (intNo : Nat) : Bool := 32 ≤ intNo ∧ intNo ≤ 47

/-- The process table, the PIC's line of the timer, and where each context is. Of the
PIC one bit is enough: while IRQ0 is in service, no line of it is delivered. -/
structure Machine where
  procs : Procs
  /-- IRQ0 has been delivered and not acknowledged. -/
  inService : Bool
  left : Fin 16 → Left

/-- After `process_init`, before the first interrupt. -/
def Machine.boot : Machine := ⟨processInit, false, fun _ => .fresh⟩

/-- `isr_handler_c` after the handler has returned. -/
def Machine.finishIsr (m : Machine) (intNo : Nat) : Machine :=
  if isIrq intNo then { m with inService := false } else m

/-- A context goes on from where it left, to the code outside interrupt handlers. -/
def Machine.goOn (m : Machine) : Left → Machine
  | .fresh => m
  | .call => m
  | .handler intNo => m.finishIsr intNo

/-- A routine of `process.c`, called from `here`, has done `r`: its caller goes on, or,
after a switch, the context that was switched to. The context that is left is remembered
at `here`, if its stack pointer was saved in a slot; the boot context's is not. -/
def Machine.called (m : Machine) (here : Left) (r : Procs × Option Dispatch) : Machine :=
  match r.2 with
  | some ⟨next, some ⟨oldSp, _⟩⟩ =>
    let left := match oldSp with
      | some o => Function.update m.left o here
      | none => m.left
    { m with procs := r.1, left := left }.goOn (left next)
  | _ => { m with procs := r.1 }.goOn here

/-- `sys_yield`. It accounts a tick and switches only when the time slice is used up. -/
def sysYield (sp : BitVec 32) (k : Procs) : Procs × Option Dispatch := schedulerTick sp k

/-- `isr_handler_c`, with the handlers that reach `process.c`: `timer_irq_handler` and
`syscall_handler` with SYS_YIELD. The acknowledge is behind the handler, so a handler
that is left by a switch has not come to it. -/
def Machine.isrHandlerC (m : Machine) (intNo : Nat) (sp : BitVec 32) : Machine :=
  if intNo = 32 then m.called (.handler intNo) (schedulerTick sp m.procs)
  else if intNo = 0x80 then m.called (.handler intNo) (sysYield sp m.procs)
  else m.finishIsr intNo

/-- What can happen while the CPU is outside interrupt handlers. -/
inductive Event where
  | call (op : ProcOp)
  | interrupt (intNo : Nat) (sp : BitVec 32)

/-- An interrupt is delivered unless it is a line of the PIC and IRQ0 is in service. -/
def Machine.interrupt (m : Machine) (intNo : Nat) (sp : BitVec 32) : Machine :=
  if isIrq intNo ∧ m.inService then m
  else { m with inService := m.inService || intNo == 32 }.isrHandlerC intNo sp

/-- A slot given to a new process has a context that has not run. -/
def Machine.markFresh (m : Machine) : ProcOp → Machine
  | .create _ _ =>
    match m.procs.findFreeSlot with
    | some i => { m with left := Function.update m.left i .fresh }
    | none => m
  | _ => m

/-- The machine when the CPU is next outside interrupt handlers, after a call from
ordinary code or an interrupt. -/
def Machine.step (img : Image) : Event → Machine → Machine
  | .call op, m => (m.markFresh op).called .call (op.exec img m.procs)
  | .interrupt intNo sp, m => m.interrupt intNo sp

/-! ## The shell -/

/-- The addresses of `demo_counter` and `demo_spinner`. -/
structure Demos where
  counter : BitVec 32
  spinner : BitVec 32

/-- `cmd_spawn`, in so far as it is about processes: a name that is not known, or a
process that could not be created, leaves the scheduler as it is. What it prints is not
here. -/
def cmdSpawn (img : Image) (demos : Demos) (args : List UInt8) (k : Procs) : Procs :=
  let spawned (r : Int × Procs) : Procs := if r.1 > 0 then schedulerInit r.2 else r.2
  if args = [] then k
  else if args = ascii "counter" then spawned (processCreate img k (ascii "counter") demos.counter)
  else if args = ascii "spinner" then spawned (processCreate img k (ascii "spinner") demos.spinner)
  else k

/-- The kernel's calls of `process.c`: two commands of the shell, the timer and one
system call. What a process would call itself is not here, for none is ever dispatched
(`OsU/Proof/Spawn.lean`). -/
inductive EntryOp where
  | spawn (args : List UInt8)
  | kill (pid sp : BitVec 32)
  | timer (sp : BitVec 32)
  | sysYield (sp : BitVec 32)

def EntryOp.step (img : Image) (demos : Demos) : EntryOp → Procs → Procs
  | .spawn args, k => cmdSpawn img demos args k
  | .kill pid sp, k => (processKill pid sp k).2.1
  | .timer sp, k => (schedulerTick sp k).1
  | .sysYield sp, k => (OsU.sysYield sp k).1

end OsU
