import OsU.Kernel.Entry
import OsU.Proof.Sched

/-!
# Spawned processes

The kernel calls `process_create` and `scheduler_init` from `cmd_spawn`, `process_kill`
from `cmd_kill`, and `scheduler_tick` from the timer interrupt and SYS_YIELD. None of
them reaches the search of `schedule` without a current slot, and none of them sets the
first one: `scheduler_tick` returns when `current_process` is null, and `process_kill`
calls `schedule` for the current process only. So there is no first dispatch
(`never_dispatched`).

`process_yield` would get past this, and it is a routine of the scheduler like the
others, but nothing in the kernel calls it. The runs here are therefore over the entry
points (`EntryOp`), and not over the routines, which are the subject of `Current` and
`Contexts`.
-/

set_option autoImplicit false

namespace OsU

open Runs CString

/-- One READY slot is RUNNING now, alone, and it is the current one. -/
def Dispatched (k k' : Procs) : Prop :=
  ∃ j, (k.table j).state = .ready ∧ (k'.table j).state = .running ∧
    (∀ i, (k'.table i).state = .running → i = j) ∧ k'.current = some j

theorem cmdSpawn_current (img : Image) (demos : Demos) (args : List UInt8) (k : Procs) :
    (cmdSpawn img demos args k).current = k.current := by
  have hcreate : ∀ name entry, (processCreate img k name entry).2.current = k.current :=
    fun name entry => (processCreate_unswitched img k name entry).current
  have hspawned : ∀ name entry, (if (processCreate img k name entry).1 > 0 then
      schedulerInit (processCreate img k name entry).2
      else (processCreate img k name entry).2).current = k.current := by
    intro name entry
    split
    · exact hcreate name entry
    · exact hcreate name entry
  unfold cmdSpawn
  split
  · rfl
  · split
    · exact hspawned _ _
    · split
      · exact hspawned _ _
      · rfl

/-- A tick without a current slot does nothing. -/
theorem schedulerTick_none {k : Procs} (h : k.current = none) (sp : BitVec 32) :
    schedulerTick sp k = (k, none) := by
  obtain ⟨-, he⟩ | ⟨i, -, hi, -⟩ := schedulerTick_cases sp k
  · exact he
  · rw [h] at hi
    exact nomatch hi

/-- **No entry point sets the first current slot.** One case per entry point. -/
theorem EntryOp.step_current (img : Image) (demos : Demos) (op : EntryOp) {k : Procs}
    (h : k.current = none) : (op.step img demos k).current = none := by
  cases op with
  | spawn args => exact (cmdSpawn_current img demos args k).trans h
  | kill pid sp =>
    change (processKill pid sp k).2.1.current = none
    cases hf : k.findProcess pid with
    | none => rwa [processKill_none sp hf]
    | some i =>
      have hc : k.current ≠ some i := by
        rw [h]
        exact nofun
      rwa [processKill_other sp hf hc]
  | timer sp =>
    change (schedulerTick sp k).1.current = none
    rwa [schedulerTick_none h]
  | sysYield sp =>
    change (schedulerTick sp k).1.current = none
    rwa [schedulerTick_none h]

theorem current_none_run (img : Image) (demos : Demos) (ops : List EntryOp) :
    (run (EntryOp.step img demos) processInit ops).current = none := by
  have hall : Along (EntryOp.step img demos) (fun _ _ => True) processInit ops :=
    along_of_invariant (P := fun _ => True) (fun _ _ _ => trivial) (fun _ _ _ => trivial) ops trivial
  exact run_invariant (P := fun k => k.current = none)
    (fun _ op h _ => op.step_current img demos h) rfl hall

/-- **A spawned process is never dispatched.** In no state the kernel's entry points reach does a
call of `scheduler_tick` make a READY slot RUNNING. -/
theorem never_dispatched (img : Image) (demos : Demos) (ops : List EntryOp) (sp : BitVec 32) :
    ¬ Dispatched (run (EntryOp.step img demos) processInit ops)
      (schedulerTick sp (run (EntryOp.step img demos) processInit ops)).1 := by
  have hc := current_none_run img demos ops
  rw [schedulerTick_none hc]
  rintro ⟨j, -, -, -, hj⟩
  rw [hc] at hj
  exact nomatch hj

/-- `spawn counter` leaves the scheduler enabled, a slot READY and none RUNNING, and the next tick
changes nothing. -/
theorem spawned_waits :
    let k := run (EntryOp.step ⟨0x100000, 0x2000⟩ ⟨0x3000, 0x4000⟩) processInit
      [.spawn (ascii "counter")]
    k.enabled = true ∧ (k.table 0).state = .ready ∧ (∀ j, (k.table j).state ≠ .running) ∧
      ¬ Dispatched k (schedulerTick 0x9000 k).1 := by
  have hcur : (run (EntryOp.step ⟨0x100000, 0x2000⟩ ⟨0x3000, 0x4000⟩) processInit
      [.spawn (ascii "counter")]).current = none := by
    decide +kernel
  refine ⟨by decide +kernel, by decide +kernel, by decide +kernel, ?_⟩
  rintro ⟨j, -, -, -, hj⟩
  rw [schedulerTick_none hcur, hcur] at hj
  exact nomatch hj

end OsU
