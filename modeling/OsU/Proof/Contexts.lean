import OsU.Proof.Current

/-!
# Contexts that are switched away from

`context_switch` stores the stack pointer of the context it leaves where `old_sp` points
(`contextSwitch_saves`). `schedule` passes the `stack_ptr` of the current slot, or, when
there is no current slot, a local variable of its own, which is on the stack being left.
So every switch but the first keeps the context in a READY slot, and the first one, out
of the kernel's own context, leaves no pointer to it anywhere in the table
(`keeps_iff`).

`ended` is a ghost: the context on the CPU has ended its process, and need not be kept.
The table cannot tell, because `schedule` reaps the slot of a process that ends in the
same call; and a process that ended with nobody READY goes on running.

The condition on a step, `FirstDispatch`, is about the globals before the call and says
nothing of what the switch does. That it is met once in every run in which anything is
dispatched is the point: the kernel's own context is always the one that is lost.
-/

set_option autoImplicit false

namespace OsU

open Runs

/-- The globals, and whether the context on the CPU has ended its process. -/
structure OnCpu where
  procs : Procs
  ended : Bool

namespace OnCpu

/-- The kernel's own context, after `process_init`. -/
def boot : OnCpu := ⟨processInit, false⟩

/-- Has the context on the CPU ended its process by the time the call reaches `schedule`? -/
def ends (m : OnCpu) (op : ProcOp) : Bool := m.ended || decide (op.EndsCurrent m.procs)

/-- The call of `context_switch`, if the call of `op` makes one. -/
def switch (img : Image) (op : ProcOp) (m : OnCpu) : Option SwitchArgs :=
  (op.exec img m.procs).2.bind Dispatch.switch

/-- After a switch another context is on the CPU, one that has not ended. -/
def step (img : Image) (op : ProcOp) (m : OnCpu) : OnCpu where
  procs := op.step img m.procs
  ended := if (m.switch img op).isSome then false else m.ends op

/-- The context switched away from, unless it has ended, is in a READY slot: `old_sp`
points to its `stack_ptr`, which is the stack pointer saved. A call that does not switch
keeps it trivially. -/
def Keeps (img : Image) (op : ProcOp) (m : OnCpu) : Prop :=
  ∀ a, m.switch img op = some a → m.ends op = false →
    ∃ i, a.oldSp = some i ∧ ((m.step img op).procs.table i).state = .ready ∧
      ((m.step img op).procs.table i).stackPtr = op.sp

/-- The first dispatch: `process_yield` in the kernel's own context, with a process
READY. No other call gets as far as a switch without a current slot. -/
def FirstDispatch (k : Procs) : ProcOp → Prop
  | .yield _ => k.current = none ∧ k.enabled = true ∧ ∃ j, (k.table j).state = .ready
  | _ => False

/-- A context that has not ended is that of a RUNNING current slot, or the kernel's own.
This is the invariant of the runs. -/
structure Placed (m : OnCpu) : Prop where
  seated : m.ended = false → Seated m.procs
  enabled : m.procs.current ≠ none → m.procs.enabled = true
  kernel : m.procs.current = none → m.ended = false

theorem placed_boot : Placed boot := ⟨fun _ => seated_init, fun h => absurd rfl h, fun _ => rfl⟩

/-! ## One call -/

/-- What `schedule` passes to `context_switch`, and where that leaves the old slot. -/
theorem schedule_switch {k : Procs} {sp : BitVec 32} {a : SwitchArgs}
    (h : (schedule sp k).2.bind Dispatch.switch = some a) :
    k.enabled = true ∧ (∃ next, k.search = some next) ∧ a.oldSp = k.current ∧
      ∀ o, k.current = some o → (k.table o).state = .running →
        ((schedule sp k).1.table o).state = .ready ∧
        ((schedule sp k).1.table o).stackPtr = sp := by
  obtain ⟨-, he⟩ | ⟨-, -, he⟩ | ⟨next, hen, hs, he⟩ := schedule_cases sp k
  · rw [he] at h
    exact nomatch h
  · rw [he] at h
    exact nomatch h
  · rw [he] at h ⊢
    rw [Option.bind_some, Procs.switchTo_dispatch, Procs.cleanupZombies_current] at h
    by_cases hc : k.current = some next
    · rw [if_pos hc] at h
      exact nomatch h
    · rw [if_neg hc] at h
      obtain rfl := Option.some.inj h
      refine ⟨hen, ⟨next, hs⟩, rfl, fun o ho hr => ?_⟩
      have hne : o ≠ next := fun hon => hc (hon ▸ ho)
      have hr' := (k.cleanupZombies_running o).mpr hr
      simp [Procs.switchTo_table, ho, hne, hr']

/-- Every switch keeps the context it leaves, except the first dispatch. One step, in
both directions: the first dispatch does switch, and there is no slot its `old_sp` could
point into. -/
theorem Placed.keeps_iff {m : OnCpu} (h : Placed m) (img : Image) (op : ProcOp) :
    m.Keeps img op ↔ ¬ FirstDispatch m.procs op := by
  constructor
  · intro hk hf
    cases op with
    | yield sp =>
      obtain ⟨hc, hen, j, hj⟩ := hf
      obtain ⟨next, hs⟩ := Procs.search_of_ready hj
      have hends : m.ends (.yield sp) = false := by
        rw [ends, h.kernel hc]
        rfl
      have hswitch : m.switch img (.yield sp) =
          some ⟨none, (m.procs.cleanupZombies.table next).stackPtr⟩ := by
        change (schedule sp m.procs).2.bind _ = _
        rw [schedule_dispatched sp hen hs, Option.bind_some, Procs.switchTo_dispatch,
          Procs.cleanupZombies_current, hc, if_neg nofun]
      obtain ⟨i, hi, -⟩ := hk _ hswitch hends
      exact nomatch hi
    | create name entry => exact hf
    | kill pid sp => exact hf
    | exit code sp => exact hf
    | init => exact hf
    | tick sp => exact hf
  · intro hf a ha hends
    rw [ends, Bool.or_eq_false_iff, decide_eq_false_iff_not] at hends
    unfold switch at ha
    obtain ⟨he, -⟩ | ⟨k₁, he, hk₁, hyield⟩ := op.exec_cases img m.procs
    · rw [he] at ha
      exact nomatch ha
    · rw [he] at ha
      obtain ⟨hen, ⟨next, hs⟩, hold, hkept⟩ := schedule_switch ha
      rw [hk₁.current] at hold hkept
      cases hc : m.procs.current with
      | none =>
        -- only `process_yield` comes to `schedule` from the kernel's own context
        obtain ⟨sp, rfl, rfl⟩ := hyield hc
        exact absurd ⟨hc, hen, next, Procs.search_ready hs⟩ hf
      | some o =>
        have hr : (k₁.table o).state = .running := by
          rw [hk₁.state hends.2]
          exact (h.seated hends.1 o hc).2
        refine ⟨o, hold.trans hc, ?_⟩
        change ((op.exec img m.procs).1.table o).state = _ ∧ _
        unfold step ProcOp.step
        rw [he]
        exact hkept o hc hr

theorem Placed.step {m : OnCpu} (h : Placed m) (img : Image) (op : ProcOp) :
    Placed (m.step img op) where
  seated := by
    intro hended
    rw [OnCpu.step] at hended ⊢
    dsimp only at hended ⊢
    split at hended
    · -- a switch: the slot it went to is RUNNING
      rename_i hsome
      obtain ⟨a, ha⟩ := Option.isSome_iff_exists.mp hsome
      unfold switch at ha
      unfold ProcOp.step
      obtain ⟨he, -⟩ | ⟨k₁, he, -, -⟩ := op.exec_cases img m.procs
      · rw [he] at ha
        exact nomatch ha
      · rw [he] at ha ⊢
        obtain ⟨hen, ⟨next, hs⟩, -, -⟩ := schedule_switch ha
        exact seated_of_search hen hs _
    · rw [ends, Bool.or_eq_false_iff, decide_eq_false_iff_not] at hended
      exact ((h.seated hended.1).step_other img hended.2).1
  enabled := fun hc => ProcOp.step_enabled h.enabled hc
  kernel := by
    intro hc
    have hcur : m.procs.current = none := ProcOp.current_of_step hc
    -- in the kernel's own context there is no process to end
    have hends : m.ends op = false := by
      rw [ends, h.kernel hcur, Bool.false_or, decide_eq_false_iff_not]
      exact fun ho => ProcOp.EndsCurrent.current ho hcur
    unfold OnCpu.step
    dsimp only
    split
    · rfl
    · exact hends

/-! ## Runs -/

/-- **The context switched away from is kept at every switch but the first dispatch**, in every run
from the kernel's own context. -/
theorem keeps_run (img : Image) (ops : List ProcOp) :
    Along (step img) (fun m op => m.Keeps img op ↔ ¬ FirstDispatch m.procs op) boot ops :=
  along_of_invariant (P := Placed) (fun _ op h => h.step img op)
    (fun _ op h => h.keeps_iff img op) ops placed_boot

/-- The first dispatch: the shell spawns a process and yields to it, and no slot has its stack
pointer. -/
theorem not_keeps_first :
    let m := run (step ⟨0x100000, 0x2000⟩) boot [.create [0x61] 0x3000, .init]
    ¬ m.Keeps ⟨0x100000, 0x2000⟩ (.yield 0x9000) := by
  intro m h
  have hswitch : m.switch ⟨0x100000, 0x2000⟩ (.yield 0x9000) = some ⟨none, 0x101000⟩ := by
    decide +kernel
  obtain ⟨i, hi, -⟩ := h _ hswitch (by decide +kernel)
  exact nomatch hi

end OnCpu

end OsU
