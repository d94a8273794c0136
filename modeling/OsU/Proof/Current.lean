import OsU.Proof.Sched

/-!
# The slot the CPU is on

Between calls the current slot is RUNNING (`Seated`), unless a call ended the current
process with no other process READY: `process_exit` and `process_kill` make a zombie of
the current slot, and the `schedule` they call reaps it before it looks for another. If
it finds none it returns, `current_process` points to an UNUSED slot, and the next
`process_create` may be given the stack the CPU is on. `HandsOver` is the condition that
this does not happen, and a run keeps the current slot in use exactly when all its calls
meet it (`current_kept_iff`).

The property has two halves: the current slot stays in use, and a slot that is made
RUNNING is one `context_switch` was called for. Both are about a single call, and they
are asked of every call of the run, so the first call that breaks them settles it. The
induction needs the stronger `Seated`, which a call that hands over gives back.
-/

set_option autoImplicit false

namespace OsU

open Runs

/-- The current slot is in use. -/
def CurrentKept (k : Procs) : Prop := ∀ i, k.current = some i → (k.table i).state ≠ .unused

/-- A slot the call makes RUNNING is one `context_switch` was called for, with its
`stack_ptr`. The last slot left is in the call as well, which is why the pointer is
compared and `old_sp` is free. -/
def ProcOp.Announces (img : Image) (op : ProcOp) (k : Procs) : Prop :=
  ∀ j, (k.table j).state ≠ .running → ((op.step img k).table j).state = .running →
    ∃ o, (op.exec img k).2 = some ⟨j, some ⟨o, (k.table j).stackPtr⟩⟩

/-- If the call ends the current process, another is READY. A call that ends nothing
meets it. -/
def ProcOp.HandsOver (k : Procs) (op : ProcOp) : Prop :=
  op.EndsCurrent k → ∃ j, (k.table j).state = .ready

/-- The current slot is RUNNING, and only the scheduler gets to have a current slot. -/
def Seated (k : Procs) : Prop :=
  ∀ i, k.current = some i → k.enabled = true ∧ (k.table i).state = .running

theorem Seated.kept {k : Procs} (h : Seated k) : CurrentKept k := fun i hi hu => by
  rw [(h i hi).2] at hu
  exact nomatch hu

/-- A new process is not given the current slot. -/
theorem CurrentKept.not_recycled {k : Procs} (h : CurrentKept k) {i : Fin 16}
    (hf : k.findFreeSlot = some i) : k.current ≠ some i := fun hc =>
  h i hc (findFreeSlot_unused hf)

/-! ## `schedule` -/

theorem seated_of_search {k : Procs} {next : Fin 16} (hen : k.enabled = true)
    (hs : k.search = some next) (sp : BitVec 32) : Seated (schedule sp k).1 := by
  intro i hi
  rw [schedule_dispatched sp hen hs] at hi ⊢
  rw [Procs.switchTo_current] at hi
  obtain rfl := Option.some.inj hi
  refine ⟨?_, ?_⟩
  · rw [Procs.switchTo_enabled]
    exact hen
  · rw [Procs.switchTo_table]
    exact if_pos rfl

theorem Seated.schedule {k : Procs} (h : Seated k) (sp : BitVec 32) :
    Seated (schedule sp k).1 := by
  obtain ⟨-, he⟩ | ⟨-, -, he⟩ | ⟨next, hen, hs, -⟩ := schedule_cases sp k
  · rw [he]
    exact h
  · rw [he]
    exact fun i hi => ⟨(h i hi).1, (k.cleanupZombies_running i).mpr (h i hi).2⟩
  · exact seated_of_search hen hs sp

/-- A slot `schedule` makes RUNNING is switched to, unless it was the current one. -/
theorem schedule_announces {k : Procs} (h : ∀ i, k.current = some i → (k.table i).state ≠ .ready)
    (sp : BitVec 32) {j : Fin 16} (hj : (k.table j).state ≠ .running)
    (hj' : ((schedule sp k).1.table j).state = .running) :
    ∃ o, (schedule sp k).2 = some ⟨j, some ⟨o, (k.table j).stackPtr⟩⟩ := by
  obtain ⟨-, he⟩ | ⟨-, -, he⟩ | ⟨next, -, hs, he⟩ := schedule_cases sp k
  · rw [he] at hj'
    exact absurd hj' hj
  · rw [he] at hj'
    exact absurd ((k.cleanupZombies_running j).mp hj') hj
  · rw [he] at hj' ⊢
    have hcur : k.current ≠ some next := fun hc => h next hc (Procs.search_ready hs)
    have hjn : j = next := by
      by_contra hne
      rw [Procs.switchTo_table] at hj'
      by_cases hr : (k.cleanupZombies.table j).state = .running
      · exact hj ((k.cleanupZombies_running j).mp hr)
      · simp [hne, hr] at hj'
    rw [Procs.switchTo_dispatch, Procs.cleanupZombies_current, if_neg hcur,
      Procs.cleanupZombies_stackPtr, hjn]
    exact ⟨_, rfl⟩

/-! ## One call -/

/-- The current process ended with no other READY: its slot is UNUSED. -/
theorem schedule_strands {k : Procs} {i : Fin 16} (hen : k.enabled = true)
    (hi : k.current = some i) (hz : (k.table i).state = .zombie) (hs : k.search = none)
    (sp : BitVec 32) : ¬ CurrentKept (schedule sp k).1 := by
  intro h
  rw [schedule_idle sp hen hs] at h
  exact h i hi (by rw [Procs.cleanupZombies_zombie k i hz])

/-- The call in which the current process ends: a zombie, then `schedule`. With another
process READY the search finds it, before or after the reaping; with none the current
slot is UNUSED afterwards. -/
theorem Seated.end_current {k : Procs} (h : Seated k) {i : Fin 16} (hi : k.current = some i)
    (code : Int) (sp : BitVec 32) :
    ((∃ j, (k.table j).state = .ready) → Seated (OsU.schedule sp (k.markZombie i code)).1) ∧
    (CurrentKept (OsU.schedule sp (k.markZombie i code)).1 → ∃ j, (k.table j).state = .ready) ∧
    ∀ j, (k.table j).state ≠ .running →
      ((OsU.schedule sp (k.markZombie i code)).1.table j).state = .running →
      ∃ o, (OsU.schedule sp (k.markZombie i code)).2 =
        some ⟨j, some ⟨o, (k.table j).stackPtr⟩⟩ := by
  have hen : (k.markZombie i code).enabled = true := (h i hi).1
  have hzi : ((k.markZombie i code).table i).state = .zombie := by simp
  -- the slot that ended was RUNNING, so the READY slots are the same
  have hready : ∀ j, ((k.markZombie i code).table j).state = .ready ↔
      (k.table j).state = .ready := by
    intro j
    rw [Procs.markZombie_state]
    by_cases hj : j = i
    · rw [if_pos hj, hj, (h i hi).2]
      exact ⟨nofun, nofun⟩
    · rw [if_neg hj]
  refine ⟨?_, ?_, ?_⟩
  · rintro ⟨j, hj⟩
    obtain ⟨next, hs⟩ := Procs.search_of_ready ((hready j).mpr hj)
    exact seated_of_search hen hs sp
  · intro hkept
    cases hs : (k.markZombie i code).search with
    | none => exact absurd hkept (schedule_strands hen hi hzi hs sp)
    | some next => exact ⟨next, (hready next).mp (Procs.search_ready hs)⟩
  · intro j hj hj'
    have hcur : ∀ c, (k.markZombie i code).current = some c →
        ((k.markZombie i code).table c).state ≠ .ready := by
      intro c hc hr
      rw [Procs.markZombie_current, hi] at hc
      rw [← Option.some.inj hc, hzi] at hr
      exact nomatch hr
    have hnr : ((k.markZombie i code).table j).state ≠ .running := by
      rw [Procs.markZombie_state]
      split
      · exact nofun
      · exact hj
    simpa using schedule_announces hcur sp hnr hj'

theorem Seated.not_ready {k : Procs} (h : Seated k) (i : Fin 16) (hi : k.current = some i) :
    (k.table i).state ≠ .ready := fun hr => by
  rw [(h i hi).2] at hr
  exact nomatch hr

/-- What a call does that leaves the current process alone. -/
theorem Seated.step_other {k : Procs} (h : Seated k) (img : Image) {op : ProcOp}
    (hop : ¬ op.EndsCurrent k) : Seated (op.step img k) ∧ op.Announces img k := by
  unfold ProcOp.Announces ProcOp.step
  obtain ⟨-, hk⟩ | ⟨k₁, he, hk₁, -⟩ := op.exec_cases img k
  · refine ⟨fun i hi => ?_, fun j hj hj' => absurd (hk.running j hj') hj⟩
    obtain ⟨hen, hr⟩ := h i (hk.current ▸ hi)
    exact ⟨hk.enabled hen, hk.kept i (hk.current ▸ hi) hr⟩
  · have hstate := hk₁.state hop
    -- `schedule` is handed a table with the states of the old one
    have hs : Seated k₁ := by
      intro i hi
      rw [hk₁.current] at hi
      rw [hk₁.enabled, hstate]
      exact h i hi
    rw [he]
    refine ⟨hs.schedule op.sp, fun j hj hj' => ?_⟩
    rw [← hk₁.stackPtr]
    rw [← hstate] at hj
    exact schedule_announces hs.not_ready op.sp hj hj'

/-- **One call.** With the current slot RUNNING, it stays in use and whatever is made RUNNING is
switched to exactly when the call does not end the current process or another is READY; and then
the current slot is RUNNING again. -/
theorem Seated.step {k : Procs} (h : Seated k) (img : Image) (op : ProcOp) :
    ((CurrentKept (op.step img k) ∧ op.Announces img k) ↔ op.HandsOver k) ∧
      (op.HandsOver k → Seated (op.step img k)) := by
  by_cases hop : op.EndsCurrent k
  · obtain ⟨i, code, sp, hi, he⟩ := ProcOp.EndsCurrent.exec hop img
    obtain ⟨hseated, hkept, hann⟩ := h.end_current hi code sp
    rw [ProcOp.step, ProcOp.Announces, ProcOp.step, he]
    exact ⟨⟨fun hk _ => hkept hk.1, fun ho => ⟨(hseated (ho hop)).kept, hann⟩⟩,
      fun ho => hseated (ho hop)⟩
  · obtain ⟨hs, ha⟩ := h.step_other img hop
    exact ⟨iff_of_true ⟨hs.kept, ha⟩ fun he => absurd he hop, fun _ => hs⟩

/-! ## Runs -/

theorem seated_init : Seated processInit := nofun

/-- **The slot the CPU is on stays in use, and every slot made RUNNING is switched to**, in a run
from `process_init`, exactly when no call of the run ends the current process with no other
READY. -/
theorem current_kept_iff (img : Image) (ops : List ProcOp) :
    Along (ProcOp.step img) (fun k op => CurrentKept (op.step img k) ∧ op.Announces img k)
        processInit ops ↔
      Along (ProcOp.step img) (fun k op => op.HandsOver k) processInit ops :=
  along_iff (P := Seated) (fun _ op h => (h.step img op).1) (fun _ op h => (h.step img op).2)
    seated_init

/-- The only process exits: the current slot is UNUSED, and the next process is given it. -/
theorem current_recycled :
    let k := run (ProcOp.step ⟨0x100000, 0x2000⟩) processInit
      [.create [0x61] 0x3000, .init, .yield 0x9000, .exit 0 0x101000]
    k.current = some 0 ∧ (k.table 0).state = .unused ∧ k.findFreeSlot = some 0 ∧ ¬ CurrentKept k := by
  have hc : (run (ProcOp.step ⟨0x100000, 0x2000⟩) processInit
      [.create [0x61] 0x3000, .init, .yield 0x9000, .exit 0 0x101000]).current = some 0 := by
    decide +kernel
  have hu : ((run (ProcOp.step ⟨0x100000, 0x2000⟩) processInit
      [.create [0x61] 0x3000, .init, .yield 0x9000, .exit 0 0x101000]).table 0).state =
      .unused := by
    decide +kernel
  exact ⟨hc, hu, by decide +kernel, fun h => h 0 hc hu⟩

end OsU
