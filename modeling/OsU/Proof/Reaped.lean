import OsU.Proof.Sched

/-!
# Killed processes

`process_kill` makes a zombie of the slot, and `find_process` still finds it: a second
kill of it returns 0 and changes nothing. `find_free_slot` does not take it either. It
is `schedule` that reaps zombies, with the scheduler enabled, and then the pid is not
found any more and the slot is free.

The process killed is not the current one. `process_kill` treats the current process
like `process_exit`, and what follows then is in `Current`.

How long a zombie stays is not bounded by anything here: with the scheduler not enabled,
or no current process for the timer to preempt, `schedule` does not run and the slot is
lost to `process_create` for as long.
-/

set_option autoImplicit false

namespace OsU

open Runs

section Kill

variable {k : Procs} {pid : BitVec 32} {i : Fin 16}

/-- The search for a pid sees a slot that ends as one in use. -/
theorem findProcess_markZombie (hf : k.findProcess pid = some i) (code : Int) :
    (k.markZombie i code).findProcess pid = some i := by
  have hused := (Procs.findProcess_some hf).2
  rw [← hf, Procs.findProcess, Procs.findProcess]
  congr 1
  funext j
  by_cases hj : j = i
  · subst hj
    simp [Procs.markZombie, hused]
  · simp [Procs.markZombie, hj]

theorem markZombie_markZombie (k : Procs) (i : Fin 16) (code : Int) :
    (k.markZombie i code).markZombie i code = k.markZombie i code :=
  Procs.modify_modify k i _ _

/-- **A second kill** returns 0 and changes nothing. -/
theorem processKill_twice (hf : k.findProcess pid = some i) (hc : k.current ≠ some i)
    (sp : BitVec 32) : processKill pid sp (k.markZombie i (-1)) =
      (0, k.markZombie i (-1), none) := by
  rw [processKill_other sp (findProcess_markZombie hf (-1)) hc, markZombie_markZombie]

end Kill

/-- **`process_create` fails** exactly when no slot is UNUSED. A zombie's slot is not,
and nothing is reaped to make room. -/
theorem processCreate_fails_iff (img : Image) (k : Procs) (name : List UInt8)
    (entry : BitVec 32) :
    processCreate img k name entry = (-1, k) ↔ ∀ j, (k.table j).state ≠ .unused := by
  cases hf : k.findFreeSlot with
  | none =>
    refine iff_of_true ?_ fun j hj => ?_
    · simp [processCreate, hf]
    · have hall := List.find?_eq_none.mp hf j (List.mem_finRange j)
      exact hall (decide_eq_true hj)
  | some i =>
    refine iff_of_false (fun he => ?_) fun hall => hall i (findFreeSlot_unused hf)
    -- the pid counter has moved on
    have hpid := congrArg (fun r : Int × Procs => r.2.nextPid) he
    rw [(processCreate_rest hf img name entry).2.2] at hpid
    dsimp only at hpid
    bv_omega

section Reap

variable {k : Procs} (hen : k.enabled = true) (sp : BitVec 32)
include hen

/-- The slots in use behind an enabled `schedule` are those of the living, with their
pids. This goes for each of the two ways an enabled `schedule` can end, since both reap.
-/
theorem schedule_used (j : Fin 16) :
    ((schedule sp k).1.table j).state ≠ .unused ↔
      (k.table j).state ≠ .unused ∧ (k.table j).state ≠ .zombie := by
  have hclean : (k.cleanupZombies.table j).state ≠ .unused ↔
      (k.table j).state ≠ .unused ∧ (k.table j).state ≠ .zombie := by
    by_cases hz : (k.table j).state = .zombie
    · rw [Procs.cleanupZombies_zombie k j hz]
      exact iff_of_false (fun h => h rfl) fun h => h.2 hz
    · rw [Procs.cleanupZombies_other k j hz]
      exact (and_iff_left hz).symm
  obtain ⟨hf, -⟩ | ⟨-, -, he⟩ | ⟨next, -, hs, he⟩ := schedule_cases sp k
  · rw [hen] at hf
    exact nomatch hf
  · rw [he]
    exact hclean
  · rw [he, ← hclean, Procs.switchTo_table]
    dsimp only
    by_cases hj : j = next
    · have hready := (k.cleanupZombies_ready next).mpr (Procs.search_ready hs)
      rw [if_pos hj, hj, hready]
      exact iff_of_true nofun nofun
    · rw [if_neg hj]
      split
      · rename_i hr
        rw [hr.2]
        exact iff_of_true nofun nofun
      · exact Iff.rfl

theorem schedule_pid {j : Fin 16} (hj : ((schedule sp k).1.table j).state ≠ .unused) :
    ((schedule sp k).1.table j).pid = (k.table j).pid := by
  have hz := ((schedule_used hen sp j).mp hj).2
  obtain ⟨-, he⟩ | ⟨-, -, he⟩ | ⟨next, -, -, he⟩ := schedule_cases sp k
  · rw [he]
  · rw [he, Procs.cleanupZombies_other k j hz]
  · rw [he, Procs.switchTo_table, Procs.cleanupZombies_other k j hz]

end Reap

/-- A pid is not found if it is that of no slot in use. -/
theorem findProcess_none {k : Procs} {pid : BitVec 32}
    (h : ∀ j, (k.table j).state ≠ .unused → (k.table j).pid ≠ pid) : k.findProcess pid = none := by
  refine List.find?_eq_none.mpr fun j _ hj => ?_
  rw [decide_eq_true_eq] at hj
  exact h j hj.2 hj.1

/-- **A killed process is gone when it has been reaped.** Until `schedule` runs with the scheduler
enabled, the slot is a zombie's: another kill finds it and `process_create` does not take it. After
that the slot is free, and the pid, unless a living process has it too, is not found. -/
theorem kill_then_reap (img : Image) {k : Procs} {pid : BitVec 32} {i : Fin 16} (sp : BitVec 32)
    (hf : k.findProcess pid = some i) (hc : k.current ≠ some i) :
    (processKill pid sp k).1 = 0 ∧
    ((processKill pid sp k).2.1.table i).state = .zombie ∧
    (∀ sp', processKill pid sp' (processKill pid sp k).2.1 =
      (0, (processKill pid sp k).2.1, none)) ∧
    (∀ name entry, processCreate img (processKill pid sp k).2.1 name entry =
        (-1, (processKill pid sp k).2.1) ↔
      ∀ j, ((processKill pid sp k).2.1.table j).state ≠ .unused) ∧
    (k.enabled = false → ∀ sp', (schedule sp' (processKill pid sp k).2.1).1 =
      (processKill pid sp k).2.1) ∧
    (k.enabled = true → ∀ sp',
      (∀ name entry,
        processCreate img (schedule sp' (processKill pid sp k).2.1).1 name entry ≠
          (-1, (schedule sp' (processKill pid sp k).2.1).1)) ∧
      ((∀ j ≠ i, (k.table j).pid = pid →
          (k.table j).state = .unused ∨ (k.table j).state = .zombie) →
        ∀ sp'', (processKill pid sp'' (schedule sp' (processKill pid sp k).2.1).1).1 = -1)) := by
  rw [processKill_other sp hf hc]
  have hz : ((k.markZombie i (-1)).table i).state = .zombie := by simp [Procs.markZombie]
  have henabled : (k.markZombie i (-1)).enabled = k.enabled := rfl
  refine ⟨rfl, hz, processKill_twice hf hc,
    fun name entry => processCreate_fails_iff img _ name entry, fun hen sp' => ?_,
    fun hen sp' => ⟨fun name entry hfail => ?_, fun hpid sp'' => ?_⟩⟩
  · rw [schedule, if_pos (henabled.trans hen)]
  · -- The slot of the zombie is free behind a dispatch, so the table is not full.
    have hused := (processCreate_fails_iff img _ name entry).mp hfail i
    exact ((schedule_used (henabled.trans hen) sp' i).mp hused).2 hz
  · -- No slot in use has the identifier: not the zombie's, and of the others by
    -- assumption.
    have hnone : (schedule sp' (k.markZombie i (-1))).1.findProcess pid = none := by
      refine findProcess_none fun j hj hp => ?_
      rw [schedule_pid (henabled.trans hen) sp' hj] at hp
      obtain ⟨hused, halive⟩ := (schedule_used (henabled.trans hen) sp' j).mp hj
      by_cases hji : j = i
      · rw [hji] at halive
        exact halive hz
      · have hkept : (k.markZombie i (-1)).table j = k.table j := if_neg hji
        rw [hkept] at hp hused halive
        exact (hpid j hji hp).elim hused halive
    rw [processKill_none sp'' hnone]

/-- Two processes, the first on the CPU. -/
def pairProcs : Procs := run (ProcOp.step ⟨0x100000, 0x2000⟩) processInit
  [.create [0x61] 0x3000, .create [0x62] 0x4000, .init, .yield 0x9000]

/-- The second is killed, killed again, and reaped by a `process_yield` of the first. -/
theorem kill_then_reap_pair :
    processKill 2 0 (processKill 2 0 pairProcs).2.1 = (0, (processKill 2 0 pairProcs).2.1, none) ∧
    (processKill 2 0 (schedule 0 (processKill 2 0 pairProcs).2.1).1).1 = -1 := by
  have hf : pairProcs.findProcess 2 = some 1 := by decide +kernel
  obtain ⟨-, -, htwice, -, -, hreap⟩ :=
    kill_then_reap ⟨0x100000, 0x2000⟩ 0 hf (by decide +kernel)
  refine ⟨htwice 0, (hreap (by decide +kernel) 0).2 ?_ 0⟩
  decide +kernel

/-- A process that `spawn` has made, and that has never run: it is killed twice, with 0 for both. -/
theorem killed_twice :
    let k := run (ProcOp.step ⟨0x100000, 0x2000⟩) processInit [.create [0x61] 0x3000, .init]
    k.current ≠ k.findProcess 1 ∧ (processKill 1 0 k).1 = 0 ∧
      ¬ (processKill 1 0 (processKill 1 0 k).2.1).1 = -1 := by
  decide +kernel

end OsU
