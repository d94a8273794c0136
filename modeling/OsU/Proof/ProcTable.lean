import OsU.Proof.Sched

/-!
# The process table over whole runs

`TableOk` is what the routines of `process.c` keep between calls. Inside a call it holds
of fewer slots: `process_exit` can make a zombie of a slot that was reaped before and
has no pid, and it is the `schedule` that follows which reaps it again. So the invariant
is stated for the slots whose state is among `who`, with `Used` between calls and
`Alive` just before a `schedule`.

`n` bounds the calls of `process_create` so far; the pids handed out are 1 to at most
`n`. The pid counter is a 32-bit word that nothing ever resets, so the invariant holds
as long as fewer than 2 ^ 32 processes have been created, and the bound is part of the
statement over runs. After that pids would come round again, 0 included.

The conjuncts of `TableOk` are chosen to be kept by each step on their own; what a
reader of the table relies on (`TableInvariant`) is read off them at the end.
-/

set_option autoImplicit false

namespace OsU

open Runs

/-- Not UNUSED. -/
def ProcessState.Used (s : ProcessState) : Prop := s ≠ .unused

/-- Not UNUSED and not a zombie. -/
def ProcessState.Alive (s : ProcessState) : Prop := s ≠ .unused ∧ s ≠ .zombie

structure TableOk (who : ProcessState → Prop) (n : Nat) (k : Procs) : Prop where
  running : ∀ i, (k.table i).state = .running → k.current = some i
  enabled : k.current ≠ none → k.enabled = true
  nextPid : ∃ m ≤ n, k.nextPid = BitVec.ofNat 32 (m + 1) ∧
    ∀ i, who (k.table i).state → (k.table i).pid.toNat ≤ m
  pid_pos : ∀ i, who (k.table i).state → 0 < (k.table i).pid.toNat
  pid_inj : ∀ i j, who (k.table i).state → who (k.table j).state →
    (k.table i).pid = (k.table j).pid → i = j
  slice : ∀ i, who (k.table i).state →
    1 ≤ (k.table i).timeSlice.toNat ∧ (k.table i).timeSlice.toNat ≤ 10

theorem tableOk_init : TableOk ProcessState.Used 0 processInit where
  running := fun _ h => nomatch h
  enabled := fun h => absurd rfl h
  nextPid := ⟨0, le_refl 0, rfl, fun _ h => absurd rfl h⟩
  pid_pos := fun _ h => absurd rfl h
  pid_inj := fun _ _ h => absurd rfl h
  slice := fun _ h => absurd rfl h

section Keep

variable {who : ProcessState → Prop} {n : Nat} {k k' : Procs}

/-- The invariant of a table none of whose slots became one of `who`, and none of those
that are changed its pid. Every routine but `process_create` comes under it, for a
suitable pair of `who` and `who'`. -/
theorem TableOk.keep {who' : ProcessState → Prop} (h : TableOk who n k)
    (hcur : ∀ i, (k'.table i).state = .running → k'.current = some i)
    (hen : k'.current ≠ none → k'.enabled = true) (hpid : k'.nextPid = k.nextPid)
    (hwho : ∀ i, who' (k'.table i).state →
      who (k.table i).state ∧ (k'.table i).pid = (k.table i).pid ∧
      1 ≤ (k'.table i).timeSlice.toNat ∧ (k'.table i).timeSlice.toNat ≤ 10) :
    TableOk who' n k' where
  running := hcur
  enabled := hen
  nextPid := by
    obtain ⟨m, hm, hn, hle⟩ := h.nextPid
    refine ⟨m, hm, hpid.trans hn, fun i hi => ?_⟩
    rw [(hwho i hi).2.1]
    exact hle i (hwho i hi).1
  pid_pos := fun i hi => by
    rw [(hwho i hi).2.1]
    exact h.pid_pos i (hwho i hi).1
  pid_inj := fun i j hi hj he => by
    rw [(hwho i hi).2.1, (hwho j hj).2.1] at he
    exact h.pid_inj i j (hwho i hi).1 (hwho j hj).1 he
  slice := fun i hi => (hwho i hi).2.2

theorem TableOk.mono (h : TableOk who n k) {m : Nat} (hm : n ≤ m) : TableOk who m k :=
  { h with
    nextPid := by
      obtain ⟨a, ha, hn, hle⟩ := h.nextPid
      exact ⟨a, ha.trans hm, hn, hle⟩ }

/-- An update of one slot. -/
theorem TableOk.modify {who' : ProcessState → Prop} (h : TableOk who n k) {i : Fin 16}
    {f : Process → Process} (hsub : ∀ s, who' s → who s)
    (hrun : (f (k.table i)).state = .running → (k.table i).state = .running)
    (hi : who' (f (k.table i)).state → who (k.table i).state ∧
      (f (k.table i)).pid = (k.table i).pid ∧
      1 ≤ (f (k.table i)).timeSlice.toNat ∧ (f (k.table i)).timeSlice.toNat ≤ 10) :
    TableOk who' n (k.modify i f) := by
  refine h.keep (fun j hj => ?_) h.enabled rfl (fun j hj => ?_)
  · rw [Procs.modify_table] at hj
    by_cases he : j = i
    · rw [if_pos he, he] at hj
      exact he ▸ h.running i (hrun hj)
    · rw [if_neg he] at hj
      exact h.running j hj
  · rw [Procs.modify_table] at hj ⊢
    by_cases he : j = i
    · rw [if_pos he, he] at hj ⊢
      exact hi hj
    · rw [if_neg he] at hj ⊢
      exact ⟨hsub _ hj, rfl, h.slice j (hsub _ hj)⟩

end Keep

/-! ## `schedule` -/

/-- Reaping leaves no slot in use but the live ones, so what was true of the live slots
is true of all slots in use again. -/
theorem TableOk.cleanup {n : Nat} {k : Procs} (h : TableOk ProcessState.Alive n k) :
    TableOk ProcessState.Used n k.cleanupZombies := by
  refine h.keep (fun i hi => ?_) h.enabled rfl (fun i hi => ?_)
  · exact h.running i ((k.cleanupZombies_running i).mp hi)
  · by_cases hz : (k.table i).state = .zombie
    · rw [Procs.cleanupZombies_zombie k i hz] at hi
      exact absurd rfl hi
    · rw [Procs.cleanupZombies_other k i hz] at hi ⊢
      exact ⟨⟨hi, hz⟩, rfl, h.slice i ⟨hi, hz⟩⟩

/-- The switch makes one READY slot RUNNING and takes RUNNING from any other. -/
theorem TableOk.switchTo {n : Nat} {k : Procs} (h : TableOk ProcessState.Used n k)
    (hen : k.enabled = true) {next : Fin 16} (hready : (k.table next).state = .ready)
    (sp : BitVec 32) : TableOk ProcessState.Used n (k.switchTo next sp).1 := by
  refine h.keep (fun i hi => ?_) (fun _ => by rw [Procs.switchTo_enabled, hen])
    (k.switchTo_nextPid next sp) (fun i hi => ?_)
  · rw [Procs.switchTo_table] at hi
    by_cases hj : i = next
    · rw [Procs.switchTo_current, hj]
    · -- only the current slot was RUNNING, and it is READY now
      by_cases hr : (k.table i).state = .running
      · simp [hj, h.running i hr, hr] at hi
      · simp [hj, hr] at hi
  · rw [Procs.switchTo_table] at hi ⊢
    have hu : (k.table i).state.Used := by
      by_cases hj : i = next
      · rw [hj, hready]
        exact nofun
      · by_cases hr : k.current = some i ∧ (k.table i).state = .running
        · rw [hr.2]
          exact nofun
        · simpa [hj, hr] using hi
    exact ⟨hu, rfl, h.slice i hu⟩

theorem TableOk.schedule {n : Nat} {k : Procs} (h : TableOk ProcessState.Alive n k)
    (hen : k.enabled = true) (sp : BitVec 32) :
    TableOk ProcessState.Used n (schedule sp k).1 := by
  obtain ⟨hf, -⟩ | ⟨-, -, he⟩ | ⟨next, -, hs, he⟩ := schedule_cases sp k
  · rw [hen] at hf
    exact absurd hf (by decide)
  · rw [he]
    exact h.cleanup
  · rw [he]
    exact h.cleanup.switchTo hen ((k.cleanupZombies_ready next).mpr (Procs.search_ready hs)) sp

/-! ## The routines -/

/-- Marking a slot a zombie. -/
theorem TableOk.mark {who' : ProcessState → Prop} {n : Nat} {k : Procs}
    (h : TableOk ProcessState.Used n k) {i : Fin 16} (code : Int)
    (hsub : ∀ s, who' s → s.Used) (hi : who' .zombie → (k.table i).state.Used) :
    TableOk who' n (k.markZombie i code) :=
  h.modify hsub nofun fun hz => ⟨hi hz, rfl, h.slice i (hi hz)⟩

theorem TableOk.processExit {n : Nat} {k : Procs} (h : TableOk ProcessState.Used n k)
    (code : Int) (sp : BitVec 32) : TableOk ProcessState.Used n (processExit code sp k).1 := by
  cases hc : k.current with
  | none =>
    rw [processExit_none sp hc]
    exact h
  | some i =>
    have hen : k.enabled = true := h.enabled (by rw [hc]; exact nofun)
    have hmark : TableOk ProcessState.Alive n (k.markZombie i code) :=
      h.mark code (fun _ hs => hs.1) (fun hz => absurd rfl hz.2)
    rw [processExit_some sp hc]
    exact hmark.schedule hen sp

theorem TableOk.alive {n : Nat} {k : Procs} (h : TableOk ProcessState.Used n k) :
    TableOk ProcessState.Alive n k :=
  h.keep h.running h.enabled rfl fun i hi => ⟨hi.1, rfl, h.slice i hi.1⟩

theorem TableOk.processKill {n : Nat} {k : Procs} (h : TableOk ProcessState.Used n k)
    (pid sp : BitVec 32) : TableOk ProcessState.Used n (processKill pid sp k).2.1 := by
  cases hf : k.findProcess pid with
  | none =>
    rw [processKill_none sp hf]
    exact h
  | some i =>
    have hmark : TableOk ProcessState.Used n (k.markZombie i (-1)) :=
      h.mark (-1) (fun _ hs => hs) fun _ => (Procs.findProcess_some hf).2
    by_cases hc : k.current = some i
    · have hen : k.enabled = true := h.enabled (by rw [hc]; exact nofun)
      rw [processKill_current sp hf hc]
      exact hmark.alive.schedule hen sp
    · rw [processKill_other sp hf hc]
      exact hmark

/-- A slice that is not used up, or a new one. -/
theorem TableOk.schedulerTick {n : Nat} {k : Procs} (h : TableOk ProcessState.Used n k)
    (sp : BitVec 32) : TableOk ProcessState.Used n (schedulerTick sp k).1 := by
  obtain ⟨-, he⟩ | ⟨i, hen, -, ⟨hz, he⟩ | ⟨-, he⟩⟩ := schedulerTick_cases sp k
  · rw [he]
    exact h
  · rw [he]
    refine h.modify (fun _ hs => hs) (fun hr => hr) fun hi => ⟨hi, rfl, ?_⟩
    have hs := h.slice i hi
    have hpos : 0 < (k.table i).timeSlice.toNat := hs.1
    simp only [Process.tick, if_pos hpos] at hz ⊢
    bv_omega
  · rw [he]
    have h10 : 1 ≤ (10 : BitVec 32).toNat ∧ (10 : BitVec 32).toNat ≤ 10 := by decide
    exact TableOk.schedule (h.alive.modify (fun _ hs => hs) (fun hr => hr)
      fun hi => ⟨hi, rfl, h10⟩) hen sp

/-- A slot in use after `process_create` is the new one, with the next pid and a full slice, or an
old one with a smaller pid. -/
theorem TableOk.created_cases {n : Nat} {k : Procs} (h : TableOk ProcessState.Used n k)
    (hn : n + 1 < 2 ^ 32) {i : Fin 16} (hf : k.findFreeSlot = some i) (img : Image)
    (name : List UInt8) (entry : BitVec 32) :
    ∃ m ≤ n, k.nextPid = BitVec.ofNat 32 (m + 1) ∧
      ∀ j, ((OsU.processCreate img k name entry).2.table j).state.Used →
        (j = i ∧ ((OsU.processCreate img k name entry).2.table j).pid.toNat = m + 1 ∧
          ((OsU.processCreate img k name entry).2.table j).timeSlice = 10) ∨
        ((OsU.processCreate img k name entry).2.table j = k.table j ∧
          (k.table j).state.Used ∧ (k.table j).pid.toNat ≤ m) := by
  obtain ⟨m, hm, hnext, hle⟩ := h.nextPid
  refine ⟨m, hm, hnext, ?_⟩
  intro j hj
  rw [processCreate_slot hf] at hj ⊢
  by_cases hji : j = i
  · rw [if_pos hji]
    refine Or.inl ⟨hji, ?_, rfl⟩
    change k.nextPid.toNat = m + 1
    rw [hnext, BitVec.toNat_ofNat]
    omega
  · rw [if_neg hji] at hj ⊢
    exact Or.inr ⟨rfl, hj, hle j hj⟩

/-- A new process has the next pid, which no slot had before. -/
theorem TableOk.processCreate {n : Nat} {k : Procs} (h : TableOk ProcessState.Used n k)
    (hn : n + 1 < 2 ^ 32) (img : Image) (name : List UInt8) (entry : BitVec 32) :
    TableOk ProcessState.Used (n + 1) (OsU.processCreate img k name entry).2 := by
  cases hf : k.findFreeSlot with
  | none =>
    rw [processCreate_full hf]
    exact h.mono (Nat.le_succ n)
  | some i =>
    -- Each slot is the new one, with the identifier that was next, or as before and
    -- below that.
    obtain ⟨m, hm, hnext, hcases⟩ := h.created_cases hn hf img name entry
    have hk := processCreate_unswitched img k name entry
    obtain ⟨hcur, hen, hcount⟩ := processCreate_rest hf img name entry
    exact
      { running := fun j hj => by
          rw [hcur]
          exact h.running j (hk.running j hj)
        enabled := by
          rw [hcur, hen]
          exact h.enabled
        nextPid := by
          refine ⟨m + 1, Nat.succ_le_succ hm, ?_, fun j hj => ?_⟩
          · rw [hcount, hnext]
            bv_omega
          · obtain ⟨-, he, -⟩ | ⟨ht, -, hle⟩ := hcases j hj
            · exact he.le
            · rw [ht]
              exact hle.trans (Nat.le_succ m)
        pid_pos := fun j hj => by
          obtain ⟨-, he, -⟩ | ⟨ht, hu, -⟩ := hcases j hj
          · rw [he]
            exact Nat.succ_pos m
          · rw [ht]
            exact h.pid_pos j hu
        pid_inj := fun a b ha hb he => by
          -- An old identifier is below the one that was next, so the new process has
          -- another.
          have heq := congrArg BitVec.toNat he
          obtain ⟨hai, hea, -⟩ | ⟨hta, hua, hla⟩ := hcases a ha
          · obtain ⟨hbi, -⟩ | ⟨htb, -, hlb⟩ := hcases b hb
            · exact hai.trans hbi.symm
            · rw [hea, htb] at heq
              omega
          · obtain ⟨-, heb, -⟩ | ⟨htb, hub, -⟩ := hcases b hb
            · rw [heb, hta] at heq
              omega
            · rw [hta, htb] at he
              exact h.pid_inj a b hua hub he
        slice := fun j hj => by
          obtain ⟨-, -, he⟩ | ⟨ht, hu, -⟩ := hcases j hj
          · rw [he]
            decide
          · rw [ht]
            exact h.slice j hu }

/-! ## Runs -/

/-- The calls that count against the pids. -/
def ProcOp.isCreate : ProcOp → Bool
  | .create _ _ => true
  | _ => false

/-- One call, of any kind. Only `process_create` moves the bound. -/
theorem TableOk.step {n : Nat} {k : Procs} (h : TableOk ProcessState.Used n k) (img : Image)
    (op : ProcOp) (hn : n + (if op.isCreate then 1 else 0) < 2 ^ 32) :
    TableOk ProcessState.Used (n + if op.isCreate then 1 else 0) (op.step img k) := by
  cases op with
  | create name entry => exact h.processCreate hn img name entry
  | kill pid sp => exact h.processKill pid sp
  | exit code sp => exact h.processExit code sp
  | yield sp =>
    by_cases hen : k.enabled = true
    · exact TableOk.schedule h.alive hen sp
    · obtain ⟨-, he⟩ | ⟨ht, -⟩ | ⟨next, ht, -⟩ := schedule_cases sp k
      · change TableOk ProcessState.Used n (OsU.schedule sp k).1
        rw [he]
        exact h
      · exact absurd ht hen
      · exact absurd ht hen
  | init => exact { h with enabled := fun _ => rfl }
  | tick sp => exact h.schedulerTick sp

/-- **The invariant over a run**, by induction on the calls. -/
theorem tableOk_run (img : Image) (ops : List ProcOp) {n : Nat} {k : Procs}
    (h : TableOk ProcessState.Used n k) (hn : n + ops.countP ProcOp.isCreate < 2 ^ 32) :
    TableOk ProcessState.Used (n + ops.countP ProcOp.isCreate) (run (ProcOp.step img) k ops) := by
  induction ops generalizing n k with
  | nil => exact h
  | cons op ops ih =>
    rw [List.countP_cons] at hn ⊢
    have hstep := h.step img op (by omega)
    rw [Nat.add_comm (ops.countP _), ← Nat.add_assoc] at hn ⊢
    exact ih hstep hn

/-- What the process table promises its readers: at most one slot is RUNNING and it is
the current one, pids are distinct and not zero, and a slot in use has between 1 and 10
ticks left. -/
structure TableInvariant (k : Procs) : Prop where
  running_unique : ∀ i j, (k.table i).state = .running → (k.table j).state = .running → i = j
  running_current : ∀ i, (k.table i).state = .running → k.current = some i
  pid_ne_zero : ∀ i, (k.table i).state ≠ .unused → (k.table i).pid ≠ 0
  pid_distinct : ∀ i j, (k.table i).state ≠ .unused → (k.table j).state ≠ .unused → i ≠ j →
    (k.table i).pid ≠ (k.table j).pid
  time_slice : ∀ i, (k.table i).state ≠ .unused →
    1 ≤ (k.table i).timeSlice.toNat ∧ (k.table i).timeSlice.toNat ≤ 10

theorem TableOk.invariant {n : Nat} {k : Procs} (h : TableOk ProcessState.Used n k) :
    TableInvariant k where
  running_unique := fun i j hi hj =>
    Option.some.inj ((h.running i hi).symm.trans (h.running j hj))
  running_current := h.running
  pid_ne_zero := fun i hi hz => by
    have hpos := h.pid_pos i hi
    rw [hz] at hpos
    exact absurd hpos (by decide)
  pid_distinct := fun i j hi hj hne he => hne (h.pid_inj i j hi hj he)
  time_slice := h.slice

/-- The process table invariant holds in every state reachable from `process_init` before the pid
counter wraps. -/
theorem tableInvariant_run (img : Image) (ops : List ProcOp)
    (hcreate : ops.countP ProcOp.isCreate < 2 ^ 32) :
    TableInvariant (run (ProcOp.step img) processInit ops) :=
  (tableOk_run img ops tableOk_init (by omega)).invariant

/-- A created process runs and exits, and its slot is taken by another. -/
theorem tableInvariant_run_demo : TableInvariant (run (ProcOp.step ⟨0x100000, 0x2000⟩) processInit
    [.create [0x61] 0x3000, .init, .yield 0, .exit 0 0, .create [0x62] 0x4000, .tick 0]) :=
  tableInvariant_run _ _ (by decide)

end OsU
