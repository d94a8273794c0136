import OsU.Kernel.Sched

/-!
# What `schedule` can do

`schedule` does nothing, or reaps the zombies, or reaps them and dispatches the slot its
search found (`schedule_cases`). The fields of the table after each of the three are
simp lemmas, slot by slot, and no proof about a run unfolds `schedule` again.

The search is over the sixteen slots in a circle, from the one behind the current slot,
and the current slot comes last; what is needed of it is that it finds a READY slot when
there is one (`search_of_ready`) and that it never finds another kind (`search_ready`).

The five routines that the kernel calls end in `schedule` or do not come to it.
`Outcome` says it once for all of them: either nothing became RUNNING and the current
slot is what it was, or the result is that of `schedule` on globals in which at most the
current slot was touched (`Handed`). The invariants of `Current`, `Contexts` and `Spawn`
are each proved from this one case distinction.
-/

set_option autoImplicit false

namespace OsU

namespace Procs

variable (k : Procs) (i j : Fin 16)

/-! ## Single updates -/

@[simp] theorem modify_table (f : Process → Process) :
    (k.modify i f).table j = if j = i then f (k.table j) else k.table j := rfl

@[simp] theorem modify_current (f : Process → Process) : (k.modify i f).current = k.current := rfl

@[simp] theorem modify_enabled (f : Process → Process) : (k.modify i f).enabled = k.enabled := rfl

@[simp] theorem modify_nextPid (f : Process → Process) : (k.modify i f).nextPid = k.nextPid := rfl

theorem modify_modify (f g : Process → Process) :
    (k.modify i f).modify i g = k.modify i fun p => g (f p) := by
  simp only [modify]
  congr 1
  funext j
  split <;> rfl

@[simp] theorem cleanupZombies_current : k.cleanupZombies.current = k.current := rfl

@[simp] theorem cleanupZombies_enabled : k.cleanupZombies.enabled = k.enabled := rfl

@[simp] theorem cleanupZombies_nextPid : k.cleanupZombies.nextPid = k.nextPid := rfl

/-- A reaped slot. -/
theorem cleanupZombies_zombie (h : (k.table i).state = .zombie) :
    k.cleanupZombies.table i = { k.table i with state := .unused, pid := 0 } := if_pos h

theorem cleanupZombies_other (h : (k.table i).state ≠ .zombie) :
    k.cleanupZombies.table i = k.table i := if_neg h

@[simp] theorem cleanupZombies_stackPtr :
    (k.cleanupZombies.table i).stackPtr = (k.table i).stackPtr := by
  by_cases h : (k.table i).state = .zombie
  · rw [cleanupZombies_zombie k i h]
  · rw [cleanupZombies_other k i h]

/-- Reaping makes no slot READY and takes no READY slot away. So the search finds after
it what it would have found before, and the two can be looked at in either order. -/
theorem cleanupZombies_ready :
    (k.cleanupZombies.table i).state = .ready ↔ (k.table i).state = .ready := by
  by_cases h : (k.table i).state = .zombie
  · simp [cleanupZombies_zombie k i h, h]
  · rw [cleanupZombies_other k i h]

theorem cleanupZombies_running :
    (k.cleanupZombies.table i).state = .running ↔ (k.table i).state = .running := by
  by_cases h : (k.table i).state = .zombie
  · simp [cleanupZombies_zombie k i h, h]
  · rw [cleanupZombies_other k i h]

@[simp] theorem search_cleanupZombies : k.cleanupZombies.search = k.search := by
  have hstart : k.cleanupZombies.start = k.start := rfl
  rw [search, search, hstart]
  exact Cyclic.scan_congr (fun j => decide_eq_decide.mpr (k.cleanupZombies_ready j)) _

@[simp] theorem markZombie_current (code : Int) : (k.markZombie i code).current = k.current := rfl

@[simp] theorem markZombie_enabled (code : Int) : (k.markZombie i code).enabled = k.enabled := rfl

@[simp] theorem markZombie_state (code : Int) :
    ((k.markZombie i code).table j).state =
      if j = i then .zombie else (k.table j).state := by
  by_cases hj : j = i <;> simp [markZombie, hj]

@[simp] theorem markZombie_stackPtr (code : Int) :
    ((k.markZombie i code).table j).stackPtr = (k.table j).stackPtr := by
  by_cases hj : j = i <;> simp [markZombie, hj]

variable {k i j}

/-- `find_process` finds a slot in use. -/
theorem findProcess_some {pid : BitVec 32} (h : k.findProcess pid = some i) :
    (k.table i).pid = pid ∧ (k.table i).state ≠ .unused := by
  simpa using List.find?_some h

/-! ## The search -/

theorem search_ready {next : Fin 16} (h : k.search = some next) :
    (k.table next).state = .ready := by
  simpa using (Cyclic.scan_some h).1

theorem search_of_ready (h : (k.table j).state = .ready) : ∃ next, k.search = some next :=
  Cyclic.scan_isSome (by simpa using h) _

/-- The current slot is the last the next search would come to. It is what makes the
choice fair: a READY slot waits for at most fifteen others. -/
theorem gap_current (h : k.current = some i) : Cyclic.gap k.start i = 15 := by
  have hs : k.start = i + 1 := by rw [start, h]
  have hi := i.isLt
  rw [hs, Cyclic.gap_eq]
  split <;> omega

/-! ## The switch -/

section SwitchTo

variable (k) (next : Fin 16) (sp : BitVec 32)

@[simp] theorem requeue_current : k.requeue.current = k.current := by
  unfold requeue
  split
  · split <;> rfl
  · rfl

@[simp] theorem requeue_enabled : k.requeue.enabled = k.enabled := by
  unfold requeue
  split
  · split <;> rfl
  · rfl

@[simp] theorem requeue_nextPid : k.requeue.nextPid = k.nextPid := by
  unfold requeue
  split
  · split <;> rfl
  · rfl

/-- Requeueing touches the state of the current slot only. -/
theorem requeue_table : k.requeue.table j =
    if k.current = some j ∧ (k.table j).state = .running then
      { k.table j with state := .ready } else k.table j := by
  unfold requeue
  cases hc : k.current with
  | none => simp
  | some o =>
    by_cases hj : j = o
    · subst hj
      by_cases hr : (k.table j).state = .running
      · simp [hr, setState]
      · simp [hr]
    · have hne : ¬ some o = some j := fun h => hj (Option.some.inj h).symm
      by_cases hr : (k.table o).state = .running
      · simp [hr, setState, hj, hne]
      · simp [hr, hne]

/-- The slots after the switch: `next` is RUNNING, the slot switched away from is READY if it was
RUNNING and keeps the stack pointer. -/
theorem switchTo_table : (k.switchTo next sp).1.table j =
    { k.table j with
      state := if j = next then .running
        else if k.current = some j ∧ (k.table j).state = .running then .ready
        else (k.table j).state
      stackPtr := if k.current = some j ∧ j ≠ next then sp else (k.table j).stackPtr } := by
  unfold switchTo
  -- A slot may be the next one, the one that is left, both or neither.
  cases hc : k.current with
  | none =>
    by_cases hj : j = next
    · simp [hj, setState, requeue_table, hc]
    · simp [hj, setState, requeue_table, hc]
  | some o =>
    by_cases ho : o = next
    · by_cases hj : j = next
      · by_cases hr : (k.table next).state = .running <;>
          simp [hj, ho, setState, requeue_table, hc, hr]
      · have hne : ¬ next = j := fun h => hj h.symm
        simp [hj, ho, hne, setState, requeue_table, hc]
    · by_cases hj : j = next
      · have hne : ¬ next = o := fun h => ho h.symm
        simp [hj, ho, hne, setState, saveSp, requeue_table, hc]
      · by_cases hjo : j = o
        · by_cases hr : (k.table o).state = .running <;>
            simp [ho, hjo, setState, saveSp, requeue_table, hc, hr]
        · have hne : ¬ o = j := fun h => hjo h.symm
          simp [hj, ho, hjo, hne, setState, saveSp, requeue_table, hc]

@[simp] theorem switchTo_current : (k.switchTo next sp).1.current = some next := by
  unfold switchTo
  cases hc : k.current with
  | none => rfl
  | some o => by_cases ho : o = next <;> simp [ho, saveSp]

@[simp] theorem switchTo_enabled : (k.switchTo next sp).1.enabled = k.enabled := by
  unfold switchTo
  cases hc : k.current with
  | none => simp [setState]
  | some o => by_cases ho : o = next <;> simp [ho, saveSp, setState]

@[simp] theorem switchTo_nextPid : (k.switchTo next sp).1.nextPid = k.nextPid := by
  unfold switchTo
  cases hc : k.current with
  | none => simp [setState]
  | some o => by_cases ho : o = next <;> simp [ho, saveSp, setState]

/-- The call of `context_switch`: none when `next` is the current slot. -/
theorem switchTo_dispatch : (k.switchTo next sp).2 =
    ⟨next, if k.current = some next then none
      else some ⟨k.current, (k.table next).stackPtr⟩⟩ := by
  unfold switchTo
  cases hc : k.current with
  | none => simp [setState, requeue_table, hc]
  | some o =>
    by_cases ho : o = next
    · simp [ho]
    · simp [ho, setState, requeue_table, hc]

end SwitchTo

end Procs

/-! ## `schedule` and its callers -/

section Callers

variable (k : Procs) (sp : BitVec 32)

/-- The three things `schedule` can do. The source reaps before it searches, also when
the search then finds nothing. -/
theorem schedule_cases (sp : BitVec 32) (k : Procs) :
    (k.enabled = false ∧ schedule sp k = (k, none)) ∨
    (k.enabled = true ∧ k.search = none ∧ schedule sp k = (k.cleanupZombies, none)) ∨
    ∃ next, k.enabled = true ∧ k.search = some next ∧
      schedule sp k = ((k.cleanupZombies.switchTo next sp).1,
        some (k.cleanupZombies.switchTo next sp).2) := by
  unfold schedule
  by_cases he : k.enabled = false
  · exact Or.inl ⟨he, if_pos he⟩
  · refine Or.inr ?_
    have ht : k.enabled = true := by simpa using he
    rw [if_neg he]
    dsimp only
    rw [Procs.search_cleanupZombies]
    cases hs : k.search with
    | none => exact Or.inl ⟨ht, rfl, rfl⟩
    | some next => exact Or.inr ⟨next, ht, rfl, rfl⟩

variable {k}

theorem schedule_dispatched {next : Fin 16} (hen : k.enabled = true) (hs : k.search = some next) :
    schedule sp k = ((k.cleanupZombies.switchTo next sp).1,
      some (k.cleanupZombies.switchTo next sp).2) := by
  obtain ⟨hf, -⟩ | ⟨-, hn, -⟩ | ⟨m, -, hm, he⟩ := schedule_cases sp k
  · rw [hen] at hf
    exact nomatch hf
  · rw [hs] at hn
    exact nomatch hn
  · rw [hs] at hm
    rw [he, Option.some.inj hm]

theorem schedule_idle (hen : k.enabled = true) (hs : k.search = none) :
    schedule sp k = (k.cleanupZombies, none) := by
  obtain ⟨hf, -⟩ | ⟨-, -, he⟩ | ⟨m, -, hm, -⟩ := schedule_cases sp k
  · rw [hen] at hf
    exact nomatch hf
  · exact he
  · rw [hs] at hm
    exact nomatch hm

/-- `schedule` keeps the current slot or moves to another, and never changes the enable flag. -/
theorem schedule_current (sp : BitVec 32) (k : Procs) :
    ((schedule sp k).1.current = none ↔ k.current = none ∧ (schedule sp k).2 = none) ∧
      (schedule sp k).1.enabled = k.enabled := by
  obtain ⟨-, he⟩ | ⟨-, -, he⟩ | ⟨next, -, -, he⟩ := schedule_cases sp k
  · rw [he]
    exact ⟨⟨fun h => ⟨h, rfl⟩, fun h => h.1⟩, rfl⟩
  · rw [he]
    exact ⟨⟨fun h => ⟨h, rfl⟩, fun h => h.1⟩, rfl⟩
  · rw [he, Procs.switchTo_current]
    exact ⟨⟨nofun, nofun⟩, by rw [Procs.switchTo_enabled]; rfl⟩

theorem processExit_none (h : k.current = none) (code : Int) : processExit code sp k = (k, none) := by
  simp only [processExit, h]

theorem processExit_some {i : Fin 16} (h : k.current = some i) (code : Int) :
    processExit code sp k = schedule sp (k.markZombie i code) := by
  simp only [processExit, h]

theorem processKill_none {pid : BitVec 32} (h : k.findProcess pid = none) :
    processKill pid sp k = (-1, k, none) := by
  simp only [processKill, h]

theorem processKill_current {pid : BitVec 32} {i : Fin 16} (h : k.findProcess pid = some i)
    (hc : k.current = some i) :
    processKill pid sp k = (0, schedule sp (k.markZombie i (-1))) := by
  simp only [processKill, h, if_pos hc]

theorem processKill_other {pid : BitVec 32} {i : Fin 16} (h : k.findProcess pid = some i)
    (hc : k.current ≠ some i) : processKill pid sp k = (0, k.markZombie i (-1), none) := by
  simp only [processKill, h, if_neg hc]

/-- A tick does nothing, or takes one from the slice, or gives a new one and calls
`schedule`. The slice is decremented before it is tested, and the new one is handed out
before the switch, to the slot that is about to be left. -/
theorem schedulerTick_cases (sp : BitVec 32) (k : Procs) :
    ((k.enabled = false ∨ k.current = none) ∧ schedulerTick sp k = (k, none)) ∨
    ∃ i, k.enabled = true ∧ k.current = some i ∧
      (((k.table i).tick.timeSlice ≠ 0 ∧ schedulerTick sp k = (k.modify i Process.tick, none)) ∨
      ((k.table i).tick.timeSlice = 0 ∧ schedulerTick sp k =
        schedule sp (k.modify i fun p => { p.tick with timeSlice := 10 }))) := by
  unfold schedulerTick
  cases he : k.enabled with
  | false => exact Or.inl ⟨Or.inl rfl, rfl⟩
  | true =>
    cases hc : k.current with
    | none => exact Or.inl ⟨Or.inr rfl, rfl⟩
    | some i =>
      refine Or.inr ⟨i, rfl, rfl, ?_⟩
      simp only [Procs.modify_table, if_true, Procs.modify_modify]
      by_cases hz : (k.table i).tick.timeSlice = 0
      · exact Or.inr ⟨hz, if_pos hz⟩
      · exact Or.inl ⟨hz, if_neg hz⟩

end Callers

/-! ## Any call -/

/-- A call that ends the current process marks its slot and calls `schedule`. -/
theorem ProcOp.EndsCurrent.exec {op : ProcOp} {k : Procs} (h : op.EndsCurrent k) (img : Image) :
    ∃ i code sp, k.current = some i ∧ op.exec img k = schedule sp (k.markZombie i code) := by
  cases op with
  | exit code sp =>
    obtain ⟨i, hi⟩ := Option.ne_none_iff_exists'.mp h
    exact ⟨i, code, sp, hi, processExit_some sp hi code⟩
  | kill pid sp =>
    obtain ⟨i, hf, hi⟩ := h
    refine ⟨i, -1, sp, hi, ?_⟩
    change (processKill pid sp k).2 = _
    rw [processKill_current sp hf hi]
  | create name entry => exact h.elim
  | yield sp => exact h.elim
  | init => exact h.elim
  | tick sp => exact h.elim

theorem ProcOp.EndsCurrent.current {op : ProcOp} {k : Procs} (h : op.EndsCurrent k) :
    k.current ≠ none := by
  obtain ⟨i, -, -, hi, -⟩ := ProcOp.EndsCurrent.exec h ⟨0, 0⟩
  rw [hi]
  exact nofun

/-- The globals a call hands to `schedule`: only the current slot is touched, and it is
the same process or a zombie. `process_exit` hands over a zombie, `scheduler_tick` a
slot with a new slice, `process_yield` the globals as they are. -/
structure Handed (k k₁ : Procs) (op : ProcOp) : Prop where
  current : k₁.current = k.current
  enabled : k₁.enabled = k.enabled
  other : ∀ j, k.current ≠ some j → k₁.table j = k.table j
  stackPtr : ∀ j, (k₁.table j).stackPtr = (k.table j).stackPtr
  state : ¬ op.EndsCurrent k → ∀ j, (k₁.table j).state = (k.table j).state

theorem Handed.markZombie {k : Procs} {op : ProcOp} {i : Fin 16} (hi : k.current = some i)
    (ho : op.EndsCurrent k) (code : Int) : Handed k (k.markZombie i code) op where
  current := rfl
  enabled := rfl
  other := fun j hj => if_neg fun he : j = i => hj (he ▸ hi)
  stackPtr := fun j => k.markZombie_stackPtr i j code
  state := fun hn => absurd ho hn

/-- An update of the current slot that keeps its state and its stack pointer. -/
theorem Handed.modify {k : Procs} {op : ProcOp} {i : Fin 16} (hi : k.current = some i)
    {f : Process → Process} (hptr : ∀ p, (f p).stackPtr = p.stackPtr)
    (hstate : ∀ p, (f p).state = p.state) : Handed k (k.modify i f) op where
  current := rfl
  enabled := rfl
  other := fun j hj => if_neg fun he : j = i => hj (he ▸ hi)
  stackPtr := fun j => by
    rw [Procs.modify_table]
    split
    · exact hptr _
    · rfl
  state := fun _ j => by
    rw [Procs.modify_table]
    split
    · exact hstate _
    · rfl

/-- The globals after a call that does not come to `schedule`: no slot has become RUNNING, and the
current one is RUNNING if it was. -/
structure Unswitched (k k' : Procs) : Prop where
  current : k'.current = k.current
  enabled : k.enabled = true → k'.enabled = true
  running : ∀ j, (k'.table j).state = .running → (k.table j).state = .running
  kept : ∀ j, k.current = some j → (k.table j).state = .running → (k'.table j).state = .running

theorem Unswitched.refl (k : Procs) : Unswitched k k := ⟨rfl, id, fun _ => id, fun _ _ => id⟩

/-- What a call can come to. One with no current slot that comes to `schedule` is
`process_yield`. -/
def ProcOp.Outcome (op : ProcOp) (k : Procs) (r : Procs × Option Dispatch) : Prop :=
  (r.2 = none ∧ Unswitched k r.1) ∨
    ∃ k₁, r = schedule op.sp k₁ ∧ Handed k k₁ op ∧
      (k.current = none → ∃ sp, op = .yield sp ∧ k₁ = k)

/-- The slot `process_create` fills was UNUSED and is READY. -/
theorem processCreate_unswitched (img : Image) (k : Procs) (name : List UInt8) (entry : BitVec 32) :
    Unswitched k (processCreate img k name entry).2 := by
  cases hf : k.findFreeSlot with
  | none =>
    rw [processCreate_full hf]
    exact .refl k
  | some i =>
    obtain ⟨hcur, hen, -⟩ := processCreate_rest hf img name entry
    refine ⟨hcur, fun he => hen.trans he, fun j hj => ?_, fun j _ hj => ?_⟩
    · rw [processCreate_slot hf] at hj
      by_cases hji : j = i
      · rw [if_pos hji] at hj
        exact nomatch hj
      · rwa [if_neg hji] at hj
    · have hji : j ≠ i := by
        intro he
        rw [he, findFreeSlot_unused hf] at hj
        exact nomatch hj
      rwa [processCreate_slot hf, if_neg hji]

theorem processKill_outcome (pid sp : BitVec 32) (k : Procs) :
    (ProcOp.kill pid sp).Outcome k (processKill pid sp k).2 := by
  cases hf : k.findProcess pid with
  | none =>
    rw [processKill_none sp hf]
    exact Or.inl ⟨rfl, .refl k⟩
  | some i =>
    by_cases hc : k.current = some i
    · rw [processKill_current sp hf hc]
      have ho : (ProcOp.kill pid sp).EndsCurrent k := ⟨i, hf, hc⟩
      refine Or.inr ⟨_, rfl, .markZombie hc ho (-1), fun hn => ?_⟩
      rw [hc] at hn
      exact nomatch hn
    · rw [processKill_other sp hf hc]
      refine Or.inl ⟨rfl, rfl, id, fun j hj => ?_, fun j hjc hj => ?_⟩
      · rw [Procs.markZombie_state] at hj
        split at hj
        · exact nomatch hj
        · exact hj
      · have hji : j ≠ i := fun he => hc (he ▸ hjc)
        rwa [Procs.markZombie_state, if_neg hji]

theorem processExit_outcome (code : Int) (sp : BitVec 32) (k : Procs) :
    (ProcOp.exit code sp).Outcome k (processExit code sp k) := by
  cases hc : k.current with
  | none =>
    rw [processExit_none sp hc]
    exact Or.inl ⟨rfl, .refl k⟩
  | some i =>
    rw [processExit_some sp hc]
    have ho : (ProcOp.exit code sp).EndsCurrent k := by
      change k.current ≠ none
      rw [hc]
      exact nofun
    refine Or.inr ⟨_, rfl, .markZombie hc ho code, fun hn => ?_⟩
    rw [hc] at hn
    exact nomatch hn

theorem schedulerTick_outcome (sp : BitVec 32) (k : Procs) :
    (ProcOp.tick sp).Outcome k (schedulerTick sp k) := by
  obtain ⟨-, he⟩ | ⟨i, -, hi, ⟨-, he⟩ | ⟨-, he⟩⟩ := schedulerTick_cases sp k
  · rw [he]
    exact Or.inl ⟨rfl, .refl k⟩
  · rw [he]
    have hh : Handed k (k.modify i Process.tick) (.tick sp) :=
      .modify hi (fun _ => rfl) fun _ => rfl
    have hstate := hh.state id
    exact Or.inl ⟨rfl, rfl, id, fun j hj => (hstate j).symm.trans hj,
      fun j _ hj => (hstate j).trans hj⟩
  · rw [he]
    refine Or.inr ⟨_, rfl, .modify hi (fun _ => rfl) fun _ => rfl, fun hn => ?_⟩
    rw [hi] at hn
    exact nomatch hn

/-- **A call leaves the current slot alone or ends in `schedule`.** One case per call.
The second is the only one in which a slot becomes RUNNING. -/
theorem ProcOp.exec_cases (img : Image) (op : ProcOp) (k : Procs) : op.Outcome k (op.exec img k) := by
  cases op with
  | create name entry => exact Or.inl ⟨rfl, processCreate_unswitched img k name entry⟩
  | kill pid sp => exact processKill_outcome pid sp k
  | exit code sp => exact processExit_outcome code sp k
  | yield sp =>
    exact Or.inr ⟨k, rfl, ⟨rfl, rfl, fun _ _ => rfl, fun _ => rfl, fun _ _ => rfl⟩,
      fun _ => ⟨sp, rfl, rfl⟩⟩
  | init => exact Or.inl ⟨rfl, rfl, fun _ => rfl, fun _ => id, fun _ _ => id⟩
  | tick sp => exact schedulerTick_outcome sp k

/-- No call leaves the CPU without the current slot it had. -/
theorem ProcOp.current_of_step {img : Image} {op : ProcOp} {k : Procs}
    (h : (op.step img k).current = none) : k.current = none := by
  unfold ProcOp.step at h
  obtain ⟨-, hk⟩ | ⟨k₁, he, hk₁, -⟩ := op.exec_cases img k
  · exact hk.current.symm.trans h
  · rw [he] at h
    exact hk₁.current ▸ ((schedule_current op.sp k₁).1.mp h).1

/-- Only an enabled scheduler gives the CPU a current slot. -/
theorem ProcOp.step_enabled {img : Image} {op : ProcOp} {k : Procs}
    (hk : k.current ≠ none → k.enabled = true) (h : (op.step img k).current ≠ none) :
    (op.step img k).enabled = true := by
  unfold ProcOp.step at h ⊢
  obtain ⟨-, hk'⟩ | ⟨k₁, he, hk₁, -⟩ := op.exec_cases img k
  · exact hk'.enabled (hk (hk'.current ▸ h))
  · rw [he] at h ⊢
    rw [(schedule_current op.sp k₁).2]
    obtain ⟨-, hs⟩ | ⟨hen, -⟩ | ⟨_, hen, -⟩ := schedule_cases op.sp k₁
    · rw [hs, hk₁.current] at h
      exact hk₁.enabled.trans (hk h)
    · exact hen
    · exact hen

end OsU
