import OsU.Kernel.Entry
import OsU.Proof.Reaped

/-!
# Two ways to yield

`process_yield` is a call of `schedule`. SYS_YIELD is a call of `scheduler_tick`, which
counts a tick of the caller and comes to `schedule` only when that was the last one of
its slice.

The two are compared by what they do to the slots: the state of each and which one is
current (`SameSlots`). When SYS_YIELD does come to `schedule` the globals it hands over
differ from the ones `process_yield` starts from in the ticks and the slice of the
caller alone, and `schedule` does not look at these. When it does not come to it, the
two agree only if `schedule` had nothing to do.
-/

set_option autoImplicit false

namespace OsU

/-- The same slots in the same states, and the same one current. -/
structure SameSlots (k k' : Procs) : Prop where
  state : ∀ j, (k'.table j).state = (k.table j).state
  current : k'.current = k.current

section Schedule

variable {k k' : Procs}

theorem SameSlots.search (h : SameSlots k k') : k'.search = k.search := by
  have hstart : k'.start = k.start := by rw [Procs.start, Procs.start, h.current]
  rw [Procs.search, Procs.search, hstart]
  exact Cyclic.scan_congr (fun j => decide_eq_decide.mpr (by rw [h.state])) _

theorem SameSlots.cleanupZombies (h : SameSlots k k') :
    SameSlots k.cleanupZombies k'.cleanupZombies where
  state := by
    intro j
    by_cases hz : (k.table j).state = .zombie
    · rw [Procs.cleanupZombies_zombie k j hz,
        Procs.cleanupZombies_zombie k' j ((h.state j).trans hz)]
    · have hz' : (k'.table j).state ≠ .zombie := by rwa [h.state]
      rw [Procs.cleanupZombies_other k j hz, Procs.cleanupZombies_other k' j hz', h.state]
  current := h.current

theorem SameSlots.switchTo (h : SameSlots k k') (next : Fin 16) (sp : BitVec 32) :
    SameSlots (k.switchTo next sp).1 (k'.switchTo next sp).1 where
  state := by
    intro j
    rw [Procs.switchTo_table, Procs.switchTo_table]
    dsimp only
    rw [h.state, h.current]
  current := by rw [Procs.switchTo_current, Procs.switchTo_current]

/-- `schedule` looks at the states of the slots and the current one. -/
theorem SameSlots.schedule (h : SameSlots k k') (hen : k'.enabled = k.enabled) (sp : BitVec 32) :
    SameSlots (schedule sp k).1 (schedule sp k').1 := by
  obtain ⟨hf, he⟩ | ⟨ht, hs, he⟩ | ⟨next, ht, hs, he⟩ := schedule_cases sp k
  · rw [he, OsU.schedule, if_pos (hen.trans hf)]
    exact h
  · rw [he, schedule_idle sp (hen.trans ht) (h.search.trans hs)]
    exact h.cleanupZombies
  · rw [he, schedule_dispatched sp (hen.trans ht) (h.search.trans hs)]
    exact h.cleanupZombies.switchTo next sp

/-- With the scheduler enabled it leaves the slots as they are only where there is
nothing to run and nothing to reap: a READY slot becomes RUNNING, whichever is found,
and a zombie's becomes UNUSED. -/
theorem schedule_still_iff (hen : k.enabled = true) (sp : BitVec 32) :
    SameSlots k (schedule sp k).1 ↔
      ∀ j, (k.table j).state ≠ .ready ∧ (k.table j).state ≠ .zombie := by
  constructor
  · intro h j
    constructor
    · intro hj
      -- the slot found was READY and is RUNNING
      obtain ⟨next, hs⟩ := Procs.search_of_ready hj
      have hnext := h.state next
      rw [schedule_dispatched sp hen hs, Procs.switchTo_table, Procs.search_ready hs] at hnext
      dsimp only at hnext
      rw [if_pos rfl] at hnext
      exact nomatch hnext
    · intro hj
      have hused : ((schedule sp k).1.table j).state ≠ .unused := by
        rw [h.state, hj]
        exact nofun
      exact ((schedule_used hen sp j).mp hused).2 hj
  · intro hnone
    have hs : k.search = none := by
      cases hs : k.search with
      | none => rfl
      | some next => exact absurd (Procs.search_ready hs) (hnone next).1
    rw [schedule_idle sp hen hs]
    exact ⟨fun j => by rw [Procs.cleanupZombies_other k j (hnone j).2], rfl⟩

end Schedule

theorem schedule_totalTicks (sp : BitVec 32) (k : Procs) (j : Fin 16) :
    ((schedule sp k).1.table j).totalTicks = (k.table j).totalTicks := by
  have hclean : (k.cleanupZombies.table j).totalTicks = (k.table j).totalTicks := by
    by_cases hz : (k.table j).state = .zombie
    · rw [Procs.cleanupZombies_zombie k j hz]
    · rw [Procs.cleanupZombies_other k j hz]
  obtain ⟨-, he⟩ | ⟨-, -, he⟩ | ⟨next, -, -, he⟩ := schedule_cases sp k
  · rw [he]
  · rw [he, hclean]
  · rw [he, Procs.switchTo_table, hclean]

/-- SYS_YIELD does to the slots what `process_yield` does, and counts no tick of the
caller. The counter is 32 bits wide, so counting one can make it smaller, and the
condition below has that case. -/
structure YieldsAs (sp : BitVec 32) (k : Procs) (i : Fin 16) : Prop where
  slots : SameSlots (processYield sp k).1 (sysYield sp k).1
  ticks : ((sysYield sp k).1.table i).totalTicks ≤ (k.table i).totalTicks

theorem tick_timeSlice (p : Process) : p.tick.timeSlice = 0 ↔ p.timeSlice.toNat ≤ 1 := by
  unfold Process.tick
  dsimp only
  split
  · bv_omega
  · bv_omega

/-- The tick counter of the caller goes up by one. -/
theorem sysYield_totalTicks {k : Procs} {i : Fin 16} (hen : k.enabled = true)
    (hc : k.current = some i) (sp : BitVec 32) :
    ((sysYield sp k).1.table i).totalTicks = (k.table i).totalTicks + 1 := by
  rw [sysYield]
  obtain ⟨hno, -⟩ | ⟨j, -, hj, ⟨-, he⟩ | ⟨-, he⟩⟩ := schedulerTick_cases sp k
  · rw [hen, hc] at hno
    exact nomatch hno
  · obtain rfl : i = j := Option.some.inj (hc.symm.trans hj)
    rw [he, Procs.modify_table, if_pos rfl]
    rfl
  · obtain rfl : i = j := Option.some.inj (hc.symm.trans hj)
    rw [he, schedule_totalTicks, Procs.modify_table, if_pos rfl]
    rfl

/-- The slots, when SYS_YIELD comes to `schedule` and when it does not. -/
theorem sysYield_slots_iff {k : Procs} {i : Fin 16} (hen : k.enabled = true)
    (hc : k.current = some i) (sp : BitVec 32) :
    SameSlots (processYield sp k).1 (sysYield sp k).1 ↔ (k.table i).timeSlice.toNat ≤ 1 ∨
      ∀ j, (k.table j).state ≠ .ready ∧ (k.table j).state ≠ .zombie := by
  have hmodify : ∀ f : Process → Process, (∀ p, (f p).state = p.state) →
      SameSlots k (k.modify i f) := by
    intro f hf
    refine ⟨fun j => ?_, rfl⟩
    rw [Procs.modify_table]
    split
    · exact hf _
    · rfl
  rw [sysYield, processYield]
  obtain ⟨hno, -⟩ | ⟨j, -, hj, ⟨hz, he⟩ | ⟨hz, he⟩⟩ := schedulerTick_cases sp k
  · rw [hen, hc] at hno
    exact nomatch hno
  · -- the slice goes on: the slots are what they were
    obtain rfl : i = j := Option.some.inj (hc.symm.trans hj)
    have hslice : ¬ (k.table i).timeSlice.toNat ≤ 1 := fun h => hz ((tick_timeSlice _).mpr h)
    have htick := hmodify Process.tick fun _ => rfl
    rw [he, or_iff_right hslice, ← schedule_still_iff hen sp]
    constructor
    · intro h
      exact ⟨fun j => (h.state j).symm.trans (htick.state j), h.current.symm⟩
    · intro h
      exact ⟨fun j => (htick.state j).trans (h.state j).symm, h.current.symm⟩
  · obtain rfl : i = j := Option.some.inj (hc.symm.trans hj)
    refine iff_of_true ?_ (Or.inl ((tick_timeSlice _).mp hz))
    rw [he]
    exact (hmodify (fun p => { p.tick with timeSlice := 10 }) fun _ => rfl).schedule rfl sp

/-- **SYS_YIELD yields** at the end of a slice, or when there is nothing to yield to, and it counts
a tick unless the counter wraps. -/
theorem sysYield_yields_iff {k : Procs} {i : Fin 16} (hen : k.enabled = true)
    (hc : k.current = some i) (sp : BitVec 32) :
    YieldsAs sp k i ↔ (k.table i).totalTicks = BitVec.allOnes 32 ∧
      ((k.table i).timeSlice.toNat ≤ 1 ∨
        ∀ j, (k.table j).state ≠ .ready ∧ (k.table j).state ≠ .zombie) := by
  have hticks : (k.table i).totalTicks + 1 ≤ (k.table i).totalTicks ↔
      (k.table i).totalTicks = BitVec.allOnes 32 := by
    have hones : BitVec.allOnes 32 = 0xFFFFFFFF := rfl
    rw [hones]
    bv_omega
  rw [← sysYield_slots_iff hen hc sp, ← hticks, ← sysYield_totalTicks hen hc sp]
  exact ⟨fun h => ⟨h.ticks, h.slots⟩, fun h => ⟨h.2, h.1⟩⟩

/-- The last tick of a slice, with the counter about to wrap. -/
theorem sysYield_yields_iff_wrap :
    YieldsAs 0x9000 (pairProcs.modify 0 fun p =>
      { p with totalTicks := BitVec.allOnes 32, timeSlice := 1 }) 0 := by
  refine (sysYield_yields_iff (by decide +kernel) (by decide +kernel) 0x9000).mpr ⟨rfl, Or.inl ?_⟩
  exact Nat.le_refl 1

/-- A process with its slice before it, and another that is READY: SYS_YIELD leaves it RUNNING. -/
theorem sysYield_keeps_running : pairProcs.enabled = true ∧ pairProcs.current = some 0 ∧
    (pairProcs.table 0).state = .running ∧ (pairProcs.table 1).state = .ready ∧
    ((sysYield 0x9000 pairProcs).1.table 0).state = .running ∧
    ¬ YieldsAs 0x9000 pairProcs 0 := by
  have hrunning : ((sysYield 0x9000 pairProcs).1.table 0).state = .running := by decide +kernel
  refine ⟨by decide +kernel, by decide +kernel, by decide +kernel, by decide +kernel, hrunning, ?_⟩
  intro h
  have hready : ((processYield 0x9000 pairProcs).1.table 0).state = .ready := by decide +kernel
  have hstate := h.slots.state 0
  rw [hrunning, hready] at hstate
  exact nomatch hstate

end OsU
