import OsU.Proof.Sched

/-!
# Round robin does not starve

`schedule` searches the ring of slots from just past the current one. While a slot `j`
is READY every dispatch of another slot brings the search closer to `j`
(`gap_dispatch`), whatever else is created, killed or reaped in between, and no other
call moves it. The gap is at most 15, so the 16th dispatch is `j`'s if none before it
was.

Nothing is asked of the other slots. Processes may be created in front of `j` in the
ring, and they cannot delay it: the search never goes back. The bound is on dispatches
and not on ticks, since how long a process keeps the CPU is its own affair when the
timer does not preempt it.
-/

set_option autoImplicit false

namespace OsU

open Runs Cyclic

/-- The slots a run dispatches, in order. -/
def dispatches (img : Image) : Procs → List ProcOp → List (Fin 16)
  | _, [] => []
  | k, op :: ops => (op.dispatched img k).toList ++ dispatches img (op.step img k) ops

/-- A dispatch by `schedule` of a slot other than `j`. -/
theorem gap_schedule {k : Procs} {j : Fin 16}
    (hj : (k.table j).state = .ready ∨ k.current = some j) {sp : BitVec 32} {d : Dispatch}
    (hd : (schedule sp k).2 = some d) (hne : d.next ≠ j) :
    gap (schedule sp k).1.start j < gap k.start j := by
  obtain ⟨-, he⟩ | ⟨-, -, he⟩ | ⟨next, -, hs, he⟩ := schedule_cases sp k
  · rw [he] at hd
    exact nomatch hd
  · rw [he] at hd
    exact nomatch hd
  · rw [he] at hd ⊢
    obtain rfl := Option.some.inj hd
    rw [Procs.switchTo_dispatch] at hne
    have hstart : (k.cleanupZombies.switchTo next sp).1.start = next + 1 := by
      rw [Procs.start, Procs.switchTo_current]
    rw [hstart]
    refine gap_lt hne ?_
    cases hj with
    | inl hr => exact (scan_some hs).2 j (by simpa using hr)
    | inr hc =>
      rw [Procs.gap_current hc]
      exact Nat.le_of_lt_succ (gap_lt_size _ _)

/-- **One call**, with `j` READY before it: the search for `j` is no longer, and shorter if another
slot is dispatched. -/
theorem gap_dispatch (img : Image) (op : ProcOp) {k : Procs} {j : Fin 16}
    (hj : (k.table j).state = .ready) :
    (op.dispatched img k = none → gap (op.step img k).start j = gap k.start j) ∧
      ∀ n, op.dispatched img k = some n → n ≠ j →
        gap (op.step img k).start j < gap k.start j := by
  unfold ProcOp.dispatched
  obtain ⟨he, hk⟩ | ⟨k₁, he, hk₁, -⟩ := op.exec_cases img k
  · rw [he]
    refine ⟨fun _ => ?_, fun n hn => by cases hn⟩
    rw [Procs.start, Procs.start, ProcOp.step, hk.current]
  · have hstart : k₁.start = k.start := by rw [Procs.start, Procs.start, hk₁.current]
    unfold ProcOp.step
    rw [he, ← hstart]
    constructor
    · intro hn
      rw [Option.map_eq_none_iff] at hn
      obtain ⟨-, hs⟩ | ⟨-, -, hs⟩ | ⟨next, -, -, hs⟩ := schedule_cases op.sp k₁
      · rw [hs]
      · rw [hs]
        rfl
      · rw [hs] at hn
        cases hn
    · intro n hn hne
      obtain ⟨d, hd, rfl⟩ := Option.map_eq_some_iff.mp hn
      refine gap_schedule ?_ hd hne
      -- the slot is as it was, or it was the current one
      by_cases hc : k.current = some j
      · exact Or.inr (hk₁.current.trans hc)
      · rw [hk₁.other j hc]
        exact Or.inl hj

/-- The slot dispatched is RUNNING after the call. -/
theorem running_of_dispatched {img : Image} {op : ProcOp} {k : Procs} {n : Fin 16}
    (h : op.dispatched img k = some n) : ((op.step img k).table n).state = .running := by
  unfold ProcOp.dispatched at h
  unfold ProcOp.step
  obtain ⟨he, -⟩ | ⟨k₁, he, -, -⟩ := op.exec_cases img k
  · rw [he] at h
    exact nomatch h
  · rw [he] at h ⊢
    obtain ⟨-, hs⟩ | ⟨-, -, hs⟩ | ⟨next, -, -, hs⟩ := schedule_cases op.sp k₁
    · rw [hs] at h
      exact nomatch h
    · rw [hs] at h
      exact nomatch h
    · rw [hs, Option.map_some, Procs.switchTo_dispatch] at h
      obtain rfl := Option.some.inj h
      rw [hs, Procs.switchTo_table]
      exact if_pos rfl

/-- **The potential argument.** With `j` READY before every call, the dispatches of
other slots are at most the gap, and only the last dispatch can be `j`'s, since it makes
`j` RUNNING. By induction on the calls, for any starting gap. -/
theorem dispatches_le_gap (img : Image) {ops : List ProcOp} {k : Procs} {j : Fin 16}
    (h : Along (ProcOp.step img) (fun k _ => (k.table j).state = .ready) k ops) :
    (j ∉ dispatches img k ops ∧ (dispatches img k ops).length ≤ gap k.start j) ∨
      ∃ l, dispatches img k ops = l ++ [j] ∧ j ∉ l ∧ l.length ≤ gap k.start j := by
  induction ops generalizing k with
  | nil => exact Or.inl ⟨by simp [dispatches], Nat.zero_le _⟩
  | cons op ops ih =>
    obtain ⟨hj, hrest⟩ := h
    obtain ⟨hnone, hsome⟩ := gap_dispatch img op hj
    rw [dispatches]
    cases hd : op.dispatched img k with
    | none =>
      rw [← hnone hd]
      exact ih hrest
    | some n =>
      by_cases hne : n = j
      · -- `j` is RUNNING now, so the run ends here
        have hrun := running_of_dispatched hd
        rw [hne] at hrun
        cases ops with
        | nil => exact Or.inr ⟨[], by simp [dispatches, hne], by simp, Nat.zero_le _⟩
        | cons op' ops' =>
          rw [hrest.1] at hrun
          exact nomatch hrun
      · have hlt := hsome n hd hne
        have hjn : j ≠ n := fun he => hne he.symm
        obtain ⟨hnot, hle⟩ | ⟨l, hl, hnot, hle⟩ := ih hrest
        · refine Or.inl ⟨?_, ?_⟩
          · simpa [hjn] using hnot
          · simp only [Option.toList_some, List.length_append, List.length_singleton]
            omega
        · refine Or.inr ⟨n :: l, ?_, ?_, ?_⟩
          · rw [hl]
            rfl
          · simpa [hjn] using hnot
          · rw [List.length_cons]
            omega

/-- **No starvation.** In a run with `j` READY before every call, at most 15 dispatches are of
other slots, so if there are 16 the 16th is `j`'s. -/
theorem no_starvation (img : Image) {ops : List ProcOp} {k : Procs} {j : Fin 16}
    (h : Along (ProcOp.step img) (fun k _ => (k.table j).state = .ready) k ops) :
    (dispatches img k ops).countP (· ≠ j) ≤ 15 ∧
      (16 ≤ (dispatches img k ops).length → (dispatches img k ops)[15]? = some j) := by
  have hgap := gap_lt_size k.start j
  obtain ⟨-, hle⟩ | ⟨l, hl, -, hle⟩ := dispatches_le_gap img h
  · have hcount : (dispatches img k ops).countP (· ≠ j) ≤ (dispatches img k ops).length :=
      List.countP_le_length
    exact ⟨by omega, fun h16 => by omega⟩
  · have hcount : (l ++ [j]).countP (· ≠ j) = l.countP (· ≠ j) := by simp
    have hlen : l.countP (· ≠ j) ≤ l.length := List.countP_le_length
    rw [hl, hcount]
    refine ⟨by omega, fun h16 => ?_⟩
    rw [List.length_append, List.length_singleton] at h16
    have h15 : l.length = 15 := by omega
    rw [← h15, List.getElem?_concat_length]

/-- Two processes, the second READY until it is dispatched. -/
theorem no_starvation_demo :
    let k := run (ProcOp.step ⟨0x100000, 0x2000⟩) processInit
      [.create [0x61] 0x3000, .create [0x62] 0x4000, .init]
    (dispatches ⟨0x100000, 0x2000⟩ k [.yield 0, .tick 0, .yield 0]).countP (· ≠ 1) ≤ 15 ∧
      (16 ≤ (dispatches ⟨0x100000, 0x2000⟩ k [.yield 0, .tick 0, .yield 0]).length →
        (dispatches ⟨0x100000, 0x2000⟩ k [.yield 0, .tick 0, .yield 0])[15]? = some 1) :=
  no_starvation _ ⟨by decide +kernel, by decide +kernel, by decide +kernel, trivial⟩

end OsU
