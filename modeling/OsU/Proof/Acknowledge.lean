import OsU.Kernel.Entry
import OsU.Proof.Sched

/-!
# The timer interrupt and the switch inside it

`isr_handler_c` acknowledges the timer after its handler returns, and the handler can
switch to another context first. That one acknowledges IRQ0 only if it left the CPU
inside a timer interrupt itself; and before the first such switch no context has. So the
line stays free exactly in the runs in which no timer interrupt switches
(`acknowledged_iff`): the first one that does leaves IRQ0 in service under whatever runs
next, and there is no further tick.

The machine keeps for each context where it left the CPU (`Left`), because that decides
what it does when it goes on: return from a call, finish an interrupt handler, or start
at its entry. `Quiescent` is the invariant, and the only event that breaks it is the one
`Preempts` names, by the slice and by who is READY before the event.
-/

set_option autoImplicit false

namespace OsU

open Runs Cyclic

/-- The timer interrupt arrives with the slice used up and a process other than the
current one READY. It is read off the globals before the event; `tick` is the decrement
that the handler makes first. -/
def Event.Preempts (m : Machine) : Event → Prop
  | .interrupt intNo _ => intNo = 32 ∧ m.procs.enabled = true ∧ ∃ i, m.procs.current = some i ∧
      (m.procs.table i).tick.timeSlice = 0 ∧ ∃ j, j ≠ i ∧ (m.procs.table j).state = .ready
  | .call _ => False

/-- IRQ0 is not in service, and no context will acknowledge a line when it goes on. -/
structure Quiescent (m : Machine) : Prop where
  free : m.inService = false
  left : ∀ i intNo, m.left i = .handler intNo → isIrq intNo = false

theorem quiescent_boot : Quiescent Machine.boot := ⟨rfl, nofun⟩

/-! ## The switch of a tick -/

/-- `schedule` switches away from slot `i` when another is READY, and only then. -/
theorem schedule_switches {k : Procs} {i : Fin 16} (hen : k.enabled = true)
    (hi : k.current = some i) (sp : BitVec 32) :
    (∃ next a, (schedule sp k).2 = some ⟨next, some a⟩) ↔
      ∃ j, j ≠ i ∧ (k.table j).state = .ready := by
  constructor
  · rintro ⟨next, a, h⟩
    obtain ⟨-, he⟩ | ⟨-, -, he⟩ | ⟨n, -, hs, he⟩ := schedule_cases sp k
    · rw [he] at h
      exact nomatch h
    · rw [he] at h
      exact nomatch h
    · rw [he, Procs.switchTo_dispatch, Procs.cleanupZombies_current, hi] at h
      refine ⟨n, fun hn => ?_, Procs.search_ready hs⟩
      rw [if_pos (congrArg some hn.symm)] at h
      exact nomatch h
  · rintro ⟨j, hj, hr⟩
    obtain ⟨next, hs⟩ := Procs.search_of_ready hr
    have hne : i ≠ next := by
      -- the current slot comes last in the ring
      rintro rfl
      have hle := (scan_some hs).2 j (by simpa using hr)
      have hlt := gap_lt_size k.start j
      rw [Procs.gap_current hi] at hle
      have hgap : gap k.start j = gap k.start i := by
        rw [Procs.gap_current hi]
        omega
      exact hj (gap_inj hgap)
    rw [schedule_dispatched sp hen hs, Procs.switchTo_dispatch, Procs.cleanupZombies_current, hi,
      if_neg fun he => hne (Option.some.inj he)]
    exact ⟨next, _, rfl⟩

theorem schedulerTick_switches (sp : BitVec 32) (k : Procs) :
    (∃ next a, (schedulerTick sp k).2 = some ⟨next, some a⟩) ↔
      k.enabled = true ∧ ∃ i, k.current = some i ∧ (k.table i).tick.timeSlice = 0 ∧
        ∃ j, j ≠ i ∧ (k.table j).state = .ready := by
  obtain ⟨hno, he⟩ | ⟨i, hen, hi, ⟨hz, he⟩ | ⟨hz, he⟩⟩ := schedulerTick_cases sp k
  · rw [he]
    refine iff_of_false nofun fun ⟨hen, i, hi, _⟩ => ?_
    cases hno with
    | inl hf => exact absurd (hen.symm.trans hf) (by decide)
    | inr hn => exact absurd (hi.symm.trans hn) nofun
  · rw [he]
    refine iff_of_false nofun fun ⟨_, c, hc, hcz, _⟩ => ?_
    rw [← Option.some.inj (hi.symm.trans hc)] at hcz
    exact hz hcz
  · rw [he, schedule_switches (k := k.modify i fun p => { p.tick with timeSlice := 10 }) hen hi]
    have hother : ∀ j, j ≠ i →
        (k.modify i fun p => { p.tick with timeSlice := 10 }).table j = k.table j :=
      fun j hj => if_neg hj
    constructor
    · rintro ⟨j, hj, hr⟩
      rw [hother j hj] at hr
      exact ⟨hen, i, hi, hz, j, hj, hr⟩
    · rintro ⟨-, c, hc, -, j, hj, hr⟩
      obtain rfl := Option.some.inj (hi.symm.trans hc)
      exact ⟨j, hj, by rw [hother j hj]; exact hr⟩

/-- A switch goes to another slot than the one it leaves. -/
theorem switch_ne {k : Procs} {sp : BitVec 32} {next : Fin 16} {a : SwitchArgs}
    (h : (schedulerTick sp k).2 = some ⟨next, some a⟩) : a.oldSp ≠ some next := by
  have hsched : ∀ {k : Procs}, (schedule sp k).2 = some ⟨next, some a⟩ → a.oldSp ≠ some next := by
    intro k h ho
    obtain ⟨-, he⟩ | ⟨-, -, he⟩ | ⟨n, -, -, he⟩ := schedule_cases sp k
    · rw [he] at h
      exact nomatch h
    · rw [he] at h
      exact nomatch h
    · rw [he, Procs.switchTo_dispatch, Procs.cleanupZombies_current] at h
      obtain ⟨rfl, hs⟩ := Dispatch.mk.inj (Option.some.inj h)
      by_cases hc : k.current = some n
      · rw [if_pos hc] at hs
        exact nomatch hs
      · rw [if_neg hc] at hs
        obtain rfl := Option.some.inj hs
        exact hc ho
  obtain ⟨-, he⟩ | ⟨i, -, -, ⟨-, he⟩ | ⟨-, he⟩⟩ := schedulerTick_cases sp k
  · rw [he] at h
    exact nomatch h
  · rw [he] at h
    exact nomatch h
  · rw [he] at h
    exact hsched h

/-! ## One event -/

section Events

variable {m : Machine}

/-- No context has a line to acknowledge. -/
def Machine.Quiet (m : Machine) : Prop := ∀ i n, m.left i = .handler n → isIrq n = false

/-- A context with nothing to acknowledge goes on. -/
theorem Machine.goOn_quiet (m : Machine) {l : Left} (h : ∀ n, l = .handler n → isIrq n = false) :
    m.goOn l = m := by
  cases l with
  | fresh => rfl
  | call => rfl
  | handler n => exact if_neg (by rw [h n rfl]; decide)

/-- Without a switch the caller goes on. -/
theorem Machine.called_back (m : Machine) (here : Left) {r : Procs × Option Dispatch}
    (h : ¬ ∃ next a, r.2 = some ⟨next, some a⟩) :
    m.called here r = { m with procs := r.1 }.goOn here := by
  obtain ⟨k, d⟩ := r
  cases d with
  | none => rfl
  | some d =>
    obtain ⟨next, sw⟩ := d
    cases sw with
    | none => rfl
    | some a => exact absurd ⟨next, a, rfl⟩ h

/-- After a switch the next context goes on, and no line is acknowledged. -/
theorem Machine.Quiet.called_switch (h : m.Quiet) (here : Left) {r : Procs × Option Dispatch}
    {next : Fin 16} {a : SwitchArgs} (hr : r.2 = some ⟨next, some a⟩)
    (hnext : a.oldSp = some next → ∀ n, here = .handler n → isIrq n = false) :
    (m.called here r).inService = m.inService ∧
      ∀ i, (m.called here r).left i = m.left i ∨ (m.called here r).left i = here := by
  obtain ⟨k, d⟩ := r
  obtain rfl : d = some ⟨next, some a⟩ := hr
  obtain ⟨oldSp, newSp⟩ := a
  cases oldSp with
  | none =>
    have he : m.called here (k, some ⟨next, some ⟨none, newSp⟩⟩) = { m with procs := k } :=
      Machine.goOn_quiet _ fun n hn => h next n hn
    rw [he]
    exact ⟨rfl, fun i => Or.inl rfl⟩
  | some o =>
    have he : m.called here (k, some ⟨next, some ⟨some o, newSp⟩⟩) =
        { m with procs := k, left := Function.update m.left o here } := by
      refine Machine.goOn_quiet _ fun n hn => ?_
      change Function.update m.left o here next = _ at hn
      -- A process that is switched to itself goes on where it is, and any other where
      -- it was left.
      by_cases ho : next = o
      · rw [ho, Function.update_self] at hn
        exact hnext (congrArg some ho.symm) n hn
      · rw [Function.update_of_ne ho] at hn
        exact h next n hn
    rw [he]
    refine ⟨rfl, fun i => ?_⟩
    by_cases hi : i = o
    · exact Or.inr (by rw [hi]; exact Function.update_self _ _ _)
    · exact Or.inl (Function.update_of_ne hi _ _)

/-- A call from a place with nothing to acknowledge. -/
theorem Quiescent.called (h : Quiescent m) {here : Left}
    (hh : ∀ n, here = .handler n → isIrq n = false) (r : Procs × Option Dispatch) :
    Quiescent (m.called here r) := by
  by_cases hs : ∃ next a, r.2 = some ⟨next, some a⟩
  · obtain ⟨next, a, hr⟩ := hs
    obtain ⟨hserv, hleft⟩ := Machine.Quiet.called_switch h.left here hr fun _ => hh
    refine ⟨hserv.trans h.free, fun i n hn => ?_⟩
    obtain hi | hi := hleft i
    · exact h.left i n (hi ▸ hn)
    · exact hh n (hi ▸ hn)
  · rw [m.called_back here hs, Machine.goOn_quiet _ hh]
    exact ⟨h.free, h.left⟩

theorem Quiescent.markFresh (h : Quiescent m) (op : ProcOp) : Quiescent (m.markFresh op) := by
  cases op with
  | create name entry =>
    simp only [Machine.markFresh]
    cases m.procs.findFreeSlot with
    | none => exact h
    | some i =>
      refine ⟨h.free, fun j n hn => ?_⟩
      change Function.update m.left i .fresh j = _ at hn
      by_cases hj : j = i
      · rw [hj, Function.update_self] at hn
        exact nomatch hn
      · rw [Function.update_of_ne hj] at hn
        exact h.left j n hn
  | kill pid sp => exact h
  | exit code sp => exact h
  | yield sp => exact h
  | init => exact h
  | tick sp => exact h

/-- **The timer interrupt.** It leaves the line free exactly when its handler does not
switch. After a switch the context that goes on has nothing to acknowledge, which is
what `Quiescent` says of all of them. -/
theorem Quiescent.timer (h : Quiescent m) (sp : BitVec 32) :
    ((m.interrupt 32 sp).inService = false ↔ ¬ Event.Preempts m (.interrupt 32 sp)) ∧
      (¬ Event.Preempts m (.interrupt 32 sp) → Quiescent (m.interrupt 32 sp)) := by
  have hdel : m.interrupt 32 sp =
      { m with inService := true }.called (.handler 32) (schedulerTick sp m.procs) := by
    unfold Machine.interrupt
    rw [h.free, if_neg fun hx => nomatch hx.2]
    rfl
  have hpre : Event.Preempts m (.interrupt 32 sp) ↔
      ∃ next a, (schedulerTick sp m.procs).2 = some ⟨next, some a⟩ := by
    rw [schedulerTick_switches]
    exact ⟨fun hp => hp.2, fun hp => ⟨rfl, hp⟩⟩
  rw [hdel, hpre]
  by_cases hs : ∃ next a, (schedulerTick sp m.procs).2 = some ⟨next, some a⟩
  · -- the handler is left behind, and the context gone to has no line to acknowledge
    obtain ⟨next, a, hr⟩ := hs
    have hq : Machine.Quiet { m with inService := true } := h.left
    obtain ⟨hserv, -⟩ := hq.called_switch (.handler 32) hr fun ho => absurd ho (switch_ne hr)
    rw [hserv]
    exact ⟨iff_of_false nofun fun hn => hn ⟨next, a, hr⟩, fun hn => absurd ⟨next, a, hr⟩ hn⟩
  · rw [Machine.called_back _ _ hs]
    exact ⟨iff_of_true rfl hs, fun _ => ⟨rfl, h.left⟩⟩

theorem Quiescent.step (h : Quiescent m) (img : Image) (e : Event) :
    ((m.step img e).inService = false ↔ ¬ e.Preempts m) ∧
      (¬ e.Preempts m → Quiescent (m.step img e)) := by
  have hkeep : Quiescent (m.step img e) → ¬ e.Preempts m →
      ((m.step img e).inService = false ↔ ¬ e.Preempts m) ∧
        (¬ e.Preempts m → Quiescent (m.step img e)) := fun hq hn =>
    ⟨iff_of_true hq.free hn, fun _ => hq⟩
  cases e with
  | call op =>
    exact hkeep ((h.markFresh op).called (fun n (hn : Left.call = .handler n) => nomatch hn) _) id
  | interrupt intNo sp =>
    by_cases h32 : intNo = 32
    · subst h32
      exact h.timer sp
    · refine hkeep ?_ fun hp => h32 hp.1
      have hdel : m.step img (.interrupt intNo sp) = m.isrHandlerC intNo sp := by
        change m.interrupt intNo sp = _
        unfold Machine.interrupt
        have hnot : ¬ (isIrq intNo = true ∧ m.inService = true) := fun hx =>
          absurd (h.free.symm.trans hx.2) (by decide)
        rw [if_neg hnot]
        have hne : (intNo == 32) = false := beq_eq_false_iff_ne.mpr h32
        rw [hne, Bool.or_false]
      rw [hdel, Machine.isrHandlerC, if_neg h32]
      split
      · -- a system call is not a line of the PIC
        rename_i h80
        refine h.called (fun n hn => ?_) _
        obtain rfl := Left.handler.inj hn
        rw [h80]
        rfl
      · unfold Machine.finishIsr
        split
        · exact ⟨rfl, h.left⟩
        · exact h

end Events

/-! ## Runs -/

/-- **IRQ0 is acknowledged before the CPU is outside interrupt handlers again**, at
every step of a run from boot, exactly when no timer interrupt of the run preempts a
process. Steps are calls of the routines and interrupts of any number, in any order. -/
theorem acknowledged_iff (img : Image) (es : List Event) :
    Along (Machine.step img) (fun m e => (m.step img e).inService = false) Machine.boot es ↔
      Along (Machine.step img) (fun m e => ¬ e.Preempts m) Machine.boot es :=
  along_iff (P := Quiescent) (fun _ e h => (h.step img e).1) (fun _ e h => (h.step img e).2)
    quiescent_boot

/-- Two processes, the first yielded to; its tenth tick runs the second with IRQ0 in service. -/
theorem not_acknowledged :
    (run (Machine.step ⟨0x100000, 0x2000⟩) Machine.boot
      ([.call (.create [0x61] 0x3000), .call (.create [0x62] 0x4000), .call .init,
        .call (.yield 0x9000)] ++ List.replicate 10 (.interrupt 32 0x101000))).inService = true := by
  decide +kernel

end OsU
