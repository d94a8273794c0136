import OsU.Kernel.Timer
import OsU.Lib.Runs

/-!
# How long a sleep is

The counter may wrap during a sleep: the difference `tick_count - start` does not see it. The
product of the milliseconds and the frequency may wrap too, and then what is left of it is divided
by 1000.

`SleepsFor` is about the tests that the loop makes, wherever the interrupts come. A tick between the
test and the `hlt` is counted, and is seen at the next test only: the loop then ends with more ticks
than it waits for, but at the first test that could have ended it. From `2 ^ 32` ticks on, the
counter is back where it was, and nothing is said of a test that is made so late.
-/

set_option autoImplicit false

namespace OsU

open Runs

/-- Behind `n` ticks the loop goes on as long as `n` is less than what it waits for. -/
theorem sleeping_ticks (t : Timer) (ticks : BitVec 32) {n : Nat} (hn : n < 2 ^ 32) :
    sleeping t.tickCount ticks (t.ticks n) = decide (n < ticks.toNat) := by
  have hdiff : (t.ticks n).tickCount - t.tickCount = BitVec.ofNat 32 n := by
    rw [Timer.ticks]
    bv_omega
  have hlt : BitVec.ofNat 32 n < ticks ↔ n < ticks.toNat := by
    rw [BitVec.lt_def, BitVec.toNat_ofNat, Nat.mod_eq_of_lt hn]
  rw [sleeping, hdiff]
  exact decide_eq_decide.mpr hlt

theorem ticks_ticks (t : Timer) (n d : Nat) : (t.ticks n).ticks d = t.ticks (n + d) := by
  rw [Timer.ticks, Timer.ticks, Timer.ticks, BitVec.ofNat_add, BitVec.add_assoc]

theorem ticks_zero (t : Timer) : t.ticks 0 = t := by
  rw [Timer.ticks]
  simp

/-! ## A run -/

/-- A process that waits for `ticks` ticks since the time `t`, and `n` of them have been
counted. The two locals of the loop never change, and the counter is the number of ticks
later, modulo 2 ^ 32. -/
structure Counts (t : Timer) (ticks : BitVec 32) (n : Nat) (p : Sleeper) : Prop where
  timer : p.timer = t.ticks n
  locals : ∀ s, p.sleep = some s → s.start = t.tickCount ∧ s.ticks = ticks

section Counts

variable {t : Timer} {ticks : BitVec 32} {n : Nat} {p : Sleeper}

theorem counts_start (ms : BitVec 32) (t : Timer) :
    Counts t (sleepTicks ms t) 0 ⟨t, some (sysSleep ms t)⟩ where
  timer := (ticks_zero t).symm
  locals s hs := by
    obtain rfl := Option.some.inj hs
    exact ⟨rfl, rfl⟩

theorem Sleep.next_locals {t : Timer} {s s' : Sleep} (h : s.next t = some s') :
    s'.start = s.start ∧ s'.ticks = s.ticks := by
  unfold Sleep.next at h
  split at h
  · obtain rfl := Option.some.inj h
    exact ⟨rfl, rfl⟩
  · split at h
    · obtain rfl := Option.some.inj h
      exact ⟨rfl, rfl⟩
    · cases h

/-- A tick is counted wherever the loop is: at its test, on its way to the `hlt`, or
halted. -/
theorem Counts.step (h : Counts t ticks n p) (e : SleepEvent) :
    Counts t ticks (n + [e].count .tick) (p.step e) := by
  have hwoken : ∀ s, p.sleep.map Sleep.interrupt = some s →
      s.start = t.tickCount ∧ s.ticks = ticks := by
    intro s hs
    obtain ⟨s₀, hs₀, rfl⟩ := Option.map_eq_some_iff.mp hs
    exact h.locals s₀ hs₀
  cases e with
  | tick => exact ⟨(congrArg (Timer.ticks 1) h.timer).trans (ticks_ticks t n 1), hwoken⟩
  | interrupt => exact ⟨h.timer, hwoken⟩
  | statement =>
    refine ⟨h.timer, fun s hs => ?_⟩
    obtain ⟨s₀, hs₀, hnext⟩ := Option.bind_eq_some_iff.mp hs
    obtain ⟨hstart, hticks⟩ := Sleep.next_locals hnext
    rw [hstart, hticks]
    exact h.locals s₀ hs₀

theorem Counts.run (h : Counts t ticks n p) (es : List SleepEvent) :
    Counts t ticks (n + es.count .tick) (run Sleeper.step p es) := by
  induction es generalizing n p with
  | nil => exact h
  | cons e es ih =>
    have hcount : n + (e :: es).count .tick = n + [e].count .tick + es.count .tick := by
      rw [← List.singleton_append, List.count_append, Nat.add_assoc]
    rw [hcount]
    exact ih (h.step e)

/-- **A test**: the loop goes on while there are ticks to wait for. -/
theorem Counts.test (h : Counts t ticks n p) (hn : n < 2 ^ 32) {s : Sleep} (hs : p.sleep = some s)
    (hlt : s.hlt = .behind) : s.next p.timer = none ↔ ticks.toNat ≤ n := by
  obtain ⟨hstart, hticks⟩ := h.locals s hs
  rw [Sleep.next, hlt, Hlt.next, hstart, hticks, h.timer]
  dsimp only
  rw [sleeping_ticks t ticks hn]
  by_cases hmore : n < ticks.toNat
  · rw [if_pos (decide_eq_true hmore)]
    exact iff_of_false (Option.some_ne_none _) (Nat.not_le.mpr hmore)
  · rw [if_neg (by simpa using hmore)]
    exact iff_of_true rfl (Nat.not_lt.mp hmore)

/-- The loop comes to a test: it halts, if it is not halted, and an interrupt wakes it. -/
def toTest : List SleepEvent := [.statement, .interrupt, .statement]

/-- With no ticks to wait for, that ends it. -/
theorem Counts.ends (h : Counts t ticks n p) (hn : n < 2 ^ 32) (hall : ticks.toNat ≤ n) :
    (Runs.run Sleeper.step p toTest).sleep = none := by
  obtain ⟨timer, sleep⟩ := p
  obtain rfl : timer = t.ticks n := h.timer
  have hstop : ¬ sleeping t.tickCount ticks (t.ticks n) = true := by
    rw [sleeping_ticks t ticks hn]
    simpa using hall
  cases sleep with
  | none => rfl
  | some s =>
    obtain ⟨start, ticks', hlt⟩ := s
    obtain ⟨rfl, rfl⟩ : start = t.tickCount ∧ ticks' = ticks := h.locals _ rfl
    cases hlt with
    | before => exact if_neg hstop
    | halted => exact if_neg hstop
    | behind =>
      -- it is at the test already
      have htest : Sleeper.step .statement ⟨t.ticks n, some ⟨t.tickCount, ticks', .behind⟩⟩ =
          ⟨t.ticks n, none⟩ := congrArg (Sleeper.mk _) (if_neg hstop)
      rw [toTest, run_cons, htest]
      rfl

end Counts

/-! ## Ticks that find the processor halted -/

/-- The loop goes round `k` times, and a tick ends each `hlt`. -/
def naps : Nat → List SleepEvent
  | 0 => []
  | k + 1 => naps k ++ [.statement, .statement, .tick]

theorem count_naps (k : Nat) : (naps k).count .tick = k := by
  induction k with
  | zero => rfl
  | succ k ih =>
    rw [naps, List.count_append, ih]
    rfl

/-- As long as there are ticks to wait for, the loop comes back to its test. -/
theorem run_naps (ms : BitVec 32) (t : Timer) {k : Nat} (hk : k ≤ (sleepTicks ms t).toNat) :
    run Sleeper.step ⟨t, some (sysSleep ms t)⟩ (naps k) =
      ⟨t.ticks k, some ⟨t.tickCount, sleepTicks ms t, .behind⟩⟩ := by
  induction k with
  | zero =>
    rw [ticks_zero]
    rfl
  | succ k ih =>
    have hlt : k < 2 ^ 32 := (Nat.lt_of_succ_le hk).trans (sleepTicks ms t).isLt
    have hgo : sleeping t.tickCount (sleepTicks ms t) (t.ticks k) = true := by
      rw [sleeping_ticks t _ hlt]
      exact decide_eq_true (Nat.lt_of_succ_le hk)
    have htest : Sleeper.step .statement ⟨t.ticks k, some ⟨t.tickCount, sleepTicks ms t, .behind⟩⟩ =
        ⟨t.ticks k, some ⟨t.tickCount, sleepTicks ms t, .before⟩⟩ :=
      congrArg (Sleeper.mk _) (if_pos hgo)
    rw [naps, run_append, ih (Nat.le_of_succ_le hk), run_cons, htest, ← ticks_ticks]
    rfl

/-! ## The length of a sleep -/

/-- **A sleep ends at the first test with `n` ticks counted**, wherever the interrupts come. -/
structure SleepsFor (n : Nat) (ms : BitVec 32) (t : Timer) : Prop where
  /-- Whenever the loop makes its test, with fewer than `2 ^ 32` ticks counted since the call, it
  ends there if `n` of them have been counted, and goes on if not. -/
  test : ∀ es : List SleepEvent, es.count .tick < 2 ^ 32 →
    let p := run Sleeper.step ⟨t, some (sysSleep ms t)⟩ es
    ∀ s, p.sleep = some s → s.hlt = .behind → (s.next p.timer = none ↔ n ≤ es.count .tick)
  /-- Once they have been counted, one interrupt more is enough, if it finds the loop halted. -/
  ends : ∀ es : List SleepEvent, n ≤ es.count .tick → es.count .tick < 2 ^ 32 →
    (run Sleeper.step ⟨t, some (sysSleep ms t)⟩ (es ++ toTest)).sleep = none

/-- A sleep ends at the first test with `n` ticks counted exactly if `n` is what
`timer_sleep` computes. For another number there is a run, of naps, that shows the
difference. -/
theorem sleepsFor_iff (n : Nat) (ms : BitVec 32) (t : Timer) :
    SleepsFor n ms t ↔ (sleepTicks ms t).toNat = n := by
  have hcounts : ∀ es : List SleepEvent, Counts t (sleepTicks ms t) (es.count .tick)
      (run Sleeper.step ⟨t, some (sysSleep ms t)⟩ es) := by
    intro es
    have hrun := (counts_start ms t).run es
    rwa [Nat.zero_add] at hrun
  constructor
  · intro h
    -- at the test with `k` ticks counted
    have htest : ∀ k ≤ (sleepTicks ms t).toNat, ((sleepTicks ms t).toNat ≤ k ↔ n ≤ k) := by
      intro k hk
      have hlt : (naps k).count .tick < 2 ^ 32 := by
        rw [count_naps]
        exact hk.trans_lt (sleepTicks ms t).isLt
      have hsleep := congrArg Sleeper.sleep (run_naps ms t hk)
      have hends := (hcounts (naps k)).test hlt hsleep rfl
      rw [h.test (naps k) hlt _ hsleep rfl, count_naps] at hends
      exact hends.symm
    have hlate : n ≤ (sleepTicks ms t).toNat := (htest _ (Nat.le_refl _)).mp (Nat.le_refl _)
    exact Nat.le_antisymm ((htest n hlate).mpr (Nat.le_refl n)) hlate
  · rintro rfl
    refine ⟨fun es hes s hs hlt => (hcounts es).test hes hs hlt, fun es hall hes => ?_⟩
    rw [run_append]
    exact (hcounts es).ends hes hall

/-- The ticks in `ms` milliseconds, at least one: what the sum would be in numbers that
do not wrap. -/
def ticksIn (ms freq : Nat) : Nat := max 1 (ms * freq / 1000)

theorem sleepTicks_toNat (ms : BitVec 32) (t : Timer) :
    (sleepTicks ms t).toNat = max 1 ((ms.toNat * t.tickFrequency.toNat) % 2 ^ 32 / 1000) := by
  have hdiv : ((ms * t.tickFrequency) / 1000).toNat =
      (ms.toNat * t.tickFrequency.toNat) % 2 ^ 32 / 1000 := by
    rw [BitVec.toNat_udiv, BitVec.toNat_mul]
    rfl
  rw [sleepTicks]
  split
  · rename_i h0
    rw [h0] at hdiv
    rw [← hdiv]
    rfl
  · rename_i h0
    have hpos : (ms * t.tickFrequency / 1000).toNat ≠ 0 := fun hz => h0 (BitVec.eq_of_toNat_eq hz)
    rw [hdiv] at hpos ⊢
    omega

/-- **A sleep lasts as long as it should** exactly when the product does not wrap. It
ends at the first test of the tick count with as many ticks as the time has, or one if
it has none, wherever the ticks come. -/
theorem sleepsFor_ticksIn_iff (ms tickCount : BitVec 32) :
    SleepsFor (ticksIn ms.toNat 100) ms ⟨tickCount, timerFreq⟩ ↔ ms.toNat ≤ 42949672 := by
  have hfreq : timerFreq.toNat = 100 := rfl
  rw [sleepsFor_iff, sleepTicks_toNat, ticksIn, hfreq]
  constructor
  · intro h
    by_contra hbig
    -- the quotient falls by 2^32 / 1000 at least
    have hwrap : ms.toNat * 100 % 2 ^ 32 + 2 ^ 32 ≤ ms.toNat * 100 := by omega
    have hless : ms.toNat * 100 % 2 ^ 32 / 1000 + 4294967 ≤ ms.toNat * 100 / 1000 := by omega
    omega
  · intro h
    rw [Nat.mod_eq_of_lt (by omega)]

/-- 42949673 ms, nearly twelve hours: the test behind one tick ends the sleep. -/
theorem sleep_too_short :
    run Sleeper.step ⟨⟨0, timerFreq⟩, some (sysSleep 42949673 ⟨0, timerFreq⟩)⟩
        [.statement, .statement, .tick, .statement] = ⟨⟨1, timerFreq⟩, none⟩ ∧
      ticksIn 42949673 100 = 4294967 ∧
      ¬ SleepsFor (ticksIn 42949673 100) 42949673 ⟨0, timerFreq⟩ := by
  have hticks : ticksIn 42949673 100 = 4294967 := by decide
  refine ⟨by decide, hticks, fun h => ?_⟩
  have hshort := h.test [.statement, .statement, .tick] (by decide) ⟨0, 1, .behind⟩ (by decide) rfl
  rw [hticks] at hshort
  exact absurd (hshort.mp (by decide)) (by decide)

end OsU
