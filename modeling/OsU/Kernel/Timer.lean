import Mathlib.Tactic

/-!
# `timer.c` — ticks, and waiting for an interrupt

The tick counter wraps, and so does the product `timer_sleep` computes. Its loop waits in
`sti; hlt`, as the loop of `gui_run` does, and both are given one statement at a time.

## What an interrupt finds

Interrupts are enabled while the loop tests its condition, so that one may come at any moment: in
front of the test, between the test and the `hlt`, or while the processor is halted. The last is the
only one that lets the loop go on. One that came before is over by then, and what it has done to the
ticks is not looked at until there is another. Hence a place of its own in front of the two
instructions, and no assumption on how many ticks are counted from one test to the next.
-/

set_option autoImplicit false

namespace OsU

/-- TIMER_FREQ -/
def timerFreq : BitVec 32 := 100

/-- `tick_count`, and `tick_frequency` as `timer_init` has set it. -/
structure Timer where
  tickCount : BitVec 32
  tickFrequency : BitVec 32
  deriving DecidableEq

/-- `n` runs of `timer_irq_handler`. -/
def Timer.ticks (n : Nat) (t : Timer) : Timer :=
  { t with tickCount := t.tickCount + BitVec.ofNat 32 n }

/-! ## `sti; hlt` -/

/-- Where a loop is at its `sti; hlt`. What follows behind the two instructions is up to the
loop. -/
inductive Hlt where
  | before | halted | behind
  deriving DecidableEq, Repr

/-- The next instruction, as long as it is one of the two. A halted processor executes none. -/
def Hlt.next : Hlt → Option Hlt
  | .before => some .halted
  | .halted => some .halted
  | .behind => none

/-- An interrupt has been handled. -/
def Hlt.interrupt : Hlt → Hlt
  | .before => .before
  | .halted => .behind
  | .behind => .behind

/-! ## `timer_sleep` -/

/-- The ticks `timer_sleep` is going to wait for. -/
def sleepTicks (ms : BitVec 32) (t : Timer) : BitVec 32 :=
  let ticks := (ms * t.tickFrequency) / 1000
  if ticks = 0 then 1 else ticks

/-- The condition of the loop of `timer_sleep`. -/
def sleeping (start ticks : BitVec 32) (t : Timer) : Bool := t.tickCount - start < ticks

/-- The locals of `timer_sleep`, and where its loop is. Behind the `hlt` it comes to the test, and
so it does at first. -/
structure Sleep where
  start : BitVec 32
  ticks : BitVec 32
  hlt : Hlt
  deriving DecidableEq

/-- `timer_sleep` up to its loop. -/
def timerSleep (ms : BitVec 32) (t : Timer) : Sleep := ⟨t.tickCount, sleepTicks ms t, .behind⟩

/-- `sys_sleep` -/
def sysSleep (ms : BitVec 32) (t : Timer) : Sleep := timerSleep ms t

/-- The next statement of the loop; `none` when it has ended. -/
def Sleep.next (t : Timer) (s : Sleep) : Option Sleep :=
  match s.hlt.next with
  | some h => some { s with hlt := h }
  | none => if sleeping s.start s.ticks t then some { s with hlt := .before } else none

def Sleep.interrupt (s : Sleep) : Sleep := { s with hlt := s.hlt.interrupt }

/-! ## A call, among interrupts -/

/-- The interrupt of the timer, another one, or the next statement. -/
inductive SleepEvent where
  | tick | interrupt | statement
  deriving DecidableEq, Repr

/-- A process in `timer_sleep`, or behind it. -/
structure Sleeper where
  timer : Timer
  sleep : Option Sleep
  deriving DecidableEq

def Sleeper.step : SleepEvent → Sleeper → Sleeper
  | .tick, p => ⟨p.timer.ticks 1, p.sleep.map Sleep.interrupt⟩
  | .interrupt, p => ⟨p.timer, p.sleep.map Sleep.interrupt⟩
  | .statement, p => ⟨p.timer, p.sleep.bind (Sleep.next p.timer)⟩

end OsU
