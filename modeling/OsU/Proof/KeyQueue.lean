import OsU.Lib.Ring
import OsU.Lib.Runs
import OsU.Kernel.Keyboard

/-!
# The keyboard buffer is a queue

`enqueue_char` runs whole, in the interrupt; `dequeue_char` a statement at a time, with
any number of interrupts before each. What makes that safe is that only the consumer
moves `kbd_tail` and only the interrupt moves `kbd_head`: a cell found full by the test
stays full, with the same character, until the consumer releases it (`KeyRun.Inv`).

There is one processor, so an interrupt falls between two statements and never inside
one. The statements are those of the source: the test, the read of the cell, and the
store to `kbd_tail`, which is where the character is returned. Whether the compiled code
keeps that order is not asked here.

The characters that were accepted and those that were returned are ghosts, and the queue
is what lies between them. The ring holds one character less than it has cells, because
a full ring must differ from an empty one.
-/

set_option autoImplicit false

namespace OsU

open Runs

/-- The driver, the statement its consumer is at, the characters `enqueue_char` has put in the
buffer so far and those `dequeue_char` has returned. -/
structure KeyRun where
  kbd : Keyboard
  consumer : Dequeue
  accepted : List UInt8
  returned : List UInt8

/-- After `keyboard_init`. -/
def KeyRun.boot (buf : Nat → UInt8) : KeyRun := ⟨keyboardInit buf, .test, [], []⟩

inductive KeyEvent where
  /-- An interrupt calls `enqueue_char`. -/
  | enqueue (c : UInt8)
  /-- The consumer executes its next statement. -/
  | statement

/-- `enqueue_char` drops the character. -/
def Keyboard.Rejects (k : Keyboard) : Prop := (k.kbdHead + 1) % kbdBufSize = k.kbdTail

instance (k : Keyboard) : Decidable k.Rejects := by unfold Keyboard.Rejects; infer_instance

def KeyRun.step : KeyEvent → KeyRun → KeyRun
  | .enqueue c, r => { r with
      kbd := r.kbd.enqueueChar c
      accepted := if r.kbd.Rejects then r.accepted else r.accepted ++ [c] }
  | .statement, r =>
    let s := r.consumer.next r.kbd
    { r with consumer := s.1, kbd := s.2.1, returned := r.returned ++ s.2.2.toList }

/-- The statements, one after the other, are `dequeue_char`. -/
theorem KeyRun.dequeue (k : Keyboard) (accepted returned : List UInt8) :
    run KeyRun.step ⟨k, .test, accepted, returned⟩
        (.statement :: if k.kbdHead = k.kbdTail then [] else [.statement, .statement]) =
      ⟨k.dequeueChar.2, .test, accepted, returned ++ k.dequeueChar.1.toList⟩ := by
  unfold Keyboard.dequeueChar
  by_cases h : k.kbdHead = k.kbdTail
  · rw [if_pos h, if_pos h]
    simp [KeyRun.step, Dequeue.next, h]
  · rw [if_neg h, if_neg h]
    simp [KeyRun.step, Dequeue.next, h]

theorem Keyboard.enqueueChar_rejects {k : Keyboard} (h : k.Rejects) (c : UInt8) :
    k.enqueueChar c = k := if_pos h

theorem Keyboard.enqueueChar_accepts {k : Keyboard} (h : ¬ k.Rejects) (c : UInt8) :
    k.enqueueChar c = { k with
      kbdBuf := Function.update k.kbdBuf k.kbdHead c
      kbdHead := (k.kbdHead + 1) % kbdBufSize } := if_neg h

/-- `held` is in the buffer, oldest first, and a consumer past its test holds on to the
oldest. That the consumer's local still has the right character is the part that an
interrupt could have broken. -/
structure KeyRun.Inv (r : KeyRun) (held : List UInt8) : Prop where
  ring : Ring.Holds r.kbd.kbdBuf kbdBufSize r.kbd.kbdHead r.kbd.kbdTail held
  conserved : r.accepted = r.returned ++ held
  found : r.consumer = .read → held ≠ []
  out : ∀ c, r.consumer = .release c → held.head? = some c

theorem KeyRun.Inv.boot (buf : Nat → UInt8) : (KeyRun.boot buf).Inv [] where
  ring := .empty buf (show 0 < kbdBufSize by decide)
  conserved := rfl
  found := nofun
  out := nofun

section Steps

variable {r : KeyRun} {held : List UInt8}

theorem KeyRun.Inv.rejects_iff (h : r.Inv held) : r.kbd.Rejects ↔ held.length = 255 := by
  unfold Keyboard.Rejects
  rw [h.ring.full_iff]
  exact Nat.succ_inj

/-- An interrupt that finds room puts its character behind the others. -/
theorem KeyRun.Inv.enqueue (h : r.Inv held) (c : UInt8) (hr : ¬ r.kbd.Rejects) :
    (r.step (.enqueue c)).Inv (held ++ [c]) := by
  have hroom : held.length + 1 < kbdBufSize := by
    have hlt : held.length < kbdBufSize := h.ring.room
    have hne : held.length ≠ 255 := fun he => hr (h.rejects_iff.mpr he)
    unfold kbdBufSize at *
    omega
  simp only [KeyRun.step, if_neg hr, Keyboard.enqueueChar_accepts hr]
  constructor
  · exact h.ring.push c hroom
  · change r.accepted ++ [c] = r.returned ++ (held ++ [c])
    rw [h.conserved, List.append_assoc]
  · exact fun _ => by simp
  · intro out hout
    have hhead := h.out out hout
    rw [List.head?_append, hhead]
    rfl

theorem KeyRun.Inv.enqueue_rejected (h : r.Inv held) (c : UInt8) (hr : r.kbd.Rejects) :
    (r.step (.enqueue c)).Inv held := by
  simp only [KeyRun.step, if_pos hr, Keyboard.enqueueChar_rejects hr]
  exact h

/-- A statement of the consumer: the last one takes the oldest character out. The other
two change nothing but where the consumer is. -/
theorem KeyRun.Inv.statement (h : r.Inv held) : ∃ held', (r.step .statement).Inv held' := by
  obtain ⟨kbd, consumer, accepted, returned⟩ := r
  have hacc : accepted = returned ++ held := h.conserved
  cases consumer with
  | test =>
    refine ⟨held, h.ring, ?_, ?_, ?_⟩
    · simpa [KeyRun.step, Dequeue.next] using hacc
    · intro hread hnil
      have heq : kbd.kbdHead = kbd.kbdTail := h.ring.empty_iff.mpr hnil
      simp [KeyRun.step, Dequeue.next, heq] at hread
    · intro c hc
      by_cases heq : kbd.kbdHead = kbd.kbdTail <;> simp [KeyRun.step, Dequeue.next, heq] at hc
  | read =>
    cases held with
    | nil => exact absurd rfl (h.found rfl)
    | cons x xs =>
      refine ⟨x :: xs, h.ring, ?_, nofun, ?_⟩
      · simpa [KeyRun.step, Dequeue.next] using hacc
      · rintro c hc
        obtain rfl := Dequeue.release.inj hc
        exact congrArg some h.ring.front.symm
  | release out =>
    cases held with
    | nil => exact nomatch h.out out rfl
    | cons x xs =>
      obtain rfl : x = out := Option.some.inj (h.out out rfl)
      refine ⟨xs, h.ring.pop, ?_, nofun, nofun⟩
      simpa [KeyRun.step, Dequeue.next] using hacc

/-- **One step**, of either side. -/
theorem KeyRun.Inv.step (h : r.Inv held) (e : KeyEvent) : ∃ held', (r.step e).Inv held' := by
  cases e with
  | enqueue c =>
    by_cases hr : r.kbd.Rejects
    · exact ⟨held, h.enqueue_rejected c hr⟩
    · exact ⟨held ++ [c], h.enqueue c hr⟩
  | statement => exact h.statement

end Steps

/-! ## The handler in a run -/

/-- `keyboard_irq_handler`: the flags, and then the call of `enqueue_char`. The handler runs whole,
so in a run it is the event of the character it puts in the ring, if there is one (`scan_kbd`). -/
def KeyRun.scan (scancode : UInt8) (r : KeyRun) : KeyRun :=
  let d := r.kbd.decode scancode
  if d.1 ≠ 0 then KeyRun.step (.enqueue d.1) { r with kbd := d.2 } else { r with kbd := d.2 }

theorem KeyRun.scan_kbd (r : KeyRun) (scancode : UInt8) :
    (r.scan scancode).kbd = r.kbd.irqHandler scancode ∧
      (r.scan scancode).consumer = r.consumer ∧ (r.scan scancode).returned = r.returned := by
  rw [KeyRun.scan, Keyboard.irqHandler]
  split <;> exact ⟨rfl, rfl, rfl⟩

/-- The handler's flags are not the ring. -/
theorem Keyboard.decode_ring (b : UInt8) (k : Keyboard) :
    (k.decode b).2.kbdBuf = k.kbdBuf ∧ (k.decode b).2.kbdHead = k.kbdHead ∧
      (k.decode b).2.kbdTail = k.kbdTail := by
  unfold Keyboard.decode
  split_ifs <;> exact ⟨rfl, rfl, rfl⟩

/-- The handler of the keyboard, whatever it reads. -/
theorem KeyRun.Inv.scan {r : KeyRun} {held : List UInt8} (h : r.Inv held) (scancode : UInt8) :
    ∃ held', (r.scan scancode).Inv held' := by
  obtain ⟨hbuf, hhead, htail⟩ := r.kbd.decode_ring scancode
  have hdec : KeyRun.Inv { r with kbd := (r.kbd.decode scancode).2 } held := by
    refine ⟨?_, h.conserved, h.found, h.out⟩
    dsimp only
    rw [hbuf, hhead, htail]
    exact h.ring
  unfold KeyRun.scan
  dsimp only
  split
  · exact hdec.step _
  · exact ⟨held, hdec⟩

/-- **The keyboard buffer is a bounded queue** in every interleaving of interrupts with
the statements of `dequeue_char`: what was returned and what the buffer holds are what
was accepted, in order; at most 255 characters are held; and a character is dropped only
while 255 are. The run may stop between any two statements. -/
theorem keyboard_fifo (buf : Nat → UInt8) (es : List KeyEvent) :
    ∃ held, Ring.Holds (run KeyRun.step (.boot buf) es).kbd.kbdBuf kbdBufSize
        (run KeyRun.step (.boot buf) es).kbd.kbdHead (run KeyRun.step (.boot buf) es).kbd.kbdTail
        held ∧
      (run KeyRun.step (.boot buf) es).accepted = (run KeyRun.step (.boot buf) es).returned ++ held ∧
      held.length ≤ 255 ∧
      ((run KeyRun.step (.boot buf) es).kbd.Rejects → held.length = 255) := by
  obtain ⟨held, h⟩ : ∃ held, KeyRun.Inv (run KeyRun.step (.boot buf) es) held := by
    refine run_of_step (P := fun r => ∃ held, KeyRun.Inv r held) ?_ es ⟨[], .boot buf⟩
    rintro r e ⟨held, h⟩
    exact h.step e
  exact ⟨held, h.ring, h.conserved, Nat.le_of_lt_succ h.ring.room, h.rejects_iff.mp⟩

end OsU
