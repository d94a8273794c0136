import Mathlib.Tactic

/-!
# `memory.c` — the kernel heap

Addresses and sizes are the machine's 32-bit unsigned words, so the two sums of
`kmalloc` and the one in `align16` wrap. `kernelEnd` is the address the linker gives
`_kernel_end`; it is a parameter, and with it where the heap starts.

Nothing is ever given back: `heap_curr` only grows, and the whole state of the allocator
is that one word. What a block is used for is not in the model; a block is the range of
addresses that `kmalloc` returned for a size.
-/

set_option autoImplicit false

namespace OsU

/-- The globals of `memory.c`. The heap only grows, nothing is ever given back, so the
three numbers are all there is to it. -/
structure Heap where
  heapStart : BitVec 32
  heapEnd : BitVec 32
  heapCurr : BitVec 32
  deriving DecidableEq, Repr

/-- `align16`: the next multiple of 16, computed in 32 bits. -/
def align16 (v : BitVec 32) : BitVec 32 := (v + 15) &&& ~~~(15 : BitVec 32)

/-- `memory_init`: the heap goes from the end of the kernel to 4 MiB. -/
def memoryInit (kernelEnd : BitVec 32) : Heap where
  heapStart := align16 kernelEnd
  heapEnd := 0x00400000
  heapCurr := align16 kernelEnd

/-- The pointer `kmalloc` returns, 0 for the null pointer, and the heap after it. The
only test is against `heap_end`, behind a sum that has wrapped or not. -/
def kmalloc (size : BitVec 32) (h : Heap) : BitVec 32 × Heap :=
  if size = 0 then (0, h)
  else
    let begin_ := align16 h.heapCurr
    let end_ := align16 (begin_ + size)
    if end_ > h.heapEnd then (0, h) else (begin_, { h with heapCurr := end_ })

/-! ## `align16` as arithmetic -/

/-- The mask clears the low four bits. -/
theorem andNot15_toNat (v : BitVec 32) : (v &&& ~~~(15 : BitVec 32)).toNat = v.toNat / 16 * 16 := by
  have hbits : ∀ i : Fin 32, (~~~(15 : BitVec 32))[i] = decide (4 ≤ i.val) := by decide
  have hv : v &&& ~~~(15 : BitVec 32) = (v >>> 4) <<< 4 := by
    ext i hi
    have hmask : (~~~(15 : BitVec 32))[i] = decide (4 ≤ i) := hbits ⟨i, hi⟩
    rw [BitVec.getElem_and, hmask, BitVec.getElem_shiftLeft]
    by_cases h4 : i < 4
    · simp [h4]
    · simp [h4, Nat.le_of_not_lt h4, BitVec.getLsbD_eq_getElem hi]
  rw [hv, BitVec.toNat_shiftLeft, BitVec.toNat_ushiftRight, Nat.shiftRight_eq_div_pow,
    Nat.shiftLeft_eq, Nat.mod_eq_of_lt]
  have := v.isLt
  omega

/-- `align16` rounds up, and wraps to 0 within 15 of the top. -/
theorem align16_toNat (v : BitVec 32) :
    (align16 v).toNat = if v.toNat ≤ 2 ^ 32 - 16 then (v.toNat + 15) / 16 * 16 else 0 := by
  have hv := v.isLt
  rw [align16, andNot15_toNat, BitVec.toNat_add]
  split
  · rw [Nat.mod_eq_of_lt (a := v.toNat + (15 : BitVec 32).toNat) (by simp; omega)]
    simp
  · simp
    omega

theorem align16_dvd (v : BitVec 32) : 16 ∣ (align16 v).toNat :=
  ⟨_, (andNot15_toNat _).trans (Nat.mul_comm _ _)⟩

theorem align16_of_dvd {v : BitVec 32} (h : 16 ∣ v.toNat) : align16 v = v := by
  have hv := v.isLt
  obtain ⟨n, hn⟩ := h
  apply BitVec.eq_of_toNat_eq
  rw [align16_toNat, if_pos (by omega)]
  omega

end OsU
