import Mathlib
import OsU.Lib.Runs
import OsU.Kernel.Memory

/-!
# The heap's blocks

A call of `kmalloc` whose sum wraps is never refused: the wrapped end lies at or below
the block's beginning, so it is below `heap_end`, and the caller gets a block that
reaches around the top of the address space. Every other call keeps the blocks apart. So
the blocks are sound along a run exactly when no call of it wraps (`heap_sound_iff`).

Two sums can wrap, the block's end and its rounding up to 16, and the condition `Fits`
is one bound for both. The blocks are kept in a list beside the heap, since the
allocator remembers nothing but its mark, and the invariant says that they all lie below
the mark. Nothing is ever freed.

The hypothesis on the end of the kernel is that it lies below the fixed end of the heap.
`memory_init` does not check it.
-/

set_option autoImplicit false

namespace OsU

open Runs

/-- The addresses of the block `kmalloc` returned for a size. They are naturals, so a block that
does not fit below the top of the address space reaches beyond it. -/
def extent (b : BitVec 32 × BitVec 32) : Set Nat := Set.Ico b.1.toNat (b.1.toNat + b.2.toNat)

/-- The heap, and the non-null blocks returned so far with the sizes asked for. -/
structure HeapRun where
  heap : Heap
  blocks : List (BitVec 32 × BitVec 32)

/-- A call of `kmalloc`. -/
def HeapRun.alloc (size : BitVec 32) (r : HeapRun) : HeapRun where
  heap := (kmalloc size r.heap).2
  blocks := if (kmalloc size r.heap).1 = 0 then r.blocks
    else ((kmalloc size r.heap).1, size) :: r.blocks

/-- After `memory_init`. -/
def HeapRun.boot (kernelEnd : BitVec 32) : HeapRun := ⟨memoryInit kernelEnd, []⟩

/-- What a caller may rely on: a block that is returned is aligned, inside the heap and apart from
every earlier one, and the mark stays in the heap. -/
structure HeapRun.Sound (r : HeapRun) (size : BitVec 32) : Prop where
  block : ∀ p, (kmalloc size r.heap).1 = p → p ≠ 0 →
    16 ∣ p.toNat ∧
    extent (p, size) ⊆ Set.Ico r.heap.heapStart.toNat r.heap.heapEnd.toNat ∧
    ∀ b ∈ r.blocks, Disjoint (extent (p, size)) (extent b)
  lower : r.heap.heapStart ≤ (kmalloc size r.heap).2.heapCurr
  upper : (kmalloc size r.heap).2.heapCurr ≤ r.heap.heapEnd

/-- The two sums of the call do not wrap, or its result is 0 in any case: for a size of
zero, and for a mark at address 0, which a caller cannot tell from a refusal. -/
def HeapRun.Fits (r : HeapRun) (size : BitVec 32) : Prop :=
  size = 0 ∨ align16 r.heap.heapCurr = 0 ∨
    (align16 r.heap.heapCurr).toNat + size.toNat ≤ 2 ^ 32 - 16

/-- The blocks lie between the start of the heap and the mark. Start and end never
change, and the mark stays aligned, so `align16` does nothing to it. -/
structure HeapRun.Inv (r : HeapRun) : Prop where
  limit : r.heap.heapEnd = 0x00400000
  aligned : 16 ∣ r.heap.heapCurr.toNat
  lower : r.heap.heapStart.toNat ≤ r.heap.heapCurr.toNat
  upper : r.heap.heapCurr.toNat ≤ r.heap.heapEnd.toNat
  below : ∀ b ∈ r.blocks, b.1.toNat + b.2.toNat ≤ r.heap.heapCurr.toNat

theorem HeapRun.Inv.boot {kernelEnd : BitVec 32}
    (h : (memoryInit kernelEnd).heapStart ≤ (memoryInit kernelEnd).heapEnd) :
    (HeapRun.boot kernelEnd).Inv where
  limit := rfl
  aligned := align16_dvd kernelEnd
  lower := le_refl _
  upper := h
  below := nofun

/-! ## One call -/

section Calls

variable {r : HeapRun} {size : BitVec 32}

/-- A call that does not wrap is refused, or its block ends at or below the new mark. -/
theorem kmalloc_noWrap (h : r.Inv) (hfit : r.heap.heapCurr.toNat + size.toNat ≤ 2 ^ 32 - 16) :
    kmalloc size r.heap = (0, r.heap) ∨
      ∃ e, kmalloc size r.heap = (r.heap.heapCurr, { r.heap with heapCurr := e }) ∧
        16 ∣ e.toNat ∧ r.heap.heapCurr.toNat + size.toNat ≤ e.toNat ∧
        e.toNat ≤ r.heap.heapEnd.toNat := by
  have hsum : (r.heap.heapCurr + size).toNat = r.heap.heapCurr.toNat + size.toNat := by
    rw [BitVec.toNat_add, Nat.mod_eq_of_lt (by omega)]
  have he := align16_toNat (r.heap.heapCurr + size)
  rw [hsum, if_pos hfit] at he
  unfold kmalloc
  by_cases hs : size = 0
  · exact Or.inl (if_pos hs)
  rw [if_neg hs, align16_of_dvd h.aligned]
  by_cases hgt : align16 (r.heap.heapCurr + size) > r.heap.heapEnd
  · exact Or.inl (if_pos hgt)
  · refine Or.inr ⟨_, if_neg hgt, align16_dvd _, ?_, ?_⟩
    · omega
    · exact BitVec.le_def.mp (BitVec.not_lt.mp hgt)

/-- A call that wraps is granted, and the mark falls to the block's beginning or below. -/
theorem kmalloc_wraps (h : r.Inv)
    (hwrap : 2 ^ 32 - 16 < r.heap.heapCurr.toNat + size.toNat) :
    ∃ e, kmalloc size r.heap = (r.heap.heapCurr, { r.heap with heapCurr := e }) ∧
      16 ∣ e.toNat ∧ e.toNat ≤ r.heap.heapCurr.toNat := by
  have hsize := size.isLt
  have hu := h.upper
  have hlim : r.heap.heapEnd.toNat = 0x400000 := by
    rw [h.limit]
    rfl
  have hs : size ≠ 0 := by
    rintro rfl
    have hz : (0 : BitVec 32).toNat = 0 := rfl
    omega
  have he : (align16 (r.heap.heapCurr + size)).toNat ≤ r.heap.heapCurr.toNat := by
    -- the sum is below the beginning, which is aligned, or it is within 15 of the top
    obtain ⟨n, hn⟩ := h.aligned
    rw [align16_toNat, BitVec.toNat_add]
    split <;> omega
  refine ⟨align16 (r.heap.heapCurr + size), ?_, align16_dvd _, he⟩
  unfold kmalloc
  rw [if_neg hs, align16_of_dvd h.aligned]
  refine if_neg fun hgt => ?_
  have hlt := BitVec.lt_def.mp hgt
  omega

/-- What a call that fits does. -/
theorem HeapRun.Inv.cases (h : r.Inv) (hf : r.Fits size) :
    kmalloc size r.heap = (0, r.heap) ∨
      ∃ e, kmalloc size r.heap = (r.heap.heapCurr, { r.heap with heapCurr := e }) ∧
        16 ∣ e.toNat ∧ r.heap.heapCurr.toNat ≤ e.toNat ∧ e.toNat ≤ r.heap.heapEnd.toNat ∧
        (r.heap.heapCurr ≠ 0 → r.heap.heapCurr.toNat + size.toNat ≤ e.toNat) := by
  by_cases hfit : r.heap.heapCurr.toNat + size.toNat ≤ 2 ^ 32 - 16
  · obtain hk | ⟨e, hk, hal, hle, hu⟩ := kmalloc_noWrap h hfit
    · exact Or.inl hk
    · exact Or.inr ⟨e, hk, hal, by omega, hu, fun _ => hle⟩
  · unfold HeapRun.Fits at hf
    rw [align16_of_dvd h.aligned] at hf
    obtain hs | hz | hle := hf
    · exact Or.inl (if_pos hs)
    · -- the heap begins at address 0: the mark stays there
      obtain ⟨e, hk, hal, hle⟩ := kmalloc_wraps h (Nat.lt_of_not_le hfit)
      have hzero : r.heap.heapCurr.toNat = 0 := congrArg BitVec.toNat hz
      exact Or.inr ⟨e, hk, hal, by omega, by omega, fun hne => absurd hz hne⟩
    · exact absurd hle hfit

/-- **The invariant over one call.** -/
theorem HeapRun.Inv.alloc (h : r.Inv) (hf : r.Fits size) : (r.alloc size).Inv := by
  unfold HeapRun.alloc
  obtain hk | ⟨e, hk, hal, hle, hu, hblock⟩ := h.cases hf
  · rw [hk]
    exact h
  · rw [hk]
    refine ⟨h.limit, hal, le_trans h.lower hle, hu, fun b hb => ?_⟩
    change b ∈ (if r.heap.heapCurr = 0 then r.blocks else _) at hb
    by_cases hp : r.heap.heapCurr = 0
    · rw [if_pos hp] at hb
      exact le_trans (h.below b hb) hle
    · rw [if_neg hp, List.mem_cons] at hb
      cases hb with
      | inl heq =>
        rw [heq]
        exact hblock hp
      | inr hold => exact le_trans (h.below b hold) hle

/-- **One call**: it is sound exactly when it fits. A call that wraps is granted a block
whose extent leaves the heap, so it breaks the promise itself, and not only through a
later call. -/
theorem HeapRun.Inv.sound_iff (h : r.Inv) : r.Sound size ↔ r.Fits size := by
  constructor
  · intro hsound
    unfold HeapRun.Fits
    rw [align16_of_dvd h.aligned]
    by_contra hno
    obtain ⟨-, hp, hwrap⟩ : size ≠ 0 ∧ r.heap.heapCurr ≠ 0 ∧ _ := by
      simpa only [not_or] using hno
    -- the block is granted, and its last address lies beyond the heap
    obtain ⟨e, hk, -⟩ := kmalloc_wraps h (Nat.lt_of_not_le hwrap)
    obtain ⟨-, hin, -⟩ := hsound.block r.heap.heapCurr (by rw [hk]) hp
    have hu := h.upper
    have hlim : r.heap.heapEnd.toNat = 0x400000 := by
      rw [h.limit]
      rfl
    have hmem : r.heap.heapCurr.toNat + size.toNat - 1 ∈ extent (r.heap.heapCurr, size) :=
      ⟨show r.heap.heapCurr.toNat ≤ _ by omega, show _ < r.heap.heapCurr.toNat + size.toNat by omega⟩
    have hlast : r.heap.heapCurr.toNat + size.toNat - 1 < r.heap.heapEnd.toNat := (hin hmem).2
    omega
  · intro hf
    obtain hk | ⟨e, hk, hal, hle, hu, hblock⟩ := h.cases hf
    · refine ⟨?_, hk ▸ h.lower, hk ▸ h.upper⟩
      rw [hk]
      exact fun p hp hne => absurd hp.symm hne
    · refine ⟨?_, ?_, ?_⟩ <;> rw [hk]
      · rintro p rfl hp
        refine ⟨h.aligned, Set.Ico_subset_Ico h.lower (le_trans (hblock hp) hu), fun b hb => ?_⟩
        exact Set.Ico_disjoint_Ico.mpr (min_le_of_right_le (le_max_of_le_left (h.below b hb)))
      · exact le_trans h.lower hle
      · exact hu

end Calls

/-- **Heap blocks never overlap**, over a run of calls after `memory_init`, exactly when no call of
it wraps. -/
theorem heap_sound_iff {kernelEnd : BitVec 32}
    (h : (memoryInit kernelEnd).heapStart ≤ (memoryInit kernelEnd).heapEnd)
    (sizes : List (BitVec 32)) :
    Along (fun size r => r.alloc size) HeapRun.Sound (.boot kernelEnd) sizes ↔
      Along (fun size r => r.alloc size) HeapRun.Fits (.boot kernelEnd) sizes :=
  along_iff (P := HeapRun.Inv) (fun _ _ hi => hi.sound_iff) (fun _ _ hi hf => hi.alloc hf)
    (.boot h)

/-- Three blocks, and one that is refused. -/
theorem heap_sound_four :
    Along (fun size r => r.alloc size) HeapRun.Sound (.boot 0x120000) [100, 16, 0x400000, 1] :=
  (heap_sound_iff (by decide) _).mpr
    ⟨Or.inr (Or.inr (by decide)), Or.inr (Or.inr (by decide)), Or.inr (Or.inr (by decide)),
      Or.inr (Or.inr (by decide)), trivial⟩

/-- A block of 4 GiB less one byte is granted, and the mark does not move: the next block, of 16
bytes, lies inside it. -/
theorem heap_not_sound :
    (kmalloc 0xFFFFFFFF (memoryInit 0x120000)).1 = 0x120000 ∧
      ¬ Along (fun size r => r.alloc size) HeapRun.Sound (.boot 0x120000) [0xFFFFFFFF, 16] := by
  refine ⟨by decide, fun h => ?_⟩
  have hinv : (HeapRun.boot 0x120000).Inv := .boot (by decide)
  have hfit := hinv.sound_iff.mp h.1
  unfold HeapRun.Fits at hfit
  exact absurd hfit (by decide)

end OsU
