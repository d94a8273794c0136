import OsU.Kernel.V86

/-!
# An emulated INT and the IRET that answers it

The emulator forms the linear address of SS:SP, pushes below it, and then leaves the low
half of the linear address in SP, where the next instruction adds SS to it once more.
`poppedFrom k` is where the words pushed in the `k` bytes below the top are looked for
afterwards.

The two additions cancel exactly when SS is a multiple of 0x1000. When it is an odd
multiple of 0x800 the stack pointer comes back, but the words are read 0x8000 bytes away
from where they were pushed.

So there are two questions, and they are kept apart: does the stack pointer come back
(`sp_restored_iff`), and are the words popped the words pushed (`int_popped_iff`). In
the second case they can be, when the same words happen to stand in the other place
already, and the exact condition has to say so. The memory is otherwise arbitrary: the
emulated program may have anything anywhere.
-/

set_option autoImplicit false

namespace OsU

open WordMem

namespace V86

/-- The registers hold what they can in real mode, with room for three words on the
stack and an instruction of two bytes at the instruction pointer. The frame has words of
32 bits, and the emulator uses them unmasked in places, so this has to be said. -/
structure RealMode (s : V86) : Prop where
  ss : (s.frame 11).toNat < 2 ^ 16
  spLow : 6 ≤ (s.frame 3).toNat
  spHigh : (s.frame 3).toNat < 2 ^ 16
  cs : (s.frame 9).toNat < 2 ^ 16
  ip : (s.frame 8).toNat ≤ 0xFFFD

/-- Where the next instruction finds the stack after `k` bytes have been pushed. -/
def poppedFrom (k : BitVec 32) (s : V86) : BitVec 32 :=
  ((s.frame 11 <<< 4) + ((s.stackTop - k) &&& 0xFFFF)) &&& 0xFFFFF

/-- INT at `ip` and then IRET at `ip'` come back behind the INT with what was there. -/
def IntIret (s : V86) (ip ip' : BitVec 32) : Prop :=
  let t := ((s.emulateInstruction ip).2.emulateInstruction ip').2
  t.frame 9 = s.frame 9 ∧ low (t.frame 10) = low (s.frame 10) ∧
    t.frame 8 = s.frame 8 + 2 ∧ t.frame 3 = s.frame 3

/-- PUSHF at `ip` and then POPF at `ip'` leave stack pointer and flags as they were. -/
def PushPop (s : V86) (ip ip' : BitVec 32) : Prop :=
  let t := ((s.emulateInstruction ip).2.emulateInstruction ip').2
  t.frame 3 = s.frame 3 ∧ t.frame 10 = s.frame 10

/-! ## Half words in a register -/

theorem toNat_and_ffff (v : BitVec 32) : (v &&& 0xFFFF).toNat = v.toNat % 2 ^ 16 := by
  rw [BitVec.toNat_and]
  exact Nat.and_two_pow_sub_one_eq_mod _ 16

theorem toNat_and_fffff (v : BitVec 32) : (v &&& 0xFFFFF).toNat = v.toNat % 2 ^ 20 := by
  rw [BitVec.toNat_and]
  exact Nat.and_two_pow_sub_one_eq_mod _ 20

@[simp] theorem low_setWidth (w : BitVec 16) : low (w.setWidth 32) = w :=
  BitVec.setWidth_setWidth_of_le w (by decide)

/-- A register that holds a half word is that half word. -/
theorem setWidth_low {v : BitVec 32} (h : v.toNat < 2 ^ 16) : (low v).setWidth 32 = v := by
  apply BitVec.eq_of_toNat_eq
  rw [BitVec.toNat_setWidth, low, BitVec.toNat_setWidth]
  omega

theorem setWidth_eq_iff {v : BitVec 32} (h : v.toNat < 2 ^ 16) {w : BitVec 16} :
    w.setWidth 32 = v ↔ w = low v := by
  constructor
  · rintro rfl
    exact (low_setWidth w).symm
  · rintro rfl
    exact setWidth_low h

/-- The flags register with a new low half. -/
@[simp] theorem low_merge (v : BitVec 32) (w : BitVec 16) :
    low ((v &&& 0xFFFF0000) ||| w.setWidth 32) = w := by
  ext i hi
  have hmask : (0xFFFF0000 : BitVec 32).getLsbD i = false := by
    interval_cases i <;> rfl
  simp [low]

theorem merge_low (v : BitVec 32) : (v &&& 0xFFFF0000) ||| (low v).setWidth 32 = v := by
  ext i hi
  have hmask : (0xFFFF0000 : BitVec 32).getLsbD i = decide (16 ≤ i) := by
    interval_cases i <;> rfl
  simp only [low, BitVec.getElem_or, BitVec.getElem_and, BitVec.getElem_setWidth,
    BitVec.getLsbD_setWidth]
  grind

theorem merge_eq_iff {v : BitVec 32} {w : BitVec 16} :
    (v &&& 0xFFFF0000) ||| w.setWidth 32 = v ↔ w = low v := by
  constructor
  · intro h
    rw [← low_merge v w, h]
  · rintro rfl
    exact merge_low v

/-! ## The stack pointer -/

theorem RealMode.stackTop_toNat {s : V86} (hs : s.RealMode) :
    s.stackTop.toNat = (16 * (s.frame 11).toNat + (s.frame 3).toNat) % 2 ^ 20 := by
  have hss := hs.ss
  have hsp := hs.spHigh
  rw [stackTop, toNat_and_fffff, BitVec.toNat_add, BitVec.toNat_shiftLeft]
  omega

theorem RealMode.poppedFrom_toNat {s : V86} (hs : s.RealMode) (k : BitVec 32) :
    (poppedFrom k s).toNat =
      (16 * (s.frame 11).toNat + (s.stackTop - k).toNat % 2 ^ 16) % 2 ^ 20 := by
  have hss := hs.ss
  rw [poppedFrom, toNat_and_fffff, BitVec.toNat_add, BitVec.toNat_shiftLeft, toNat_and_ffff]
  omega

theorem toNat_add_mod (x y : BitVec 32) :
    (x + y).toNat % 2 ^ 16 = (x.toNat + y.toNat) % 2 ^ 16 := by
  rw [BitVec.toNat_add]
  omega

theorem toNat_sub_mod (x y : BitVec 32) :
    (x - y).toNat % 2 ^ 16 = (x.toNat + (2 ^ 16 - y.toNat % 2 ^ 16)) % 2 ^ 16 := by
  rw [BitVec.toNat_sub]
  omega

/-- Popping what has been pushed gives the stack pointer back if and only if adding SS twice adds
a multiple of 64 kB. -/
theorem RealMode.sp_restored_iff {s : V86} (hs : s.RealMode) {k : BitVec 32} (hk : k.toNat ≤ 6) :
    (poppedFrom k s + k) &&& 0xFFFF = s.frame 3 ↔ (s.frame 11).toNat % 0x800 = 0 := by
  have htop := hs.stackTop_toNat
  have hpop := hs.poppedFrom_toNat k
  have hsub := toNat_sub_mod s.stackTop k
  have hsp := hs.spHigh
  rw [← BitVec.toNat_inj, toNat_and_ffff, toNat_add_mod]
  omega

/-- The words are popped where they were pushed. -/
theorem RealMode.poppedFrom_eq {s : V86} (hs : s.RealMode) {k : BitVec 32} (hk : k.toNat ≤ 6)
    (h : (s.frame 11).toNat % 0x1000 = 0) : poppedFrom k s = s.stackTop - k := by
  have htop := hs.stackTop_toNat
  have hpop := hs.poppedFrom_toNat k
  have hlow := hs.spLow
  have hsp := hs.spHigh
  apply BitVec.eq_of_toNat_eq
  rw [hpop, BitVec.toNat_sub]
  omega

/-- Two places that are about 0x8000 bytes apart, up to 64 kB. -/
theorem bytes_disjoint_of_far {p t i j k : BitVec 32} (hk : k.toNat ≤ 6) (hi : i.toNat ≤ 6)
    (hj : j.toNat ≤ 6) (h : (p.toNat + 0x8000 + k.toNat) % 2 ^ 16 = t.toNat % 2 ^ 16) :
    Disjoint (bytes (p + i) 2) (bytes (t - j) 2) := by
  have hpi := toNat_add_mod p i
  have htj := toNat_sub_mod t j
  have hsub := toNat_sub_mod (t - j) (p + i)
  have hsub' := toNat_sub_mod (p + i) (t - j)
  generalize p + i = a at *
  generalize t - j = b at *
  have h1 : 2 ≤ (b - a).toNat % 2 ^ 16 := by omega
  have h2 : 2 ≤ (a - b).toNat % 2 ^ 16 := by omega
  exact bytes_disjoint (h1.trans (Nat.mod_le _ _)) (h2.trans (Nat.mod_le _ _))

/-- The words are popped 0x8000 bytes from where they were pushed, so the pushes have
not touched them. This is the case of SS an odd multiple of 0x800. -/
theorem RealMode.poppedFrom_apart {s : V86} (hs : s.RealMode) {k i j : BitVec 32}
    (hk : k.toNat ≤ 6) (hi : i.toNat ≤ 6) (hj : j.toNat ≤ 6)
    (h : (s.frame 11).toNat % 0x800 = 0) (h' : (s.frame 11).toNat % 0x1000 ≠ 0) :
    Disjoint (bytes (poppedFrom k s + i) 2) (bytes (s.stackTop - j) 2) := by
  have htop := hs.stackTop_toNat
  have hpop := hs.poppedFrom_toNat k
  have hsub := toNat_sub_mod s.stackTop k
  exact bytes_disjoint_of_far hk hi hj (by omega)

/-! ## The four instructions -/

/-- The memory after INT has pushed flags, CS and IP. -/
def intPushed (s : V86) : WordMem :=
  ((s.mem.store16 (s.stackTop - 2) (low (s.frame 10))).store16 (s.stackTop - 4)
    (low (s.frame 9))).store16 (s.stackTop - 6) (low (s.frame 8 + 2))

/-- The memory after PUSHF. -/
def flagsPushed (s : V86) : WordMem := s.mem.store16 (s.stackTop - 2) (low (s.frame 10))

/-- INT goes to the entry of the vector table and changes no register but IP, CS and SP. -/
theorem emulateInstruction_int {s : V86} {ip : BitVec 32} (hop : s.mem ip = 0xCD)
    (hn : s.mem (ip + 1) ≠ 0xFF) :
    let t := (s.emulateInstruction ip).2
    (s.emulateInstruction ip).1 = 0 ∧ t.mem = s.intPushed ∧ t.stackTop = poppedFrom 6 s ∧
      t.frame 8 = (s.ivt (s.mem (ip + 1))).1.setWidth 32 ∧
      t.frame 9 = (s.ivt (s.mem (ip + 1))).2.setWidth 32 ∧
      ∀ i, i ≠ 3 → i ≠ 8 → i ≠ 9 → t.frame i = s.frame i := by
  simp only [emulateInstruction, hop, if_true, if_neg hn]
  refine ⟨trivial, rfl, rfl, rfl, rfl, fun i h3 h8 h9 => ?_⟩
  simp only [setReg, Function.update_of_ne h9, Function.update_of_ne h8, Function.update_of_ne h3]

/-- IRET takes IP, CS and the low half of the flags from the stack. -/
theorem emulateInstruction_iret {s : V86} {ip : BitVec 32} (hop : s.mem ip = 0xCF) :
    let t := (s.emulateInstruction ip).2
    (s.emulateInstruction ip).1 = 0 ∧
      t.frame 8 = (s.mem.load16 s.stackTop).setWidth 32 ∧
      t.frame 9 = (s.mem.load16 (s.stackTop + 2)).setWidth 32 ∧
      t.frame 10 =
        (s.frame 10 &&& 0xFFFF0000) ||| (s.mem.load16 (s.stackTop + 4)).setWidth 32 ∧
      t.frame 3 = (s.stackTop + 6) &&& 0xFFFF ∧
      ∀ i, i ≠ 3 → i ≠ 8 → i ≠ 9 → i ≠ 10 → t.frame i = s.frame i := by
  have h1 : (0xCF : BitVec 8) ≠ 0xCD := by decide
  simp only [emulateInstruction, hop, if_neg h1, if_true]
  refine ⟨trivial, rfl, rfl, rfl, rfl, fun i h3 h8 h9 h10 => ?_⟩
  simp only [setReg, Function.update_of_ne h10, Function.update_of_ne h9,
    Function.update_of_ne h8, Function.update_of_ne h3]

theorem emulateInstruction_pushf {s : V86} {ip : BitVec 32} (hop : s.mem ip = 0x9C) :
    let t := (s.emulateInstruction ip).2
    t.mem = s.flagsPushed ∧ t.stackTop = poppedFrom 2 s ∧ t.frame 10 = s.frame 10 := by
  have h1 : (0x9C : BitVec 8) ≠ 0xCD := by decide
  have h2 : (0x9C : BitVec 8) ≠ 0xCF := by decide
  have h3 : (0x9C : BitVec 8) ≠ 0xFA := by decide
  have h4 : (0x9C : BitVec 8) ≠ 0xFB := by decide
  simp only [emulateInstruction, hop, if_neg h1, if_neg h2, if_neg h3, if_neg h4, if_true]
  exact ⟨rfl, rfl, rfl⟩

theorem emulateInstruction_popf {s : V86} {ip : BitVec 32} (hop : s.mem ip = 0x9D) :
    let t := (s.emulateInstruction ip).2
    t.frame 10 = (s.frame 10 &&& 0xFFFF0000) ||| (s.mem.load16 s.stackTop).setWidth 32 ∧
      t.frame 3 = (s.stackTop + 2) &&& 0xFFFF := by
  have h1 : (0x9D : BitVec 8) ≠ 0xCD := by decide
  have h2 : (0x9D : BitVec 8) ≠ 0xCF := by decide
  have h3 : (0x9D : BitVec 8) ≠ 0xFA := by decide
  have h4 : (0x9D : BitVec 8) ≠ 0xFB := by decide
  have h5 : (0x9D : BitVec 8) ≠ 0x9C := by decide
  simp only [emulateInstruction, hop, if_neg h1, if_neg h2, if_neg h3, if_neg h4, if_neg h5,
    if_true]
  exact ⟨rfl, rfl⟩

/-! ## What is popped -/

/-- The three words that INT pushes, where it pushes them. -/
theorem load16_intPushed (s : V86) :
    s.intPushed.load16 (s.stackTop - 6) = low (s.frame 8 + 2) ∧
      s.intPushed.load16 (s.stackTop - 6 + 2) = low (s.frame 9) ∧
      s.intPushed.load16 (s.stackTop - 6 + 4) = low (s.frame 10) := by
  have h46 : Disjoint (bytes (s.stackTop - 4) 2) (bytes (s.stackTop - 6) 2) :=
    bytes_disjoint (by bv_omega) (by bv_omega)
  have h26 : Disjoint (bytes (s.stackTop - 2) 2) (bytes (s.stackTop - 6) 2) :=
    bytes_disjoint (by bv_omega) (by bv_omega)
  have h24 : Disjoint (bytes (s.stackTop - 2) 2) (bytes (s.stackTop - 4) 2) :=
    bytes_disjoint (by bv_omega) (by bv_omega)
  have h4 : s.stackTop - 6 + 2 = s.stackTop - 4 := by bv_omega
  have h2 : s.stackTop - 6 + 4 = s.stackTop - 2 := by bv_omega
  refine ⟨load16_store16 _ _ _, ?_, ?_⟩
  · rw [h4, intPushed, load16_store16_of_disjoint h46, load16_store16]
  · rw [h2, intPushed, load16_store16_of_disjoint h26, load16_store16_of_disjoint h24,
      load16_store16]

/-- Away from the stack INT leaves the memory alone. -/
theorem load16_intPushed_apart {s : V86} {a : BitVec 32}
    (h : ∀ j : BitVec 32, j.toNat ≤ 6 → Disjoint (bytes a 2) (bytes (s.stackTop - j) 2)) :
    s.intPushed.load16 a = s.mem.load16 a := by
  rw [intPushed, load16_store16_of_disjoint (h 6 (by decide)),
    load16_store16_of_disjoint (h 4 (by decide)), load16_store16_of_disjoint (h 2 (by decide))]

/-- The words popped after INT: those pushed, or, 0x8000 bytes away, those that were there. -/
theorem RealMode.int_popped_iff {s : V86} (hs : s.RealMode)
    (h : (s.frame 11).toNat % 0x800 = 0) {w : BitVec 16} {i : BitVec 32} (hi : i.toNat ≤ 4)
    (hpushed : s.intPushed.load16 (s.stackTop - 6 + i) = w) :
    s.intPushed.load16 (poppedFrom 6 s + i) = w ↔
      (s.frame 11).toNat % 0x1000 = 0 ∨ s.mem.load16 (poppedFrom 6 s + i) = w := by
  by_cases hss : (s.frame 11).toNat % 0x1000 = 0
  · rw [hs.poppedFrom_eq (by decide) hss]
    exact iff_of_true hpushed (.inl hss)
  · rw [load16_intPushed_apart fun j hj =>
      hs.poppedFrom_apart (by decide) (by omega) hj h hss]
    exact (or_iff_right hss).symm

/-- The word popped after PUSHF. -/
theorem RealMode.pushf_popped_iff {s : V86} (hs : s.RealMode)
    (h : (s.frame 11).toNat % 0x800 = 0) :
    s.flagsPushed.load16 (poppedFrom 2 s) = low (s.frame 10) ↔
      (s.frame 11).toNat % 0x1000 = 0 ∨
        s.mem.load16 (poppedFrom 2 s) = low (s.frame 10) := by
  by_cases hss : (s.frame 11).toNat % 0x1000 = 0
  · rw [hs.poppedFrom_eq (by decide) hss]
    exact iff_of_true (load16_store16 _ _ _) (.inl hss)
  · have hapart := hs.poppedFrom_apart (k := 2) (i := 0) (j := 2) (by decide) (by decide)
      (by decide) h hss
    have hzero : poppedFrom 2 s + 0 = poppedFrom 2 s := BitVec.add_zero _
    rw [hzero] at hapart
    rw [flagsPushed, load16_store16_of_disjoint hapart]
    exact (or_iff_right hss).symm

/-! ## There and back -/

theorem RealMode.ip_add_toNat {s : V86} (hs : s.RealMode) : (s.frame 8 + 2).toNat < 2 ^ 16 := by
  have hip := hs.ip
  bv_omega

/-- What INT and IRET do to the saved registers. -/
theorem intIret_iff_popped {s : V86} (hs : s.RealMode) {ip ip' : BitVec 32}
    (hint : s.mem ip = 0xCD) (hn : s.mem (ip + 1) ≠ 0xFF)
    (hiret : (s.emulateInstruction ip).2.mem ip' = 0xCF) :
    IntIret s ip ip' ↔
      s.intPushed.load16 (poppedFrom 6 s + 2) = low (s.frame 9) ∧
        s.intPushed.load16 (poppedFrom 6 s + 4) = low (s.frame 10) ∧
        s.intPushed.load16 (poppedFrom 6 s) = low (s.frame 8 + 2) ∧
        (poppedFrom 6 s + 6) &&& 0xFFFF = s.frame 3 := by
  obtain ⟨-, hmem, htop, -, -, -⟩ := emulateInstruction_int hint hn
  obtain ⟨-, h8, h9, h10, h3, -⟩ := emulateInstruction_iret hiret
  rw [hmem, htop] at h8 h9 h10
  rw [htop] at h3
  rw [IntIret, h8, h9, h10, h3, low_merge, setWidth_eq_iff hs.cs,
    setWidth_eq_iff hs.ip_add_toNat]

/-- When INT and IRET are inverse. -/
theorem intIret_iff {s : V86} (hs : s.RealMode) {ip ip' : BitVec 32}
    (hint : s.mem ip = 0xCD) (hn : s.mem (ip + 1) ≠ 0xFF)
    (hiret : (s.emulateInstruction ip).2.mem ip' = 0xCF) :
    IntIret s ip ip' ↔
      (s.frame 11).toNat % 0x1000 = 0 ∨
        (s.frame 11).toNat % 0x800 = 0 ∧
          s.mem.load16 (poppedFrom 6 s) = low (s.frame 8 + 2) ∧
          s.mem.load16 (poppedFrom 6 s + 2) = low (s.frame 9) ∧
          s.mem.load16 (poppedFrom 6 s + 4) = low (s.frame 10) := by
  obtain ⟨hip, hcs, hflags⟩ := load16_intPushed s
  rw [intIret_iff_popped hs hint hn hiret, hs.sp_restored_iff (by decide)]
  by_cases h : (s.frame 11).toNat % 0x800 = 0
  · have hzero (a : BitVec 32) : a + 0 = a := BitVec.add_zero a
    have hip' := hs.int_popped_iff h (i := 0) (by decide) ((congrArg _ (hzero _)).trans hip)
    rw [hzero] at hip'
    rw [hs.int_popped_iff h (by decide) hcs, hs.int_popped_iff h (by decide) hflags, hip',
      iff_true_intro h, true_and, and_true, ← or_and_left, ← or_and_left]
    exact or_congr_right and_rotate.symm
  · have h' : ¬ (s.frame 11).toNat % 0x1000 = 0 := by omega
    simp only [h, h', and_false, false_and, or_self]

/-- When PUSHF and POPF are inverse. -/
theorem pushPop_iff {s : V86} (hs : s.RealMode) {ip ip' : BitVec 32}
    (hpushf : s.mem ip = 0x9C) (hpopf : (s.emulateInstruction ip).2.mem ip' = 0x9D) :
    PushPop s ip ip' ↔
      (s.frame 11).toNat % 0x1000 = 0 ∨
        (s.frame 11).toNat % 0x800 = 0 ∧
          s.mem.load16 (poppedFrom 2 s) = low (s.frame 10) := by
  obtain ⟨hmem, htop, hflags⟩ := emulateInstruction_pushf hpushf
  obtain ⟨h10, h3⟩ := emulateInstruction_popf hpopf
  rw [hmem, htop, hflags] at h10
  rw [htop] at h3
  rw [PushPop, h10, h3, merge_eq_iff, hs.sp_restored_iff (by decide)]
  by_cases h : (s.frame 11).toNat % 0x800 = 0
  · rw [hs.pushf_popped_iff h, iff_true_intro h, true_and, true_and]
  · have h' : ¬ (s.frame 11).toNat % 0x1000 = 0 := by omega
    simp only [h, h', false_and, or_self]

end V86

open V86

/-- INT and IRET are inverse, and so are PUSHF and POPF, if and only if the stack is popped where
it was pushed or the same words are there already. -/
theorem int_iret_inverse_iff {s t : V86} (hs : s.RealMode) (ht : t.RealMode)
    {ip ip' jp jp' : BitVec 32} (hint : s.mem ip = 0xCD) (hn : s.mem (ip + 1) ≠ 0xFF)
    (hiret : (s.emulateInstruction ip).2.mem ip' = 0xCF) (hpushf : t.mem jp = 0x9C)
    (hpopf : (t.emulateInstruction jp).2.mem jp' = 0x9D) :
    (IntIret s ip ip' ↔
      (s.frame 11).toNat % 0x1000 = 0 ∨
        (s.frame 11).toNat % 0x800 = 0 ∧
          s.mem.load16 (poppedFrom 6 s) = low (s.frame 8 + 2) ∧
          s.mem.load16 (poppedFrom 6 s + 2) = low (s.frame 9) ∧
          s.mem.load16 (poppedFrom 6 s + 4) = low (s.frame 10)) ∧
    (PushPop t jp jp' ↔
      (t.frame 11).toNat % 0x1000 = 0 ∨
        (t.frame 11).toNat % 0x800 = 0 ∧
          t.mem.load16 (poppedFrom 2 t) = low (t.frame 10)) :=
  ⟨intIret_iff hs hint hn hiret, pushPop_iff ht hpushf hpopf⟩

/-- A program at 0x7000:0 with its stack at `ss`:`sp`. -/
def bootProgram (ss sp : BitVec 32) (code : List (BitVec 8)) : V86 where
  active := true
  regs := none
  done := false
  frame i := ([0, 0, 0, sp, 0, 0, 0, 0, 0, 0x7000, 0x23202, ss].getD i 0 : BitVec 32)
  mem x := code.getD (x - 0x70000).toNat 0

/-- On the stack of `v86_bios_call` both hold. -/
theorem int_iret_inverse_bios :
    IntIret (bootProgram 0x8000 0xFFFE [0xCD, 0x10, 0xCF]) 0x70000 0x70002 ∧
      PushPop (bootProgram 0x8000 0xFFFE [0x9C, 0x9D]) 0x70000 0x70001 := by
  have hs : (bootProgram 0x8000 0xFFFE [0xCD, 0x10, 0xCF]).RealMode :=
    ⟨by decide, by decide, by decide, by decide, by decide⟩
  have ht : (bootProgram 0x8000 0xFFFE [0x9C, 0x9D]).RealMode :=
    ⟨by decide, by decide, by decide, by decide, by decide⟩
  have hint : (bootProgram 0x8000 0xFFFE [0xCD, 0x10, 0xCF]).mem 0x70000 = 0xCD := rfl
  have hiret : ((bootProgram 0x8000 0xFFFE [0xCD, 0x10, 0xCF]).emulateInstruction
      0x70000).2.mem 0x70002 = 0xCF := rfl
  have hpushf : (bootProgram 0x8000 0xFFFE [0x9C, 0x9D]).mem 0x70000 = 0x9C := rfl
  have hpopf : ((bootProgram 0x8000 0xFFFE [0x9C, 0x9D]).emulateInstruction
      0x70000).2.mem 0x70001 = 0x9D := rfl
  have h := int_iret_inverse_iff hs ht hint (by decide) hiret hpushf hpopf
  exact ⟨h.1.mpr (.inl rfl), h.2.mpr (.inl rfl)⟩

/-- With SS = 1 the stack pointer drifts by 0x20 and other words are popped. -/
theorem int_iret_drift :
    let s := bootProgram 1 0x100 [0xCD, 0x10, 0xCF]
    s.RealMode ∧ s.mem 0x70000 = 0xCD ∧ s.mem 0x70001 ≠ 0xFF ∧
      (s.emulateInstruction 0x70000).2.mem 0x70002 = 0xCF ∧
      ((s.emulateInstruction 0x70000).2.emulateInstruction 0x70002).2.frame 3 = 0x120 ∧
      ¬ IntIret s 0x70000 0x70002 := by
  refine ⟨⟨by decide, by decide, by decide, by decide, by decide⟩, rfl, by decide, rfl, rfl, ?_⟩
  rintro ⟨-, -, -, h⟩
  exact absurd h (by decide)

end OsU
