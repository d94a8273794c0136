import Mathlib.Tactic

/-!
# Byte memory seen from a pointer

A C buffer is read here through the pointer to its first byte: `m i` is `p[i]`. Storing
a byte, filling and copying are closed forms of the loops a C library runs, and
`le16`/`le32` are the little-endian words a packed structure overlays on the bytes.

The memory has no end. Whether a program stays inside an array is a question for a
memory that keeps count of what is used, such as `Cells`.

The one fact worth having about words is extensionality: every byte belongs to exactly
one aligned 16-bit word, so a memory is determined by its words (`ext_le16`). It is what
turns "every table entry is what it was" into "the buffer is what it was".
-/

set_option autoImplicit false

/-- Memory seen from one pointer: `m i` is the byte `i` past it. -/
abbrev ByteMem : Type := Nat → UInt8

namespace ByteMem

/-- `p[a] = b`. -/
def put (m : ByteMem) (a : Nat) (b : UInt8) : ByteMem := fun i => if i = a then b else m i

/-- `n` bytes of value `b` from the pointer on. -/
def fill (m : ByteMem) (b : UInt8) (n : Nat) : ByteMem := fun i => if i < n then b else m i

/-- `n` bytes of `src` copied to offset `a`. -/
def copy (m : ByteMem) (a : Nat) (src : ByteMem) (n : Nat) : ByteMem := fun i =>
  if a ≤ i ∧ i < a + n then src (i - a) else m i

/-- The bytes of a list, zero past its end. -/
def ofList (l : List UInt8) : ByteMem := fun i => l.getD i 0

/-- The first `n` bytes, as a list. -/
def toList (m : ByteMem) (n : Nat) : List UInt8 := (List.range n).map m

/-- The little-endian 16-bit word at offset `a`. -/
def le16 (m : ByteMem) (a : Nat) : Nat := (m a).toNat ||| ((m (a + 1)).toNat <<< 8)

/-- The little-endian 32-bit word at offset `a`. -/
def le32 (m : ByteMem) (a : Nat) : Nat := m.le16 a + 65536 * m.le16 (a + 2)

/-- Store a little-endian 16-bit word at offset `a`. -/
def putLe16 (m : ByteMem) (a v : Nat) : ByteMem :=
  (m.put a (UInt8.ofNat v)).put (a + 1) (UInt8.ofNat (v >>> 8))

@[simp] theorem put_apply (m : ByteMem) (a : Nat) (b : UInt8) (i : Nat) :
    m.put a b i = if i = a then b else m i := rfl

theorem copy_apply (m : ByteMem) (a : Nat) (src : ByteMem) (n i : Nat) :
    m.copy a src n i = if a ≤ i ∧ i < a + n then src (i - a) else m i := rfl

@[simp] theorem length_toList (m : ByteMem) (n : Nat) : (m.toList n).length = n := by
  simp [toList]

/-- Two memories that agree below `n` have the same first `n` bytes. -/
theorem toList_congr {m m' : ByteMem} {n : Nat} (h : ∀ i < n, m i = m' i) :
    m.toList n = m'.toList n :=
  List.map_congr_left fun i hi => h i (List.mem_range.mp hi)

@[simp] theorem toList_ofList (l : List UInt8) : toList (ofList l) l.length = l := by
  apply List.ext_getElem
  · simp
  · intro i h₁ h₂
    simp [toList, ofList, List.getD, h₂]

theorem toList_add (m : ByteMem) (a b : Nat) :
    m.toList (a + b) = m.toList a ++ toList (fun i => m (a + i)) b := by
  simp [toList, List.range_add, List.map_map, Function.comp_def]

/-! ## Words -/

theorem lo_or_hi (a b : Nat) (ha : a < 256) : a ||| (b <<< 8) = a + 256 * b := by
  rw [Nat.or_comm, Nat.shiftLeft_eq, Nat.mul_comm b, ← Nat.two_pow_add_eq_or_of_lt (by simpa using ha)]
  omega

theorem le16_eq (m : ByteMem) (a : Nat) : m.le16 a = (m a).toNat + 256 * (m (a + 1)).toNat :=
  lo_or_hi _ _ (m a).toNat_lt

theorem le16_lt (m : ByteMem) (a : Nat) : m.le16 a < 65536 := by
  have hlo := (m a).toNat_lt
  have hhi := (m (a + 1)).toNat_lt
  rw [le16_eq]
  omega

theorem le32_lt (m : ByteMem) (a : Nat) : m.le32 a < 2 ^ 32 := by
  have hlo := m.le16_lt a
  have hhi := m.le16_lt (a + 2)
  rw [le32]
  omega

/-- A word is the same in two memories that agree on its bytes. -/
theorem le32_congr {m m' : ByteMem} {a b : Nat} (h : ∀ k < 4, m (a + k) = m' (b + k)) :
    m.le32 a = m'.le32 b := by
  have h₀ := h 0 (by decide)
  have h₁ := h 1 (by decide)
  have h₂ := h 2 (by decide)
  have h₃ := h 3 (by decide)
  simp only [Nat.add_zero] at h₀
  simp only [le32, le16_eq, Nat.add_assoc, Nat.reduceAdd, h₀, h₁, h₂, h₃]

theorem le16_eq_zero {m : ByteMem} {a : Nat} : m.le16 a = 0 ↔ m a = 0 ∧ m (a + 1) = 0 := by
  rw [le16_eq, ← UInt8.toNat_inj, ← UInt8.toNat_inj]
  simp only [UInt8.toNat_zero]
  omega

theorem putLe16_apply (m : ByteMem) (a v i : Nat) :
    m.putLe16 a v i =
      if i = a + 1 then UInt8.ofNat (v / 256) else if i = a then UInt8.ofNat v else m i := by
  simp only [putLe16, put_apply, Nat.shiftRight_eq_div_pow]

theorem le16_putLe16_self (m : ByteMem) (a v : Nat) : (m.putLe16 a v).le16 a = v % 65536 := by
  simp only [le16_eq, putLe16_apply]
  simp
  omega

theorem le16_putLe16_of_disjoint (m : ByteMem) {a b v : Nat} (h : b + 1 < a ∨ a + 1 < b) :
    (m.putLe16 a v).le16 b = m.le16 b := by
  simp only [le16_eq, putLe16_apply]
  rw [if_neg (by omega), if_neg (by omega), if_neg (by omega), if_neg (by omega)]

/-- A memory is determined by its aligned words. -/
theorem ext_le16 {m m' : ByteMem} (h : ∀ k, m.le16 (2 * k) = m'.le16 (2 * k)) : m = m' := by
  funext i
  have hk := h (i / 2)
  simp only [le16_eq] at hk
  have h₀ := (m (2 * (i / 2))).toNat_lt
  have h₁ := (m' (2 * (i / 2))).toNat_lt
  rw [← UInt8.toNat_inj]
  rcases Nat.mod_two_eq_zero_or_one i with hi | hi
  · have e : 2 * (i / 2) = i := by omega
    rw [e] at hk h₀ h₁
    omega
  · have e : 2 * (i / 2) + 1 = i := by omega
    rw [e] at hk
    omega

end ByteMem
