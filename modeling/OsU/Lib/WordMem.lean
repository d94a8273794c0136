import Mathlib

/-!
# A 32-bit address space and its words

Byte memory over a 32-bit address space, addresses wrapping, with little-endian 32-bit
words on top, and the stack an x86 keeps in it. `bytes a n` are the `n` bytes from `a`
up and `below a n` the `n` bytes just under it; both are measured as a distance modulo
`2 ^ 32`, so no lemma has to say that a region does not wrap.

`pushes` is a run of `push` instructions, the first pushed value highest. `pushes_frame`
says that the bytes the run does not reach are what they were.

A load sees a store at the same address, and one whose bytes are apart from it; a store
that overlaps is neither, and no lemma is about it.
-/

set_option autoImplicit false

/-- A byte for every 32-bit address. -/
abbrev WordMem : Type := BitVec 32 → BitVec 8

namespace WordMem

/-- The `n` bytes from `a` up. -/
def bytes (a : BitVec 32) (n : Nat) : Set (BitVec 32) := {x | (x - a).toNat < n}

/-- The `n` bytes just under `a`. -/
def below (a : BitVec 32) (n : Nat) : Set (BitVec 32) := {x | (a - 1 - x).toNat < n}

/-- The little-endian word at `a`. -/
def load (m : WordMem) (a : BitVec 32) : BitVec 32 := m (a + 3) ++ m (a + 2) ++ m (a + 1) ++ m a

/-- Store a little-endian word at `a`. -/
def store (m : WordMem) (a v : BitVec 32) : WordMem := fun x =>
  if (x - a).toNat < 4 then v.extractLsb' (8 * (x - a).toNat) 8 else m x

/-- The memory after pushing the words of a list, with the stack pointer at `sp`. -/
def pushes (m : WordMem) (sp : BitVec 32) : List (BitVec 32) → WordMem
  | [] => m
  | v :: vs => (m.store (sp - 4) v).pushes (sp - 4) vs

@[simp] theorem mem_bytes {a : BitVec 32} {n : Nat} {x : BitVec 32} :
    x ∈ bytes a n ↔ (x - a).toNat < n := Iff.rfl

@[simp] theorem mem_below {a : BitVec 32} {n : Nat} {x : BitVec 32} :
    x ∈ below a n ↔ (a - 1 - x).toNat < n := Iff.rfl

/-! ## One word -/

theorem add_mem_bytes {a k : BitVec 32} {n : Nat} (h : k.toNat < n) : a + k ∈ bytes a n := by
  have hk : a + k - a = k := by bv_omega
  rw [mem_bytes, hk]
  exact h

theorem bytes_mono {a : BitVec 32} {n l : Nat} (h : n ≤ l) : bytes a n ⊆ bytes a l :=
  fun _ hx => lt_of_lt_of_le hx h

theorem bytes_add_subset {a k : BitVec 32} {n l : Nat} (h : k.toNat + n ≤ l) :
    bytes (a + k) n ⊆ bytes a l := by
  intro x hx
  rw [mem_bytes] at hx ⊢
  have he : x - a = x - (a + k) + k := by bv_omega
  rw [he, BitVec.toNat_add]
  exact lt_of_le_of_lt (Nat.mod_le _ _) (by omega)

/-- Two runs of bytes are apart when each starts past the end of the other. -/
theorem bytes_disjoint {a b : BitVec 32} {n l : Nat} (hab : n ≤ (b - a).toNat)
    (hba : l ≤ (a - b).toNat) : Disjoint (bytes a n) (bytes b l) := by
  refine Set.disjoint_left.mpr fun x hx hx' => ?_
  rw [mem_bytes] at hx hx'
  bv_omega

/-- Two runs of bytes at distances from one address, one behind the other. -/
theorem bytes_disjoint_of_le {a : BitVec 32} {x y n l : Nat} (hxy : x + n ≤ y)
    (hy : y + l ≤ 2 ^ 32) :
    Disjoint (bytes (a + BitVec.ofNat 32 x) n) (bytes (a + BitVec.ofNat 32 y) l) := by
  refine Set.disjoint_left.mpr fun z hz hz' => ?_
  rw [mem_bytes] at hz hz'
  -- the distance of `z` from the address
  have hx : z - (a + BitVec.ofNat 32 x) = z - a - BitVec.ofNat 32 x := by bv_omega
  have hy' : z - (a + BitVec.ofNat 32 y) = z - a - BitVec.ofNat 32 y := by bv_omega
  rw [hx] at hz
  rw [hy'] at hz'
  generalize z - a = d at hz hz'
  bv_omega

/-- What lies above an address is apart from what lies under it, unless they meet at the other end
of the address space. -/
theorem bytes_disjoint_below {a : BitVec 32} {n l : Nat} (h : n + l ≤ 2 ^ 32) :
    Disjoint (bytes a n) (below a l) := by
  refine Set.disjoint_left.mpr fun x hx hx' => ?_
  rw [mem_bytes] at hx
  rw [mem_below] at hx'
  have he : (a - 1 - x).toNat = 2 ^ 32 - 1 - (x - a).toNat := by
    rw [← BitVec.toNat_not]
    congr 1
    bv_omega
  omega

theorem load_congr {m m' : WordMem} {a : BitVec 32} (h : ∀ x ∈ bytes a 4, m' x = m x) :
    m'.load a = m.load a := by
  have h0 : m' a = m a := h a (by simp)
  have h1 : m' (a + 1) = m (a + 1) := h _ (add_mem_bytes (by decide))
  have h2 : m' (a + 2) = m (a + 2) := h _ (add_mem_bytes (by decide))
  have h3 : m' (a + 3) = m (a + 3) := h _ (add_mem_bytes (by decide))
  rw [load, h3, h2, h1, h0, load]

theorem store_frame {m : WordMem} {a v x : BitVec 32} (h : x ∉ bytes a 4) :
    m.store a v x = m x := if_neg h

@[simp] theorem load_store (m : WordMem) (a v : BitVec 32) : (m.store a v).load a = v := by
  have h1 : (a + 1 - a).toNat = 1 := by bv_omega
  have h2 : (a + 2 - a).toNat = 2 := by bv_omega
  have h3 : (a + 3 - a).toNat = 3 := by bv_omega
  simp only [load, store, h1, h2, h3, BitVec.sub_self, BitVec.toNat_ofNat]
  ext i hi
  simp only [BitVec.getElem_append]
  grind

/-! ## Half a word -/

/-- The little-endian half word at `a`. -/
def load16 (m : WordMem) (a : BitVec 32) : BitVec 16 := m (a + 1) ++ m a

/-- Store a little-endian half word at `a`. -/
def store16 (m : WordMem) (a : BitVec 32) (v : BitVec 16) : WordMem := fun x =>
  if (x - a).toNat < 2 then v.extractLsb' (8 * (x - a).toNat) 8 else m x

theorem store16_frame {m : WordMem} {a x : BitVec 32} {v : BitVec 16} (h : x ∉ bytes a 2) :
    m.store16 a v x = m x := if_neg h

theorem load16_congr {m m' : WordMem} {a : BitVec 32} (h : ∀ x ∈ bytes a 2, m' x = m x) :
    m'.load16 a = m.load16 a := by
  have h0 : m' a = m a := h a (by simp)
  have h1 : m' (a + 1) = m (a + 1) := h _ (add_mem_bytes (by decide))
  rw [load16, h1, h0, load16]

@[simp] theorem load16_store16 (m : WordMem) (a : BitVec 32) (v : BitVec 16) :
    (m.store16 a v).load16 a = v := by
  have h1 : (a + 1 - a).toNat = 1 := by bv_omega
  simp only [load16, store16, h1, BitVec.sub_self, BitVec.toNat_ofNat]
  ext i hi
  simp only [BitVec.getElem_append]
  grind

/-- A half word that the store does not reach. -/
theorem load16_store16_of_disjoint {m : WordMem} {a b : BitVec 32} {v : BitVec 16}
    (h : Disjoint (bytes b 2) (bytes a 2)) : (m.store16 a v).load16 b = m.load16 b :=
  load16_congr fun _ hx => store16_frame (Set.disjoint_left.mp h hx)

/-! ## A run of pushes -/

/-- Pushing reaches only the bytes just under the stack pointer. -/
theorem pushes_frame {vs : List (BitVec 32)} {m : WordMem} {sp x : BitVec 32}
    (h : x ∉ below sp (4 * vs.length)) : m.pushes sp vs x = m x := by
  induction vs generalizing m sp with
  | nil => rfl
  | cons v vs ih =>
    simp only [mem_below, List.length_cons, Nat.not_lt] at h
    have hx : x ∉ bytes (sp - 4) 4 := by rw [mem_bytes]; bv_omega
    have hrest : x ∉ below (sp - 4) (4 * vs.length) := by rw [mem_below]; bv_omega
    rw [pushes, ih hrest, store_frame hx]

/-- The words of a run, in the order they were pushed, lie one under the other. -/
theorem load_pushes {vs : List (BitVec 32)} (hlen : 4 * vs.length < 2 ^ 32) (m : WordMem)
    (sp : BitVec 32) (n : Fin vs.length) :
    (m.pushes sp vs).load (sp - BitVec.ofNat 32 (4 * (n + 1))) = vs.get n := by
  induction vs generalizing m sp with
  | nil => exact n.elim0
  | cons v vs ih =>
    rw [List.length_cons] at hlen
    cases n using Fin.cases with
    | zero =>
      -- the first word is above all that is pushed after it
      have hrest : Disjoint (bytes (sp - 4) 4) (below (sp - 4) (4 * vs.length)) :=
        bytes_disjoint_below (by omega)
      change ((m.store (sp - 4) v).pushes (sp - 4) vs).load (sp - 4) = v
      rw [load_congr fun _ hx => pushes_frame (Set.disjoint_left.mp hrest hx), load_store]
    | succ n =>
      have he : sp - BitVec.ofNat 32 (4 * ((n : Nat) + 1 + 1)) =
          sp - 4 - BitVec.ofNat 32 (4 * ((n : Nat) + 1)) := by bv_omega
      change ((m.store (sp - 4) v).pushes (sp - 4) vs).load
        (sp - BitVec.ofNat 32 (4 * ((n : Nat) + 1 + 1))) = vs.get n
      rw [he, ih (by omega)]

theorem load_pushes_frame {vs : List (BitVec 32)} {m : WordMem} {sp a : BitVec 32}
    (h : Disjoint (bytes a 4) (below sp (4 * vs.length))) :
    (m.pushes sp vs).load a = m.load a :=
  load_congr fun _ hx => pushes_frame (Set.disjoint_left.mp h hx)

end WordMem
