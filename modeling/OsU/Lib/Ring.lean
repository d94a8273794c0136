import Mathlib.Tactic

/-!
# A queue in a ring of cells

`n` cells, a `head` where the next element goes and a `tail` where the oldest one is;
the two are equal when the queue is empty, so one cell stays free. `Holds` ties the ring
to the list of its elements, oldest first, and each operation of the queue is one lemma
about it.

`Holds` says nothing of the cells between `head` and `tail` that hold no element, so a
store there keeps it. This is what lets a writer and a reader share the ring: the writer
stores before it moves `head`, the reader reads before it moves `tail`.
-/

set_option autoImplicit false

namespace Ring

universe u

variable {α : Type u} {n : Nat}

/-- The elements from `tail` up to `head`, around the end of the ring, are `xs`, the
oldest first. One cell stays free, so a full ring is not taken for an empty one. -/
structure Holds (buf : Nat → α) (n head tail : Nat) (xs : List α) : Prop where
  tail_lt : tail < n
  room : xs.length < n
  head_eq : head = (tail + xs.length) % n
  cells : ∀ i x, xs[i]? = some x → buf ((tail + i) % n) = x

/-- An index that has run past the end at most once. -/
theorem wrap_eq {a : Nat} (h : a < 2 * n) : a % n = if a < n then a else a - n := by
  split
  · exact Nat.mod_eq_of_lt ‹_›
  · rw [Nat.mod_eq_sub_mod (Nat.le_of_not_lt ‹_›), Nat.mod_eq_of_lt (by omega)]

theorem Holds.empty (buf : Nat → α) {t : Nat} (h : t < n) : Holds buf n t t [] where
  tail_lt := h
  room := Nat.zero_lt_of_lt h
  head_eq := (Nat.mod_eq_of_lt h).symm
  cells := nofun

section Laws

variable {buf : Nat → α} {head tail : Nat} {xs : List α}

/-- The test for an empty queue. -/
theorem Holds.empty_iff (h : Holds buf n head tail xs) : head = tail ↔ xs = [] := by
  have ht := h.tail_lt
  have hr := h.room
  rw [h.head_eq, wrap_eq (by omega), ← List.length_eq_zero_iff]
  split <;> omega

/-- The test for a full one. -/
theorem Holds.full_iff (h : Holds buf n head tail xs) :
    (head + 1) % n = tail ↔ xs.length + 1 = n := by
  have ht := h.tail_lt
  have hr := h.room
  rw [h.head_eq, Nat.mod_add_mod, wrap_eq (by omega)]
  split <;> omega

theorem Holds.push (h : Holds buf n head tail xs) (x : α) (hroom : xs.length + 1 < n) :
    Holds (Function.update buf head x) n ((head + 1) % n) tail (xs ++ [x]) where
  tail_lt := h.tail_lt
  room := by simpa using hroom
  head_eq := by
    rw [h.head_eq, Nat.mod_add_mod, List.length_append, List.length_singleton, Nat.add_assoc]
  cells := by
    intro i y hy
    have ht := h.tail_lt
    have hi : i < xs.length + 1 := by
      have := List.getElem?_eq_some_iff.mp hy
      simpa using this.1
    by_cases hlast : i = xs.length
    · -- the new element, at the old head
      subst hlast
      rw [← h.head_eq, Function.update_self]
      simpa using hy
    · rw [List.getElem?_append_left (by omega)] at hy
      rw [Function.update_of_ne, h.cells i y hy]
      rw [h.head_eq, wrap_eq (by omega), wrap_eq (by omega)]
      split <;> split <;> omega

theorem Holds.front {x : α} (h : Holds buf n head tail (x :: xs)) : buf tail = x := by
  have hx := h.cells 0 x rfl
  rwa [Nat.add_zero, Nat.mod_eq_of_lt h.tail_lt] at hx

theorem Holds.pop {x : α} (h : Holds buf n head tail (x :: xs)) :
    Holds buf n head ((tail + 1) % n) xs where
  tail_lt := Nat.mod_lt _ (Nat.zero_lt_of_lt h.room)
  room := Nat.lt_of_succ_lt h.room
  head_eq := by
    rw [h.head_eq, Nat.mod_add_mod, List.length_cons]
    congr 1
    omega
  cells := by
    intro i y hy
    rw [Nat.mod_add_mod, Nat.add_assoc, Nat.add_comm 1 i]
    exact h.cells (i + 1) y (by simpa using hy)

end Laws

end Ring
