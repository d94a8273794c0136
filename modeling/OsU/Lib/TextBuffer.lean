import OsU.Lib.ByteMem

/-!
# Strings in buffers

A buffer of `n + 1` bytes stores a string of at most `n` characters, with a zero behind
it; what is behind the zero is left from earlier ones. `copyText` is the loop that
copies a string into such a buffer and cuts it to the room there is, and `moveText` the
one that moves a string from one buffer to another of the same size, character by
character up to the zero.

The second loop has no zero of its own to write when it runs out of room, so it relies
on one in the last byte of the buffer. That byte is zero as long as it was at first:
both loops keep it (`copied_last`, `moved_last`).
-/

set_option autoImplicit false

namespace ByteMem

/-- The string in a buffer of `n` bytes. -/
def text (m : ByteMem) (n : Nat) : List UInt8 := (m.toList n).takeWhile (· ≠ 0)

/-- `while (src[i] && i + 1 < size) { dst[i] = src[i]; i++; } dst[i] = 0;`, with room for `n` more
characters. -/
def copyText (src : ByteMem) : Nat → Nat → ByteMem → ByteMem
  | 0, i, dst => dst.put i 0
  | n + 1, i, dst =>
    if src i = 0 then dst.put i 0 else copyText src n (i + 1) (dst.put i (src i))

/-- `for (; i + 1 < size; i++) { dst[i] = src[i]; if (src[i] == 0) break; }`, for `n` more bytes. -/
def moveText (src : ByteMem) : Nat → Nat → ByteMem → ByteMem
  | 0, _, dst => dst
  | n + 1, i, dst =>
    let dst := dst.put i (src i)
    if src i = 0 then dst else moveText src n (i + 1) dst

/-- The buffer of `n + 1` bytes stores the string: its characters, none of them a NUL,
and a NUL behind them. What lies behind that is left open. -/
structure Stores (m : ByteMem) (n : Nat) (s : List UInt8) : Prop where
  room : s.length ≤ n
  nonzero : ∀ b ∈ s, b ≠ 0
  chars : ∀ i b, s[i]? = some b → m i = b
  ends : m s.length = 0

section Stores

variable {m src dst : ByteMem} {n k : Nat} {s : List UInt8}

theorem Stores.toList_eq (h : m.Stores n s) : m.toList s.length = s := by
  apply List.ext_getElem
  · simp
  · intro i hi hi'
    have hchar := h.chars i s[i] (List.getElem?_eq_getElem hi')
    simpa [ByteMem.toList] using hchar

/-- **The string stored is the one that is read.** -/
theorem Stores.text_eq (h : m.Stores n s) (hn : n < k) : m.text k = s := by
  obtain ⟨r, rfl⟩ : ∃ r, k = s.length + (r + 1) := ⟨k - s.length - 1, by
    have hroom := h.room
    omega⟩
  have hrest : (toList (fun i => m (s.length + i)) (r + 1)).takeWhile (· ≠ 0) = [] := by
    rw [Nat.add_comm, toList_add]
    have hends : toList (fun i => m (s.length + i)) 1 = [0] := congrArg (· :: []) h.ends
    rw [hends]
    rfl
  have hs : ∀ b ∈ s, decide (b ≠ 0) = true := fun b hb => decide_eq_true (h.nonzero b hb)
  rw [text, toList_add, h.toList_eq, List.takeWhile_append_of_pos hs, hrest, List.append_nil]

/-- A string literal. -/
theorem stores_ofList (hroom : s.length ≤ n) (hs : ∀ b ∈ s, b ≠ 0) : (ofList s).Stores n s where
  room := hroom
  nonzero := hs
  chars i b hb := by simp [ofList, List.getD, hb]
  ends := by simp [ofList]

/-- A buffer with the characters, once the zero is written. -/
theorem stores_put (hline : m.toList s.length = s) (hroom : s.length ≤ n)
    (hs : ∀ b ∈ s, b ≠ 0) : (m.put s.length 0).Stores n s where
  room := hroom
  nonzero := hs
  chars i b hb := by
    obtain ⟨hi, rfl⟩ := List.getElem?_eq_some_iff.mp hb
    have hget : (m.toList s.length)[i]? = some (m i) := by simp [ByteMem.toList, hi]
    rw [hline, List.getElem?_eq_getElem hi] at hget
    rw [put_apply, if_neg (Nat.ne_of_lt hi), Option.some.inj hget]
  ends := if_pos rfl

/-! ## The loops -/

/-- The string from `i` on, as the loops see it. -/
structure TextAt (src : ByteMem) (i : Nat) (s : List UInt8) : Prop where
  nonzero : ∀ b ∈ s, b ≠ 0
  chars : ∀ j b, s[j]? = some b → src (i + j) = b
  ends : src (i + s.length) = 0

theorem Stores.textAt (h : src.Stores n s) : TextAt src 0 s where
  nonzero := h.nonzero
  chars j b hb := by
    rw [Nat.zero_add]
    exact h.chars j b hb
  ends := by
    rw [Nat.zero_add]
    exact h.ends

theorem TextAt.head {b : UInt8} {i : Nat} (h : TextAt src i (b :: s)) :
    src i = b ∧ b ≠ 0 :=
  ⟨h.chars 0 b rfl, h.nonzero b List.mem_cons_self⟩

theorem TextAt.tail {b : UInt8} {i : Nat} (h : TextAt src i (b :: s)) : TextAt src (i + 1) s where
  nonzero c hc := h.nonzero c (List.mem_cons_of_mem b hc)
  chars j c hc := by
    rw [Nat.add_assoc, Nat.add_comm 1 j]
    exact h.chars (j + 1) c hc
  ends := by
    have hends := h.ends
    rwa [List.length_cons, ← Nat.add_assoc, Nat.add_right_comm] at hends

/-- What the copying loop leaves. -/
theorem TextAt.copyText_apply {i : Nat} (h : TextAt src i s) (n : Nat) (dst : ByteMem) (j : Nat) :
    copyText src n i dst j =
      if i ≤ j ∧ j < i + min n s.length then src j
      else if j = i + min n s.length then 0 else dst j := by
  induction n generalizing i s dst with
  | zero =>
    rw [copyText, Nat.zero_min, Nat.add_zero, if_neg (by omega)]
    rfl
  | succ n ih =>
    cases s with
    | nil =>
      have hzero : src i = 0 := h.ends
      rw [copyText, if_pos hzero, List.length_nil, Nat.min_zero, Nat.add_zero, if_neg (by omega)]
      rfl
    | cons b s =>
      obtain ⟨hb, hne⟩ := h.head
      rw [copyText, if_neg (hb ▸ hne), ih h.tail, List.length_cons, Nat.succ_min_succ, put_apply]
      by_cases hij : j = i
      · subst hij
        rw [if_neg (by omega), if_neg (by omega), if_pos rfl, if_pos (by omega)]
      · rw [if_neg hij]
        have hin : (i + 1 ≤ j ∧ j < i + 1 + min n s.length) ↔
            (i ≤ j ∧ j < i + (min n s.length + 1)) := by omega
        have hend : j = i + 1 + min n s.length ↔ j = i + (min n s.length + 1) := by omega
        simp only [hin, hend]

/-- What the moving loop leaves. -/
theorem TextAt.moveText_apply {i : Nat} (h : TextAt src i s) (n : Nat) (dst : ByteMem) (j : Nat) :
    moveText src n i dst j = if i ≤ j ∧ j < i + min n (s.length + 1) then src j else dst j := by
  induction n generalizing i s dst with
  | zero =>
    rw [moveText, if_neg (by omega)]
  | succ n ih =>
    cases s with
    | nil =>
      have hzero : src i = 0 := h.ends
      simp only [moveText, if_pos hzero, put_apply, List.length_nil]
      by_cases hij : j = i
      · rw [if_pos hij, if_pos (by omega), hij]
      · rw [if_neg hij, if_neg (by omega)]
    | cons b s =>
      obtain ⟨hb, hne⟩ := h.head
      simp only [moveText, if_neg (hb ▸ hne : ¬ src i = 0)]
      rw [ih h.tail, put_apply, List.length_cons]
      by_cases hij : j = i
      · subst hij
        rw [if_neg (by omega), if_pos rfl, if_pos (by omega)]
      · rw [if_neg hij]
        have hin : (i + 1 ≤ j ∧ j < i + 1 + min n (s.length + 1)) ↔
            (i ≤ j ∧ j < i + min (n + 1) (s.length + 1 + 1)) := by omega
        simp only [hin]

/-- **A copy stores the string**, cut to the room. -/
theorem Stores.copied (h : src.Stores k s) (n : Nat) (dst : ByteMem) :
    (copyText src n 0 dst).Stores n (s.take n) where
  room := by simp
  nonzero b hb := h.nonzero b (List.mem_of_mem_take hb)
  chars i b hb := by
    have hi : i < min n s.length := by
      have hlt := (List.getElem?_eq_some_iff.mp hb).1
      simpa using hlt
    have hsrc : s[i]? = some b := by
      rwa [List.getElem?_take_of_lt (by omega)] at hb
    rw [h.textAt.copyText_apply, if_pos (by omega)]
    exact h.chars i b hsrc
  ends := by
    rw [h.textAt.copyText_apply, List.length_take, if_neg (by omega), if_pos (by omega)]

/-- **A move stores the string**, where the last byte was a zero already. -/
theorem Stores.moved (h : src.Stores n s) (hlast : dst n = 0) :
    (moveText src n 0 dst).Stores n s where
  room := h.room
  nonzero := h.nonzero
  chars i b hb := by
    have hi := (List.getElem?_eq_some_iff.mp hb).1
    have hroom := h.room
    rw [h.textAt.moveText_apply, if_pos (by omega)]
    exact h.chars i b hb
  ends := by
    have hroom := h.room
    rw [h.textAt.moveText_apply]
    split
    · exact h.ends
    · rw [show s.length = n by omega]
      exact hlast

/-- The last byte stays a zero. -/
theorem Stores.copied_last (h : src.Stores k s) (hlast : dst n = 0) :
    copyText src n 0 dst n = 0 := by
  rw [h.textAt.copyText_apply, if_neg (by omega), hlast]
  split <;> rfl

theorem Stores.moved_last (h : src.Stores k s) (hlast : dst n = 0) :
    moveText src n 0 dst n = 0 := by
  rw [h.textAt.moveText_apply, if_neg (by omega), hlast]

end Stores

end ByteMem
