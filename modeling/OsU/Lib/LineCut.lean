import Mathlib.Tactic

/-!
# Lines in a buffer

A reader that takes the lines of a text one by one into a buffer of `max` characters:
what it takes ends in front of a separator, which it skips, or where the buffer is full.
What it takes next then is the next line, or the rest of the same one. It is always the
next line exactly when no line is longer than the buffer (`forall_starts_iff`).

The result is for a reader that stops after some number of pieces too, since such a
reader sees only the first lines: it is the lines in front of the last piece that must
fit.
-/

set_option autoImplicit false

namespace LineCut

variable {α : Type} [DecidableEq α]

/-- What the reader takes at `p`. -/
def piece (sep : α) (max : Nat) (text : List α) (p : Nat) : List α :=
  ((text.drop p).takeWhile (· ≠ sep)).take max

/-- Where it goes on. -/
def next (sep : α) (max : Nat) (text : List α) (p : Nat) : Nat :=
  let q := p + (piece sep max text p).length
  if text[q]? = some sep then q + 1 else q

/-- The places it comes to from `p` on, in `k` rounds at most. -/
def starts (sep : α) (max : Nat) (text : List α) : Nat → Nat → List Nat
  | 0, _ => []
  | k + 1, p =>
    if p < text.length then p :: starts sep max text k (next sep max text p) else []

/-- A line begins at `p`. -/
def IsLineStart (sep : α) (text : List α) (p : Nat) : Prop := p = 0 ∨ text[p - 1]? = some sep

instance (sep : α) (text : List α) (p : Nat) : Decidable (IsLineStart sep text p) :=
  inferInstanceAs (Decidable (_ ∨ _))

/-- What the reader takes of a line. -/
theorem piece_line {sep : α} (max : Nat) {line : List α} (hline : sep ∉ line) (pre : List α)
    {rest : List α} (hrest : ∀ c ∈ rest.head?, c = sep) :
    piece sep max (pre ++ (line ++ rest)) pre.length = line.take max := by
  have hall : ∀ c ∈ line, decide (c ≠ sep) = true := by
    intro c hc
    refine decide_eq_true ?_
    rintro rfl
    exact hline hc
  rw [piece, List.drop_left, List.takeWhile_append_of_pos hall]
  cases rest with
  | nil => rw [List.takeWhile_nil, List.append_nil]
  | cons c rest =>
    obtain rfl := hrest c rfl
    rw [List.takeWhile_cons_of_neg (by simp), List.append_nil]

/-- Behind a line that fits is the next line. -/
theorem next_line {sep : α} {max : Nat} {line : List α} (hline : sep ∉ line)
    (hfits : line.length ≤ max) (pre rest : List α) :
    next sep max (pre ++ (line ++ sep :: rest)) pre.length = (pre ++ (line ++ [sep])).length := by
  have hget : (pre ++ (line ++ sep :: rest))[pre.length + line.length]? = some sep := by
    rw [← List.append_assoc, ← List.length_append, List.getElem?_append_right (Nat.le_refl _),
      Nat.sub_self]
    rfl
  have hrest : ∀ c ∈ (sep :: rest).head?, c = sep := fun c hc => (Option.some.inj hc).symm
  unfold next
  dsimp only
  rw [piece_line max hline pre hrest, List.take_of_length_le hfits, if_pos hget]
  simp only [List.length_append, List.length_singleton, Nat.add_assoc]

/-- Behind a last line that fits is nothing. -/
theorem next_last {sep : α} {max : Nat} {line : List α} (hline : sep ∉ line)
    (hfits : line.length ≤ max) (pre : List α) :
    (pre ++ line).length ≤ next sep max (pre ++ line) pre.length := by
  have hpiece : piece sep max (pre ++ line) pre.length = line := by
    have h : piece sep max (pre ++ (line ++ [])) pre.length = line.take max :=
      piece_line max hline pre fun c hc => nomatch hc
    rwa [List.append_nil, List.take_of_length_le hfits] at h
  unfold next
  dsimp only
  rw [hpiece, ← List.length_append]
  split
  · exact Nat.le_succ _
  · exact Nat.le_refl _

/-- Behind the piece of a line that does not fit is the rest of it. -/
theorem next_long {sep : α} {max : Nat} {line : List α} (hline : sep ∉ line)
    (hlong : max < line.length) (pre : List α) {rest : List α}
    (hrest : ∀ c ∈ rest.head?, c = sep) :
    next sep max (pre ++ (line ++ rest)) pre.length = pre.length + max := by
  have hget : (pre ++ (line ++ rest))[pre.length + max]? ≠ some sep := by
    rw [List.getElem?_append_right (Nat.le_add_right _ _), Nat.add_sub_cancel_left,
      List.getElem?_append_left hlong]
    exact fun h => hline (List.mem_of_getElem? h)
  unfold next
  dsimp only
  rw [piece_line max hline pre hrest, List.length_take_of_le (Nat.le_of_lt hlong), if_neg hget]

omit [DecidableEq α] in
/-- No line begins inside of one. -/
theorem not_isLineStart {sep : α} {max : Nat} {line : List α} (hline : sep ∉ line)
    (hmax : 0 < max) (hlong : max < line.length) (pre rest : List α) :
    ¬IsLineStart sep (pre ++ (line ++ rest)) (pre.length + max) := by
  rintro (h | h)
  · omega
  · rw [Nat.add_sub_assoc hmax, List.getElem?_append_right (Nat.le_add_right _ _),
      Nat.add_sub_cancel_left, List.getElem?_append_left (by omega)] at h
    exact hline (List.mem_of_getElem? h)

/-- A text is its first line and what is behind it. -/
theorem exists_line (sep : α) (text : List α) :
    ∃ line rest, text = line ++ rest ∧ sep ∉ line ∧ ∀ c ∈ rest.head?, c = sep := by
  by_cases h : sep ∈ text
  · obtain ⟨line, rest, rfl, hline⟩ := List.eq_append_cons_of_mem h
    exact ⟨line, sep :: rest, rfl, hline, fun c hc => (Option.some.inj hc).symm⟩
  · exact ⟨text, [], (List.append_nil text).symm, h, fun c hc => nomatch hc⟩

/-- A line that does not fit is met where it is. -/
theorem not_forall_starts {sep : α} {max : Nat} (hmax : 0 < max) (k : Nat) {line : List α}
    (hline : sep ∉ line) (hlong : max < line.length) (pre : List α) {rest : List α}
    (hrest : ∀ c ∈ rest.head?, c = sep) :
    ¬∀ p ∈ starts sep max (pre ++ (line ++ rest)) (k + 1)
        (next sep max (pre ++ (line ++ rest)) pre.length),
      IsLineStart sep (pre ++ (line ++ rest)) p := by
  have hlt : pre.length + max < (pre ++ (line ++ rest)).length := by
    rw [List.length_append, List.length_append]
    omega
  rw [next_long hline hlong pre hrest, starts, if_pos hlt]
  exact fun h => not_isLineStart hline hmax hlong pre rest (h _ List.mem_cons_self)

/-- `forall_starts_iff`, from a line on. -/
theorem forall_starts_from {sep : α} {max : Nat} (hmax : 0 < max) (k : Nat) {pre text : List α}
    (hpre : IsLineStart sep (pre ++ text) pre.length) :
    (∀ p ∈ starts sep max (pre ++ text) (k + 1) pre.length, IsLineStart sep (pre ++ text) p) ↔
      ∀ line ∈ (text.splitOn sep).take k, line.length ≤ max := by
  induction k generalizing pre text with
  | zero =>
    have hone : ∀ p ∈ starts sep max (pre ++ text) 1 pre.length,
        IsLineStart sep (pre ++ text) p := by
      intro p hp
      rw [starts, starts] at hp
      split at hp
      · rwa [List.mem_singleton.mp hp]
      · exact absurd hp List.not_mem_nil
    exact iff_of_true hone fun line hmem => absurd hmem List.not_mem_nil
  | succ k ih =>
    rw [starts]
    split
    · rw [List.forall_mem_cons, and_iff_right hpre]
      -- A line that fits is one piece, and the next piece begins behind its separator;
      -- of a longer one the second piece begins within it.
      obtain ⟨line, rest, rfl, hline, hrest⟩ := exists_line sep text
      by_cases hfits : line.length ≤ max
      · cases rest with
        | nil =>
          have hend := next_last hline hfits pre
          rw [List.append_nil, List.splitOn_eq_singleton hline, List.take_succ_cons, List.take_nil,
            List.forall_mem_singleton, starts, if_neg (Nat.not_lt.mpr hend)]
          exact iff_of_true (fun p hp => absurd hp List.not_mem_nil) hfits
        | cons c rest =>
          obtain rfl := hrest c rfl
          have hstart : IsLineStart c (pre ++ (line ++ [c]) ++ rest)
              (pre ++ (line ++ [c])).length := by
            refine Or.inr ?_
            rw [List.getElem?_append_left (by simp), List.getElem?_eq_getElem (by simp)]
            simp
          have htext : pre ++ (line ++ c :: rest) = pre ++ (line ++ [c]) ++ rest := by simp
          rw [next_line hline hfits, List.splitOn_append_cons_self_of_not_mem hline,
            List.take_succ_cons, List.forall_mem_cons, and_iff_right hfits, htext]
          exact ih hstart
      · have hlong : max < line.length := Nat.lt_of_not_le hfits
        refine iff_of_false (not_forall_starts hmax k hline hlong pre hrest) fun h => hfits ?_
        cases rest with
        | nil =>
          rw [List.append_nil, List.splitOn_eq_singleton hline] at h
          exact h line List.mem_cons_self
        | cons c rest =>
          obtain rfl := hrest c rfl
          rw [List.splitOn_append_cons_self_of_not_mem hline] at h
          exact h line List.mem_cons_self
    · -- Nothing is left to cut.
      rename_i hend
      have hnil : text = [] := by
        rw [List.length_append] at hend
        exact List.eq_nil_of_length_eq_zero (by omega)
      subst hnil
      refine iff_of_true (fun p hp => absurd hp List.not_mem_nil) fun line hmem => ?_
      rw [List.splitOn_nil] at hmem
      obtain rfl := List.mem_singleton.mp (List.mem_of_mem_take hmem)
      exact Nat.zero_le max

/-- **A line at a time.** A reader of `k + 1` pieces comes to the beginnings of lines only, exactly
when none of the first `k` lines is longer than its buffer. -/
theorem forall_starts_iff (sep : α) {max : Nat} (hmax : 0 < max) (k : Nat) (text : List α) :
    (∀ p ∈ starts sep max text (k + 1) 0, IsLineStart sep text p) ↔
      ∀ line ∈ (text.splitOn sep).take k, line.length ≤ max := by
  have hstart : IsLineStart sep ([] ++ text) ([] : List α).length := Or.inl rfl
  exact forall_starts_from hmax k hstart

/-- Each line but the first is behind a separator. -/
theorem index_add_length_le {sep : α} {text : List α} {i : Nat} {line : List α}
    (h : (text.splitOn sep)[i]? = some line) : i + line.length ≤ text.length := by
  induction text generalizing i line with
  | nil =>
    rw [List.splitOn_nil] at h
    cases i with
    | zero =>
      obtain rfl := Option.some.inj h
      exact Nat.le_refl 0
    | succ i => exact nomatch h
  | cons c text ih =>
    rw [List.splitOn_cons_eq_if_modifyHead] at h
    -- A separator begins a new line; any other item is the first of the line it is on.
    split at h
    · cases i with
      | zero =>
        obtain rfl := Option.some.inj h
        exact Nat.zero_le _
      | succ i =>
        have hle := ih h
        rw [List.length_cons]
        omega
    · cases hsplit : text.splitOn sep with
      | nil => exact absurd hsplit (List.splitOn_ne_nil sep text)
      | cons first lines =>
        rw [hsplit] at h ih
        cases i with
        | zero =>
          obtain rfl := Option.some.inj h
          have hle := ih (i := 0) rfl
          rw [List.length_cons, List.length_cons]
          omega
        | succ i =>
          have hle := ih (i := i + 1) h
          rw [List.length_cons]
          omega

/-- As many rounds as there are characters are enough to find every line. -/
theorem forall_starts_length_iff (sep : α) {max : Nat} (hmax : 0 < max) (text : List α) :
    (∀ p ∈ starts sep max text text.length 0, IsLineStart sep text p) ↔
      ∀ line ∈ text.splitOn sep, line.length ≤ max := by
  cases hlen : text.length with
  | zero =>
    obtain rfl := List.eq_nil_of_length_eq_zero hlen
    rw [List.splitOn_nil, List.forall_mem_singleton]
    exact iff_of_true (fun p hp => absurd hp List.not_mem_nil) (Nat.zero_le max)
  | succ k =>
    rw [forall_starts_iff sep hmax]
    refine ⟨fun h line hmem => ?_, fun h line hmem => h line (List.mem_of_mem_take hmem)⟩
    obtain ⟨i, hi⟩ := List.mem_iff_getElem?.mp hmem
    by_cases hik : i < k
    · refine h line (List.mem_iff_getElem?.mpr ⟨i, ?_⟩)
      rwa [List.getElem?_take_of_lt hik]
    · -- a line so far behind is short
      have hle := index_add_length_le hi
      omega

end LineCut
