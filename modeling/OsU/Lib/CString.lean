import Mathlib.Tactic

/-!
# C strings

A C string is the list of its bytes; it ends at the end of the list or at a zero byte,
whichever comes first, so a pointer into one is a suffix of the list. `copyWhile` is the
loop that copies characters into a buffer of bounded size while they meet a condition.

Reading past the end of the list gives zero (`peek`), which is the terminator that a C
string has there. The facts about `copyWhile` say what it copies in terms of
`List.takeWhile`, and that the copy and the rest are the string.
-/

set_option autoImplicit false

namespace CString

/-- A string literal. -/
def ascii (s : String) : List UInt8 := s.toList.map fun c => UInt8.ofNat c.toNat

/-- `*s` -/
def peek (s : List UInt8) : UInt8 := s.headD 0

/-- `strncmp(s, kw, strlen(kw)) == 0` -/
def startsWith (s kw : List UInt8) : Bool := kw.isPrefixOf s

/-- At most `n` characters that meet `p`, and the rest of the string. -/
def copyWhile (p : UInt8 → Bool) : Nat → List UInt8 → List UInt8 × List UInt8
  | 0, s => ([], s)
  | _ + 1, [] => ([], [])
  | n + 1, b :: s =>
    if p b then
      let r := copyWhile p n s
      (b :: r.1, r.2)
    else ([], b :: s)

/-- A check of the characters of a string, one by one. It is how a closed fact about a
literal is decided, and how that fact is used. -/
theorem forall_mem_of_all {p : UInt8 → Prop} [DecidablePred p] {s : List UInt8}
    (h : (s.all fun b => p b) = true) : ∀ b ∈ s, p b :=
  fun b hb => of_decide_eq_true (List.all_eq_true.mp h b hb)

/-- A check of every byte. -/
theorem forall_byte {p : UInt8 → Prop} (h : ∀ i : Fin 256, p (UInt8.ofNat i.val)) (b : UInt8) :
    p b := by
  have hb := h ⟨b.toNat, b.toNat_lt⟩
  rwa [UInt8.ofNat_toNat] at hb

@[simp] theorem peek_nil : peek [] = 0 := rfl

@[simp] theorem peek_cons (b : UInt8) (s : List UInt8) : peek (b :: s) = b := rfl

/-- What is copied and what is left are the string. -/
theorem copyWhile_append (p : UInt8 → Bool) (n : Nat) (s : List UInt8) :
    (copyWhile p n s).1 ++ (copyWhile p n s).2 = s := by
  induction n generalizing s with
  | zero => rfl
  | succ n ih =>
    cases s with
    | nil => rfl
    | cons b s =>
      rw [copyWhile]
      split
      · exact congrArg (b :: ·) (ih s)
      · rfl

/-- What is left is what is behind the copy. -/
theorem copyWhile_rest (p : UInt8 → Bool) (n : Nat) (s : List UInt8) :
    (copyWhile p n s).2 = s.drop (copyWhile p n s).1.length :=
  (List.drop_left' rfl).symm.trans (congrArg (List.drop _) (copyWhile_append p n s))

/-- The copy is a run of characters that meet `p`, cut to the size of the buffer. -/
theorem copyWhile_fst (p : UInt8 → Bool) (n : Nat) (s : List UInt8) :
    (copyWhile p n s).1 = (s.takeWhile p).take n := by
  induction n generalizing s with
  | zero => rfl
  | succ n ih =>
    cases s with
    | nil => rfl
    | cons b s =>
      rw [copyWhile, List.takeWhile_cons]
      split
      · exact congrArg (b :: ·) (ih s)
      · rfl

/-- The buffer is large enough for the copy. -/
theorem length_copyWhile_fst_le (p : UInt8 → Bool) (n : Nat) (s : List UInt8) :
    (copyWhile p n s).1.length ≤ n := by
  induction n generalizing s with
  | zero => exact le_refl 0
  | succ n ih =>
    cases s with
    | nil => exact Nat.zero_le _
    | cons b s =>
      rw [copyWhile]
      split
      · exact Nat.succ_le_succ (ih s)
      · exact Nat.zero_le _

/-- The loop copies a run of characters that fits the buffer and ends at one that fails `p`. -/
theorem copyWhile_run {p : UInt8 → Bool} {n : Nat} {w s : List UInt8} (hw : ∀ b ∈ w, p b = true)
    (hn : w.length ≤ n) (hs : ∀ b ∈ s.head?, p b = false) : copyWhile p n (w ++ s) = (w, s) := by
  induction w generalizing n with
  | nil =>
    cases n with
    | zero => rfl
    | succ n =>
      cases s with
      | nil => rfl
      | cons b s =>
        have hb : p b = false := hs b rfl
        rw [List.nil_append, copyWhile, hb]
        rfl
  | cons b w ih =>
    cases n with
    | zero => exact absurd hn (by simp)
    | succ n =>
      have hrest := ih (fun c hc => hw c (List.mem_cons_of_mem b hc)) (Nat.le_of_succ_le_succ hn)
      rw [List.cons_append, copyWhile, if_pos (hw b List.mem_cons_self), hrest]

end CString
