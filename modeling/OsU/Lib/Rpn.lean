import Mathlib.Tactic

/-!
# Reverse Polish notation

A tree of binary operators written with each operator behind its two operands, and a
machine that reads it with a stack of `room` cells. An operator need not be defined on
all values. Reading a tree puts its value on the stack, whatever is below (`run_items`).

How much room a tree needs depends on its shape and on what is below it; `Fits` is the
condition on the items, and it can be computed. A tree whose value is not defined is no
case of the theorem: what the machine does then is its own affair.
-/

set_option autoImplicit false

namespace Rpn

/-- A tree with literals at its leaves. -/
inductive Tree (L O : Type) where
  | lit (l : L)
  | node (op : O) (x y : Tree L O)

/-- What the machine reads. -/
inductive Item (L O : Type) where
  | lit (l : L)
  | op (op : O)

/-- What literals and operators stand for; `none` where an operator is not defined. -/
structure Meaning (L O V : Type) where
  lit : L → V
  op : O → V → V → Option V

variable {L O V : Type}

namespace Tree

/-- The notation of a tree. -/
def items : Tree L O → List (Item L O)
  | lit l => [.lit l]
  | node op x y => x.items ++ (y.items ++ [.op op])

/-- The value of a tree, if its operators are defined where they are used. -/
def value (M : Meaning L O V) : Tree L O → Option V
  | lit l => some (M.lit l)
  | node op x y => (x.value M).bind fun a => (y.value M).bind fun b => M.op op a b

end Tree

/-- The cells in use never exceed `room`, from `d` of them on. -/
def Fits (room : Nat) : Nat → List (Item L O) → Prop
  | _, [] => True
  | d, .lit _ :: rest => d + 1 ≤ room ∧ Fits room (d + 1) rest
  | d, .op _ :: rest => Fits room (d - 1) rest

/-- One item on a stack, the top of which is its head. -/
def step (M : Meaning L O V) (room : Nat) : Item L O → List V → Option (List V)
  | .lit l, st => if st.length < room then some (M.lit l :: st) else none
  | .op o, b :: a :: st => (M.op o a b).map (· :: st)
  | .op _, _ => none

/-- Items from left to right. -/
def run (M : Meaning L O V) (room : Nat) : List (Item L O) → List V → Option (List V)
  | [], st => some st
  | i :: rest, st => (step M room i st).bind (run M room rest)

theorem run_append (M : Meaning L O V) (room : Nat) (is js : List (Item L O)) (st : List V) :
    run M room (is ++ js) st = (run M room is st).bind (run M room js) := by
  induction is generalizing st with
  | nil => rfl
  | cons i is ih =>
    rw [List.cons_append, run, run]
    cases step M room i st with
    | none => rfl
    | some st => exact ih st

/-- Once a tree is read, one more cell is in use. -/
theorem fits_items_append {room : Nat} (t : Tree L O) (d : Nat) (rest : List (Item L O)) :
    Fits room d (t.items ++ rest) ↔ Fits room d t.items ∧ Fits room (d + 1) rest := by
  induction t generalizing d rest with
  | lit l => simp [Tree.items, Fits]
  | node op x y ihx ihy =>
    rw [Tree.items, List.append_assoc, List.append_assoc, ihx, ihy, ihx, ihy]
    simp [Fits, and_assoc]

/-- **A tree's notation puts its value on the stack.** -/
theorem run_items {M : Meaning L O V} {room : Nat} (t : Tree L O) {v : V} {st : List V}
    (hv : t.value M = some v) (hfits : Fits room st.length t.items) :
    run M room t.items st = some (v :: st) := by
  induction t generalizing v st with
  | lit l =>
    obtain rfl : M.lit l = v := Option.some.inj hv
    rw [Tree.items, run, step, if_pos (Nat.lt_of_succ_le hfits.1)]
    rfl
  | node op x y ihx ihy =>
    obtain ⟨a, ha, hv⟩ := Option.bind_eq_some_iff.mp hv
    obtain ⟨b, hb, hv⟩ := Option.bind_eq_some_iff.mp hv
    rw [Tree.items, fits_items_append, fits_items_append] at hfits
    obtain ⟨hx, hy, -⟩ := hfits
    -- the left operand is below the right one when the operator is read
    have hy' : run M room y.items (a :: st) = some (b :: a :: st) := ihy hb hy
    rw [Tree.items, run_append, ihx ha hx, Option.bind_some, run_append, hy', Option.bind_some,
      run, step, hv]
    rfl

end Rpn
