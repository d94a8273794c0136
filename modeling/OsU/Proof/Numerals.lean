import OsU.Proof.ForthStack

/-!
# Printed numbers

`vga_print_dec` shows the numeral of an unsigned number (`vgaPrintDec_eq`), and the
three places that print a number of a program hand it an `int32_t`. `ShownFor` says
which text such a place shows for a number; the text is the signed numeral where the
number is not negative.

The three are `print` of the one interpreter, and `.` and `.s` of the other. `.s` shows
several numbers in one line, and it has to be said which text in it belongs to which
cell; the pieces can be told apart because a numeral has no blank in it.

The loop writes the digits from the last to the first into a buffer of ten, which is
what a number of 32 bits needs.
-/

set_option autoImplicit false

namespace OsU

open CString

/-- The signed decimal numeral of `v`. -/
def numeral (v : Int) : List UInt8 :=
  if v < 0 then ascii "-" ++ decimal v.natAbs else decimal v.natAbs

/-! ## `vga_print_dec` -/

/-- With nothing left there is nothing to write. -/
theorem vgaDecLoop_zero (n : Nat) (buf : List UInt8) : vgaDecLoop n 0 buf = buf := by
  cases n with
  | zero => rfl
  | succ n => rfl

/-- The loop writes the digits, where there is room for them. -/
theorem vgaDecLoop_eq {n value : Nat} (hpos : 0 < value) (h : value < 10 ^ n) (buf : List UInt8) :
    vgaDecLoop n value buf = decimal value ++ buf := by
  induction n generalizing value buf with
  | zero => omega
  | succ n ih =>
    rw [vgaDecLoop, if_neg (Nat.ne_of_gt hpos), decimal]
    by_cases hlt : value < 10
    · rw [if_pos hlt, Nat.div_eq_of_lt hlt, vgaDecLoop_zero, Nat.mod_eq_of_lt hlt]
      rfl
    · rw [Nat.pow_succ] at h
      rw [if_neg hlt, ih (by omega) (by omega), List.append_assoc]
      rfl

/-- **What `vga_print_dec` shows** is the numeral of the unsigned number. -/
theorem vgaPrintDec_eq (v : BitVec 32) : vgaPrintDec v = decimal v.toNat := by
  have hlt := v.isLt
  rw [vgaPrintDec]
  by_cases hzero : v = 0
  · rw [if_pos hzero, hzero, decimal]
    rfl
  · have hpos : 0 < v.toNat := Nat.pos_of_ne_zero fun h => hzero (BitVec.eq_of_toNat_eq h)
    rw [if_neg hzero, vgaDecLoop_eq hpos (by omega), List.append_nil]

/-- The numeral of a negative number starts with a sign. -/
theorem vgaPrintDec_eq_numeral_iff (v : BitVec 32) : vgaPrintDec v = numeral v.toInt ↔ 0 ≤ v.toInt := by
  rw [numeral]
  constructor
  · intro h
    by_contra hneg
    rw [if_pos (Int.not_le.mp hneg)] at h
    have hsign : (0x2D : UInt8) ∈ vgaPrintDec v := h ▸ List.mem_cons_self
    exact absurd (vgaPrintDec_digits v _ hsign) (by decide)
  · intro h
    have habs : v.toInt.natAbs = v.toNat := by
      rw [BitVec.toInt_eq_toNat_cond] at h ⊢
      split at h <;> omega
    rw [if_neg (Int.not_lt.mpr h), vgaPrintDec_eq, habs]

/-! ## Reading a numeral back -/

/-- The signed numeral of a number is a literal of it. The digits of -2^31 are one too
many for a positive number; times the sign they are the number again. -/
def literalOf (v : BitVec 32) : Literal where
  sign := if v.toInt < 0 then .minus else .bare
  digits := decimal v.toInt.natAbs
  digits_ne := (decimal_wf _).1
  digits_ok := (decimal_wf _).2
  fits := by
    have hle := BitVec.le_toInt v
    have hlt := BitVec.toInt_lt (x := v)
    split
    · rw [signed, digitsValue_decimal]
      omega
    · rw [signed, digitsValue_decimal]
      omega

theorem literalOf_text (v : BitVec 32) : (literalOf v).text = numeral v.toInt := by
  rw [Literal.text, literalOf, numeral]
  split <;> rfl

theorem literalOf_value (v : BitVec 32) : (literalOf v).value = v := by
  have hsigned : signed (literalOf v).sign (literalOf v).digits = v.toInt := by
    simp only [literalOf]
    split
    · rw [signed, digitsValue_decimal]
      omega
    · rw [signed, digitsValue_decimal]
      omega
  rw [Literal.value, hsigned, BitVec.ofInt_toInt]

/-- A line with this text pushes the number. -/
def ReadsBack (text : List UInt8) (v : BitVec 32) : Prop :=
  ∀ s : Lang, s.sp < stackMax →
    ∃ t, tokLoop text.length text s = .running t ∧ t.cells = v :: s.cells

theorem Literal.readsBack (l : Literal) : ReadsBack l.text l.value := by
  intro s hroom
  obtain ⟨t, ht, hc, -⟩ := s.push_cells l.value hroom
  rw [← l.atoi_text] at ht
  have hnext : nextTok ([] ++ (l.text ++ [])) = some (l.text, []) :=
    nextTok_tok (by simp) l.isTok (by simp)
  rw [List.nil_append, List.append_nil] at hnext
  refine ⟨t, ?_, hc⟩
  obtain ⟨n, hn⟩ := Nat.exists_eq_add_of_lt (List.length_pos_of_ne_nil l.isTok.ne_nil)
  rw [hn, tokLoop, hnext]
  dsimp only
  rw [langWord_number l.isNumber_text ht]
  dsimp only
  cases 0 + n with
  | zero => rfl
  | succ k => rfl

/-! ## The places that print -/

/-- A place that prints the number `v` shows this text for it. -/
inductive ShownFor (v : BitVec 32) : List UInt8 → Prop
  /-- `print(arg`, where the argument is an expression with this value. -/
  | print {n : Nat} {arg text : List UInt8} {s s' : Cospy} {e : Eval} :
      executeStatement (n + 1) (ascii "print(" ++ arg) s = some (0, s') →
      s.definingFunction = false → s.inIfFalse = false → (s.ev.scan arg).tok ≠ .string →
      parseExpr (s.ev.scan arg) = some (v, e) → s'.ev.shown = e.shown ++ [.line text] →
      ShownFor v text
  /-- The word `.`, with the number on top of the stack. -/
  | dot {s t : Lang} {below : List (BitVec 32)} {text : List UInt8} :
      s.cells = v :: below → langWord (ascii ".") s = .running t →
      wordText (ascii ".") s = text ++ [0x0A] → ShownFor v text
  /-- The word `.s`, with the number in cell `j`: the texts of the cells are between blanks. -/
  | dotS {s t : Lang} {j : Nat} {pieces : List (List UInt8)} {text : List UInt8} :
      s.cells.reverse[j]? = some v → langWord (ascii ".s") s = .running t →
      (∀ p ∈ pieces, (0x20 : UInt8) ∉ p) →
      wordText (ascii ".s") s = ascii "<" ++ decimal s.sp ++ ascii "> " ++
        pieces.flatMap (fun p => p ++ [0x20]) ++ [0x0A] →
      pieces[j]? = some text → ShownFor v text

/-- `print(` is its own statement. -/
theorem executeStatement_print (n : Nat) (arg : List UInt8) {s : Cospy}
    (hdef : s.definingFunction = false) (hskip : s.inIfFalse = false) :
    executeStatement (n + 1) (ascii "print(" ++ arg) s =
      (printStatement arg s.ev).map fun e => (0, { s with ev := e }) := by
  unfold executeStatement executeOver
  dsimp only
  rw [hdef, hskip]
  rfl

/-- Pieces without the separator, each in front of one, can be told apart. -/
theorem flatMap_sep_inj {sep : UInt8} {ps qs : List (List UInt8)} (hp : ∀ p ∈ ps, sep ∉ p)
    (hq : ∀ q ∈ qs, sep ∉ q)
    (h : ps.flatMap (fun p => p ++ [sep]) = qs.flatMap (fun p => p ++ [sep])) : ps = qs := by
  have hsplit : ∀ ps : List (List UInt8), (∀ p ∈ ps, sep ∉ p) →
      (ps.flatMap fun p => p ++ [sep]).splitOn sep = ps ++ [[]] := by
    intro ps hp
    induction ps with
    | nil => exact List.splitOn_nil sep
    | cons p ps ih =>
      rw [List.forall_mem_cons] at hp
      rw [List.flatMap_cons, List.append_assoc, List.singleton_append,
        List.splitOn_append_cons_self_of_not_mem hp.1, ih hp.2]
      rfl
  have heq := congrArg (fun text => text.splitOn sep) h
  simp only [hsplit ps hp, hsplit qs hq] at heq
  exact List.append_cancel_right heq

theorem wordText_dot {v : BitVec 32} {s : Lang} {below : List (BitVec 32)}
    (h : s.cells = v :: below) : wordText (ascii ".") s = vgaPrintDec v ++ [0x0A] := by
  rw [wordText, h]
  rfl

theorem wordText_dotS (s : Lang) : wordText (ascii ".s") s = stackText s.cells := by
  rw [wordText]
  rfl

theorem vgaPrintDec_ofNat {n : Nat} (h : n < 2 ^ 32) :
    vgaPrintDec (BitVec.ofNat 32 n) = decimal n := by
  rw [vgaPrintDec_eq, BitVec.toNat_ofNat, Nat.mod_eq_of_lt h]

theorem stackText_eq (s : Lang) : stackText s.cells = ascii "<" ++ decimal s.sp ++ ascii "> " ++
    (s.cells.reverse.map vgaPrintDec).flatMap (fun p => p ++ [0x20]) ++ [0x0A] := by
  have hle : s.sp ≤ 128 := s.sp_le
  rw [stackText, s.length_cells, vgaPrintDec_ofNat (by omega), List.flatMap_map]

/-- A number has no blank in it. -/
theorem vgaPrintDec_no_blank (v : BitVec 32) : (0x20 : UInt8) ∉ vgaPrintDec v := fun h =>
  absurd (vgaPrintDec_digits v _ h) (by decide)

theorem pieces_no_blank (c : List (BitVec 32)) : ∀ p ∈ c.map vgaPrintDec, (0x20 : UInt8) ∉ p := by
  intro p hp
  obtain ⟨v, -, rfl⟩ := List.mem_map.mp hp
  exact vgaPrintDec_no_blank v

section Sites

variable {v : BitVec 32}

theorem printStatement_expr {arg : List UInt8} {e e' : Eval} (htok : (e.scan arg).tok ≠ .string)
    (hparse : parseExpr (e.scan arg) = some (v, e')) :
    printStatement arg e = some (e'.display (.line (vgaPrintDec v))) := by
  rw [printStatement, if_neg htok, hparse]
  rfl

/-- Every place shows what `vga_print_dec` makes of the number. -/
theorem ShownFor.eq {text : List UInt8} (h : ShownFor v text) : text = vgaPrintDec v := by
  cases h with
  | @print n arg _ s s' e hexec hdef hskip htok hparse hshown =>
    rw [executeStatement_print n arg hdef hskip, printStatement_expr htok hparse] at hexec
    obtain rfl := (Prod.mk.inj (Option.some.inj hexec)).2
    have hlast : e.shown ++ [Shown.line (vgaPrintDec v)] = e.shown ++ [.line text] := hshown
    simpa using hlast.symm
  | dot hc _ ht =>
    rw [wordText_dot hc] at ht
    exact (List.append_cancel_right ht).symm
  | @dotS s t j pieces _ hv _ hblank ht hj =>
    rw [wordText_dotS, stackText_eq] at ht
    have hflat := List.append_cancel_left (List.append_cancel_right ht)
    obtain rfl := flatMap_sep_inj (pieces_no_blank _) hblank hflat
    rw [List.getElem?_map, hv, Option.map_some] at hj
    exact (Option.some.inj hj).symm

/-- `print` shows one. -/
theorem shownFor_print {n : Nat} {arg : List UInt8} {s : Cospy} {e : Eval}
    (hdef : s.definingFunction = false) (hskip : s.inIfFalse = false)
    (htok : (s.ev.scan arg).tok ≠ .string) (hparse : parseExpr (s.ev.scan arg) = some (v, e)) :
    ShownFor v (vgaPrintDec v) := by
  have hexec : executeStatement (n + 1) (ascii "print(" ++ arg) s =
      some (0, { s with ev := e.display (.line (vgaPrintDec v)) }) := by
    rw [executeStatement_print n arg hdef hskip, printStatement_expr htok hparse]
    rfl
  exact .print hexec hdef hskip htok hparse rfl

/-- `.` shows one. -/
theorem shownFor_dot {s : Lang} {below : List (BitVec 32)} (hc : s.cells = v :: below) :
    ShownFor v (vgaPrintDec v) := by
  have hdoes := langWord_stackWord (ascii ".") s
  rw [hc] at hdoes
  obtain ⟨t, ht, -⟩ := hdoes
  exact .dot hc ht (wordText_dot hc)

/-- And `.s`, for each cell. -/
theorem shownFor_dotS {s : Lang} (hv : v ∈ s.cells) : ShownFor v (vgaPrintDec v) := by
  obtain ⟨t, ht, -⟩ := langWord_stackWord (ascii ".s") s
  obtain ⟨j, hj⟩ := List.getElem?_of_mem (List.mem_reverse.mpr hv)
  refine .dotS hj ht (pieces_no_blank s.cells.reverse) ?_ (by rw [List.getElem?_map, hj]; rfl)
  rw [wordText_dotS, stackText_eq]

/-- **Printed numbers are the numbers** where they are not negative: the text that is
shown is the signed numeral, and entering it pushes the number again. One condition for
all three places, on the number alone. -/
theorem shown_number_iff {text : List UInt8} (h : ShownFor v text) :
    (text = numeral v.toInt ∧ ReadsBack text v) ↔ 0 ≤ v.toInt := by
  rw [h.eq, vgaPrintDec_eq_numeral_iff]
  refine and_iff_left_of_imp fun hle => ?_
  have hback := (literalOf v).readsBack
  rwa [literalOf_text, literalOf_value, ← (vgaPrintDec_eq_numeral_iff v).mpr hle] at hback

end Sites

/-- The word `.` on a stack that holds a 9. -/
theorem shown_number_iff_nine :
    vgaPrintDec 9 = numeral (9 : BitVec 32).toInt ∧ ReadsBack (vgaPrintDec 9) 9 :=
  (shown_number_iff (shownFor_dot (show demoLang.cells = [9] from rfl))).mpr (by decide)

/-- `print(-1)` does not show `-1`. -/
theorem print_minus_one :
    ShownFor (-1) (ascii "4294967295") ∧ ascii "4294967295" ≠ numeral (-1 : BitVec 32).toInt := by
  have hparse : ∃ e, parseExpr ((Cospy.start fun _ => []).ev.scan (ascii "-1)")) =
      some (-1, e) := ⟨_, rfl⟩
  obtain ⟨e, he⟩ := hparse
  have hshown : ShownFor (-1) (vgaPrintDec (-1)) :=
    shownFor_print (n := 0) (s := .start fun _ => []) rfl rfl (by decide) he
  have htext : vgaPrintDec (-1) = ascii "4294967295" := by decide
  refine ⟨htext ▸ hshown, ?_⟩
  rw [← htext, Ne, vgaPrintDec_eq_numeral_iff]
  decide

end OsU
