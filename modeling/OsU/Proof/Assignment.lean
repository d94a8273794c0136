import OsU.Proof.Spacing
import OsU.Proof.Statements
import OsU.Proof.Variables

/-!
# Assignments

`x = e` is reached behind the tests for keywords, and some of them look at the first
letters of the line only: a variable whose name begins with `exit`, `quit`, `endif` or
`endwhile` cannot be assigned. What is left is a law about `set_var`, in any state of
the table. A new entry is put behind the last one; if that has no zero byte, its name
goes on in the new entry.

Unlike in `Variables`, the state is arbitrary here: the table may hold names that do not
fit, values in their place, and entries that no call has made. So the condition has two
parts, one about the letters of the name and one about the last entry (`Roomy`), and the
second matters only when the name is new.

The law compares the whole state before and after. Only the variable, and whatever
evaluating `e` does by itself, may differ.
-/

set_option autoImplicit false

namespace OsU

open CString

/-! ## The table, whatever is in it -/

section Strings

variable {m m' : ByteMem} {a : Nat} {s t : List UInt8}

/-- A string is what stands before the first zero byte. -/
theorem HasStr.length_le {k : Nat} (hs : (0 : UInt8) ∉ s) (hz : m (a + k) = 0)
    (h : HasStr m a s) : s.length ≤ k := by
  by_contra hlt
  rw [Nat.not_le] at hlt
  have hbyte := (h k hlt.le).symm.trans hz
  rw [ofList_lt hlt] at hbyte
  exact hs (hbyte ▸ List.getElem_mem hlt)

theorem hasStr_congr {k : Nat} (hs : (0 : UInt8) ∉ s) (hsame : ∀ j ≤ k, m' (a + j) = m (a + j))
    (hz : m (a + k) = 0) : HasStr m' a s ↔ HasStr m a s := by
  constructor
  · intro h
    have hle := h.length_le hs ((hsame k (Nat.le_refl k)).trans hz)
    exact h.frame fun j hj => (hsame j (hj.trans hle)).symm
  · intro h
    have hle := h.length_le hs hz
    exact h.frame fun j hj => hsame j (hj.trans hle)

/-- The end of a string is a string. -/
theorem HasStr.drop (h : HasStr m a (s ++ t)) : HasStr m (a + s.length) t := by
  intro k hk
  have hbyte := h (s.length + k) (by rw [List.length_append]; omega)
  rw [Nat.add_assoc, hbyte]
  simp [ByteMem.ofList, List.getElem?_append_right]

end Strings

/-- The last entry has no zero byte: a name that begins in it goes on behind the table.
This happens after a name of sixteen characters or more has been set to a value without
a zero byte. -/
def Overfull (e : Eval) : Prop :=
  0 < e.varCount ∧ ∀ k < 20, e.vars (varAddr (e.varCount - 1) + k) ≠ 0

/-- Where a new entry for `x` leaves the names in the table as they are. -/
def Roomy (e : Eval) (x : List UInt8) : Prop :=
  Overfull e → getVar e x ≠ none ∨ HasStr e.vars (varAddr e.varCount) x

/-- The table behind a new entry. -/
structure Added (x : List UInt8) (v : BitVec 32) (e e' : Eval) : Prop where
  count : e'.varCount = e.varCount + 1
  below : ∀ i < varAddr e.varCount, e'.vars i = e.vars i
  name : HasStr e'.vars (varAddr e.varCount) x
  value : loadInt e'.vars (varAddr e.varCount + 16) = v

section NewName

variable {x n : List UInt8} {v : BitVec 32} {e e' : Eval}

theorem added_setVar (hg : getVar e x = none) (hroom : e.varCount < 64) (hx : x.length ≤ 15)
    (v : BitVec 32) : Added x v e (setVar x v e).2 := by
  rw [setVar_new hg hroom]
  refine ⟨rfl, fun i hi => ?_, hasStr_storeInt hx (hasStr_storeStr _ _ _) v, loadInt_storeInt _ _ _⟩
  dsimp only
  rw [storeInt_off _ _ (by omega), storeStr_apply, if_neg (by omega)]

namespace Added

/-- The other names are as they were. -/
theorem hasStr_iff (h : Added x v e e')
    (hok : Overfull e → HasStr e.vars (varAddr e.varCount) x) (hn : (0 : UInt8) ∉ n) {i : Nat}
    (hi : i < e.varCount) : HasStr e'.vars (varAddr i) n ↔ HasStr e.vars (varAddr i) n := by
  have haddr : varAddr i ≤ varAddr e.varCount := Nat.mul_le_mul_left 20 hi.le
  by_cases hover : Overfull e
  · -- the name of the new entry was there before
    have hstr := hok hover
    refine hasStr_congr (k := varAddr e.varCount - varAddr i + x.length) hn (fun j hj => ?_) ?_
    · rcases Nat.lt_or_ge (varAddr i + j) (varAddr e.varCount) with hlt | hge
      · exact h.below _ hlt
      · obtain ⟨k, hk⟩ := Nat.exists_eq_add_of_le hge
        rw [hk, h.name k (by omega), hstr k (by omega)]
    · have hend := hstr x.length (Nat.le_refl _)
      rw [ofList_ge (Nat.le_refl _)] at hend
      rw [← Nat.add_assoc, Nat.add_sub_cancel' haddr, hend]
  · -- it ends before the new entry
    have hzero : ∃ k < 20, e.vars (varAddr (e.varCount - 1) + k) = 0 := by
      by_contra hno
      push Not at hno
      exact hover ⟨by omega, hno⟩
    obtain ⟨k, hk, hz⟩ := hzero
    have hle : varAddr i ≤ varAddr (e.varCount - 1) := Nat.mul_le_mul_left 20 (by omega)
    have hlast : varAddr (e.varCount - 1) + 20 = varAddr e.varCount := by
      unfold varAddr
      omega
    refine hasStr_congr (k := varAddr (e.varCount - 1) + k - varAddr i) hn (fun j hj => ?_) ?_
    · exact h.below _ (by omega)
    · rw [Nat.add_sub_cancel' (hle.trans (Nat.le_add_right _ _)), hz]

/-- The new name is not one of the others. -/
theorem get (h : Added x v e e') (hg : getVar e x = none) (hx : x.length ≤ 15) :
    varOf e' x = some v := by
  have hnone : (List.range e.varCount).find? (fun i => strEq e'.vars (varAddr i) x) = none := by
    rw [List.find?_eq_none]
    intro i hi hs
    have hlt : i < e.varCount := List.mem_range.mp hi
    refine getVar_none.mp hg i hlt ((strEq_iff.mp hs).frame fun k hk => (h.below _ ?_).symm)
    unfold varAddr
    omega
  have hlast : [e.varCount].find? (fun i => strEq e'.vars (varAddr i) x) = some e.varCount := by
    rw [List.find?_cons, strEq_iff.mpr h.name]
  have hget : getVar e' x = some e.varCount := by
    rw [getVar, h.count, List.range_succ, List.find?_append, hnone, Option.none_or, hlast]
  rw [varOf, hget, Option.map_some, h.value]

theorem varOf_of_ne (h : Added x v e e')
    (hok : Overfull e → HasStr e.vars (varAddr e.varCount) x) (hx : (0 : UInt8) ∉ x)
    (hn : (0 : UInt8) ∉ n) (hne : n ≠ x) : varOf e' n = varOf e n := by
  have hlast : (List.find? (fun i => strEq e'.vars (varAddr i) n) [e.varCount]) = none := by
    rw [List.find?_cons_of_neg, List.find?_nil]
    exact fun hs => hne ((strEq_iff.mp hs).unique hn hx h.name)
  have hget : getVar e' n = getVar e n := by
    rw [getVar, h.count, List.range_succ, List.find?_append, hlast, Option.or_none, getVar]
    refine List.find?_congr fun i hi => ?_
    rw [Bool.eq_iff_iff, strEq_iff, strEq_iff, h.hasStr_iff hok hn (List.mem_range.mp hi)]
  rw [varOf, varOf, hget]
  cases hj : getVar e n with
  | none => rw [Option.map_none, Option.map_none]
  | some j =>
    have hlt := (getVar_some hj).1
    refine congrArg some (loadInt_congr fun k hk => h.below _ ?_)
    unfold varAddr
    omega

/-- Where the last entry has no zero byte, it is found under another name than before. -/
theorem hasStr_of_same (h : Added x v e e') (hg : getVar e x = none) (hx : (0 : UInt8) ∉ x)
    (hsame : ∀ n, (0 : UInt8) ∉ n → n ≠ x → varOf e' n = varOf e n) (hover : Overfull e) :
    HasStr e.vars (varAddr e.varCount) x := by
  by_contra hno
  obtain ⟨hpos, hbytes⟩ := hover
  let p : List UInt8 := (List.range 20).map fun k => e.vars (varAddr (e.varCount - 1) + k)
  have hp : p.length = 20 := by simp [p]
  have hzero : (0 : UInt8) ∉ p ++ x := by
    rw [List.mem_append]
    rintro (hm | hm)
    · obtain ⟨k, hk, hz⟩ := List.mem_map.mp hm
      exact hbytes k (List.mem_range.mp hk) hz
    · exact hx hm
  have hne : p ++ x ≠ x := by
    intro he
    have hlen := congrArg List.length he
    rw [List.length_append, hp] at hlen
    omega
  have haddr : varAddr (e.varCount - 1) + 20 = varAddr e.varCount := by
    unfold varAddr
    omega
  have hnew : HasStr e'.vars (varAddr (e.varCount - 1)) (p ++ x) := by
    intro k hk
    rcases Nat.lt_or_ge k 20 with hlt | hge
    · rw [h.below _ (by omega)]
      simp [ByteMem.ofList, p, List.getElem?_append_left, hlt]
    · obtain ⟨j, rfl⟩ := Nat.exists_eq_add_of_le hge
      have hj : j ≤ x.length := by
        rw [List.length_append, hp] at hk
        omega
      rw [← Nat.add_assoc, haddr, h.name j hj]
      simp [ByteMem.ofList, List.getElem?_append_right, hp]
  -- the name is found in the new table, and in the old one only where `x` is found too
  have hfound : getVar e' (p ++ x) ≠ none := fun hn =>
    getVar_none.mp hn (e.varCount - 1) (by rw [h.count]; omega) hnew
  cases hk : getVar e (p ++ x) with
  | none =>
    have hlaw := hsame (p ++ x) hzero hne
    rw [varOf, varOf, hk, Option.map_none, Option.map_eq_none_iff] at hlaw
    exact hfound hlaw
  | some k =>
    obtain ⟨hlt, hstr⟩ := getVar_some hk
    have hx' := hstr.drop
    rw [hp] at hx'
    rcases Nat.lt_or_ge (k + 1) e.varCount with hless | hge
    · exact getVar_none.mp hg (k + 1) hless hx'
    · obtain rfl : k = e.varCount - 1 := by omega
      exact hno (haddr ▸ hx')

end Added

/-- **Setting a variable that is there** changes no other, whatever is in the table. -/
theorem varOf_setVar_found {i : Nat} (hg : getVar e x = some i) (hx : (0 : UInt8) ∉ x)
    (hfits : x.length ≤ 15) (v : BitVec 32) :
    varOf (setVar x v e).2 x = some v ∧
      ∀ n, (0 : UInt8) ∉ n → n ≠ x → varOf (setVar x v e).2 n = varOf e n := by
  rw [setVar_found hg]
  obtain ⟨hi, hstr⟩ := getVar_some hg
  have hend : e.vars (varAddr i + x.length) = 0 :=
    (hstr x.length (Nat.le_refl _)).trans (ofList_ge (Nat.le_refl _))
  have hget : ∀ n, (0 : UInt8) ∉ n →
      getVar { e with vars := storeInt e.vars (varAddr i + 16) v } n = getVar e n := by
    intro n hn
    rw [getVar, getVar]
    refine List.find?_congr fun j _ => ?_
    rw [Bool.eq_iff_iff, strEq_iff, strEq_iff]
    rcases Nat.lt_or_ge i j with hlt | hge
    · -- behind the value
      constructor
      · exact fun h => h.frame fun k _ => (storeInt_off _ _ (by unfold varAddr; omega)).symm
      · exact fun h => h.frame fun k _ => storeInt_off _ _ (by unfold varAddr; omega)
    · -- a name that runs this far ends with `x`
      have hle : varAddr j ≤ varAddr i := Nat.mul_le_mul_left 20 hge
      refine hasStr_congr (k := varAddr i + x.length - varAddr j) hn (fun k hk => ?_) ?_
      · exact storeInt_off _ _ (by omega)
      · rw [Nat.add_sub_cancel' (hle.trans (Nat.le_add_right _ _)), hend]
  constructor
  · rw [varOf, hget x hx, hg, Option.map_some, loadInt_storeInt]
  · intro n hn hne
    rw [varOf, varOf, hget n hn]
    cases hj : getVar e n with
    | none => rw [Option.map_none, Option.map_none]
    | some j =>
      have hji : j ≠ i := by
        rintro rfl
        exact hne ((getVar_some hj).2.unique hn hx hstr)
      rw [Option.map_some, Option.map_some, loadInt_storeInt_of_ne hji]

/-- **`set_var`** with a name that fits, in any table that has it or has room for it: the value is
set, and the other variables stay exactly when the last entry does not run into the new one. -/
theorem varOf_setVar (hx : (0 : UInt8) ∉ x) (hfits : x.length ≤ 15)
    (hroom : getVar e x ≠ none ∨ e.varCount < 64) (v : BitVec 32) :
    varOf (setVar x v e).2 x = some v ∧
      ((∀ n, (0 : UInt8) ∉ n → n ≠ x → varOf (setVar x v e).2 n = varOf e n) ↔ Roomy e x) := by
  cases hg : getVar e x with
  | some i =>
    obtain ⟨hget, hothers⟩ := varOf_setVar_found hg hx hfits v
    have hsome : getVar e x ≠ none := Option.ne_none_iff_exists'.mpr ⟨i, hg⟩
    exact ⟨hget, fun _ _ => Or.inl hsome, fun _ => hothers⟩
  | none =>
    have hadd := added_setVar hg (hroom.resolve_left fun hne => hne hg) hfits v
    refine ⟨hadd.get hg hfits, fun hsame hover => Or.inr ?_, fun hroomy n hn hne => ?_⟩
    · exact hadd.hasStr_of_same hg hx hsame hover
    · refine hadd.varOf_of_ne (fun hover => ?_) hx hn hne
      exact (hroomy hover).resolve_left fun h => h hg

end NewName

/-! ## The statement -/

/-- The words of the language. -/
def reserved : List (List UInt8) :=
  [ascii "and", ascii "or", ascii "not", ascii "if", ascii "else", ascii "endif", ascii "while",
    ascii "endwhile", ascii "def", ascii "enddef", ascii "print", ascii "input", ascii "exit",
    ascii "quit"]

/-- An identifier that may be the name of a variable, and fits its field. -/
structure IsVariable (x : List UInt8) : Prop where
  alpha : ∃ b rest, x = b :: rest ∧ isAlpha b = true
  alnum : ∀ b ∈ x, isAlnum b = true
  fits : x.length ≤ 15
  not_reserved : x ∉ reserved

/-- What an assignment of `v` to `x` is to do, and nothing else outside the evaluator:
`x` is `v`, and every other name is what it was. -/
structure Assigned (x : List UInt8) (v : BitVec 32) (s s' : Cospy) : Prop where
  get : varOf s'.ev x = some v
  others : ∀ n, (0 : UInt8) ∉ n → n ≠ x → varOf s'.ev n = varOf s.ev n
  blocks : s' = { s with ev := s'.ev }

/-- `x = e` assigns the value of `e`. -/
def Assigns (n : Nat) (x e : List UInt8) (s : Cospy) : Prop :=
  ∃ s', executeStatement (n + 1) (x ++ ascii " = " ++ e) s = some (0, s') ∧
    Assigned x (value s.ev e).1 s s'

/-- The keywords that are looked for without the character behind them, so that a longer
word with these letters in front is taken for one. -/
def bareKeywords : List (List UInt8) :=
  [ascii "exit", ascii "quit", ascii "endif", ascii "endwhile"]

section Statement

variable {n : Nat} {x e : List UInt8} {s : Cospy}

namespace IsVariable

theorem isWord (h : IsVariable x) : Lexeme.IsWord x := ⟨h.alpha, h.alnum, h.fits.trans (by decide)⟩

theorem no_zero (h : IsVariable x) : (0 : UInt8) ∉ x := fun hz =>
  absurd (h.alnum 0 hz) (by decide)

theorem ne_reserved (h : IsVariable x) {w : List UInt8} (hw : w ∈ reserved) : x ≠ w :=
  fun he => h.not_reserved (he ▸ hw)

theorem wordType (h : IsVariable x) : OsU.wordType x = .ident := by
  rw [OsU.wordType, if_neg (h.ne_reserved (by decide)), if_neg (h.ne_reserved (by decide)),
    if_neg (h.ne_reserved (by decide))]

theorem notKeyword (h : IsVariable x) (hbare : ∀ kw ∈ bareKeywords, ¬kw <+: x) :
    NotKeyword x := by
  refine ⟨hbare, fun hm => h.not_reserved ?_, h.wordType⟩
  have hsub : ∀ w ∈ [ascii "else", ascii "if", ascii "while", ascii "def"], w ∈ reserved := by
    decide
  exact hsub x hm

end IsVariable

theorem SameVars.getVar {a b : Eval} (h : SameVars a b) (name : List UInt8) :
    OsU.getVar b name = OsU.getVar a name := by
  unfold OsU.getVar
  rw [h.vars, h.varCount]

theorem SameVars.varOf {a b : Eval} (h : SameVars a b) (name : List UInt8) :
    OsU.varOf b name = OsU.varOf a name := by
  unfold OsU.varOf
  rw [h.getVar, h.vars]

theorem SameVars.roomy {a b : Eval} (h : SameVars a b) : Roomy b x ↔ Roomy a x := by
  unfold Roomy Overfull
  rw [h.getVar, h.vars, h.varCount]

/-- An assignment evaluates its right side and sets the variable. -/
theorem execute_assign (hx : IsVariable x) (hbare : ∀ kw ∈ bareKeywords, ¬kw <+: x)
    (hd : s.definingFunction = false) (hf : s.inIfFalse = false) :
    ∃ r, SameVars s.ev r ∧ executeStatement (n + 1) (x ++ ascii " = " ++ e) s =
      some (0, { s with ev := (setVar x (value s.ev e).1 r).2 }) := by
  have hw := hx.isWord
  have hk := hx.notKeyword hbare
  have hg : ∀ b ∈ [(0x20 : UInt8)], isBlank b = true := forall_mem_of_all (by decide)
  have hr : (0x20 :: e).head? ≠ some 0x3D := fun h => absurd (Option.some.inj h) (by decide)
  have hline : x ++ ascii " = " ++ e = x ++ ([0x20] ++ 0x3D :: 0x20 :: e) := by
    rw [List.append_assoc]
    rfl
  have hskip := skipWhitespace_plain (.assign hw hk hg hr)
  have hcursor := (scanned_assign hw hk hg hr s.ev).2.cursor
  rw [hline, execute_name hw hk hg hr hskip hd hf]
  generalize x ++ ([0x20] ++ 0x3D :: 0x20 :: e) = line at hcursor
  -- behind the `=`, the parser sees what it sees in the text of `e`
  have hlex : SameLexer (s.ev.scan e).lex (s.ev.scan line).next.next.lex :=
    nextToken_congr_skip (by rw [hcursor]; rfl)
  have hsame : Same (s.ev.scan e) (s.ev.scan line).next.next := (Same.refl s.ev).at_ _ _
  obtain ⟨r, hr, -⟩ := parseExpr_total (s.ev.scan line).next.next
  obtain ⟨hv, -⟩ := hsame.parseExpr hlex (parseExpr_value s.ev e) hr
  have hmoves := SameVars.moves.parseExpr _ r hr
  refine ⟨r.2, ⟨hmoves.vars, hmoves.varCount⟩, ?_⟩
  rw [assign, hr, ← hv]
  rfl

/-- Behind one of the bare keywords, the rest of the line does not matter. -/
theorem execute_bare {kw : List UInt8} (hkw : kw ∈ bareKeywords) (rest : List UInt8)
    (hd : s.definingFunction = false) (hf : s.inIfFalse = false) :
    ∃ r, executeStatement (n + 1) (kw ++ rest) s = some r ∧ (r.1 = 0 → r.2.ev = s.ev) := by
  simp only [bareKeywords, List.mem_cons, List.not_mem_nil, or_false] at hkw
  obtain rfl | rfl | rfl | rfl := hkw
  · refine ⟨(-1, s), ?_, fun _ => rfl⟩
    rw [executeStatement, executeOver, hd]
    rfl
  · refine ⟨(-1, s), ?_, fun _ => rfl⟩
    rw [executeStatement, executeOver, hd]
    rfl
  · refine ⟨(0, endIf s), ?_, fun _ => ?_⟩
    · rw [executeStatement, executeOver, hd]
      rfl
    · unfold endIf
      split <;> rfl
  · refine ⟨(0, s), ?_, fun _ => rfl⟩
    rw [executeStatement, executeOver, hd, hf]
    rfl

theorem value_text (t : Expr) (ht : t.Over FitsIdent) (e : Eval) :
    (value e t.text).1 = t.value (varValue e) := by
  obtain ⟨r, hr, hv, -⟩ := parse_whole t ht e
  rw [parseExpr_value] at hr
  rw [Option.some.inj hr, hv]

/-- Every expression is assigned: the name does not begin with a bare keyword. -/
theorem not_bare_of_assigns (h : ∀ e, Assigns n x e s) (hd : s.definingFunction = false)
    (hf : s.inIfFalse = false) : ∀ kw ∈ bareKeywords, ¬kw <+: x := by
  rintro kw hkw ⟨t, rfl⟩
  -- nothing is assigned, so the variable would have every value before
  have hval : ∀ k < 2 ^ 31, varOf s.ev (kw ++ t) = some (BitVec.ofNat 32 k) := by
    intro k hk
    obtain ⟨s', hexec, hassigned⟩ := h (Expr.lit k).text
    obtain ⟨r, hr, hev⟩ := execute_bare (n := n) hkw (t ++ ascii " = " ++ (Expr.lit k).text) hd hf
    rw [← List.append_assoc, ← List.append_assoc, hexec] at hr
    obtain rfl := Option.some.inj hr
    have hget := hassigned.get
    rwa [hev rfl, value_text (.lit k) hk] at hget
  have hzero := (hval 0 (by decide)).symm.trans (hval 1 (by decide))
  exact absurd (Option.some.inj hzero) (by decide)

/-- **Assigning a variable.** Outside a block that is skipped and a definition, where `x` is there
or there is room for it: `x = e` does what it says for every `e`, exactly when `x` does not begin
with a bare keyword and the last entry of the table does not run into the new one. -/
theorem assigns_iff (hx : IsVariable x) (hd : s.definingFunction = false)
    (hf : s.inIfFalse = false) (hroom : getVar s.ev x ≠ none ∨ s.ev.varCount < 64) (n : Nat) :
    (∀ e, Assigns n x e s) ↔ (∀ kw ∈ bareKeywords, ¬kw <+: x) ∧ Roomy s.ev x := by
  -- The table after the assignment, in which the expression may have read numbers typed
  -- and nothing else has changed.
  have hset : ∀ e r, SameVars s.ev r → varOf (setVar x (value s.ev e).1 r).2 x =
      some (value s.ev e).1 ∧
        ((∀ m, (0 : UInt8) ∉ m → m ≠ x →
          varOf (setVar x (value s.ev e).1 r).2 m = varOf s.ev m) ↔ Roomy s.ev x) := by
    intro e r hr
    have hroom' : getVar r x ≠ none ∨ r.varCount < 64 := by
      rwa [hr.getVar, hr.varCount]
    obtain ⟨hget, hothers⟩ := varOf_setVar hx.no_zero hx.fits hroom' (value s.ev e).1
    rw [hr.roomy] at hothers
    simp only [hr.varOf] at hothers
    exact ⟨hget, hothers⟩
  constructor
  · intro h
    have hbare := not_bare_of_assigns h hd hf
    refine ⟨hbare, ?_⟩
    -- One expression is enough for this direction.
    obtain ⟨s', hexec, hassigned⟩ := h []
    obtain ⟨r, hr, hline⟩ := execute_assign (n := n) (e := []) hx hbare hd hf
    rw [hexec] at hline
    have hs' := congrArg Prod.snd (Option.some.inj hline)
    dsimp only at hs'
    refine (hset [] r hr).2.mp fun m hm hne => ?_
    have hothers := hassigned.others m hm hne
    rwa [hs'] at hothers
  · rintro ⟨hbare, hroomy⟩ e
    obtain ⟨r, hr, hline⟩ := execute_assign (n := n) (e := e) hx hbare hd hf
    obtain ⟨hget, hothers⟩ := hset e r hr
    exact ⟨_, hline, hget, hothers.mpr hroomy, rfl⟩

end Statement

/-- `elsewhere` begins with a keyword too, with one that is looked for with what follows it. -/
theorem assigns_iff_elsewhere :
    let s := Cospy.start fun _ => []
    IsVariable (ascii "elsewhere") ∧ ∀ e, Assigns 1 (ascii "elsewhere") e s := by
  have hx : IsVariable (ascii "elsewhere") :=
    ⟨⟨_, _, rfl, by decide⟩, forall_mem_of_all (by decide), by decide, by decide⟩
  refine ⟨hx, (assigns_iff hx rfl rfl (Or.inr (by decide)) 1).mpr ⟨by decide, ?_⟩⟩
  exact fun hover => absurd hover.1 (by decide)

/-- `exitcode = 1` leaves the interpreter. -/
theorem exitcode_not_assigned :
    ¬∀ (n : Nat) (x e : List UInt8) (s : Cospy), IsVariable x → s.definingFunction = false →
      s.inIfFalse = false → (getVar s.ev x ≠ none ∨ s.ev.varCount < 64) → Assigns n x e s := by
  intro h
  have hx : IsVariable (ascii "exitcode") :=
    ⟨⟨_, _, rfl, by decide⟩, forall_mem_of_all (by decide), by decide, by decide⟩
  obtain ⟨s', hexec, -⟩ := h 1 (ascii "exitcode") (ascii "1") (.start fun _ => []) hx rfl rfl
    (Or.inr (by decide))
  have hleave : (executeStatement 2 (ascii "exitcode" ++ ascii " = " ++ ascii "1")
      (.start fun _ => [])).map Prod.fst = some (-1) := by
    decide +kernel
  rw [hexec] at hleave
  have hzero : (0 : Int) = -1 := Option.some.inj hleave
  exact absurd hzero (by decide)

end OsU
