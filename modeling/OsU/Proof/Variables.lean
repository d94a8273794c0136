import Mathlib.Data.Finmap
import OsU.Proof.Precedence

/-!
# Variables

An entry of `variables[]` is a field of sixteen bytes for the name and four for the
value. As long as the names fit their fields, the table is a map of at most 64 names
(`NameTable`). A name of sixteen characters or more ends in the value, which is stored
over it: the name that was copied in is not the name that is looked up.

The table is memory here, as it is in the source: entries one behind the other, a name
as long as its bytes up to a zero, wherever that is. So what happens to a long name is
not a case of the model but follows from the bytes, and the proof has to show that a
name that fits is out of reach of every value (`hasStr_storeInt`).

The map is Mathlib's finite map, with a law that says what `get_var` finds (`MapLaw`).
It is compared after every call of a sequence, whatever values are set: a long name may
come back by chance with the right value, and the condition is about names only.
-/

set_option autoImplicit false

namespace OsU

/-! ## Strings and numbers in memory -/

/-- The string at `a`, with its zero byte. Nothing is said of where the field ends. -/
def HasStr (m : ByteMem) (a : Nat) (s : List UInt8) : Prop :=
  ∀ k ≤ s.length, m (a + k) = ByteMem.ofList s k

section Memory

variable {m m' : ByteMem} {a b : Nat} {s t : List UInt8}

theorem ofList_lt {k : Nat} (h : k < s.length) : ByteMem.ofList s k = s[k] := by
  simp [ByteMem.ofList, h]

theorem ofList_ge {k : Nat} (h : s.length ≤ k) : ByteMem.ofList s k = 0 := by
  simp [ByteMem.ofList, h]

/-- `strcmp` looks at the string and the zero byte behind it. -/
theorem strEq_iff : strEq m a s = true ↔ HasStr m a s := by
  have hget : ∀ k ≤ s.length, ∃ h : k < (s ++ [0]).length, (s ++ [0])[k] = ByteMem.ofList s k := by
    intro k hk
    refine ⟨by simpa using Nat.lt_succ_of_le hk, ?_⟩
    rw [List.getElem_append]
    split
    · rename_i hlt
      rw [ofList_lt hlt]
    · rename_i hge
      rw [ofList_ge (Nat.not_lt.mp hge)]
      simp
  rw [strEq, List.all_eq_true]
  constructor
  · intro h k hk
    obtain ⟨hlt, he⟩ := hget k hk
    have hmem : ((s ++ [0])[k], k) ∈ (s ++ [0]).zipIdx :=
      List.mem_zipIdx_iff_getElem?.mpr (List.getElem?_eq_getElem hlt)
    have hbyte := h _ hmem
    rw [decide_eq_true_eq] at hbyte
    exact hbyte.trans he
  · rintro h ⟨c, k⟩ hmem
    obtain ⟨hlt, hc⟩ := List.getElem?_eq_some_iff.mp (List.mem_zipIdx_iff_getElem?.mp hmem)
    have hk : k ≤ s.length := by
      dsimp only at hlt
      simpa using Nat.le_of_lt_succ (by simpa using hlt)
    obtain ⟨_, he⟩ := hget k hk
    dsimp only at hc ⊢
    rw [decide_eq_true_eq, h k hk, ← he, hc]

/-- There is one string at an address. -/
theorem HasStr.unique (hs : (0 : UInt8) ∉ s) (ht : (0 : UInt8) ∉ t) (h : HasStr m a s)
    (h' : HasStr m a t) : s = t := by
  have hle : ∀ {s t : List UInt8}, (0 : UInt8) ∉ t → HasStr m a s → HasStr m a t →
      t.length ≤ s.length := by
    intro s t ht h h'
    by_contra hlt
    rw [Nat.not_le] at hlt
    -- the zero byte of `s` is a character of `t`
    have hzero := (h' s.length hlt.le).symm.trans (h s.length (Nat.le_refl _))
    rw [ofList_lt hlt, ofList_ge (Nat.le_refl _)] at hzero
    exact ht (hzero ▸ List.getElem_mem hlt)
  refine List.ext_getElem (Nat.le_antisymm (hle hs h' h) (hle ht h h')) fun k hk hk' => ?_
  have he := (h k hk.le).symm.trans (h' k hk'.le)
  rwa [ofList_lt hk, ofList_lt hk'] at he

theorem HasStr.frame (h : HasStr m a s) (hkeep : ∀ k ≤ s.length, m' (a + k) = m (a + k)) :
    HasStr m' a s := fun k hk => (hkeep k hk).trans (h k hk)

theorem storeStr_apply (m : ByteMem) (a : Nat) (s : List UInt8) (i : Nat) :
    storeStr m a s i = if a ≤ i ∧ i ≤ a + s.length then ByteMem.ofList s (i - a) else m i := by
  have hlist : ∀ k, ByteMem.ofList (s ++ [0]) k = ByteMem.ofList s k := by
    intro k
    rcases Nat.lt_trichotomy k s.length with hlt | rfl | hgt
    · simp [ByteMem.ofList, List.getD, List.getElem?_append_left hlt]
    · simp [ByteMem.ofList]
    · rw [ofList_ge hgt.le, ofList_ge (by simpa using hgt)]
  rw [storeStr, ByteMem.copy_apply, hlist]
  exact if_congr (and_congr_right fun _ => by omega) rfl rfl

theorem hasStr_storeStr (m : ByteMem) (a : Nat) (s : List UInt8) : HasStr (storeStr m a s) a s := by
  intro k hk
  rw [storeStr_apply, if_pos ⟨Nat.le_add_right a k, Nat.add_le_add_left hk a⟩,
    Nat.add_sub_cancel_left]

theorem storeInt_off {i : Nat} (m : ByteMem) (v : BitVec 32) (h : i < a ∨ a + 4 ≤ i) :
    storeInt m a v i = m i := by
  rw [storeInt, ByteMem.copy_apply, if_neg (by omega)]

theorem loadInt_congr (h : ∀ k < 4, m' (a + k) = m (a + k)) : loadInt m' a = loadInt m a := by
  have h0 : m' a = m a := h 0 (by decide)
  rw [loadInt, loadInt, h0, h 1 (by decide), h 2 (by decide), h 3 (by decide)]

theorem storeInt_low (m : ByteMem) (a : Nat) (v : BitVec 32) :
    storeInt m a v a = ⟨v.extractLsb' 0 8⟩ := by
  rw [storeInt, ByteMem.copy_apply, if_pos ⟨Nat.le_refl a, by omega⟩, Nat.sub_self]
  rfl

@[simp] theorem loadInt_storeInt (m : ByteMem) (a : Nat) (v : BitVec 32) :
    loadInt (storeInt m a v) a = v := by
  have hbyte : ∀ k < 4, (storeInt m a v (a + k)).toBitVec = v.extractLsb' (8 * k) 8 := by
    intro k hk
    rw [storeInt, ByteMem.copy_apply, if_pos ⟨Nat.le_add_right a k, by omega⟩,
      Nat.add_sub_cancel_left]
    interval_cases k <;> rfl
  have h0 := hbyte 0 (by decide)
  rw [Nat.add_zero] at h0
  rw [loadInt, h0, hbyte 1 (by decide), hbyte 2 (by decide), hbyte 3 (by decide)]
  ext i hi
  simp only [BitVec.getElem_append]
  grind

end Memory

/-! ## The table -/

/-- `*get_var(name)`, `none` for the null pointer. -/
def varOf (e : Eval) (name : List UInt8) : Option (BitVec 32) :=
  (getVar e name).map fun i => loadInt e.vars (varAddr i + 16)

/-- The table holds these names, in this order, each in its field. There are no two
entries of one name, since `set_var` looks for it first. -/
structure NameTable (e : Eval) (names : List (List UInt8)) : Prop where
  count : e.varCount = names.length
  fits : ∀ s ∈ names, s.length ≤ 15 ∧ (0 : UInt8) ∉ s
  nodup : names.Nodup
  name : ∀ i (h : i < names.length), HasStr e.vars (varAddr i) names[i]

section Table

variable {e : Eval} {names : List (List UInt8)} {name : List UInt8}

theorem getVar_some {i : Nat} (h : getVar e name = some i) :
    i < e.varCount ∧ HasStr e.vars (varAddr i) name := by
  rw [getVar, List.find?_eq_some_iff_append] at h
  obtain ⟨hs, as, bs, hrange, -⟩ := h
  refine ⟨List.mem_range.mp ?_, strEq_iff.mp hs⟩
  rw [hrange]
  exact List.mem_append_right as List.mem_cons_self

theorem getVar_none :
    getVar e name = none ↔ ∀ i < e.varCount, ¬HasStr e.vars (varAddr i) name := by
  rw [getVar, List.find?_eq_none]
  simp only [List.mem_range, strEq_iff]

theorem NameTable.getVar_some_iff (h : NameTable e names) (hz : (0 : UInt8) ∉ name) {i : Nat} :
    getVar e name = some i ↔ ∃ hi : i < names.length, names[i] = name := by
  constructor
  · intro hg
    obtain ⟨hi, hs⟩ := getVar_some hg
    rw [h.count] at hi
    exact ⟨hi, (h.name i hi).unique (h.fits _ (List.getElem_mem hi)).2 hz hs⟩
  · rintro ⟨hi, rfl⟩
    cases hg : getVar e names[i] with
    | none => exact absurd (h.name i hi) (getVar_none.mp hg i (h.count ▸ hi))
    | some j =>
      obtain ⟨hj, hs⟩ := getVar_some hg
      rw [h.count] at hj
      have heq := (h.name j hj).unique (h.fits _ (List.getElem_mem hj)).2 hz hs
      rw [(h.nodup.getElem_inj_iff).mp heq]

theorem NameTable.getVar_none_iff (h : NameTable e names) (hz : (0 : UInt8) ∉ name) :
    getVar e name = none ↔ name ∉ names := by
  rw [Option.eq_none_iff_forall_not_mem, List.mem_iff_getElem]
  simp only [Option.mem_def, h.getVar_some_iff hz]
  push Not
  rfl

/-- What `set_var` does with a name that is there: the four bytes of its value. -/
theorem setVar_found {i : Nat} (hg : getVar e name = some i) (v : BitVec 32) :
    setVar name v e = (some i, { e with vars := storeInt e.vars (varAddr i + 16) v }) := by
  rw [setVar, hg]

/-- What it does with a name that is not. -/
theorem setVar_new (hg : getVar e name = none) (hroom : e.varCount < 64) (v : BitVec 32) :
    setVar name v e = (some e.varCount, { e with
      vars := storeInt (storeStr e.vars (varAddr e.varCount) name) (varAddr e.varCount + 16) v
      varCount := e.varCount + 1 }) := by
  rw [setVar, hg]
  exact if_neg (Nat.not_le.mpr hroom)

theorem setVar_full (hg : getVar e name = none) (hfull : 64 ≤ e.varCount) (v : BitVec 32) :
    setVar name v e = (none, e) := by
  rw [setVar, hg]
  exact if_pos hfull

/-- A value is not in the way of a name that fits its field. -/
theorem hasStr_storeInt {m : ByteMem} {i j : Nat} {s : List UInt8} (hs : s.length ≤ 15)
    (h : HasStr m (varAddr i) s) (v : BitVec 32) :
    HasStr (storeInt m (varAddr j + 16) v) (varAddr i) s := by
  refine h.frame fun k hk => storeInt_off m v ?_
  unfold varAddr
  omega

theorem loadInt_storeInt_of_ne {m : ByteMem} {i j : Nat} (h : i ≠ j) (v : BitVec 32) :
    loadInt (storeInt m (varAddr j + 16) v) (varAddr i + 16) = loadInt m (varAddr i + 16) := by
  refine loadInt_congr fun k hk => storeInt_off m v ?_
  unfold varAddr
  omega

/-- **Setting a variable that is there.** -/
theorem NameTable.update (h : NameTable e names) {i : Nat} (hg : getVar e name = some i)
    (v : BitVec 32) : NameTable (setVar name v e).2 names ∧
      ∀ n, (0 : UInt8) ∉ n → (0 : UInt8) ∉ name →
        varOf (setVar name v e).2 n = if n = name then some v else varOf e n := by
  rw [setVar_found hg]
  have hholds : NameTable { e with vars := storeInt e.vars (varAddr i + 16) v } names :=
    ⟨h.count, h.fits, h.nodup, fun j hj =>
      hasStr_storeInt (h.fits _ (List.getElem_mem hj)).1 (h.name j hj) v⟩
  refine ⟨hholds, fun n hn hz => ?_⟩
  -- the names are where they were
  have hsame : getVar { e with vars := storeInt e.vars (varAddr i + 16) v } n = getVar e n := by
    refine Option.ext fun j => ?_
    rw [hholds.getVar_some_iff hn, h.getVar_some_iff hn]
  rw [varOf, varOf, hsame]
  by_cases hname : n = name
  · rw [if_pos hname, hname, hg, Option.map_some, loadInt_storeInt]
  · rw [if_neg hname]
    cases hj : getVar e n with
    | none => rw [Option.map_none, Option.map_none]
    | some j =>
      have hne : j ≠ i := by
        rintro rfl
        obtain ⟨_, hnj⟩ := (h.getVar_some_iff hn).mp hj
        obtain ⟨_, hni⟩ := (h.getVar_some_iff hz).mp hg
        exact hname (hnj.symm.trans hni)
      rw [Option.map_some, Option.map_some, loadInt_storeInt_of_ne hne]

/-- **A new variable** whose name fits. -/
theorem NameTable.insert (h : NameTable e names) (hg : getVar e name = none)
    (hroom : e.varCount < 64) (hfits : name.length ≤ 15) (hz : (0 : UInt8) ∉ name) (v : BitVec 32) :
    NameTable (setVar name v e).2 (names ++ [name]) ∧
      ∀ n, (0 : UInt8) ∉ n →
        varOf (setVar name v e).2 n = if n = name then some v else varOf e n := by
  have hnew : name ∉ names := (h.getVar_none_iff hz).mp hg
  rw [setVar_new hg hroom]
  -- The new name is stored behind the others, so the bytes of their records are the
  -- same.
  have hkeep : ∀ i < names.length, ∀ k < 20,
      storeStr e.vars (varAddr e.varCount) name (varAddr i + k) = e.vars (varAddr i + k) := by
    intro i hi k hk
    rw [storeStr_apply, h.count, if_neg]
    unfold varAddr
    omega
  have hholds : NameTable { e with
      vars := storeInt (storeStr e.vars (varAddr e.varCount) name) (varAddr e.varCount + 16) v
      varCount := e.varCount + 1 } (names ++ [name]) := by
    refine ⟨by simp [h.count], ?_, ?_, fun i hi => ?_⟩
    · intro s hs
      obtain hs | hs := List.mem_append.mp hs
      · exact h.fits s hs
      · rw [List.mem_singleton.mp hs]
        exact ⟨hfits, hz⟩
    · exact List.nodup_append.mpr ⟨h.nodup, List.nodup_singleton _, by
        intro a ha b hb
        rw [List.mem_singleton.mp hb]
        exact fun he => hnew (he ▸ ha)⟩
    · rw [List.getElem_append]
      split
      · rename_i hlt
        have hs := (h.fits _ (List.getElem_mem hlt)).1
        exact hasStr_storeInt hs ((h.name i hlt).frame fun k hk => hkeep i hlt k (by omega)) v
      · rename_i hge
        obtain rfl : i = e.varCount := by
          rw [List.length_append, List.length_singleton] at hi
          rw [h.count]
          omega
        have hone : ∀ k (hk : k < [name].length), [name][k] = name := by simp
        rw [hone]
        exact hasStr_storeInt hfits (hasStr_storeStr _ _ _) v
  refine ⟨hholds, fun n hn => ?_⟩
  -- The lookup by name, on both sides of the new record.
  by_cases hname : n = name
  · have hfound := (hholds.getVar_some_iff hn (i := e.varCount)).mpr
      ⟨by simp [h.count], by simp [h.count, hname]⟩
    rw [if_pos hname, varOf, hfound, Option.map_some, loadInt_storeInt]
  · rw [if_neg hname, varOf, varOf]
    have hsame : getVar { e with
        vars := storeInt (storeStr e.vars (varAddr e.varCount) name) (varAddr e.varCount + 16) v
        varCount := e.varCount + 1 } n = getVar e n := by
      refine Option.ext fun j => ?_
      rw [hholds.getVar_some_iff hn, h.getVar_some_iff hn]
      constructor
      · rintro ⟨hj, hjn⟩
        rw [List.getElem_append] at hjn
        split at hjn
        · exact ⟨_, hjn⟩
        · simp only [List.getElem_singleton] at hjn
          exact absurd hjn.symm hname
      · rintro ⟨hj, hjn⟩
        exact ⟨by simp; omega, by rwa [List.getElem_append_left hj]⟩
    rw [hsame]
    cases hj : getVar e n with
    | none => rw [Option.map_none, Option.map_none]
    | some j =>
      have hlt : j < names.length := h.count ▸ (getVar_some hj).1
      have hne : j ≠ e.varCount := by
        rw [h.count]
        exact hlt.ne
      rw [Option.map_some, Option.map_some, loadInt_storeInt_of_ne hne]
      refine congrArg some (loadInt_congr fun k hk => ?_)
      rw [Nat.add_assoc]
      exact hkeep j hlt (16 + k) (by omega)

end Table

/-! ## The map

The table of `set_var` is read as a map, in the order of its entries. One call is
compared first, then a run of them. The converse needs a single name that does not fit:
the value it was given lies where its terminator should be, and the name is not found
again. -/

/-- What the variables are: a map from names to values. -/
abbrev Dict : Type := Finmap fun _ : List UInt8 => BitVec 32

namespace Dict

/-- `set_var` on the map, which takes 64 names. -/
def set (op : List UInt8 × BitVec 32) (d : Dict) : Dict :=
  if op.1 ∈ d ∨ d.keys.card < 64 then d.insert op.1 op.2 else d

def setAll (ops : List (List UInt8 × BitVec 32)) : Dict := ops.foldl (fun d op => d.set op) ∅

theorem setAll_concat (ops : List (List UInt8 × BitVec 32)) (op : List UInt8 × BitVec 32) :
    setAll (ops ++ [op]) = (setAll ops).set op := by
  rw [setAll, List.foldl_concat]
  rfl

theorem keys_insert (d : Dict) (n : List UInt8) (v : BitVec 32) :
    (d.insert n v).keys = insert n d.keys := by
  ext a
  rw [Finmap.mem_keys, Finmap.mem_insert, Finset.mem_insert, Finmap.mem_keys]

/-- The names are those that have been set, or the first 64 of them. -/
theorem keys_setAll (ops : List (List UInt8 × BitVec 32)) :
    (setAll ops).keys ⊆ (ops.map Prod.fst).toFinset ∧
      ((setAll ops).keys.card < 64 → (setAll ops).keys = (ops.map Prod.fst).toFinset) := by
  induction ops using List.reverseRecOn with
  | nil => exact ⟨Finset.Subset.refl _, fun _ => rfl⟩
  | append_singleton ops op ih =>
    have hnames : ((ops ++ [op]).map Prod.fst).toFinset =
        insert op.1 (ops.map Prod.fst).toFinset := by
      ext a
      simp
    rw [setAll_concat, hnames, set]
    split
    · rw [keys_insert]
      refine ⟨Finset.insert_subset_insert _ ih.1, fun hcard => ?_⟩
      have hle := Finset.card_le_card (Finset.subset_insert op.1 (setAll ops).keys)
      rw [ih.2 (hle.trans_lt hcard)]
    · rename_i hfull
      refine ⟨ih.1.trans (Finset.subset_insert _ _), fun hcard => ?_⟩
      exact absurd (Or.inr hcard) hfull

end Dict

/-- A sequence of calls of `set_var`. -/
def setAll (ops : List (List UInt8 × BitVec 32)) (e : Eval) : Eval :=
  ops.foldl (fun e op => (setVar op.1 op.2 e).2) e

theorem setAll_concat (ops : List (List UInt8 × BitVec 32)) (op : List UInt8 × BitVec 32)
    (e : Eval) : setAll (ops ++ [op]) e = (setVar op.1 op.2 (setAll ops e)).2 := by
  rw [setAll, List.foldl_concat]
  rfl

/-- The variables are the map: what is looked up is what is there, and a new name is refused,
without a trace, when there are 64. -/
structure MapLaw (e : Eval) (d : Dict) : Prop where
  get : ∀ n, FitsIdent n → varOf e n = d.lookup n
  full : ∀ n v, FitsIdent n → n ∉ d → 64 ≤ d.keys.card → setVar n v e = (none, e)

/-- After every call of the sequence. -/
def ObeysMap (e : Eval) (ops : List (List UInt8 × BitVec 32)) : Prop :=
  ∀ pre, pre <+: ops → MapLaw (setAll pre e) (Dict.setAll pre)

/-- Every name that comes while there is room for it fits its field. Once 64 names are
in the table a new one is refused, however long it is. -/
def NamesFit (names : List (List UInt8)) : Prop :=
  ∀ pre n post, names = pre ++ n :: post → pre.toFinset.card < 64 → n.length ≤ 15

/-- The table, the map, and the names in the order of the table. -/
structure TableOf (e : Eval) (d : Dict) (names : List (List UInt8)) : Prop where
  holds : NameTable e names
  keys : d.keys = names.toFinset
  get : ∀ n, (0 : UInt8) ∉ n → varOf e n = d.lookup n

section Map

variable {e : Eval} {d : Dict} {names : List (List UInt8)} {n : List UInt8}

theorem FitsIdent.no_zero (h : FitsIdent n) : (0 : UInt8) ∉ n := fun hz =>
  absurd (h.1.alnum 0 hz) (by decide)

theorem TableOf.card (h : TableOf e d names) : d.keys.card = e.varCount := by
  rw [h.keys, List.toFinset_card_of_nodup h.holds.nodup, h.holds.count]

theorem TableOf.mem_iff (h : TableOf e d names) : n ∈ d ↔ n ∈ names := by
  rw [← Finmap.mem_keys, h.keys, List.mem_toFinset]

theorem TableOf.law (h : TableOf e d names) : MapLaw e d where
  get := fun n hn => h.get n hn.no_zero
  full := fun n v hn hnew hfull => by
    have hg := (h.holds.getVar_none_iff hn.no_zero).mpr fun hm => hnew (h.mem_iff.mpr hm)
    exact setVar_full hg (h.card ▸ hfull) v

theorem lookup_set {v : BitVec 32} {m : List UInt8} :
    (d.insert n v).lookup m = if m = n then some v else d.lookup m := by
  split
  · rename_i hm
    rw [hm, Finmap.lookup_insert]
  · rename_i hm
    exact Finmap.lookup_insert_of_ne d hm

/-- **One call**, with a name that fits if there is room for it. -/
theorem TableOf.set (h : TableOf e d names) (hz : (0 : UInt8) ∉ n)
    (hfits : d.keys.card < 64 → n.length ≤ 15) (v : BitVec 32) :
    ∃ names', TableOf (setVar n v e).2 (d.set (n, v)) names' := by
  have hcard := h.card
  cases hg : getVar e n with
  | some i =>
    obtain ⟨hi, hin⟩ := (h.holds.getVar_some_iff hz).mp hg
    have hmem : n ∈ d := h.mem_iff.mpr (hin ▸ List.getElem_mem hi)
    obtain ⟨hholds, hget⟩ := h.holds.update hg v
    have hd : d.set (n, v) = d.insert n v := if_pos (Or.inl hmem)
    refine ⟨names, hholds, ?_, fun m hm => ?_⟩
    · rw [hd, Dict.keys_insert, Finset.insert_eq_self.mpr (Finmap.mem_keys.mpr hmem), h.keys]
    · rw [hd, hget m hm hz, lookup_set, h.get m hm]
  | none =>
    have hnew : n ∉ d := fun hm => (h.holds.getVar_none_iff hz).mp hg (h.mem_iff.mp hm)
    rcases Nat.lt_or_ge e.varCount 64 with hroom | hfull
    · obtain ⟨hholds, hget⟩ := h.holds.insert hg hroom (hfits (hcard ▸ hroom)) hz v
      have hd : d.set (n, v) = d.insert n v := if_pos (Or.inr (hcard ▸ hroom))
      refine ⟨names ++ [n], hholds, ?_, fun m hm => ?_⟩
      · rw [hd, Dict.keys_insert, h.keys]
        ext a
        simp
      · rw [hd, hget m hm, lookup_set, h.get m hm]
    · have hd : d.set (n, v) = d := if_neg fun ho => ho.elim hnew (by omega)
      rw [setVar_full hg hfull, hd]
      exact ⟨names, h⟩

theorem NamesFit.of_prefix {pre ns : List (List UInt8)} (h : NamesFit ns) (hp : pre <+: ns) :
    NamesFit pre := by
  obtain ⟨rest, rfl⟩ := hp
  intro a n b he hcard
  exact h a n (b ++ rest) (by rw [he]; simp) hcard

theorem namesFit_concat {pre : List (List UInt8)} (hpre : NamesFit pre)
    (hn : pre.toFinset.card < 64 → n.length ≤ 15) : NamesFit (pre ++ [n]) := by
  intro a m b he hcard
  rcases List.eq_nil_or_concat b with rfl | ⟨b', c, rfl⟩
  · obtain ⟨rfl, hmn⟩ := List.append_inj' he rfl
    obtain rfl : n = m := by simpa using hmn
    exact hn hcard
  · rw [List.concat_eq_append, ← List.cons_append, ← List.append_assoc] at he
    exact hpre a m b' (List.append_inj' he rfl).1 hcard

/-- **A run** of calls whose names fit. -/
theorem tracks_setAll {e₀ : Eval} (h0 : e₀.varCount = 0) {ops : List (List UInt8 × BitVec 32)}
    (hid : ∀ op ∈ ops, FitsIdent op.1) (hfit : NamesFit (ops.map Prod.fst)) :
    ∃ names, TableOf (setAll ops e₀) (Dict.setAll ops) names := by
  induction ops using List.reverseRecOn with
  | nil =>
    refine ⟨[], ⟨h0, fun _ hs => absurd hs List.not_mem_nil, List.nodup_nil,
      fun i hi => absurd hi (Nat.not_lt_zero i)⟩, rfl, fun n _ => ?_⟩
    have hnone : getVar e₀ n = none := by
      rw [getVar, h0]
      rfl
    change varOf e₀ n = Finmap.lookup n (∅ : Dict)
    rw [varOf, hnone, Finmap.lookup_empty, Option.map_none]
  | append_singleton ops op ih =>
    rw [List.map_append, List.map_singleton] at hfit
    obtain ⟨names, ht⟩ := ih (fun o ho => hid o (List.mem_append_left _ ho))
      (hfit.of_prefix (List.prefix_append _ _))
    rw [setAll_concat, Dict.setAll_concat]
    refine ht.set (hid op (by simp)).no_zero (fun hcard => ?_) op.2
    rw [(Dict.keys_setAll ops).2 hcard] at hcard
    exact hfit _ op.1 [] rfl hcard

/-- A long name is not found under the value that was given to it. -/
theorem varOf_long (h : NameTable e names) (hg : getVar e n = none) (hroom : e.varCount < 64)
    (hz : (0 : UInt8) ∉ n) (hlong : 15 < n.length) (halnum : ∀ b ∈ n, isAlnum b = true) :
    varOf (setVar n 1 e).2 n = none := by
  have hnone : getVar (setVar n 1 e).2 n = none := by
    rw [setVar_new hg hroom]
    refine getVar_none.mpr fun i hi hs => ?_
    dsimp only at hi hs
    rcases Nat.lt_or_ge i e.varCount with hlt | hge
    · -- an older entry still has its own name
      have hi' : i < names.length := h.count ▸ hlt
      have hfits := h.fits _ (List.getElem_mem hi')
      have hold : HasStr (storeStr e.vars (varAddr e.varCount) n) (varAddr i) names[i] := by
        refine (h.name i hi').frame fun k hk => ?_
        rw [storeStr_apply, if_neg]
        unfold varAddr
        omega
      have heq := (hasStr_storeInt hfits.1 hold 1).unique hfits.2 hz hs
      rw [heq] at hfits
      exact absurd hfits.1 (Nat.not_le.mpr hlong)
    · -- the new one has the value where the name goes on
      obtain rfl : i = e.varCount := by omega
      have hbyte := hs 16 hlong
      rw [storeInt_low] at hbyte
      rcases Nat.lt_or_ge 16 n.length with hlt | hge
      · rw [ofList_lt hlt] at hbyte
        have halpha := halnum _ (List.getElem_mem hlt)
        rw [← hbyte] at halpha
        exact absurd halpha (by decide)
      · rw [ofList_ge hge] at hbyte
        exact absurd hbyte (by decide)
  rw [varOf, hnone, Option.map_none]

/-- A name that does not fit, behind names that do: the value 1 is lost. -/
theorem fits_of_obeys {e₀ : Eval} (h0 : e₀.varCount = 0) {pre post : List (List UInt8)}
    (hid : ∀ m ∈ pre, FitsIdent m) (hn : FitsIdent n) (hfit : NamesFit pre)
    (hobey : ∀ ops : List (List UInt8 × BitVec 32), ops.map Prod.fst = pre ++ n :: post →
      ObeysMap e₀ ops) (hcard : pre.toFinset.card < 64) : n.length ≤ 15 := by
  by_contra hlong
  rw [Nat.not_le] at hlong
  have hfst : ∀ l : List (List UInt8), (l.map fun m => (m, (0 : BitVec 32))).map Prod.fst = l := by
    intro l
    rw [List.map_map]
    exact List.map_id l
  -- The names of the program, the long one set to 1 and all others to 0; and the law
  -- right behind that assignment.
  have hlaw := hobey ((pre.map fun m => (m, 0)) ++ (n, 1) :: post.map fun m => (m, 0))
    (by rw [List.map_append, List.map_cons, hfst, hfst])
    ((pre.map fun m => (m, 0)) ++ [(n, 1)]) ⟨post.map fun m => (m, 0), by simp⟩
  have hget := hlaw.get n hn
  have hidpre : ∀ op ∈ pre.map fun m => (m, (0 : BitVec 32)), FitsIdent op.1 := by
    intro op hop
    obtain ⟨m, hm, rfl⟩ := List.mem_map.mp hop
    exact hid m hm
  obtain ⟨names, ht⟩ := tracks_setAll h0 hidpre (by rwa [hfst])
  have hroom : (Dict.setAll (pre.map fun m => (m, 0))).keys.card < 64 := by
    refine (Finset.card_le_card (Dict.keys_setAll _).1).trans_lt ?_
    rwa [hfst]
  -- It is new, since it is too long to be in a table that holds the names before it.
  have hnew : n ∉ names := fun hm =>
    absurd (ht.holds.fits n hm).1 (Nat.not_le.mpr hlong)
  have hg := (ht.holds.getVar_none_iff hn.no_zero).mpr hnew
  have hset : (Dict.setAll (pre.map fun m => (m, 0))).set (n, 1) =
      (Dict.setAll (pre.map fun m => (m, 0))).insert n 1 := if_pos (Or.inr hroom)
  rw [setAll_concat, Dict.setAll_concat, hset, Finmap.lookup_insert,
    varOf_long ht.holds hg (ht.card ▸ hroom) hn.no_zero hlong hn.1.alnum] at hget
  exact nomatch hget

/-- **Variables form a map** exactly when the names fit their fields: whatever values
the names are given, and whatever is in memory when the table is empty. The table starts
empty, and the sequence may have any length. -/
theorem setVar_map_iff {e₀ : Eval} (h0 : e₀.varCount = 0) {ns : List (List UInt8)}
    (hid : ∀ n ∈ ns, FitsIdent n) :
    (∀ ops : List (List UInt8 × BitVec 32), ops.map Prod.fst = ns → ObeysMap e₀ ops) ↔
      NamesFit ns := by
  constructor
  · intro hobey
    -- by induction on the calls: a call behind names that fit
    have hall : ∀ pre, pre <+: ns → NamesFit pre := by
      intro pre
      induction pre using List.reverseRecOn with
      | nil =>
        intro _ a n b he
        exact absurd he.symm (List.append_ne_nil_of_right_ne_nil a (List.cons_ne_nil n b))
      | append_singleton pre n ih =>
        rintro ⟨post, hns⟩
        rw [List.append_assoc, List.singleton_append] at hns
        have hpre := ih ⟨n :: post, hns⟩
        refine namesFit_concat hpre (fits_of_obeys h0 ?_ ?_ hpre fun ops ho =>
          hobey ops (ho.trans hns))
        · exact fun m hm => hid m (hns ▸ List.mem_append_left _ hm)
        · exact hid n (hns ▸ List.mem_append_right _ List.mem_cons_self)
    exact hall ns (List.prefix_refl ns)
  · rintro hfit ops rfl pre hpre
    obtain ⟨names, ht⟩ := tracks_setAll h0
      (fun op ho => hid _ (List.mem_map_of_mem (hpre.subset ho)))
      (hfit.of_prefix (hpre.map Prod.fst))
    exact ht.law

end Map

/-- A name of fifteen letters, set twice. -/
theorem setVar_map_iff_fifteen :
    varOf (setAll [(List.replicate 15 0x61, 1), (List.replicate 15 0x61, 2)]
      (.start fun _ => [])) (List.replicate 15 0x61) = some 2 := by
  have hname : FitsIdent (List.replicate 15 0x61) :=
    ⟨⟨⟨_, _, rfl, by decide⟩, CString.forall_mem_of_all (by decide), by decide⟩, by decide⟩
  have hfit : NamesFit [List.replicate 15 0x61, List.replicate 15 0x61] := by
    intro pre n post he _
    have hn : n ∈ [List.replicate 15 (0x61 : UInt8), List.replicate 15 0x61] := by
      rw [he]
      exact List.mem_append_right _ List.mem_cons_self
    have hrep : n = List.replicate 15 0x61 := by simpa using hn
    rw [hrep, List.length_replicate]
  have hempty : (Eval.start fun _ => []).varCount = 0 := rfl
  have hlaw := (setVar_map_iff hempty fun n hn => by
    have hrep : n = List.replicate 15 0x61 := by simpa using hn
    rwa [hrep]).mpr hfit
    [(List.replicate 15 0x61, 1), (List.replicate 15 0x61, 2)] rfl _ (List.prefix_refl _)
  rw [hlaw.get _ hname]
  exact Finmap.lookup_insert _

/-- A name of sixteen letters is not found again: the value stands where its zero byte was. -/
theorem setVar_loses_name :
    ¬ ∀ ops : List (List UInt8 × BitVec 32), ops.map Prod.fst = [List.replicate 16 0x61] →
      ObeysMap (.start fun _ => []) ops := by
  intro h
  have hname : FitsIdent (List.replicate 16 0x61) :=
    ⟨⟨⟨_, _, rfl, by decide⟩, CString.forall_mem_of_all (by decide), by decide⟩, by decide⟩
  have hget := (h [(List.replicate 16 0x61, 1)] rfl _ (List.prefix_refl _)).get _ hname
  have hlost : varOf (setAll [(List.replicate 16 0x61, 1)] (.start fun _ => []))
      (List.replicate 16 0x61) = none := by
    decide +kernel
  rw [hlost] at hget
  exact nomatch hget.trans (Finmap.lookup_insert ∅)

end OsU
