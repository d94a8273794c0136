import Mathlib.Tactic

/-!
# `fs.c` — 8.3 names

A C string is the list of its bytes, ending at the end of the list or at a zero byte,
whichever comes first. The on-disk form of a name is eleven bytes: eight of base and
three of extension, padded with blanks.

`fatNameFromInput_eq_some` says what the encoder accepts and what it produces, in terms
of a base and an extension (`Parts`), and `fatNameFromInput_printable` is the round trip
through `fat_name_to_printable`. Everything the directory code needs to know about names
follows from those two.

## How the encoder is read

`fat_name_from_input` copies while it checks, and gives up in the middle of a copy. The
copying loop is first turned into a test and a copy (`namePart_eq`): the characters up
to the stop, in capitals, are all valid and not too many, and then they have been stored
one behind the other. From there on a name is the two lists `baseOf` and `extOf`.

Two spellings name the same file when they have the same base and extension: small
letters are made capital, and a dot with nothing behind it is no extension. A second dot
is not a valid character.
-/

set_option autoImplicit false

namespace OsU

/-- `to_upper_char` -/
def toUpperChar (c : UInt8) : UInt8 := if 0x61 ≤ c ∧ c ≤ 0x7A then c - 32 else c

/-- `is_valid_file_char` -/
def isValidFileChar (c : UInt8) : Bool :=
  (0x41 ≤ c && c ≤ 0x5A) || (0x30 ≤ c && c ≤ 0x39) || (c = 0x5F || c = 0x2D || c = 0x24)

/-- One of the two copying loops of `fat_name_from_input`: at most `limit` characters go to
`out + off`, up to the terminator or a character `stop` accepts. Returns how many, the rest of
the input, and `out`. -/
def namePart (stop : UInt8 → Bool) (limit off : Nat) :
    List UInt8 → Nat → List UInt8 → Option (Nat × List UInt8 × List UInt8)
  | [], n, out => some (n, [], out)
  | b :: rest, n, out =>
    if b = 0 ∨ stop b then some (n, b :: rest, out)
    else if ¬ isValidFileChar (toUpperChar b) ∨ limit ≤ n then none
    else namePart stop limit off rest (n + 1) (out.set (off + n) (toUpperChar b))

/-- `fat_name_from_input`; `none` for the error return. Of the base at least one
character is needed, of the extension none: `A.` is the name `A`. A second dot is a
character that is not allowed. -/
def fatNameFromInput (inp : List UInt8) : Option (List UInt8) :=
  match namePart (· = 0x2E) 8 0 inp 0 (List.replicate 11 0x20) with
  | none => none
  | some (baseLen, rest, out) =>
    if baseLen = 0 then none
    else if rest.headD 0 = 0x2E then
      (namePart (fun _ => false) 3 8 rest.tail 0 out).map fun r => r.2.2
    else some out

/-- `valid_name`: whether the encoder accepts the name. -/
def validName (name : List UInt8) : Bool := (fatNameFromInput name).isSome

/-- `fat_name_to_printable`, on the eleven name bytes of an entry. Either half ends at
its first blank, and the dot is only there if the extension is. -/
def fatNameToPrintable (name11 : List UInt8) : List UInt8 :=
  let base := (name11.take 8).takeWhile (· ≠ 0x20)
  let ext := (name11.drop 8).takeWhile (· ≠ 0x20)
  (base ++ if ext = [] then [] else 0x2E :: ext).take 23

/-! ## Characters -/

theorem toUpperChar_of_valid {c : UInt8} (h : isValidFileChar c = true) : toUpperChar c = c := by
  rw [toUpperChar, if_neg]
  simp only [isValidFileChar, Bool.or_eq_true, Bool.and_eq_true, decide_eq_true_eq,
    UInt8.le_iff_toNat_le, ← UInt8.toNat_inj] at h ⊢
  simp at h ⊢
  omega

theorem valid_ne {c : UInt8} (h : isValidFileChar c = true) :
    c ≠ 0 ∧ c ≠ 0x20 ∧ c ≠ 0x2E ∧ c ≠ 0x2F ∧ c ≠ 0xE5 := by
  refine ⟨?_, ?_, ?_, ?_, ?_⟩ <;> rintro rfl <;> exact absurd h (by decide)

theorem toUpperChar_eq_iff {c k : UInt8} (hk : k < 0x41 ∨ 0x7A < k) : toUpperChar c = k ↔ c = k := by
  simp only [toUpperChar]
  split
  · rename_i hc
    simp only [UInt8.le_iff_toNat_le, UInt8.lt_iff_toNat_lt, ← UInt8.toNat_inj] at hc hk ⊢
    have hs : (c - 32).toNat = c.toNat - 32 := by
      rw [UInt8.toNat_sub_of_le]
      · rfl
      · rw [UInt8.le_iff_toNat_le]
        simp at hc ⊢
        omega
    rw [hs]
    simp at hc hk
    omega
  · rfl

/-! ## The copying loops -/

/-- `l` stored over `out` from position `k` on, a byte at a time. -/
def overwrite : List UInt8 → Nat → List UInt8 → List UInt8
  | out, _, [] => out
  | out, k, c :: l => overwrite (out.set k c) (k + 1) l

/-- The bytes of `l` take the place of as many. -/
theorem overwrite_append (a b l : List UInt8) (h : l.length ≤ b.length) :
    overwrite (a ++ b) a.length l = a ++ l ++ b.drop l.length := by
  induction l generalizing a b with
  | nil => simp [overwrite]
  | cons c l ih =>
    cases b with
    | nil => simp at h
    | cons d b =>
      have hset : (a ++ d :: b).set a.length c = (a ++ [c]) ++ b := by
        rw [List.set_append_right _ _ (Nat.le_refl _), Nat.sub_self]
        simp
      have := ih (a ++ [c]) b (by simpa using h)
      rw [overwrite, hset]
      simp only [List.length_append, List.length_cons, List.length_nil, Nat.zero_add] at this ⊢
      rw [this]
      simp

theorem overwrite_replicate (a l : List UInt8) (r : Nat) (b : UInt8) (h : l.length ≤ r) :
    overwrite (a ++ List.replicate r b) a.length l = a ++ l ++ List.replicate (r - l.length) b := by
  rw [overwrite_append _ _ _ (by simpa using h), List.drop_replicate]

/-- The characters a copying loop reads. -/
def partOf (stop : UInt8 → Bool) : List UInt8 → List UInt8
  | [] => []
  | b :: rest => if b = 0 ∨ stop b then [] else b :: partOf stop rest

/-- The copying loop as a test and a copy. The induction is on the input; the position
in `out` is the number of characters copied so far. -/
theorem namePart_eq (stop : UInt8 → Bool) (limit off : Nat) (inp : List UInt8) (n : Nat)
    (out : List UInt8) (hn : n ≤ limit) :
    namePart stop limit off inp n out =
      if ((partOf stop inp).map toUpperChar).all isValidFileChar = true ∧
          n + (partOf stop inp).length ≤ limit then
        some (n + (partOf stop inp).length, inp.drop (partOf stop inp).length,
          overwrite out (off + n) ((partOf stop inp).map toUpperChar))
      else none := by
  induction inp generalizing n out with
  | nil => simp [namePart, partOf, overwrite, hn]
  | cons b rest ih =>
    by_cases hb : b = 0 ∨ stop b
    · have hp : partOf stop (b :: rest) = [] := if_pos hb
      simp only [namePart, if_pos hb, hp]
      simp [overwrite, hn]
    · have hp : partOf stop (b :: rest) = b :: partOf stop rest := if_neg hb
      simp only [namePart, if_neg hb, hp]
      by_cases hv : ¬ isValidFileChar (toUpperChar b) ∨ limit ≤ n
      · rw [if_pos hv, if_neg]
        simp only [List.map_cons, List.all_cons, Bool.and_eq_true, List.length_cons]
        rintro ⟨⟨h₁, _⟩, h₂⟩
        rcases hv with hv | hv
        · exact hv h₁
        · omega
      · rw [if_neg hv]
        simp only [not_or, not_not, not_le] at hv
        rw [ih (n + 1) _ hv.2]
        simp only [List.map_cons, List.all_cons, hv.1, Bool.true_and, List.length_cons,
          List.drop_succ_cons, overwrite, Nat.add_assoc, Nat.add_comm 1]

/-! ## What the encoder accepts -/

/-- A base of 1 to 8 and an extension of 0 to 3 valid characters. -/
structure Parts (base ext : List UInt8) : Prop where
  base_pos : base ≠ []
  base_le : base.length ≤ 8
  ext_le : ext.length ≤ 3
  base_valid : base.all isValidFileChar = true
  ext_valid : ext.all isValidFileChar = true

/-- The eleven bytes of a base and an extension. -/
def encode83 (base ext : List UInt8) : List UInt8 :=
  base ++ List.replicate (8 - base.length) 0x20 ++ ext ++ List.replicate (3 - ext.length) 0x20

/-- The string of a name, in capitals, up to its terminator. -/
def upper (inp : List UInt8) : List UInt8 := (partOf (fun _ => false) inp).map toUpperChar

instance (base ext : List UInt8) : Decidable (Parts base ext) :=
  decidable_of_iff (base ≠ [] ∧ base.length ≤ 8 ∧ ext.length ≤ 3 ∧
      base.all isValidFileChar = true ∧ ext.all isValidFileChar = true)
    ⟨fun ⟨h₁, h₂, h₃, h₄, h₅⟩ => ⟨h₁, h₂, h₃, h₄, h₅⟩,
     fun ⟨h₁, h₂, h₃, h₄, h₅⟩ => ⟨h₁, h₂, h₃, h₄, h₅⟩⟩

theorem length_encode83 {base ext : List UInt8} (h : Parts base ext) :
    (encode83 base ext).length = 11 := by
  have h₁ := h.base_le
  have h₂ := h.ext_le
  simp only [encode83, List.length_append, List.length_replicate]
  omega

/-- The base of a name as the encoder reads it, and what it leaves. -/
def baseOf (inp : List UInt8) : List UInt8 := (partOf (· = 0x2E) inp).map toUpperChar

def afterBase (inp : List UInt8) : List UInt8 := inp.drop (partOf (· = 0x2E) inp).length

def extOf (inp : List UInt8) : List UInt8 :=
  if (afterBase inp).headD 0 = 0x2E then upper (afterBase inp).tail else []

/-- The encoder reads a base and an extension, and accepts them when they fit. -/
theorem fatNameFromInput_eq (inp : List UInt8) :
    fatNameFromInput inp =
      if Parts (baseOf inp) (extOf inp) then some (encode83 (baseOf inp) (extOf inp)) else none := by
  have hlen : (partOf (· = 0x2E) inp).length = (baseOf inp).length := by simp [baseOf]
  simp only [fatNameFromInput]
  rw [namePart_eq _ _ _ _ _ _ (Nat.zero_le 8), hlen, ← baseOf, Nat.zero_add]
  by_cases hb : (baseOf inp).all isValidFileChar = true ∧ (baseOf inp).length ≤ 8
  · -- The base goes over the first of eleven blanks, which leaves three for the
    -- extension.
    have hout : overwrite (List.replicate 11 0x20) 0 (baseOf inp) =
        baseOf inp ++ List.replicate (11 - (baseOf inp).length) 0x20 := by
      simpa using overwrite_replicate [] (baseOf inp) 11 0x20 (by omega)
    have hsplit : baseOf inp ++ List.replicate (11 - (baseOf inp).length) (0x20 : UInt8) =
        (baseOf inp ++ List.replicate (8 - (baseOf inp).length) 0x20) ++ List.replicate 3 0x20 := by
      rw [List.append_assoc, List.replicate_append_replicate]
      congr 2
      omega
    have hbase : (baseOf inp ++ List.replicate (8 - (baseOf inp).length) (0x20 : UInt8)).length = 8 := by
      simp only [List.length_append, List.length_replicate]
      omega
    have hrest : inp.drop (baseOf inp).length = afterBase inp := by rw [afterBase, hlen]
    rw [if_pos hb, hout, hsplit, hrest]
    simp only
    by_cases he : baseOf inp = []
    · rw [if_pos (by rw [he]; rfl), if_neg fun h : Parts _ _ => h.base_pos he]
    · have hne : ¬ (baseOf inp).length = 0 := by
        rw [List.length_eq_zero_iff]
        exact he
      rw [if_neg hne]
      -- Behind the base is a dot and the extension, or the name has ended.
      by_cases hd : (afterBase inp).headD 0 = 0x2E
      · have hx : extOf inp = upper (afterBase inp).tail := if_pos hd
        rw [if_pos hd, hx, namePart_eq _ _ _ _ _ _ (Nat.zero_le 3), Nat.zero_add, ← upper]
        have hl : (partOf (fun _ => false) (afterBase inp).tail).length =
            (upper (afterBase inp).tail).length := by simp [upper]
        by_cases hv : (upper (afterBase inp).tail).all isValidFileChar = true ∧
            (upper (afterBase inp).tail).length ≤ 3
        · have hext := overwrite_replicate
            (baseOf inp ++ List.replicate (8 - (baseOf inp).length) (0x20 : UInt8))
            (upper (afterBase inp).tail) 3 0x20 hv.2
          rw [hbase] at hext
          rw [if_pos (by rwa [hl]), if_pos ⟨he, hb.2, hv.2, hb.1, hv.1⟩]
          simp only [Option.map_some, Nat.add_zero, hext, encode83]
        · rw [if_neg (by rwa [hl]), if_neg fun h => hv ⟨h.ext_valid, h.ext_le⟩]
          rfl
      · have hx : extOf inp = [] := if_neg hd
        rw [if_neg hd, hx, if_pos ⟨he, hb.2, by simp, hb.1, rfl⟩]
        simp [encode83]
  · rw [if_neg hb, if_neg fun h => hb ⟨h.base_valid, h.base_le⟩]

/-! ## What a name spells -/

/-- The string spells the base and the extension: in capitals, it is the base, then a dot and the
extension (the dot may be there or not when the extension is empty). -/
def Spells (inp base ext : List UInt8) : Prop :=
  upper inp = base ∧ ext = [] ∨ upper inp = base ++ 0x2E :: ext

theorem upper_cons (b : UInt8) (l : List UInt8) :
    upper (b :: l) = if b = 0 then [] else toUpperChar b :: upper l := by
  by_cases hb : b = 0 <;> simp [upper, partOf, hb]

theorem baseOf_cons (b : UInt8) (l : List UInt8) :
    baseOf (b :: l) = if b = 0 ∨ b = 0x2E then [] else toUpperChar b :: baseOf l := by
  by_cases hb : b = 0 ∨ b = 0x2E <;> simp [baseOf, partOf, hb]

theorem afterBase_cons (b : UInt8) (l : List UInt8) :
    afterBase (b :: l) = if b = 0 ∨ b = 0x2E then b :: l else afterBase l := by
  by_cases hb : b = 0 ∨ b = 0x2E <;> simp [afterBase, partOf, hb]

/-- A string is its base, and a dot and its extension if a dot stopped the base. -/
theorem upper_eq (inp : List UInt8) :
    upper inp = baseOf inp ++
      if (afterBase inp).headD 0 = 0x2E then 0x2E :: extOf inp else [] := by
  induction inp with
  | nil => rfl
  | cons b rest ih =>
    rw [upper_cons, baseOf_cons, extOf, afterBase_cons]
    by_cases hb : b = 0
    · simp [hb]
    · by_cases hd : b = 0x2E
      · subst hd
        simp
        decide
      · have hor : ¬ (b = 0 ∨ b = 0x2E) := not_or.mpr ⟨hb, hd⟩
        rw [if_neg hb, if_neg hor, if_neg hor, ih, extOf]
        rfl

theorem spells_parts (inp : List UInt8) : Spells inp (baseOf inp) (extOf inp) := by
  rw [Spells, upper_eq]
  by_cases hd : (afterBase inp).headD 0 = 0x2E
  · right
    rw [if_pos hd]
  · left
    rw [if_neg hd, List.append_nil, extOf, if_neg hd]
    exact ⟨rfl, rfl⟩

/-- There is no dot in the base as read. -/
theorem dot_not_mem_baseOf (inp : List UInt8) : (0x2E : UInt8) ∉ baseOf inp := by
  induction inp with
  | nil => simp [baseOf, partOf]
  | cons b rest ih =>
    rw [baseOf_cons]
    split
    · simp
    · rename_i hb
      simp only [not_or] at hb
      simp only [List.mem_cons, not_or]
      refine ⟨fun h => hb.2 ?_, ih⟩
      exact (toUpperChar_eq_iff (Or.inl (by decide))).mp h.symm

theorem Parts.dot_not_mem {base ext : List UInt8} (h : Parts base ext) : (0x2E : UInt8) ∉ base :=
  fun hm => (valid_ne (List.all_eq_true.mp h.base_valid _ hm)).2.2.1 rfl

theorem append_dot_inj {a b : List UInt8} (ha : (0x2E : UInt8) ∉ a) (hb : (0x2E : UInt8) ∉ b)
    {x y : List UInt8} (h : a ++ 0x2E :: x = b ++ 0x2E :: y) : a = b ∧ x = y := by
  induction a generalizing b with
  | nil =>
    cases b with
    | nil => simpa using h
    | cons c b => simp at h hb; exact absurd h.1 hb.1
  | cons d a ih =>
    cases b with
    | nil => simp at h ha; exact absurd h.1.symm ha.1
    | cons c b =>
      simp only [List.cons_append, List.cons.injEq, List.mem_cons, not_or] at h ha hb
      obtain ⟨rfl, rfl⟩ := ih ha.2 hb.2 h.2
      exact ⟨by rw [h.1], rfl⟩

/-- A string spells one base and extension only. -/
theorem Spells.unique {inp b e b' e' : List UInt8} (hb : (0x2E : UInt8) ∉ b)
    (hb' : (0x2E : UInt8) ∉ b') (h : Spells inp b e) (h' : Spells inp b' e') : b = b' ∧ e = e' := by
  rcases h with ⟨h₁, h₂⟩ | h <;> rcases h' with ⟨h₁', h₂'⟩ | h'
  · exact ⟨h₁.symm.trans h₁', h₂.trans h₂'.symm⟩
  · exact absurd (by rw [← h₁, h']; simp) hb
  · exact absurd (by rw [← h₁', h]; simp) hb'
  · exact append_dot_inj hb hb' (h.symm.trans h')

/-- **What the encoder accepts and produces.** -/
theorem fatNameFromInput_eq_some {inp f : List UInt8} :
    fatNameFromInput inp = some f ↔
      ∃ base ext, Parts base ext ∧ Spells inp base ext ∧ f = encode83 base ext := by
  rw [fatNameFromInput_eq]
  constructor
  · intro h
    split at h
    · rename_i hp
      exact ⟨_, _, hp, spells_parts inp, (Option.some.inj h).symm⟩
    · exact absurd h (by simp)
  · rintro ⟨base, ext, hp, hs, rfl⟩
    obtain ⟨rfl, rfl⟩ := hs.unique hp.dot_not_mem (dot_not_mem_baseOf inp) (spells_parts inp)
    exact if_pos hp

/-! ## The printable form -/

theorem takeWhile_blank {l : List UInt8} (h : l.all isValidFileChar = true) (n : Nat) :
    (l ++ List.replicate n 0x20).takeWhile (· ≠ 0x20) = l := by
  induction l with
  | nil => cases n <;> simp [List.replicate_succ]
  | cons c l ih =>
    simp only [List.all_cons, Bool.and_eq_true] at h
    have hc := (valid_ne h.1).2.1
    simp only [List.cons_append, ne_eq, hc, not_false_eq_true, decide_true,
      List.takeWhile_cons_of_pos, List.cons.injEq, true_and]
    exact ih h.2

/-- The printable form of a base and an extension. -/
def spell (base ext : List UInt8) : List UInt8 :=
  base ++ if ext = [] then [] else 0x2E :: ext

/-- A name printed is its base, and a dot and the extension if there is one. -/
theorem fatNameToPrintable_encode83 {base ext : List UInt8} (h : Parts base ext) :
    fatNameToPrintable (encode83 base ext) = spell base ext := by
  have hb : (base ++ List.replicate (8 - base.length) (0x20 : UInt8)).length = 8 := by
    have := h.base_le
    simp only [List.length_append, List.length_replicate]
    omega
  have h₁ : (encode83 base ext).take 8 = base ++ List.replicate (8 - base.length) 0x20 := by
    rw [encode83, List.append_assoc]
    exact List.take_left' hb
  have h₂ : (encode83 base ext).drop 8 = ext ++ List.replicate (3 - ext.length) 0x20 := by
    rw [encode83, List.append_assoc]
    exact List.drop_left' hb
  simp only [fatNameToPrintable, h₁, h₂, takeWhile_blank h.base_valid, takeWhile_blank h.ext_valid]
  refine List.take_of_length_le ?_
  have := h.base_le
  have := h.ext_le
  split <;> simp <;> omega

theorem upper_of_valid {l : List UInt8} (h : ∀ c ∈ l, isValidFileChar c = true ∨ c = 0x2E) :
    upper l = l := by
  induction l with
  | nil => rfl
  | cons c l ih =>
    have hc : c ≠ 0 ∧ toUpperChar c = c := by
      rcases h c (by simp) with hv | rfl
      · exact ⟨(valid_ne hv).1, toUpperChar_of_valid hv⟩
      · exact ⟨by decide, by decide⟩
    rw [upper_cons, if_neg hc.1, hc.2, ih fun x hx => h x (List.mem_cons_of_mem _ hx)]

theorem mem_spell {base ext : List UInt8} (h : Parts base ext) {c : UInt8}
    (hc : c ∈ spell base ext) : isValidFileChar c = true ∨ c = 0x2E := by
  rw [spell] at hc
  rcases List.mem_append.mp hc with hc | hc
  · exact Or.inl (List.all_eq_true.mp h.base_valid c hc)
  · split at hc
    · simp at hc
    · rcases List.mem_cons.mp hc with rfl | hc
      · exact Or.inr rfl
      · exact Or.inl (List.all_eq_true.mp h.ext_valid c hc)

theorem spells_spell {base ext : List UInt8} (h : Parts base ext) :
    Spells (spell base ext) base ext := by
  have hu : upper (spell base ext) = spell base ext := upper_of_valid fun _ hc => mem_spell h hc
  rw [Spells, hu, spell]
  split
  · rename_i he
    left
    simp [he]
  · right
    rfl

/-- **Round trip.** Encoding the printable form of an encoded name gives the name back. -/
theorem fatNameFromInput_printable {inp f : List UInt8} (h : fatNameFromInput inp = some f) :
    fatNameFromInput (fatNameToPrintable f) = some f := by
  obtain ⟨base, ext, hp, -, rfl⟩ := fatNameFromInput_eq_some.mp h
  rw [fatNameToPrintable_encode83 hp]
  exact fatNameFromInput_eq_some.mpr ⟨base, ext, hp, spells_spell hp, rfl⟩

theorem length_of_fatNameFromInput {inp f : List UInt8} (h : fatNameFromInput inp = some f) :
    f.length = 11 := by
  obtain ⟨base, ext, hp, -, rfl⟩ := fatNameFromInput_eq_some.mp h
  exact length_encode83 hp

/-- The first byte of an encoded name is a letter, a digit or one of `_-$`. -/
theorem head_of_fatNameFromInput {inp f : List UInt8} (h : fatNameFromInput inp = some f) :
    isValidFileChar (f.getD 0 0) = true := by
  obtain ⟨base, ext, hp, -, rfl⟩ := fatNameFromInput_eq_some.mp h
  cases base with
  | nil => exact absurd rfl hp.base_pos
  | cons c base =>
    have := hp.base_valid
    simp only [List.all_cons, Bool.and_eq_true] at this
    simpa [encode83] using this.1

end OsU
