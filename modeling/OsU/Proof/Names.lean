import OsU.Lib.CString
import OsU.Fs.File

/-!
# The codec of 8.3 names

`OsU/Fs/Name.lean` reads the two copying loops of `fat_name_from_input` as a base and an
extension. Here the same encoder is compared with the names a user would call valid,
letter case included: `Name83` does not mention capitals, the blanks of the entry, or
where the loops stop.

An encoded name has eleven bytes and no dot, and printing puts the dot back where there
is an extension. So a dot at the end of what was typed is lost, and what a name prints
as is its canonical form: in capitals, without the dot it may end with. Strings with one
canonical form are one name.

A string ends at its first zero byte, and what is behind it does not matter (`cstr`).
-/

set_option autoImplicit false

namespace OsU

/-- A character of a name: a letter of either case, a digit, or one of `_-$`. -/
def NameChar (c : UInt8) : Prop :=
  (0x61 ≤ c ∧ c ≤ 0x7A) ∨ (0x41 ≤ c ∧ c ≤ 0x5A) ∨ (0x30 ≤ c ∧ c ≤ 0x39) ∨
    c = 0x5F ∨ c = 0x2D ∨ c = 0x24

instance (c : UInt8) : Decidable (NameChar c) := inferInstanceAs (Decidable (_ ∨ _))

/-- A base of 1 to 8 characters, alone or followed by a dot and 0 to 3 more. -/
def Name83 (t : List UInt8) : Prop :=
  ∃ base ext, 1 ≤ base.length ∧ base.length ≤ 8 ∧ ext.length ≤ 3 ∧
    (∀ c ∈ base, NameChar c) ∧ (∀ c ∈ ext, NameChar c) ∧
    (t = base ∧ ext = [] ∨ t = base ++ 0x2E :: ext)

/-- The string without the dot it may end with. -/
def trimDot (l : List UInt8) : List UInt8 := if l.getLast? = some 0x2E then l.dropLast else l

/-- The string in capitals, without the dot it may end with. -/
def canonical (t : List UInt8) : List UInt8 := trimDot (t.map toUpperChar)

/-! ## Characters -/

/-- The check on the capital accepts the letters of both cases. -/
theorem isValidFileChar_toUpperChar (c : UInt8) :
    isValidFileChar (toUpperChar c) = true ↔ NameChar c := by
  revert c
  exact CString.forall_byte (by decide +kernel)

theorem all_valid_iff (l : List UInt8) :
    (l.map toUpperChar).all isValidFileChar = true ↔ ∀ c ∈ l, NameChar c := by
  rw [List.all_eq_true]
  constructor
  · intro h c hc
    exact (isValidFileChar_toUpperChar c).mp (h _ (List.mem_map_of_mem hc))
  · intro h b hb
    obtain ⟨c, hc, rfl⟩ := List.mem_map.mp hb
    exact (isValidFileChar_toUpperChar c).mpr (h c hc)

theorem upper_eq_map (inp : List UInt8) : upper inp = (cstr inp).map toUpperChar := by
  induction inp with
  | nil => rfl
  | cons b rest ih =>
    rw [upper_cons, cstr]
    by_cases hb : b = 0
    · simp [hb]
    · simp only [hb, if_false, ih]
      simp [cstr, hb]

/-- A string whose capitals are a base, a dot and an extension is one itself. -/
theorem map_eq_dot {t base ext : List UInt8} (h : t.map toUpperChar = base ++ 0x2E :: ext) :
    ∃ b e, t = b ++ 0x2E :: e ∧ b.map toUpperChar = base ∧ e.map toUpperChar = ext := by
  obtain ⟨b, r, rfl, hb, hr⟩ := List.map_eq_append_iff.mp h
  obtain ⟨c, e, rfl, hc, he⟩ := List.map_eq_cons_iff.mp hr
  have hdot : c = 0x2E := (toUpperChar_eq_iff (Or.inl (by decide))).mp hc
  exact ⟨b, e, by rw [hdot], hb, he⟩

/-! ## Acceptance -/

theorem parts_map_iff (b e : List UInt8) :
    Parts (b.map toUpperChar) (e.map toUpperChar) ↔
      1 ≤ b.length ∧ b.length ≤ 8 ∧ e.length ≤ 3 ∧ (∀ c ∈ b, NameChar c) ∧
        ∀ c ∈ e, NameChar c := by
  have hpos : b.map toUpperChar ≠ [] ↔ 1 ≤ b.length := by
    cases b with
    | nil => simp
    | cons c b => simp
  constructor
  · intro h
    refine ⟨hpos.mp h.base_pos, ?_, ?_, (all_valid_iff b).mp h.base_valid,
      (all_valid_iff e).mp h.ext_valid⟩
    · simpa using h.base_le
    · simpa using h.ext_le
  · intro ⟨h₁, h₂, h₃, h₄, h₅⟩
    exact ⟨hpos.mpr h₁, by simpa using h₂, by simpa using h₃, (all_valid_iff b).mpr h₄,
      (all_valid_iff e).mpr h₅⟩

/-- **What the encoder accepts.** -/
theorem isSome_fatNameFromInput_iff (inp : List UInt8) :
    (fatNameFromInput inp).isSome = true ↔ Name83 (cstr inp) := by
  rw [Option.isSome_iff_exists]
  constructor
  · rintro ⟨f, hf⟩
    obtain ⟨base, ext, hp, hs, -⟩ := fatNameFromInput_eq_some.mp hf
    rw [Spells, upper_eq_map] at hs
    rcases hs with ⟨hb, rfl⟩ | hs
    · subst hb
      obtain ⟨h₁, h₂, h₃, h₄, h₅⟩ := (parts_map_iff (cstr inp) []).mp hp
      exact ⟨cstr inp, [], h₁, h₂, h₃, h₄, h₅, Or.inl ⟨rfl, rfl⟩⟩
    · obtain ⟨b, e, ht, rfl, rfl⟩ := map_eq_dot hs
      obtain ⟨h₁, h₂, h₃, h₄, h₅⟩ := (parts_map_iff b e).mp hp
      exact ⟨b, e, h₁, h₂, h₃, h₄, h₅, Or.inr ht⟩
  · rintro ⟨b, e, h₁, h₂, h₃, h₄, h₅, ht⟩
    refine ⟨_, fatNameFromInput_eq_some.mpr ⟨b.map toUpperChar, e.map toUpperChar,
      (parts_map_iff b e).mpr ⟨h₁, h₂, h₃, h₄, h₅⟩, ?_, rfl⟩⟩
    rw [Spells, upper_eq_map]
    rcases ht with ⟨ht, rfl⟩ | ht
    · left
      simp [ht]
    · right
      simp [ht, show toUpperChar 0x2E = 0x2E from rfl]

/-! ## The printable form -/

theorem Parts.ext_dot_not_mem {base ext : List UInt8} (h : Parts base ext) : (0x2E : UInt8) ∉ ext :=
  fun hm => (valid_ne (List.all_eq_true.mp h.ext_valid _ hm)).2.2.1 rfl

theorem trimDot_of_not_mem {l : List UInt8} (h : (0x2E : UInt8) ∉ l) : trimDot l = l := by
  rw [trimDot, if_neg]
  intro hl
  exact h (List.mem_of_getLast? hl)

/-- What a string spells, printed, is its canonical form. -/
theorem Spells.canonical_eq {inp base ext : List UInt8} (h : Spells inp base ext)
    (hp : Parts base ext) : canonical (cstr inp) = spell base ext := by
  rw [canonical, ← upper_eq_map, spell]
  rcases h with ⟨hu, rfl⟩ | hu
  · rw [hu, trimDot_of_not_mem hp.dot_not_mem]
    simp
  · rw [hu]
    cases ext with
    | nil => simp [trimDot]
    | cons c ext =>
      have hlast : (base ++ 0x2E :: c :: ext).getLast? = (c :: ext).getLast? := by
        rw [List.getLast?_append_of_ne_nil _ (List.cons_ne_nil _ _), List.getLast?_cons_cons]
      have hne : (c :: ext).getLast? ≠ some 0x2E := fun hl =>
        hp.ext_dot_not_mem (List.mem_of_getLast? hl)
      rw [trimDot, hlast, if_neg hne, if_neg (List.cons_ne_nil c ext)]

theorem fatNameToPrintable_eq_canonical {inp f : List UInt8} (h : fatNameFromInput inp = some f) :
    fatNameToPrintable f = canonical (cstr inp) := by
  obtain ⟨base, ext, hp, hs, rfl⟩ := fatNameFromInput_eq_some.mp h
  rw [fatNameToPrintable_encode83 hp, hs.canonical_eq hp]

/-- Two encoded names that print alike are one. -/
theorem fatNameToPrintable_inj {inp inp' f f' : List UInt8} (h : fatNameFromInput inp = some f)
    (h' : fatNameFromInput inp' = some f') (he : fatNameToPrintable f = fatNameToPrintable f') :
    f = f' := by
  have hback := fatNameFromInput_printable h
  rw [he, fatNameFromInput_printable h'] at hback
  exact (Option.some.inj hback).symm

/-- **The codec of 8.3 names**: which strings are accepted, how an encoded name prints,
the round trip from the entry, and which strings denote the same entry. The statements
are about every string of bytes, accepted or not. -/
theorem name_codec (inp : List UInt8) :
    ((fatNameFromInput inp).isSome = true ↔ Name83 (cstr inp)) ∧
    (∀ f, fatNameFromInput inp = some f →
      f.length = 11 ∧ fatNameToPrintable f = canonical (cstr inp) ∧
      fatNameFromInput (fatNameToPrintable f) = some f) ∧
    ∀ inp' f f', fatNameFromInput inp = some f → fatNameFromInput inp' = some f' →
      (f = f' ↔ canonical (cstr inp) = canonical (cstr inp')) := by
  refine ⟨isSome_fatNameFromInput_iff inp, ?_, ?_⟩
  · intro f hf
    exact ⟨length_of_fatNameFromInput hf, fatNameToPrintable_eq_canonical hf,
      fatNameFromInput_printable hf⟩
  · intro inp' f f' hf hf'
    rw [← fatNameToPrintable_eq_canonical hf, ← fatNameToPrintable_eq_canonical hf']
    constructor
    · intro he
      rw [he]
    · intro he
      exact fatNameToPrintable_inj hf hf' he

/-- `a.txt`, `A.TXT` and the entry of both. -/
theorem name_codec_txt :
    Name83 [0x61, 0x2E, 0x74, 0x78, 0x74] ∧
    fatNameFromInput [0x61, 0x2E, 0x74, 0x78, 0x74] =
      fatNameFromInput [0x41, 0x2E, 0x54, 0x58, 0x54] ∧
    canonical [0x61, 0x2E, 0x74, 0x78, 0x74] = [0x41, 0x2E, 0x54, 0x58, 0x54] := by
  have h : fatNameFromInput [0x61, 0x2E, 0x74, 0x78, 0x74] =
      some (encode83 [0x41] [0x54, 0x58, 0x54]) := by decide
  have h' : fatNameFromInput [0x41, 0x2E, 0x54, 0x58, 0x54] =
      some (encode83 [0x41] [0x54, 0x58, 0x54]) := by decide
  have hc := name_codec [0x61, 0x2E, 0x74, 0x78, 0x74]
  refine ⟨hc.1.mp (by rw [h]; rfl), by rw [h, h'], ?_⟩
  exact (hc.2.2 _ _ _ h h').mp rfl

end OsU
