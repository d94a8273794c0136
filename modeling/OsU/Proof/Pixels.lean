import OsU.Lib.Assigns
import OsU.Lib.Painting
import OsU.Proof.BackBuffer

/-!
# Pixels of the frame buffer

A pixel is three or four bytes at a place of its own: rows are a pitch apart, or as many
whole words as fit into it, and a row has room for the width of the mode. So
`vesa_put_pixel` paints one point of the picture that `vesa_get_pixel` sees, and
`vesa_fill_rect` the points of its rectangle.

The two bit depths address the memory differently. With 32 bits the frame buffer is an
array of words and the pitch is divided by four first, so a pitch that is no multiple of
four still keeps the words of different pixels apart; with 24 bits it is bytes. Each has
its own lemma, and from `putPixel_paints` on there is one picture for both.

Pictures are seen through `vesa_get_pixel`, so bytes between the rows are no part of
them. The mode is `Roomy` when a row has room for its pixels; `vesa_init` does not check
it, and without it the end of a row would be the beginning of the next.
-/

set_option autoImplicit false

namespace OsU

/-- The driver draws to the frame buffer in mode `m`. The fields of the driver are set
by `vesa_init` and never change, so this is an invariant of every drawing function. -/
structure OnFrame (m : ModeInfo) (s : Vesa) : Prop where
  enabled : s.enabled = true
  width : s.width = m.width
  height : s.height = m.height
  pitch : s.pitch = m.pitch
  bpp : s.bpp = m.bpp
  target : s.useBackbuffer = false

/-- A row has room for the pixels of the screen. -/
structure ModeInfo.Roomy (m : ModeInfo) : Prop where
  bpp : m.bpp = 24 ∨ m.bpp = 32
  pitch : m.width.toNat * (m.bpp.toNat / 8) ≤ m.pitch.toNat

/-- A point of the screen. -/
def ModeInfo.OnScreen (m : ModeInfo) (p : BitVec 32 × BitVec 32) : Prop :=
  (0 ≤ p.1.toInt ∧ p.1.toInt < m.width.toNat) ∧ 0 ≤ p.2.toInt ∧ p.2.toInt < m.height.toNat

/-- The color a pixel has room for. -/
def ModeInfo.shown (m : ModeInfo) (color : UInt32) : UInt32 :=
  if m.bpp = 24 then color &&& 0xFFFFFF else color

/-- `vesa_get_pixel` at a point. -/
def pixelAt (p : BitVec 32 × BitVec 32) (s : Vesa) : UInt32 := vesaGetPixel p.1 p.2 s

/-! ## Bytes -/

theorem word_of_bytes (v : BitVec 32) :
    ((v >>> 24).setWidth 8).setWidth 32 <<< 24 ||| ((v >>> 16).setWidth 8).setWidth 32 <<< 16 |||
      ((v >>> 8).setWidth 8).setWidth 32 <<< 8 ||| (v.setWidth 8).setWidth 32 = v := by
  ext i hi
  simp only [BitVec.getElem_or, BitVec.getElem_setWidth, BitVec.getElem_shiftLeft,
    BitVec.getLsbD_setWidth, BitVec.getLsbD_ushiftRight]
  interval_cases i <;> simp [BitVec.getLsbD_eq_getElem]

theorem low_of_bytes (v : BitVec 32) :
    ((v >>> 16).setWidth 8).setWidth 32 <<< 16 ||| ((v >>> 8).setWidth 8).setWidth 32 <<< 8 |||
      (v.setWidth 8).setWidth 32 = v &&& 0xFFFFFF := by
  ext i hi
  simp only [BitVec.getElem_and, BitVec.getElem_or, BitVec.getElem_setWidth,
    BitVec.getElem_shiftLeft, BitVec.getLsbD_setWidth, BitVec.getLsbD_ushiftRight]
  interval_cases i <;> simp [BitVec.getLsbD_eq_getElem]

section Bytes

variable {m : ModeInfo} {s : Vesa}

theorem OnFrame.poke_eq (h : OnFrame m s) (a : Nat) (b : UInt8) :
    s.poke a b = { s with frame := s.frame.set a b } := if_neg (by simp [h.target])

theorem OnFrame.peek_eq (h : OnFrame m s) (a : Nat) : s.peek a = s.frame.val a :=
  if_neg (by simp [h.target])

theorem OnFrame.poke (h : OnFrame m s) (a : Nat) (b : UInt8) : OnFrame m (s.poke a b) := by
  rw [h.poke_eq]
  exact ⟨h.enabled, h.width, h.height, h.pitch, h.bpp, h.target⟩

theorem OnFrame.peek_poke (h : OnFrame m s) (a : Nat) (b : UInt8) (i : Nat) :
    (s.poke a b).peek i = if i = a then b else s.peek i := by
  rw [(h.poke a b).peek_eq, h.peek_eq, h.poke_eq]
  exact Function.update_apply _ _ _ _

/-- The bytes of word `i`, and all others. -/
theorem OnFrame.poke32 (h : OnFrame m s) (i : Nat) (color : UInt32) :
    OnFrame m (s.poke32 i color) ∧ (s.poke32 i color).peek32 i = color ∧
      ∀ a, a / 4 ≠ i → (s.poke32 i color).peek a = s.peek a := by
  have h₁ := h.poke (4 * i) color.toUInt8
  have h₂ := h₁.poke (4 * i + 1) (color >>> 8).toUInt8
  have h₃ := h₂.poke (4 * i + 2) (color >>> 16).toUInt8
  have hpeek : ∀ a, (s.poke32 i color).peek a =
      if a = 4 * i + 3 then (color >>> 24).toUInt8
      else if a = 4 * i + 2 then (color >>> 16).toUInt8
      else if a = 4 * i + 1 then (color >>> 8).toUInt8
      else if a = 4 * i then color.toUInt8 else s.peek a := by
    intro a
    rw [Vesa.poke32, h₃.peek_poke, h₂.peek_poke, h₁.peek_poke, h.peek_poke]
  refine ⟨h₃.poke _ _, ?_, fun a ha => ?_⟩
  · rw [Vesa.peek32]
    simp only [hpeek]
    simp
    exact UInt32.eq_of_toBitVec_eq (word_of_bytes color.toBitVec)
  · rw [hpeek, if_neg (by omega), if_neg (by omega), if_neg (by omega), if_neg (by omega)]

/-- The three bytes at `a`, and all others. -/
theorem OnFrame.poke24 (h : OnFrame m s) {a : Nat} (ha : a + 2 < 2 ^ 32) (color : UInt32) :
    OnFrame m (s.poke24 a color) ∧ (s.poke24 a color).peek24 a = color &&& 0xFFFFFF ∧
      ∀ i, ¬ (a ≤ i ∧ i ≤ a + 2) → (s.poke24 a color).peek i = s.peek i := by
  have h₁ := h.poke a color.toUInt8
  have h₂ := h₁.poke (a + 1) (color >>> 8).toUInt8
  have hmod₁ : (a + 1) % 2 ^ 32 = a + 1 := Nat.mod_eq_of_lt (by omega)
  have hmod₂ : (a + 2) % 2 ^ 32 = a + 2 := Nat.mod_eq_of_lt ha
  have hpeek : ∀ i, (s.poke24 a color).peek i =
      if i = a + 2 then (color >>> 16).toUInt8
      else if i = a + 1 then (color >>> 8).toUInt8
      else if i = a then color.toUInt8 else s.peek i := by
    intro i
    rw [Vesa.poke24, hmod₁, hmod₂, h₂.peek_poke, h₁.peek_poke, h.peek_poke]
  refine ⟨?_, ?_, fun i hi => ?_⟩
  · rw [Vesa.poke24, hmod₁, hmod₂]
    exact h₂.poke _ _
  · rw [Vesa.peek24, hmod₁, hmod₂]
    simp only [hpeek]
    simp
    exact UInt32.eq_of_toBitVec_eq (low_of_bytes color.toBitVec)
  · rw [hpeek, if_neg (by omega), if_neg (by omega), if_neg (by omega)]

end Bytes

/-! ## Places -/

section Points

variable {m : ModeInfo} {s : Vesa} {p q : BitVec 32 × BitVec 32}

theorem ModeInfo.OnScreen.toNat (h : m.OnScreen p) :
    p.1.toNat < m.width.toNat ∧ p.2.toNat < m.height.toNat :=
  ⟨toNat_of_clipped (Int.not_lt.mpr h.1.1) (Int.not_le.mpr h.1.2),
    toNat_of_clipped (Int.not_lt.mpr h.2.1) (Int.not_le.mpr h.2.2)⟩

/-- The clipping lets the points of the screen through. -/
theorem ModeInfo.OnScreen.not_clipped : ¬ (p.1.toInt < 0 ∨ p.1.toInt ≥ m.width.toNat ∨
    p.2.toInt < 0 ∨ p.2.toInt ≥ m.height.toNat) ↔ m.OnScreen p := by
  rw [ModeInfo.OnScreen]
  omega

/-- Where the pixel of a mode of 24 bits starts. -/
theorem offset_24 (h24 : m.bpp = 24) (hp : m.OnScreen p) :
    (p.2.toNat * m.pitch.toNat + p.1.toNat * (m.bpp.toNat / 8)) % 2 ^ 32 =
      p.2.toNat * m.pitch.toNat + p.1.toNat * 3 ∧
    p.2.toNat * m.pitch.toNat + p.1.toNat * 3 + 2 < 2 ^ 32 := by
  have hextent := extent_24 (m := m) (by rw [h24]; decide) hp.toNat.2 hp.toNat.1
  rw [h24]
  exact ⟨Nat.mod_eq_of_lt (by simp; omega), hextent.2⟩

/-- `vesa_put_pixel` at a point of the screen. -/
theorem OnFrame.putPixel_eq (h : OnFrame m s) (hp : m.OnScreen p) (color : UInt32) :
    vesaPutPixel p.1 p.2 color s =
      if m.bpp = 32 then s.poke32 (p.2.toNat * (m.pitch.toNat / 4) + p.1.toNat) color
      else s.poke24 ((p.2.toNat * m.pitch.toNat + p.1.toNat * (m.bpp.toNat / 8)) % 2 ^ 32)
        color := by
  rw [vesaPutPixel, if_neg (by simp [h.enabled]), h.width, h.height, h.pitch, h.bpp,
    if_neg (ModeInfo.OnScreen.not_clipped.mpr hp)]

theorem OnFrame.pixelAt_eq (h : OnFrame m s) (hp : m.OnScreen p) :
    pixelAt p s =
      if m.bpp = 32 then s.peek32 (p.2.toNat * (m.pitch.toNat / 4) + p.1.toNat)
      else s.peek24 ((p.2.toNat * m.pitch.toNat + p.1.toNat * (m.bpp.toNat / 8)) % 2 ^ 32) := by
  rw [pixelAt, vesaGetPixel, if_neg (by simp [h.enabled]), h.width, h.height, h.pitch, h.bpp,
    if_neg (ModeInfo.OnScreen.not_clipped.mpr hp)]

/-- Off the screen there is nothing to see, -/
theorem OnFrame.pixelAt_off (h : OnFrame m s) (hp : ¬ m.OnScreen p) : pixelAt p s = 0 := by
  rw [pixelAt, vesaGetPixel, if_neg (by simp [h.enabled]), h.width, h.height,
    if_pos (by_contra fun hin => hp (ModeInfo.OnScreen.not_clipped.mp hin))]

/-- and nothing is drawn. -/
theorem OnFrame.putPixel_off (h : OnFrame m s) (hp : ¬ m.OnScreen p) (color : UInt32) :
    vesaPutPixel p.1 p.2 color s = s := by
  rw [vesaPutPixel, if_neg (by simp [h.enabled]), h.width, h.height,
    if_pos (by_contra fun hin => hp (ModeInfo.OnScreen.not_clipped.mp hin))]

theorem point_ext (h₁ : p.1.toNat = q.1.toNat) (h₂ : p.2.toNat = q.2.toNat) : p = q :=
  Prod.ext (BitVec.eq_of_toNat_eq h₁) (BitVec.eq_of_toNat_eq h₂)

/-- The words of two points of the screen are different. -/
theorem putPixel_paints_32 (hm : m.Roomy) (h32 : m.bpp = 32) (hp : m.OnScreen p)
    (color : UInt32) : Paints (OnFrame m) pixelAt (m.shown color) (fun q => m.OnScreen q ∧ q = p)
      (vesaPutPixel p.1 p.2 color) := by
  have hroom : m.width.toNat ≤ m.pitch.toNat / 4 := by
    have hpitch := hm.pitch
    rw [h32] at hpitch
    exact (Nat.le_div_iff_mul_le (by decide)).mpr hpitch
  have hdraw : ∀ s, OnFrame m s → vesaPutPixel p.1 p.2 color s =
      s.poke32 (p.2.toNat * (m.pitch.toNat / 4) + p.1.toNat) color := fun s h => by
    rw [h.putPixel_eq hp, if_pos h32]
  have hsee : ∀ s q, OnFrame m s → m.OnScreen q →
      pixelAt q s = s.peek32 (q.2.toNat * (m.pitch.toNat / 4) + q.1.toNat) := fun s q h hq => by
    rw [h.pixelAt_eq hq, if_pos h32]
  constructor
  · intro s h
    rw [hdraw s h]
    exact (h.poke32 _ color).1
  · rintro s q h ⟨-, rfl⟩
    obtain ⟨hk, hsame, -⟩ := h.poke32 (q.2.toNat * (m.pitch.toNat / 4) + q.1.toNat) color
    rw [hdraw s h, hsee _ q hk hp, hsame, ModeInfo.shown, if_neg (by rw [h32]; decide)]
  · intro s q h hq
    obtain ⟨hk, -, hother⟩ := h.poke32 (p.2.toNat * (m.pitch.toNat / 4) + p.1.toNat) color
    rw [hdraw s h]
    by_cases hon : m.OnScreen q
    · -- Two points of the screen have words of their own, since a row has room for all
      -- its pixels.
      have hne : q.2.toNat * (m.pitch.toNat / 4) + q.1.toNat ≠
          p.2.toNat * (m.pitch.toNat / 4) + p.1.toNat := by
        intro heq
        obtain ⟨hy, hx⟩ := row_column_inj (by have := hon.toNat.1; omega)
          (by have := hp.toNat.1; omega) heq
        exact hq ⟨hon, point_ext hx hy⟩
      rw [hsee _ q hk hon, hsee s q h hon, Vesa.peek32, Vesa.peek32, hother _ (by omega),
        hother _ (by omega), hother _ (by omega), hother _ (by omega)]
    · rw [hk.pixelAt_off hon, h.pixelAt_off hon]

/-- And so are their bytes. -/
theorem putPixel_paints_24 (hm : m.Roomy) (h24 : m.bpp = 24) (hp : m.OnScreen p)
    (color : UInt32) : Paints (OnFrame m) pixelAt (m.shown color) (fun q => m.OnScreen q ∧ q = p)
      (vesaPutPixel p.1 p.2 color) := by
  have hroom : m.width.toNat * 3 ≤ m.pitch.toNat := by
    have hpitch := hm.pitch
    rwa [h24] at hpitch
  have hne32 : ¬ m.bpp = 32 := by
    rw [h24]
    decide
  have hdraw : ∀ s, OnFrame m s → vesaPutPixel p.1 p.2 color s =
      s.poke24 (p.2.toNat * m.pitch.toNat + p.1.toNat * 3) color := fun s h => by
    rw [h.putPixel_eq hp, if_neg hne32, (offset_24 h24 hp).1]
  have hsee : ∀ s q, OnFrame m s → m.OnScreen q →
      pixelAt q s = s.peek24 (q.2.toNat * m.pitch.toNat + q.1.toNat * 3) := fun s q h hq => by
    rw [h.pixelAt_eq hq, if_neg hne32, (offset_24 h24 hq).1]
  have hfits := (offset_24 h24 hp).2
  constructor
  · intro s h
    rw [hdraw s h]
    exact (h.poke24 hfits color).1
  · rintro s q h ⟨-, rfl⟩
    obtain ⟨hk, hsame, -⟩ := h.poke24 hfits color
    rw [hdraw s h, hsee _ q hk hp, hsame, ModeInfo.shown, if_pos h24]
  · intro s q h hq
    obtain ⟨hk, -, hother⟩ := h.poke24 hfits color
    rw [hdraw s h]
    by_cases hon : m.OnScreen q
    · have haway : ∀ i < 3, (s.poke24 (p.2.toNat * m.pitch.toNat + p.1.toNat * 3) color).peek
          (q.2.toNat * m.pitch.toNat + q.1.toNat * 3 + i) =
            s.peek (q.2.toNat * m.pitch.toNat + q.1.toNat * 3 + i) := by
        intro i hi
        refine hother _ fun hin => hq ⟨hon, ?_⟩
        have hpx := hp.toNat.1
        have hqx := hon.toNat.1
        -- a byte of both pixels is the same byte of the same row
        obtain ⟨j, hj⟩ := Nat.exists_eq_add_of_le hin.1
        obtain ⟨hy, hx⟩ := row_column_inj (n := m.pitch.toNat) (x := q.1.toNat * 3 + i)
          (by omega) (by omega : p.1.toNat * 3 + j < m.pitch.toNat)
          (show q.2.toNat * m.pitch.toNat + (q.1.toNat * 3 + i) =
            p.2.toNat * m.pitch.toNat + (p.1.toNat * 3 + j) by omega)
        exact point_ext (by omega) hy
      have hfits' := (offset_24 h24 hon).2
      rw [hsee _ q hk hon, hsee s q h hon, Vesa.peek24, Vesa.peek24,
        Nat.mod_eq_of_lt (by omega : q.2.toNat * m.pitch.toNat + q.1.toNat * 3 + 1 < 2 ^ 32),
        Nat.mod_eq_of_lt hfits', haway 2 (by decide), haway 1 (by decide)]
      congr 2
      exact haway 0 (by decide)
    · rw [hk.pixelAt_off hon, h.pixelAt_off hon]

/-- **One pixel.** The point has the color, as far as its bits go, and every other point
is what it was; off the screen nothing happens. -/
theorem putPixel_paints (hm : m.Roomy) (p : BitVec 32 × BitVec 32) (color : UInt32) :
    Paints (OnFrame m) pixelAt (m.shown color) (fun q => m.OnScreen q ∧ q = p)
      (vesaPutPixel p.1 p.2 color) := by
  by_cases hp : m.OnScreen p
  · rcases hm.bpp with h24 | h32
    · exact putPixel_paints_24 hm h24 hp color
    · exact putPixel_paints_32 hm h32 hp color
  · constructor
    · intro s h
      rwa [h.putPixel_off hp]
    · rintro s q - ⟨hq, rfl⟩
      exact absurd hq hp
    · intro s q h _
      rw [h.putPixel_off hp]

end Points

/-! ## Loops -/

section Loops

variable {σ ι γ : Type} {P : σ → Prop} {get : ι → σ → γ} {c : γ} {A : BitVec 32 → ι → Prop}
  {body : BitVec 32 → σ → σ}

/-- The rounds of a loop paint what each of them does. -/
theorem Paints.rounds (h : ∀ i, Paints P get c (A i) (body i)) (n : Nat) (i : BitVec 32) :
    Paints P get c (fun p => ∃ k < n, A (i + BitVec.ofNat 32 k) p) (OsU.rounds body n i) := by
  induction n generalizing i with
  | zero =>
    exact Paints.id_empty.congr fun p => iff_of_false id (by rintro ⟨k, hk, -⟩; omega)
  | succ n ih =>
    refine ((h i).comp (ih (i + 1))).congr fun p => ?_
    have hnext : ∀ k, i + 1 + BitVec.ofNat 32 k = i + BitVec.ofNat 32 (k + 1) := fun k => by
      rw [BitVec.add_assoc, Nat.add_comm k 1, BitVec.ofNat_add]
      rfl
    constructor
    · rintro (hA | ⟨k, hk, hA⟩)
      · exact ⟨0, Nat.succ_pos n, by simpa using hA⟩
      · exact ⟨k + 1, Nat.succ_lt_succ hk, hnext k ▸ hA⟩
    · rintro ⟨k, hk, hA⟩
      cases k with
      | zero => exact Or.inl (by simpa using hA)
      | succ k => exact Or.inr ⟨k, Nat.lt_of_succ_lt_succ hk, hnext k ▸ hA⟩

/-- A count from `a` on that does not wrap. -/
theorem toInt_add_ofNat {a : BitVec 32} {k : Nat} (h : a.toInt + k < 2 ^ 31) :
    (a + BitVec.ofNat 32 k).toInt = a.toInt + k := by
  have ha := BitVec.le_toInt a
  rw [BitVec.toInt_add, BitVec.toInt_ofNat', Int.add_bmod_bmod]
  exact Int.bmod_eq_of_le (by omega) (by omega)

/-- A counting loop paints what the rounds from `a` to `b` do. The counter is compared
with `b` as a signed number, so there are no rounds when `b` is not above `a`. -/
theorem Paints.forInt (h : ∀ i, Paints P get c (A i) (body i)) (a b : BitVec 32) :
    Paints P get c (fun p => ∃ i : BitVec 32, (a.toInt ≤ i.toInt ∧ i.toInt < b.toInt) ∧ A i p)
      (OsU.forInt a b body) := by
  refine (Paints.rounds h (b.toInt - a.toInt).toNat a).congr fun p => ?_
  have ha := BitVec.le_toInt a
  have hb := BitVec.toInt_lt (x := b)
  constructor
  · rintro ⟨k, hk, hA⟩
    refine ⟨_, ?_, hA⟩
    have hi : (a + BitVec.ofNat 32 k).toInt = a.toInt + k := toInt_add_ofNat (by omega)
    omega
  · rintro ⟨i, hi, hA⟩
    refine ⟨(i.toInt - a.toInt).toNat, by omega, ?_⟩
    have heq : a + BitVec.ofNat 32 (i.toInt - a.toInt).toNat = i := by
      apply BitVec.eq_of_toInt_eq
      rw [toInt_add_ofNat (by omega)]
      omega
    rwa [heq]

end Loops

/-! ## `vesa_fill_rect` -/

section Fill

variable {m : ModeInfo} {s : Vesa} {x y w h : BitVec 32}

/-- The point is in the rectangle. -/
def InRect (x y w h : BitVec 32) (p : BitVec 32 × BitVec 32) : Prop :=
  (x.toInt ≤ p.1.toInt ∧ p.1.toInt < x.toInt + w.toInt) ∧
    y.toInt ≤ p.2.toInt ∧ p.2.toInt < y.toInt + h.toInt

instance (x y w h : BitVec 32) (p : BitVec 32 × BitVec 32) : Decidable (InRect x y w h p) :=
  inferInstanceAs (Decidable (_ ∧ _))

/-- The loops, in a mode where something is drawn. -/
theorem vesaFillRect_eq (hs : OnFrame m s) (color : UInt32) :
    vesaFillRect x y w h color s =
      forInt y (y + h) (fun py s => forInt x (x + w) (fun px s => vesaPutPixel px py color s) s)
        s := by
  rw [vesaFillRect, if_neg (by simp [hs.enabled])]

theorem forInt_paints (hm : m.Roomy) (hx : (x + w).toInt = x.toInt + w.toInt)
    (hy : (y + h).toInt = y.toInt + h.toInt) (color : UInt32) :
    Paints (OnFrame m) pixelAt (m.shown color) (fun p => m.OnScreen p ∧ InRect x y w h p)
      (forInt y (y + h) fun py => forInt x (x + w) fun px => vesaPutPixel px py color) := by
  have hrow : ∀ py, Paints (OnFrame m) pixelAt (m.shown color) (fun p => ∃ px : BitVec 32,
      (x.toInt ≤ px.toInt ∧ px.toInt < (x + w).toInt) ∧ m.OnScreen p ∧ p = (px, py))
      (forInt x (x + w) fun px => vesaPutPixel px py color) := fun py =>
    Paints.forInt (fun px => putPixel_paints hm (px, py) color) x (x + w)
  refine (Paints.forInt hrow y (y + h)).congr fun p => ?_
  rw [hx, hy]
  constructor
  · rintro ⟨py, hpy, px, hpx, hon, rfl⟩
    exact ⟨hon, hpx, hpy⟩
  · rintro ⟨hon, hpx, hpy⟩
    exact ⟨p.2, hpy, p.1, hpx, hon, rfl⟩

/-- **A rectangle is filled, and nothing else.** It may lie partly or wholly off the
screen, and it is empty when a side of it is not positive; its two sums must not wrap.
-/
theorem fill_rect_pixels (hs : OnFrame m s) (hm : m.Roomy)
    (hx : (x + w).toInt = x.toInt + w.toInt) (hy : (y + h).toInt = y.toInt + h.toInt)
    (color : UInt32) {px py : BitVec 32} (hp : m.OnScreen (px, py)) :
    vesaGetPixel px py (vesaFillRect x y w h color s) =
      if InRect x y w h (px, py) then m.shown color else vesaGetPixel px py s := by
  have hpaints := forInt_paints hm hx hy color
  rw [vesaFillRect_eq hs]
  split
  · exact hpaints.inside s (px, py) hs ⟨hp, ‹_›⟩
  · rename_i hout
    exact hpaints.outside s (px, py) hs fun hin => hout hin.2

end Fill

/-- A mode of 24 bits whose rows are longer than its pixels. -/
def smallMode : ModeInfo := ⟨0xFD000000, 100, 50, 304, 24⟩

/-- A rectangle over the upper left corner. -/
theorem fill_rect_pixels_corner :
    vesaGetPixel 2 4 (vesaFillRect (-5) (-3) 10 10 0x12345678 (vesaInit smallMode Vesa.boot)) =
      0x345678 := by
  have hs : OnFrame smallMode (vesaInit smallMode Vesa.boot) := ⟨rfl, rfl, rfl, rfl, rfl, rfl⟩
  have hm : smallMode.Roomy := ⟨by decide, by decide⟩
  have hp : smallMode.OnScreen (2, 4) := by
    unfold ModeInfo.OnScreen
    decide
  exact (fill_rect_pixels hs hm (by decide) (by decide) _ hp).trans (by decide)

end OsU
