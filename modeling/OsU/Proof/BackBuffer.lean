import OsU.Kernel.Vesa

/-!
# The back buffer

Pixels are clipped to the width and the height of the mode, and the rows of a mode are
its pitch apart. `ModeInfo.extent` is where the last byte any drawing function can write
ends. The buffer has a fixed size that none of them looks at, so they stay inside it for
the modes that fit, and for no other.

The store counts the highest byte that was ever written (`top`). One direction is an
invariant of the drawing functions, each of which writes pixels, or with `vesa_clear`
whole rows; for the other there is a call that writes the last byte of the extent, so a
mode that does not fit is overrun by a single call.

Which modes come up is decided by the firmware and by `stage2.asm`; nothing here is
asked of a mode but that `vesa_init` accepts it.
-/

set_option autoImplicit false

namespace OsU

/-- The modes `vesa_init` accepts. -/
def ModeInfo.Accepted (m : ModeInfo) : Prop :=
  m.framebuffer ≠ 0 ∧ m.width ≠ 0 ∧ (m.bpp = 24 ∨ m.bpp = 32)

instance (m : ModeInfo) : Decidable m.Accepted := inferInstanceAs (Decidable (_ ∧ _))

/-- The end of the last byte the mode has a place for: the rows before the last, and a last row
that is as long as the pixels or, where `vesa_clear` writes whole rows, as the pitch. -/
def ModeInfo.extent (m : ModeInfo) : Nat :=
  if m.height = 0 then 0
  else if m.bpp = 32 then
    4 * ((m.height.toNat - 1) * (m.pitch.toNat / 4) + max m.width.toNat (m.pitch.toNat / 4))
  else (m.height.toNat - 1) * m.pitch.toNat + 3 * m.width.toNat

/-- The driver draws to the back buffer in mode `m`. -/
structure OnBackbuffer (m : ModeInfo) (s : Vesa) : Prop where
  enabled : s.enabled = true
  width : s.width = m.width
  height : s.height = m.height
  pitch : s.pitch = m.pitch
  bpp : s.bpp = m.bpp
  target : s.useBackbuffer = true ∧ s.backbuffer = true

/-- It does, and has written no byte from `n` on. -/
structure Bounded (m : ModeInfo) (n : Nat) (s : Vesa) : Prop extends OnBackbuffer m s where
  top_le : s.store.top ≤ n

/-- The driver in mode `m`, with the back buffer enabled. -/
def ModeInfo.start (m : ModeInfo) (s : Vesa) : Vesa := vesaSetBackbuffer true (vesaInit m s)

/-- The modes accepted are those that enable the driver. -/
theorem vesaInit_enabled (m : ModeInfo) (s : Vesa) :
    (vesaInit m s).enabled = true ↔ m.Accepted := by
  rw [vesaInit, ModeInfo.Accepted]
  split
  · rename_i h
    simp only [Bool.false_eq_true, false_iff]
    tauto
  · rename_i h
    simp only [true_iff]
    tauto

theorem ModeInfo.Accepted.bounded {m : ModeInfo} (hm : m.Accepted) {s : Vesa}
    (h0 : s.store.top = 0) : Bounded m 0 (m.start s) := by
  obtain ⟨hfb, hw, hbpp⟩ := hm
  have hgo : ¬ (m.framebuffer = 0 ∨ m.width = 0 ∨ (m.bpp ≠ 24 ∧ m.bpp ≠ 32)) := by tauto
  rw [ModeInfo.start, vesaInit, if_neg hgo]
  exact ⟨⟨rfl, rfl, rfl, rfl, rfl, rfl, rfl⟩, Nat.le_of_eq h0⟩

section Writes
variable {m : ModeInfo} {n : Nat} {s : Vesa}

/-! ## Single writes -/

theorem OnBackbuffer.poke (h : OnBackbuffer m s) (a : Nat) (b : UInt8) :
    OnBackbuffer m (s.poke a b) ∧ (s.poke a b).store.top = max s.store.top (a + 1) := by
  rw [Vesa.poke, if_pos h.target]
  exact ⟨⟨h.enabled, h.width, h.height, h.pitch, h.bpp, h.target⟩, rfl⟩

theorem Bounded.poke (h : Bounded m n s) {a : Nat} (ha : a < n) (b : UInt8) :
    Bounded m n (s.poke a b) := by
  obtain ⟨hd, ht⟩ := h.toOnBackbuffer.poke a b
  refine ⟨hd, ?_⟩
  rw [ht]
  exact max_le h.top_le ha

theorem Bounded.poke32 (h : Bounded m n s) {i : Nat} (hi : 4 * i + 3 < n) (color : UInt32) :
    Bounded m n (s.poke32 i color) :=
  (((h.poke (by omega) _).poke (by omega) _).poke (by omega) _).poke hi _

theorem Bounded.poke24 (h : Bounded m n s) {a : Nat} (ha : a + 2 < n) (hw : a + 2 < 2 ^ 32)
    (color : UInt32) : Bounded m n (s.poke24 a color) := by
  rw [Vesa.poke24, Nat.mod_eq_of_lt (by omega : a + 1 < 2 ^ 32), Nat.mod_eq_of_lt hw]
  exact ((h.poke (by omega) _).poke (by omega) _).poke ha _

/-! ## Places -/

/-- A pixel, or the last of a whole row, in a mode of 32 bits. -/
theorem extent_32 (h32 : m.bpp = 32) {x y : Nat} (hy : y < m.height.toNat)
    (hx : x < m.width.toNat ∨ x < m.pitch.toNat / 4) :
    4 * (y * (m.pitch.toNat / 4) + x) + 3 < m.extent := by
  have h0 : ¬ m.height = 0 := by
    intro h0
    rw [h0] at hy
    exact absurd hy (Nat.not_lt_zero y)
  have hrow : y * (m.pitch.toNat / 4) ≤ (m.height.toNat - 1) * (m.pitch.toNat / 4) :=
    Nat.mul_le_mul_right _ (by omega)
  have hlast : x < max m.width.toNat (m.pitch.toNat / 4) := lt_max_iff.mpr hx
  rw [ModeInfo.extent, if_neg h0, if_pos h32]
  omega

/-- A pixel of 24 bits: its place, and the sums of the source, which do not wrap. -/
theorem extent_24 (h24 : m.bpp ≠ 32) {x y : Nat} (hy : y < m.height.toNat)
    (hx : x < m.width.toNat) :
    y * m.pitch.toNat + x * 3 + 2 < m.extent ∧ y * m.pitch.toNat + x * 3 + 2 < 2 ^ 32 := by
  have h0 : ¬ m.height = 0 := by
    intro h0
    rw [h0] at hy
    exact absurd hy (Nat.not_lt_zero y)
  have hrow : y * m.pitch.toNat ≤ (m.height.toNat - 1) * m.pitch.toNat :=
    Nat.mul_le_mul_right _ (by omega)
  have hhigh := m.height.toNat_lt
  have hwide := m.width.toNat_lt
  have hpitch := m.pitch.toNat_lt
  have hmost : y * m.pitch.toNat ≤ 65534 * 65535 := Nat.mul_le_mul (by omega) (by omega)
  rw [ModeInfo.extent, if_neg h0, if_neg h24]
  omega

/-! ## The drawing functions -/

/-- The clipping of `vesa_put_pixel`. -/
theorem toNat_of_clipped {x : BitVec 32} {w : Nat} (h0 : ¬ x.toInt < 0) (hw : ¬ x.toInt ≥ w) :
    x.toNat < w := by
  have hx := BitVec.toInt_eq_toNat_cond x
  split at hx
  · omega
  · have := x.isLt
    omega

theorem Bounded.putPixel (h : Bounded m m.extent s) (hm : m.Accepted) (x y : BitVec 32)
    (color : UInt32) : Bounded m m.extent (vesaPutPixel x y color s) := by
  rw [vesaPutPixel, if_neg (by simp [h.enabled])]
  split
  · exact h
  · rename_i hin
    obtain ⟨hx0, hin⟩ := not_or.mp hin
    obtain ⟨hxw, hin⟩ := not_or.mp hin
    obtain ⟨hy0, hyh⟩ := not_or.mp hin
    have hx := toNat_of_clipped hx0 hxw
    have hy := toNat_of_clipped hy0 hyh
    rw [h.width] at hx
    rw [h.height] at hy
    rw [h.bpp, h.pitch]
    split
    · rename_i h32
      exact h.poke32 (extent_32 h32 hy (Or.inl hx)) color
    · rename_i h24
      have hbpp : m.bpp.toNat / 8 = 3 := by
        rw [hm.2.2.resolve_right h24]
        rfl
      obtain ⟨hplace, hwrap⟩ := extent_24 h24 hy hx
      rw [hbpp, Nat.mod_eq_of_lt (by omega)]
      exact h.poke24 hplace hwrap color

end Writes

section Loops
variable {σ : Type} {P : σ → Prop}

/-- What a round preserves, the loop does. -/
theorem forInt_keeps {body : BitVec 32 → σ → σ} (h : ∀ i s, P s → P (body i s)) (a b : BitVec 32)
    {s : σ} (hs : P s) : P (forInt a b body s) := by
  rw [forInt]
  generalize (b.toInt - a.toInt).toNat = n
  induction n generalizing a s with
  | zero => exact hs
  | succ n ih => exact ih (a + 1) (h a s hs)

theorem forNat_keeps {body : Nat → σ → σ} {n : Nat} (h : ∀ i < n, ∀ s, P s → P (body i s)) {s : σ}
    (hs : P s) : P (forNat n body s) := by
  rw [forNat]
  induction n with
  | zero => exact hs
  | succ n ih =>
    rw [List.range_succ, List.foldl_concat]
    exact h n (Nat.lt_succ_self n) _ (ih fun i hi => h i (Nat.lt_succ_of_lt hi))

end Loops

section Calls
variable {m : ModeInfo} {s : Vesa}

theorem Bounded.clear (h : Bounded m m.extent s) (color : UInt32) :
    Bounded m m.extent (vesaClear color s) := by
  rw [vesaClear, if_neg (by simp [h.enabled]), h.bpp, h.pitch, h.height]
  split
  · rename_i h32
    refine forNat_keeps (fun i hi t ht => ht.poke32 ?_ color) h
    -- cell `i` is in row `i / q` of `q` cells
    have hpos : 0 < m.pitch.toNat / 4 := by
      by_contra hq
      rw [Nat.eq_zero_of_not_pos hq, Nat.zero_mul] at hi
      exact absurd hi (Nat.not_lt_zero i)
    have hrow : i / (m.pitch.toNat / 4) < m.height.toNat :=
      Nat.div_lt_of_lt_mul hi
    have hplace := extent_32 h32 hrow (Or.inr (Nat.mod_lt i hpos))
    rwa [Nat.mul_comm (i / _), Nat.div_add_mod] at hplace
  · rename_i h24
    refine forNat_keeps (fun y hy t ht => ?_) h
    rw [ht.width]
    refine forNat_keeps (fun x hx u hu => ?_) ht
    obtain ⟨hplace, hwrap⟩ := extent_24 h24 hy hx
    rw [hu.pitch, Nat.mod_eq_of_lt (by omega)]
    exact hu.poke24 hplace hwrap color

theorem Bounded.lineLoop (hm : m.Accepted) (x1 y1 dx dy sx sy : BitVec 32) (color : UInt32)
    (n : Nat) (x0 y0 err : BitVec 32) (h : Bounded m m.extent s) :
    Bounded m m.extent (lineLoop x1 y1 dx dy sx sy color n x0 y0 err s) := by
  induction n generalizing x0 y0 err s with
  | zero => exact h
  | succ n ih =>
    have hpixel := h.putPixel hm x0 y0 color
    rw [OsU.lineLoop]
    split
    · exact hpixel
    · exact ih _ _ _ hpixel

/-- **What a call preserves.** Five drawing functions, one case each; all but
`vesa_clear` come down to `vesa_put_pixel`. -/
theorem Bounded.step (h : Bounded m m.extent s) (hm : m.Accepted) (op : DrawOp) :
    Bounded m m.extent (op.step s) := by
  have hgo : ¬ s.enabled = false := by simp [h.enabled]
  cases op with
  | putPixel x y color => exact h.putPixel hm x y color
  | fillRect x y w hgt color =>
    rw [DrawOp.step, vesaFillRect, if_neg hgo]
    refine forInt_keeps (fun py t ht => ?_) _ _ h
    exact forInt_keeps (fun px u hu => hu.putPixel hm px py color) _ _ ht
  | clear color => exact h.clear color
  | drawLine n x0 y0 x1 y1 color =>
    rw [DrawOp.step, vesaDrawLine, if_neg hgo]
    exact h.lineLoop hm _ _ _ _ _ _ _ _ _ _ _
  | putChar x y c fg bg =>
    rw [DrawOp.step, vesaPutChar, if_neg hgo]
    refine forNat_keeps (fun row _ t ht => ?_) h
    exact forNat_keeps (fun col _ u hu => hu.putPixel hm _ _ _) ht

/-- **What a run preserves.** -/
theorem Bounded.run (h : Bounded m m.extent s) (hm : m.Accepted) (ops : List DrawOp) :
    Bounded m m.extent (drawRun ops s) := by
  induction ops generalizing s with
  | nil => exact h
  | cons op ops ih => exact ih (h.step hm op)

/-! ## The last byte is written -/

theorem OnBackbuffer.poke32 (h : OnBackbuffer m s) (i : Nat) (color : UInt32) :
    OnBackbuffer m (s.poke32 i color) ∧ 4 * i + 4 ≤ (s.poke32 i color).store.top := by
  obtain ⟨h₁, -⟩ := h.poke (4 * i) color.toUInt8
  obtain ⟨h₂, -⟩ := h₁.poke (4 * i + 1) (color >>> 8).toUInt8
  obtain ⟨h₃, -⟩ := h₂.poke (4 * i + 2) (color >>> 16).toUInt8
  obtain ⟨h₄, ht⟩ := h₃.poke (4 * i + 3) (color >>> 24).toUInt8
  refine ⟨h₄, ?_⟩
  rw [Vesa.poke32, ht]
  exact le_max_right _ _

theorem OnBackbuffer.poke24 (h : OnBackbuffer m s) {a : Nat} (hw : a + 2 < 2 ^ 32)
    (color : UInt32) : a + 3 ≤ (s.poke24 a color).store.top := by
  obtain ⟨h₁, -⟩ := h.poke a color.toUInt8
  obtain ⟨h₂, -⟩ := h₁.poke ((a + 1) % 2 ^ 32) (color >>> 8).toUInt8
  obtain ⟨-, ht⟩ := h₂.poke ((a + 2) % 2 ^ 32) (color >>> 16).toUInt8
  rw [Vesa.poke24, ht, Nat.mod_eq_of_lt hw]
  exact le_max_right _ _

/-- The pixel in the last column of the last row. -/
theorem OnBackbuffer.putPixel_last (h : OnBackbuffer m s) (hm : m.Accepted) (h0 : m.height ≠ 0) :
    (if m.bpp = 32 then
        4 * ((m.height.toNat - 1) * (m.pitch.toNat / 4) + m.width.toNat)
      else (m.height.toNat - 1) * m.pitch.toNat + 3 * m.width.toNat) ≤
      (vesaPutPixel (BitVec.ofNat 32 (m.width.toNat - 1)) (BitVec.ofNat 32 (m.height.toNat - 1)) 0
        s).store.top := by
  have hwide := m.width.toNat_lt
  have hhigh := m.height.toNat_lt
  have hw0 : m.width.toNat ≠ 0 := fun hw => hm.2.1 (UInt16.toNat_inj.mp hw)
  have hh0 : m.height.toNat ≠ 0 := fun hh => h0 (UInt16.toNat_inj.mp hh)
  have hnat : ∀ k < 65536, (BitVec.ofNat 32 k).toNat = k ∧ (BitVec.ofNat 32 k).toInt = k := by
    intro k hk
    have hmod : (BitVec.ofNat 32 k).toNat = k := by
      rw [BitVec.toNat_ofNat]
      omega
    rw [BitVec.toInt_eq_toNat_cond, hmod]
    refine ⟨rfl, if_pos (by omega)⟩
  obtain ⟨hx, hxi⟩ := hnat (m.width.toNat - 1) (by omega)
  obtain ⟨hy, hyi⟩ := hnat (m.height.toNat - 1) (by omega)
  have hgo : ¬ s.enabled = false := by simp [h.enabled]
  -- The last point is on the screen, so it is drawn and not clipped.
  have hin : ¬ ((BitVec.ofNat 32 (m.width.toNat - 1)).toInt < 0 ∨
      (BitVec.ofNat 32 (m.width.toNat - 1)).toInt ≥ s.width.toNat ∨
      (BitVec.ofNat 32 (m.height.toNat - 1)).toInt < 0 ∨
      (BitVec.ofNat 32 (m.height.toNat - 1)).toInt ≥ s.height.toNat) := by
    rw [hxi, hyi, h.width, h.height]
    omega
  by_cases h32 : m.bpp = 32
  · rw [if_pos h32, vesaPutPixel, if_neg hgo, if_neg hin, h.bpp, h.pitch, hx, hy, if_pos h32]
    have htop := (h.poke32 ((m.height.toNat - 1) * (m.pitch.toNat / 4) + (m.width.toNat - 1)) 0).2
    omega
  · rw [if_neg h32, vesaPutPixel, if_neg hgo, if_neg hin, h.bpp, h.pitch, hx, hy, if_neg h32]
    have hbpp : m.bpp.toNat / 8 = 3 := by
      rw [hm.2.2.resolve_right h32]
      rfl
    obtain ⟨-, hwrap⟩ := extent_24 h32 (y := m.height.toNat - 1) (x := m.width.toNat - 1) (by omega)
      (by omega)
    have htop := h.poke24 hwrap 0
    rw [hbpp, Nat.mod_eq_of_lt (by omega)]
    omega

/-- The words of a cleared screen. -/
theorem OnBackbuffer.clear_top (h : OnBackbuffer m s) (h32 : m.bpp = 32) :
    4 * (m.pitch.toNat / 4 * m.height.toNat) ≤ (vesaClear 0 s).store.top := by
  rw [vesaClear, if_neg (by simp [h.enabled]), h.bpp, if_pos h32, h.pitch, h.height]
  generalize m.pitch.toNat / 4 * m.height.toNat = n
  cases n with
  | zero => exact Nat.zero_le _
  | succ n =>
    rw [forNat, List.range_succ, List.foldl_concat]
    have hrest : OnBackbuffer m (forNat n (fun i t => t.poke32 i 0) s) :=
      forNat_keeps (fun i _ t ht => (ht.poke32 i 0).1) h
    exact (hrest.poke32 n 0).2

/-- **Some call writes the last byte of the extent.** -/
theorem OnBackbuffer.reaches (h : OnBackbuffer m s) (hm : m.Accepted) :
    ∃ op : DrawOp, m.extent ≤ (op.step s).store.top := by
  by_cases h0 : m.height = 0
  · refine ⟨.clear 0, ?_⟩
    rw [ModeInfo.extent, if_pos h0]
    exact Nat.zero_le _
  · have hpixel := h.putPixel_last hm h0
    rw [ModeInfo.extent, if_neg h0]
    by_cases h32 : m.bpp = 32
    · rw [if_pos h32] at hpixel ⊢
      rcases Nat.le_total (m.pitch.toNat / 4) m.width.toNat with hle | hle
      · rw [max_eq_left hle]
        exact ⟨.putPixel _ _ 0, hpixel⟩
      · -- the rows are longer than the pixels of one: `vesa_clear` goes further
        refine ⟨.clear 0, ?_⟩
        have hclear := h.clear_top h32
        have hh0 : m.height.toNat ≠ 0 := fun hh => h0 (UInt16.toNat_inj.mp hh)
        obtain ⟨k, hk⟩ := Nat.exists_eq_succ_of_ne_zero hh0
        rw [max_eq_right hle]
        rw [hk] at hclear ⊢
        rw [Nat.succ_sub_one, Nat.mul_comm k, ← Nat.mul_succ]
        exact hclear
    · rw [if_neg h32] at hpixel ⊢
      exact ⟨.putPixel _ _ 0, hpixel⟩

end Calls

/-- **Every run stays inside the back buffer exactly in the modes that fit it.** The
condition is on the mode alone, and the runs are all sequences of drawing calls with all
arguments. -/
theorem backbuffer_iff {m : ModeInfo} (hm : m.Accepted) {s : Vesa} (h0 : s.store.top = 0) :
    (∀ ops, (drawRun ops (m.start s)).store.top ≤ vesaBackbufferMax) ↔
      m.extent ≤ vesaBackbufferMax := by
  have hstart := hm.bounded h0
  constructor
  · intro hall
    obtain ⟨op, hop⟩ := hstart.toOnBackbuffer.reaches hm
    exact Nat.le_trans hop (hall [op])
  · intro hfits ops
    have hbounded : Bounded m m.extent (m.start s) :=
      ⟨hstart.toOnBackbuffer, Nat.le_trans hstart.top_le (Nat.zero_le _)⟩
    exact Nat.le_trans (hbounded.run hm ops).top_le hfits

/-- `vesa_present` reads what is there of the buffer, in any mode. -/
theorem vesaPresent_inside {s : Vesa} (h : s.store.top ≤ vesaBackbufferMax)
    (hsize : s.backbufferSize = vesaBackbufferMax) :
    (vesaPresent s).store.top ≤ vesaBackbufferMax := by
  have htotal : s.presentTotal ≤ vesaBackbufferMax := by
    unfold Vesa.presentTotal
    dsimp only
    split_ifs
    · exact Nat.zero_le _
    · exact Nat.le_of_eq hsize
    · omega
  refine forNat_keeps (P := fun s : Vesa => s.store.top ≤ vesaBackbufferMax) (fun i hi s hs => ?_) h
  exact max_le hs (Nat.lt_of_lt_of_le hi htotal)

/-- The driver before `vesa_init`: its variables are zero. -/
def Vesa.boot : Vesa :=
  ⟨0, 0, 0, 0, 0, false, false, false, 0, ⟨fun _ => 0, 0⟩, ⟨fun _ => 0, 0⟩⟩

/-- 1024 columns, 768 rows, three bytes a pixel: the last pixel is past the end. -/
theorem backbuffer_overflows :
    (⟨0xFD000000, 1024, 768, 3072, 24⟩ : ModeInfo).Accepted ∧
    (drawRun [.putPixel 1023 767 0] (ModeInfo.start ⟨0xFD000000, 1024, 768, 3072, 24⟩
      Vesa.boot)).store.top = 2359296 ∧
    ¬ ∀ ops, (drawRun ops (ModeInfo.start ⟨0xFD000000, 1024, 768, 3072, 24⟩
      Vesa.boot)).store.top ≤ vesaBackbufferMax := by
  have htop : (drawRun [.putPixel 1023 767 0] (ModeInfo.start ⟨0xFD000000, 1024, 768, 3072, 24⟩
      Vesa.boot)).store.top = 2359296 := by decide +kernel
  refine ⟨by decide, htop, ?_⟩
  intro hall
  have hle := hall [.putPixel 1023 767 0]
  rw [htop] at hle
  exact absurd hle (by decide)

/-- 800 columns and 600 rows of four bytes a pixel fit, the last pixel included. -/
theorem backbuffer_iff_800x600 :
    (drawRun [.clear 0, .putPixel 799 599 0xFFFFFF]
      (ModeInfo.start ⟨0xFD000000, 800, 600, 3200, 32⟩ Vesa.boot)).store.top ≤
      vesaBackbufferMax :=
  (backbuffer_iff (by decide) rfl).mpr (by decide) _

end OsU
