import OsU.Proof.Pixels
import OsU.Kernel.Gfxcon

/-!
# What the console draws

A character cell is 8 columns and 16 rows of pixels. `vesa_put_char` gives the pixels of
one cell the two colors of its glyph, `vesa_clear` gives one color to all, and
`scroll_up` moves the picture up by the height of a cell. Each of them is a loop of
assignments: of pixels, and for `scroll_up` of the words or bytes that the pixels are
made of.

The loops of the source count in machine integers, so the first part turns a counting
loop whose bounds are small into a fold over a list of naturals, and two nested ones
into a fold over a grid of places. From there on it is the general lemma on loops of
assignments that says what each place has afterwards.

`scroll_up` copies within the frame buffer itself. Row `y` takes its pixels from row `y
+ 16`, which no earlier round has written, and that is all the lemma asks.
-/

set_option autoImplicit false

namespace OsU

/-! ## Counting loops -/

section Counting

variable {σ : Type} {f : BitVec 32 → σ → σ}

theorem rounds_ofNat (a n : Nat) (s : σ) :
    rounds f n (BitVec.ofNat 32 a) s =
      (List.range' a n).foldl (fun s i => f (BitVec.ofNat 32 i) s) s := by
  induction n generalizing a s with
  | zero => rfl
  | succ n ih =>
    have hnext : BitVec.ofNat 32 a + 1 = BitVec.ofNat 32 (a + 1) := (BitVec.ofNat_add a 1).symm
    rw [rounds, hnext, ih, List.range'_succ, List.foldl_cons]

theorem toInt_ofNat_small {a : Nat} (h : a < 2 ^ 31) : (BitVec.ofNat 32 a).toInt = a := by
  rw [BitVec.toInt_ofNat']
  exact Int.bmod_eq_of_le (by omega) (by omega)

/-- `for (int i = a; i < a + n; i++)` -/
theorem forInt_ofNat {a n : Nat} (h : a + n < 2 ^ 31) (s : σ) :
    forInt (BitVec.ofNat 32 a) (BitVec.ofNat 32 (a + n)) f s =
      (List.range' a n).foldl (fun s i => f (BitVec.ofNat 32 i) s) s := by
  rw [forInt, toInt_ofNat_small h, toInt_ofNat_small (by omega : a < 2 ^ 31),
    show ((a + n : Nat) - (a : Nat) : Int).toNat = n by omega, rounds_ofNat]

/-- Two nested loops whose body depends on a place. -/
theorem forInt_grid {ι : Type} (place : Nat → Nat → ι) (g : ι → σ → σ)
    (body : BitVec 32 → BitVec 32 → σ → σ) {a k n : Nat} (ha : a + k < 2 ^ 31) (hn : n < 2 ^ 31)
    (h : ∀ x y, x < n → a ≤ y → y < a + k → ∀ s,
      body (BitVec.ofNat 32 y) (BitVec.ofNat 32 x) s = g (place x y) s) (s : σ) :
    forInt (BitVec.ofNat 32 a) (BitVec.ofNat 32 (a + k))
        (fun y s => forInt 0 (BitVec.ofNat 32 n) (fun x s => body y x s) s) s =
      (grid place a k n).foldl (fun s p => g p s) s := by
  rw [forInt_ofNat ha, foldl_grid]
  refine List.foldl_ext _ _ _ fun s y hy => ?_
  have hrow := List.mem_range'_1.mp hy
  have hloop := forInt_ofNat (a := 0) (n := n) (f := body (BitVec.ofNat 32 y)) (by omega) s
  rw [Nat.zero_add, ← List.range_eq_range'] at hloop
  exact hloop.trans (List.foldl_ext _ _ _ fun s x hx =>
    h x y (List.mem_range.mp hx) hrow.1 hrow.2 s)

theorem forNat_grid {ι : Type} {place : Nat → Nat → ι} {g : ι → σ → σ} {body : Nat → Nat → σ → σ}
    {k n : Nat} (h : ∀ x y, x < n → y < k → ∀ s, body y x s = g (place x y) s) (s : σ) :
    forNat k (fun y s => forNat n (fun x s => body y x s) s) s =
      (grid place 0 k n).foldl (fun s p => g p s) s := by
  rw [forNat, foldl_grid, List.range_eq_range']
  refine List.foldl_ext _ _ _ fun s y hy => ?_
  exact List.foldl_ext _ _ _ fun s x hx =>
    h x y (List.mem_range.mp hx) (by have := List.mem_range'_1.mp hy; omega) s

end Counting

/-! ## Pixels by row and column -/

/-- The pixel of a row and a column. -/
def point (x y : Nat) : BitVec 32 × BitVec 32 := (BitVec.ofNat 32 x, BitVec.ofNat 32 y)

section Single

variable {m : ModeInfo} {s : Vesa} {x y : Nat}

theorem onScreen_point (hx : x < m.width.toNat) (hy : y < m.height.toNat) :
    m.OnScreen (point x y) := by
  have hw := m.width.toNat_lt
  have hh := m.height.toNat_lt
  have hx' : (point x y).1.toInt = x := toInt_ofNat_small (by omega)
  have hy' : (point x y).2.toInt = y := toInt_ofNat_small (by omega)
  unfold ModeInfo.OnScreen
  omega

theorem point_toNat (hx : x < m.width.toNat) (hy : y < m.height.toNat) :
    (point x y).1.toNat = x ∧ (point x y).2.toNat = y := by
  have hw := m.width.toNat_lt
  have hh := m.height.toNat_lt
  constructor
  · exact Nat.mod_eq_of_lt (by omega)
  · exact Nat.mod_eq_of_lt (by omega)

/-- A pixel of the screen is one place that can be assigned to. -/
theorem assigns_putPixel (hm : m.Roomy) {p : BitVec 32 × BitVec 32} (hp : m.OnScreen p)
    (color : UInt32) :
    Assigns (OnFrame m) pixelAt p (fun _ => m.shown color) (vesaPutPixel p.1 p.2 color) := by
  have h := putPixel_paints hm p color
  exact ⟨h.keeps, fun s hs => h.inside s p hs ⟨hp, rfl⟩,
    fun s b hs hb => h.outside s b hs fun hin => hb hin.2⟩

theorem assigns_poke32 (i : Nat) (v : Vesa → UInt32) :
    Assigns (OnFrame m) Vesa.peek32 i v (fun s => s.poke32 i (v s)) where
  keeps s hs := (hs.poke32 i (v s)).1
  here s hs := (hs.poke32 i (v s)).2.1
  away s j hs hj := by
    have hother := (hs.poke32 i (v s)).2.2
    rw [Vesa.peek32, Vesa.peek32, hother _ (by omega), hother _ (by omega), hother _ (by omega),
      hother _ (by omega)]

theorem assigns_poke (a : Nat) (v : Vesa → UInt8) :
    Assigns (OnFrame m) Vesa.peek a v (fun s => s.poke a (v s)) where
  keeps s hs := hs.poke a (v s)
  here s hs := (hs.peek_poke a (v s) a).trans (if_pos rfl)
  away s b hs hb := (hs.peek_poke a (v s) b).trans (if_neg hb)

/-- A pixel in a mode of 32 bits is a word. -/
theorem pixel_32 (hs : OnFrame m s) (h32 : m.bpp = 32) (hx : x < m.width.toNat)
    (hy : y < m.height.toNat) :
    pixelAt (point x y) s = s.peek32 (rowIndex (m.pitch.toNat / 4) x y) := by
  obtain ⟨hx', hy'⟩ := point_toNat hx hy
  rw [hs.pixelAt_eq (onScreen_point hx hy), if_pos h32, hx', hy', rowIndex]

/-- A pixel in a mode of 24 bits is three bytes. -/
theorem pixel_24 (hs : OnFrame m s) (h24 : m.bpp = 24) (hx : x < m.width.toNat)
    (hy : y < m.height.toNat) :
    pixelAt (point x y) s =
      (s.peek (rowIndex m.pitch.toNat (3 * x + 2) y)).toUInt32 <<< 16 |||
        (s.peek (rowIndex m.pitch.toNat (3 * x + 1) y)).toUInt32 <<< 8 |||
        (s.peek (rowIndex m.pitch.toNat (3 * x) y)).toUInt32 := by
  obtain ⟨hx', hy'⟩ := point_toNat hx hy
  obtain ⟨hoff, hlt⟩ := offset_24 h24 (onScreen_point hx hy)
  have hne : ¬ m.bpp = 32 := by
    rw [h24]
    decide
  rw [hs.pixelAt_eq (onScreen_point hx hy), if_neg hne, hoff, Vesa.peek24,
    Nat.mod_eq_of_lt hlt, Nat.mod_eq_of_lt (by omega), hx', hy']
  have hcomm : ∀ j, y * m.pitch.toNat + x * 3 + j = rowIndex m.pitch.toNat (3 * x + j) y := by
    intro j
    unfold rowIndex
    omega
  rw [hcomm 2, hcomm 1]
  exact congrArg (fun a => _ ||| (s.peek a).toUInt32) (hcomm 0)

end Single

/-! ## `vesa_clear` -/

section Clear

variable {m : ModeInfo} {s : Vesa}

/-- A row of the screen has room for its pixels as words. -/
theorem ModeInfo.Roomy.words (hm : m.Roomy) (h32 : m.bpp = 32) :
    m.width.toNat ≤ m.pitch.toNat / 4 := by
  have hpitch := hm.pitch
  rw [h32] at hpitch
  exact (Nat.le_div_iff_mul_le (by decide)).mpr hpitch

theorem ModeInfo.Roomy.bytes (hm : m.Roomy) (h24 : m.bpp = 24) :
    3 * m.width.toNat ≤ m.pitch.toNat := by
  have hpitch := hm.pitch
  rw [h24] at hpitch
  exact Nat.mul_comm 3 _ ▸ hpitch

/-- The body of the loops in a mode of 24 bits is `vesa_put_pixel`. -/
theorem poke24_eq_putPixel (hs : OnFrame m s) (h24 : m.bpp = 24) {x y : Nat}
    (hx : x < m.width.toNat) (hy : y < m.height.toNat) (color : UInt32) :
    s.poke24 ((y * m.pitch.toNat + x * 3) % 2 ^ 32) color =
      vesaPutPixel (point x y).1 (point x y).2 color s := by
  obtain ⟨hx', hy'⟩ := point_toNat hx hy
  have hne : ¬ m.bpp = 32 := by
    rw [h24]
    decide
  rw [hs.putPixel_eq (onScreen_point hx hy), if_neg hne, hx', hy', h24]
  rfl

/-- **The screen is cleared.** -/
theorem vesaClear_pixels (hm : m.Roomy) (hs : OnFrame m s) (color : UInt32) :
    OnFrame m (vesaClear color s) ∧
      ∀ x y, x < m.width.toNat → y < m.height.toNat →
        pixelAt (point x y) (vesaClear color s) = m.shown color := by
  rw [vesaClear, if_neg (by simp [hs.enabled]), hs.bpp, hs.pitch, hs.height]
  -- With three bytes a pixel the screen is cleared row by row; with four, word by word
  -- through the rows, the bytes behind the pixels of a row included.
  rcases hm.bpp with h24 | h32
  · rw [if_neg (by rw [h24]; decide)]
    have hloop : ∀ s, OnFrame m s → ∀ y ∈ List.range m.height.toNat,
        forNat s.width.toNat
            (fun x s => s.poke24 ((y * s.pitch.toNat + x * 3) % 2 ^ 32) color) s =
          (List.range m.width.toNat).foldl
            (fun s x => vesaPutPixel (point x y).1 (point x y).2 color s) s ∧
        OnFrame m ((List.range m.width.toNat).foldl
            (fun s x => vesaPutPixel (point x y).1 (point x y).2 color s) s) := by
      intro s hs y hy
      rw [forNat, hs.width]
      refine foldl_congr_on (P := OnFrame m) (fun s hs x hx => ?_) hs
      have hx' := List.mem_range.mp hx
      have hy' := List.mem_range.mp hy
      rw [hs.pitch, poke24_eq_putPixel hs h24 hx' hy']
      exact ⟨rfl, (assigns_putPixel hm (onScreen_point hx' hy') color).keeps s hs⟩
    obtain ⟨heq, hkeep⟩ := foldl_congr_on hloop hs
    have hgrid := foldl_grid point 0 m.height.toNat m.width.toNat
      (fun p s => vesaPutPixel p.1 p.2 color s) s
    rw [← List.range_eq_range'] at hgrid
    obtain ⟨-, hget⟩ := Assigns.foldl_const pixelAt (P := OnFrame m)
      (l := grid point 0 m.height.toNat m.width.toNat) (c := fun _ => m.shown color)
      (g := fun p s => vesaPutPixel p.1 p.2 color s) (by
        intro p hp
        obtain ⟨x, y, ⟨hx, -, hy⟩, rfl⟩ := mem_grid.mp hp
        exact assigns_putPixel hm (onScreen_point hx (by omega)) color) hs
    rw [forNat, heq]
    refine ⟨hkeep, fun x y hx hy => ?_⟩
    rw [← hgrid, hget, if_pos (mem_grid.mpr ⟨x, y, ⟨hx, Nat.zero_le y, by omega⟩, rfl⟩)]
  · rw [if_pos h32, forNat]
    obtain ⟨hkeep, hget⟩ := Assigns.foldl_const Vesa.peek32 (P := OnFrame m)
      (l := List.range (m.pitch.toNat / 4 * m.height.toNat)) (c := fun _ => color)
      (g := fun i s => s.poke32 i color) (fun i _ => assigns_poke32 i fun _ => color) hs
    refine ⟨hkeep, fun x y hx hy => ?_⟩
    have hroom := hm.words h32
    have hrow : (y + 1) * (m.pitch.toNat / 4) ≤ m.height.toNat * (m.pitch.toNat / 4) :=
      Nat.mul_le_mul_right _ hy
    rw [pixel_32 hkeep h32 hx hy, hget, if_pos, ModeInfo.shown, if_neg (by rw [h32]; decide)]
    rw [List.mem_range, Nat.mul_comm (m.pitch.toNat / 4)]
    rw [Nat.succ_mul] at hrow
    unfold rowIndex
    omega

end Clear

/-! ## `vesa_put_char` -/

/-- The color of a pixel of a character. -/
def glyphColor (c : UInt8) (fg bg : UInt32) (col row : Nat) : UInt32 :=
  let uc := if c < 32 ∨ c > 127 then 0x3F else c
  if ((font8x16.getD (uc.toNat - 32) []).getD row 0 &&& (0x80 >>> UInt8.ofNat col)) ≠ 0 then fg
  else bg

section PutChar

variable {m : ModeInfo} {s : Vesa}

/-- **A character fills its cell**: each of its pixels has the color of the glyph, and
every other pixel is what it was. A code without a glyph is drawn as a question mark. -/
theorem vesaPutChar_pixels (hm : m.Roomy) (hs : OnFrame m s) (row col : Nat)
    (hcol : 8 * (col + 1) ≤ m.width.toNat) (hrow : 16 * (row + 1) ≤ m.height.toNat) (c : UInt8)
    (fg bg : UInt32) :
    let s' := vesaPutChar (BitVec.ofNat 32 (8 * col)) (BitVec.ofNat 32 (16 * row)) c fg bg s
    OnFrame m s' ∧ ∀ x y, x < m.width.toNat → y < m.height.toNat →
      pixelAt (point x y) s' =
        if x / 8 = col ∧ y / 16 = row then m.shown (glyphColor c fg bg (x % 8) (y % 16))
        else pixelAt (point x y) s := by
  intro s'
  have hplace : ∀ i j, (BitVec.ofNat 32 (8 * col) + BitVec.ofNat 32 i,
      BitVec.ofNat 32 (16 * row) + BitVec.ofNat 32 j) = point (8 * col + i) (16 * row + j) := by
    intro i j
    rw [point, BitVec.ofNat_add, BitVec.ofNat_add]
  -- The two loops over the glyph, as one over the points of the cell.
  have hloop : s' = (grid (fun i j => point (8 * col + i) (16 * row + j)) 0 16 8).foldl
      (fun s p => vesaPutPixel p.1 p.2
        (glyphColor c fg bg (p.1.toNat % 8) (p.2.toNat % 16)) s) s := by
    change vesaPutChar _ _ c fg bg s = _
    rw [vesaPutChar, if_neg (by simp [hs.enabled])]
    refine forNat_grid (fun i j hi hj s => ?_) s
    obtain ⟨hx, hy⟩ := point_toNat (m := m) (x := 8 * col + i) (y := 16 * row + j) (by omega)
      (by omega)
    rw [hx, hy, show (8 * col + i) % 8 = i by omega, show (16 * row + j) % 16 = j by omega,
      ← hplace]
    rfl
  -- Each point is given its color once, and no other point is touched.
  obtain ⟨hkeep, hget⟩ := Assigns.foldl_const pixelAt (P := OnFrame m)
    (l := grid (fun i j => point (8 * col + i) (16 * row + j)) 0 16 8)
    (c := fun p => m.shown (glyphColor c fg bg (p.1.toNat % 8) (p.2.toNat % 16)))
    (g := fun p s => vesaPutPixel p.1 p.2
      (glyphColor c fg bg (p.1.toNat % 8) (p.2.toNat % 16)) s) (by
      intro p hp
      obtain ⟨i, j, ⟨hi, -, hj⟩, rfl⟩ := mem_grid.mp hp
      exact assigns_putPixel hm (onScreen_point (by omega) (by omega)) _) hs
  rw [hloop]
  refine ⟨hkeep, fun x y hx hy => ?_⟩
  obtain ⟨hx', hy'⟩ := point_toNat (m := m) hx hy
  have hmem : point x y ∈ grid (fun i j => point (8 * col + i) (16 * row + j)) 0 16 8 ↔
      x / 8 = col ∧ y / 16 = row := by
    rw [mem_grid]
    constructor
    · rintro ⟨i, j, ⟨hi, -, hj⟩, heq⟩
      obtain ⟨hpx, hpy⟩ := point_toNat (m := m) (x := 8 * col + i) (y := 16 * row + j)
        (by omega) (by omega)
      rw [heq, hx'] at hpx
      rw [heq, hy'] at hpy
      omega
    · rintro ⟨hxc, hyr⟩
      refine ⟨x % 8, y % 16, by omega, ?_⟩
      rw [show 8 * col + x % 8 = x by omega, show 16 * row + y % 16 = y by omega]
  rw [hget, hx', hy']
  by_cases hin : x / 8 = col ∧ y / 16 = row
  · rw [if_pos (hmem.mpr hin), if_pos hin]
  · rw [if_neg fun h => hin (hmem.mp h), if_neg hin]

end PutChar

/-! ## `scroll_up` -/

section Scroll

variable {m : ModeInfo} {s : Vesa}

/-- The products of the loops do not wrap. -/
theorem rowIndex_toNat {p x y : Nat} (hp : p < 65536) (hx : x < p) (hy : y < 65535) :
    (BitVec.ofNat 32 y * BitVec.ofNat 32 p + BitVec.ofNat 32 x).toNat = rowIndex p x y := by
  have hrow : (y + 1) * p ≤ 65535 * 65535 := Nat.mul_le_mul (by omega) (by omega)
  rw [Nat.succ_mul] at hrow
  rw [← BitVec.ofNat_mul, ← BitVec.ofNat_add, BitVec.toNat_ofNat]
  exact Nat.mod_eq_of_lt (by omega)

theorem height_sub (h16 : 16 ≤ m.height.toNat) :
    BitVec.ofNat 32 m.height.toNat - 16 = BitVec.ofNat 32 (m.height.toNat - 16) := by
  have hlt := m.height.toNat_lt
  apply BitVec.eq_of_toNat_eq
  rw [BitVec.toNat_sub, BitVec.toNat_ofNat, BitVec.toNat_ofNat,
    show (16 : BitVec 32).toNat = 16 from rfl]
  omega

/-- The rows above the last are moved, in the units of `get`: words in a mode of 32
bits, bytes in one of 24. Bytes of a row that belong to no pixel are not moved, and not
looked at either. -/
theorem rows_moved {γ : Type} (get : Nat → Vesa → γ) (put : Nat → γ → Vesa → Vesa) {p n : Nat}
    (hput : ∀ i v, Assigns (OnFrame m) get i v (fun s => put i (v s) s)) (hp : p < 65536)
    (hn : n ≤ p) (h16 : 16 ≤ m.height.toNat) (hs : OnFrame m s) :
    let s' := forInt 0 (BitVec.ofNat 32 m.height.toNat - 16) (fun y s =>
      forInt 0 (BitVec.ofNat 32 n) (fun x s => put (y * BitVec.ofNat 32 p + x).toNat
        (get ((y + 16) * BitVec.ofNat 32 p + x).toNat s) s) s) s
    OnFrame m s' ∧ ∀ x y, x < n → y < m.height.toNat →
      get (rowIndex p x y) s' =
        if y + 16 < m.height.toNat then get (rowIndex p x (y + 16)) s
        else get (rowIndex p x y) s := by
  intro s'
  have hh := m.height.toNat_lt
  -- A text row is 16 rows of pixels.
  have hnext : ∀ x y, rowIndex p x (y + 16) = rowIndex p x y + 16 * p := by
    intro x y
    rw [rowIndex, rowIndex, Nat.add_mul, Nat.add_right_comm]
  have hloop : s' = (grid (rowIndex p) 0 (m.height.toNat - 16) n).foldl
      (fun s i => put i (get (i + 16 * p) s) s) s := by
    have h := forInt_grid (rowIndex p) (fun i s => put i (get (i + 16 * p) s) s)
      (fun y x s => put (y * BitVec.ofNat 32 p + x).toNat
        (get ((y + 16) * BitVec.ofNat 32 p + x).toNat s) s)
      (a := 0) (k := m.height.toNat - 16) (n := n) (by omega) (by omega) (by
        intro x y hx _ hy s
        have hy16 : BitVec.ofNat 32 y + 16 = BitVec.ofNat 32 (y + 16) :=
          (BitVec.ofNat_add y 16).symm
        rw [hy16, rowIndex_toNat hp (by omega) (by omega),
          rowIndex_toNat hp (by omega) (by omega), hnext]) s
    rw [Nat.zero_add, ← height_sub h16] at h
    exact h
  obtain ⟨hkeep, hget⟩ := Assigns.foldl_forward (a := 0) (k := m.height.toNat - 16) (d := 16 * p)
    hn (fun i _ => hput i (get (i + 16 * p))) hs
  rw [hloop]
  refine ⟨hkeep, fun x y hx hy => ?_⟩
  have hmem := mem_grid_rowIndex (a := 0) (k := m.height.toNat - 16) (x := x) (y := y) hn
    (Nat.lt_of_lt_of_le hx hn)
  rw [hget, hnext]
  by_cases hin : y + 16 < m.height.toNat
  · rw [if_pos (hmem.mpr (by omega)), if_pos hin]
  · rw [if_neg (fun h => hin (by have := hmem.mp h; omega)), if_neg hin]

/-- The last rows are given one color, a pixel in each round. -/
theorem rows_cleared (hm : m.Roomy) (h16 : 16 ≤ m.height.toNat) (hs : OnFrame m s)
    (body : BitVec 32 → BitVec 32 → Vesa → Vesa) (color : UInt32)
    (hbody : ∀ x y, x < m.width.toNat → y < m.height.toNat → ∀ s, OnFrame m s →
      body (BitVec.ofNat 32 y) (BitVec.ofNat 32 x) s =
        vesaPutPixel (point x y).1 (point x y).2 color s) :
    let s' := forInt (BitVec.ofNat 32 m.height.toNat - 16) (BitVec.ofNat 32 m.height.toNat)
      (fun y s => forInt 0 (BitVec.ofNat 32 m.width.toNat) (fun x s => body y x s) s) s
    OnFrame m s' ∧ ∀ x y, x < m.width.toNat → y < m.height.toNat →
      pixelAt (point x y) s' =
        if y + 16 < m.height.toNat then pixelAt (point x y) s else m.shown color := by
  intro s'
  have hw := m.width.toNat_lt
  have hh := m.height.toNat_lt
  -- The two loops, as one over the points of the last text row.
  have hloop : s' = (grid point (m.height.toNat - 16) 16 m.width.toNat).foldl
      (fun s p => body p.2 p.1 s) s := by
    have h := forInt_grid point (fun p s => body p.2 p.1 s) body (a := m.height.toNat - 16)
      (k := 16) (n := m.width.toNat) (by omega) (by omega) (fun _ _ _ _ _ _ => rfl) s
    rw [Nat.sub_add_cancel h16, ← height_sub h16] at h
    exact h
  obtain ⟨hkeep, hget⟩ := Assigns.foldl_const pixelAt (P := OnFrame m)
    (l := grid point (m.height.toNat - 16) 16 m.width.toNat) (c := fun _ => m.shown color)
    (g := fun p s => body p.2 p.1 s) (by
      intro p hp
      obtain ⟨x, y, ⟨hx, -, hy⟩, rfl⟩ := mem_grid.mp hp
      have hy' : y < m.height.toNat := by omega
      exact (assigns_putPixel hm (onScreen_point hx hy') color).congr
        fun s hs => hbody x y hx hy' s hs) hs
  rw [hloop]
  refine ⟨hkeep, fun x y hx hy => ?_⟩
  have hmem : point x y ∈ grid point (m.height.toNat - 16) 16 m.width.toNat ↔
      ¬ y + 16 < m.height.toNat := by
    rw [mem_grid]
    constructor
    · rintro ⟨x', y', ⟨hx', hlow, hhigh⟩, heq⟩
      have hpy := (point_toNat (m := m) hx' (y := y') (by omega)).2
      rw [heq, (point_toNat (m := m) hx hy).2] at hpy
      omega
    · exact fun hlow => ⟨x, y, by omega, rfl⟩
  rw [hget]
  by_cases hin : y + 16 < m.height.toNat
  · rw [if_neg fun h => hmem.mp h hin, if_pos hin]
  · rw [if_pos (hmem.mpr hin), if_neg hin]

/-- The picture moves up by the height of a character. -/
structure Scrolled (m : ModeInfo) (bgColor : UInt32) (s s' : Vesa) : Prop where
  frame : OnFrame m s'
  pixels : ∀ x y, x < m.width.toNat → y < m.height.toNat →
    pixelAt (point x y) s' =
      if y + 16 < m.height.toNat then pixelAt (point x (y + 16)) s else m.shown bgColor

theorem scrollUp32_scrolled (hm : m.Roomy) (h32 : m.bpp = 32) (h16 : 16 ≤ m.height.toNat)
    (hs : OnFrame m s) (bgColor : UInt32) : Scrolled m bgColor s (scrollUp32 bgColor s) := by
  have hp := m.pitch.toNat_lt
  have hroom := hm.words h32
  have hmoved := rows_moved Vesa.peek32 Vesa.poke32 assigns_poke32
    (p := m.pitch.toNat / 4) (by omega) hroom h16 hs
  rw [scrollUp32, hs.width, hs.height, hs.pitch]
  extract_lets mid at hmoved
  obtain ⟨hkeep, hget⟩ := hmoved
  obtain ⟨hframe, hpix⟩ := rows_cleared hm h16 hkeep
    (fun y x s => s.poke32 (y * BitVec.ofNat 32 (m.pitch.toNat / 4) + x).toNat bgColor) bgColor
    (by
      intro x y hx hy s hs
      obtain ⟨hx', hy'⟩ := point_toNat hx hy
      rw [rowIndex_toNat (by omega) (by omega) (by have := m.height.toNat_lt; omega),
        hs.putPixel_eq (onScreen_point hx hy), if_pos h32, hx', hy', rowIndex])
  refine ⟨hframe, fun x y hx hy => (hpix x y hx hy).trans ?_⟩
  split
  · rename_i hup
    rw [pixel_32 hkeep h32 hx hy, hget x y hx hy, if_pos hup, pixel_32 hs h32 hx hup]
  · rfl

theorem scrollUp24_scrolled (hm : m.Roomy) (h24 : m.bpp = 24) (h16 : 16 ≤ m.height.toNat)
    (hs : OnFrame m s) (bgColor : UInt32) : Scrolled m bgColor s (scrollUp24 bgColor s) := by
  have hp := m.pitch.toNat_lt
  have hroom := hm.bytes h24
  have hthree : BitVec.ofNat 32 m.width.toNat * 3 = BitVec.ofNat 32 (3 * m.width.toNat) := by
    rw [Nat.mul_comm, BitVec.ofNat_mul]
    rfl
  have hmoved := rows_moved Vesa.peek Vesa.poke assigns_poke
    (p := m.pitch.toNat) (by omega) hroom h16 hs
  rw [scrollUp24, hs.width, hs.height, hs.pitch, hthree]
  extract_lets mid at hmoved
  obtain ⟨hkeep, hget⟩ := hmoved
  obtain ⟨hframe, hpix⟩ := rows_cleared hm h16 hkeep
    (fun y x s => s.poke24 (y * BitVec.ofNat 32 m.pitch.toNat + x * 3).toNat bgColor) bgColor (by
      intro x y hx hy s hs
      have hcol : BitVec.ofNat 32 x * 3 = BitVec.ofNat 32 (3 * x) := by
        rw [Nat.mul_comm, BitVec.ofNat_mul]
        rfl
      have hoff := (offset_24 h24 (onScreen_point hx hy)).2
      obtain ⟨hx', hy'⟩ := point_toNat hx hy
      rw [hx', hy'] at hoff
      rw [← poke24_eq_putPixel hs h24 hx hy, hcol, rowIndex_toNat (by omega) (by omega)
        (by have := m.height.toNat_lt; omega), Nat.mod_eq_of_lt (by omega), rowIndex,
        Nat.mul_comm 3])
  refine ⟨hframe, fun x y hx hy => (hpix x y hx hy).trans ?_⟩
  split
  · rename_i hup
    rw [pixel_24 hkeep h24 hx hy, hget (3 * x + 2) y (by omega) hy,
      hget (3 * x + 1) y (by omega) hy, hget (3 * x) y (by omega) hy, if_pos hup, if_pos hup,
      if_pos hup, pixel_24 hs h24 hx hup]
  · rfl

/-- **The picture scrolls.** The last 16 rows of pixels are background; where the height
is not a multiple of 16 they are not the last row of cells. -/
theorem scrollUp_scrolled (hm : m.Roomy) (h16 : 16 ≤ m.height.toNat) {g : Gfxcon}
    (hactive : g.gfxActive = true) (hs : OnFrame m g.vesa) :
    ∃ s', g.scrollUp = { g with vesa := s' } ∧ Scrolled m g.bgColor g.vesa s' := by
  have hsame : { g.vesa with useBackbuffer := false } = g.vesa := by
    rw [← hs.target]
  have hback : ∀ f, OnFrame m (f g.vesa) → g.vesa.onFramebuffer f = f g.vesa := by
    intro f hf
    rw [Vesa.onFramebuffer, hsame, hs.target, ← hf.target]
  rw [Gfxcon.scrollUp, if_neg (by simp [hactive]), hs.bpp]
  rcases hm.bpp with h24 | h32
  · have h := scrollUp24_scrolled hm h24 h16 hs g.bgColor
    refine ⟨_, ?_, h⟩
    rw [h24]
    exact congrArg (fun v => { g with vesa := v }) (hback _ h.frame)
  · have h := scrollUp32_scrolled hm h32 h16 hs g.bgColor
    refine ⟨_, ?_, h⟩
    rw [h32]
    exact congrArg (fun v => { g with vesa := v }) (hback _ h.frame)

end Scroll

end OsU
