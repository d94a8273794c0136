import OsU.Proof.BackBuffer
import OsU.Proof.Pixels

/-!
# Drawing behind the screen

With the back buffer enabled, the drawing functions do to the store what they do to the
frame buffer without it, and the frame buffer stays as it is until `vesa_present` copies
the store. So a driver that draws behind the screen shows, after each copy, what a
driver that draws on the screen shows, and nothing in between.

It is a simulation between two drivers (`Behind`), one of which draws on its screen. A
function keeps any relation of two drivers that setting a pixel keeps, if it does
nothing but set pixels (`Steers`), and that is proved once for all functions that do;
`vesa_clear`, which writes the bytes itself, is looked at by itself. `Picture` uses the
same lemmas with another relation.

The copy is a loop over bytes, and an interrupt can come between two of them. So there
is a lemma for one byte (`Behind.presentByte`) and one for a part of the picture,
besides that for the whole call, and `DesktopRun` goes through the copy a byte at a
time.

The driver to compare with starts on a screen that shows what the store holds at that
time. The first frame may leave points alone that the store has from before.
-/

set_option autoImplicit false

namespace OsU

/-! ## Two drivers -/

/-- The function keeps two drivers related. -/
def KeepsBoth (R : Vesa → Vesa → Prop) (f : Vesa → Vesa) : Prop := ∀ s t, R s t → R (f s) (f t)

/-- A relation of two enabled drivers that setting a pixel in both of them keeps. -/
structure Steers (R : Vesa → Vesa → Prop) : Prop where
  on : ∀ s t, R s t → s.enabled = true ∧ t.enabled = true
  putPixel : ∀ x y color, KeepsBoth R (vesaPutPixel x y color)

section KeepsBoth

variable {R : Vesa → Vesa → Prop}

theorem KeepsBoth.forNat (n : Nat) {body : Nat → Vesa → Vesa} (hbody : ∀ i, KeepsBoth R (body i)) :
    KeepsBoth R (OsU.forNat n body) :=
  fun _ _ h => List.foldl_rel h fun i _ _ _ hst => hbody i _ _ hst

theorem KeepsBoth.rounds {body : BitVec 32 → Vesa → Vesa} (hbody : ∀ i, KeepsBoth R (body i))
    (n : Nat) (i : BitVec 32) : KeepsBoth R (OsU.rounds body n i) := by
  induction n generalizing i with
  | zero => exact fun _ _ h => h
  | succ n ih =>
    intro s t h
    exact ih (i + 1) _ _ (hbody i s t h)

namespace Steers

variable (hR : Steers R)

include hR

theorem fillRect (x y w h : BitVec 32) (color : UInt32) :
    KeepsBoth R (vesaFillRect x y w h color) := by
  have hrow : ∀ py : BitVec 32, KeepsBoth R fun s =>
      forInt x (x + w) (fun px s => vesaPutPixel px py color s) s :=
    fun py => KeepsBoth.rounds (fun px => hR.putPixel px py color) _ x
  intro s t hst
  simp only [vesaFillRect, hR.on s t hst]
  exact KeepsBoth.rounds hrow _ y s t hst

theorem putChar (x y : BitVec 32) (c : UInt8) (fg bg : UInt32) :
    KeepsBoth R (vesaPutChar x y c fg bg) := by
  intro s t h
  simp only [vesaPutChar, hR.on s t h]
  exact KeepsBoth.forNat _ (fun row => KeepsBoth.forNat _ fun col => hR.putPixel _ _ _) s t h

theorem lineLoop (x1 y1 dx dy sx sy : BitVec 32) (color : UInt32) (n : Nat)
    (x0 y0 err : BitVec 32) : KeepsBoth R (OsU.lineLoop x1 y1 dx dy sx sy color n x0 y0 err) := by
  induction n generalizing x0 y0 err with
  | zero => exact fun _ _ h => h
  | succ n ih =>
    intro s t h
    have hp := hR.putPixel x0 y0 color s t h
    simp only [OsU.lineLoop]
    split
    · exact hp
    · exact ih _ _ _ _ _ hp

theorem drawLine (n : Nat) (x0 y0 x1 y1 : BitVec 32) (color : UInt32) :
    KeepsBoth R (vesaDrawLine n x0 y0 x1 y1 color) := by
  intro s t h
  simp only [vesaDrawLine, hR.on s t h]
  exact hR.lineLoop _ _ _ _ _ _ _ _ _ _ _ s t h

/-- Every drawing function sets pixels, but for `vesa_clear`. -/
theorem step (op : DrawOp) (hclear : ∀ color, op = .clear color → KeepsBoth R (vesaClear color)) :
    KeepsBoth R fun s => op.step s := by
  cases op with
  | putPixel x y color => exact hR.putPixel x y color
  | fillRect x y w h color => exact hR.fillRect x y w h color
  | clear color => exact hclear color rfl
  | drawLine n x0 y0 x1 y1 color => exact hR.drawLine n x0 y0 x1 y1 color
  | putChar x y c fg bg => exact hR.putChar x y c fg bg

theorem drawRun (ops : List DrawOp)
    (hclear : ∀ color, .clear color ∈ ops → KeepsBoth R (vesaClear color)) :
    KeepsBoth R (OsU.drawRun ops) :=
  fun _ _ h => List.foldl_rel h fun op hop _ _ hst =>
    hR.step op (fun color heq => hclear color (heq ▸ hop)) _ _ hst

end Steers

end KeepsBoth

/-! ## Behind a screen -/

/-- The driver `t` draws behind a screen what `s` draws on it: the store of the one has
the bytes of the other's frame buffer, and the screen of the one is what it was. -/
structure Behind (m : ModeInfo) (screen : Nat → UInt8) (s t : Vesa) : Prop where
  front : OnFrame m s
  back : OnBackbuffer m t
  size : t.backbufferSize = vesaBackbufferMax
  bytes : t.store.val = s.frame.val
  screen : t.frame.val = screen

section Drawing

variable {m : ModeInfo} {screen : Nat → UInt8}

theorem keeps_poke (a : Nat) (b : UInt8) : KeepsBoth (Behind m screen) (Vesa.poke a b) := by
  intro s t h
  have hs := h.front.poke_eq a b
  have ht : t.poke a b = { t with store := t.store.set a b } := if_pos h.back.target
  refine ⟨h.front.poke a b, (h.back.poke a b).1, ?_, ?_, ?_⟩
  · rw [ht]
    exact h.size
  · rw [hs, ht]
    exact congrArg (fun v => Function.update v a b) h.bytes
  · rw [ht]
    exact h.screen

theorem keeps_poke32 (i : Nat) (color : UInt32) :
    KeepsBoth (Behind m screen) (Vesa.poke32 i color) := by
  intro s t h
  have h₁ := keeps_poke (4 * i) color.toUInt8 s t h
  have h₂ := keeps_poke (4 * i + 1) (color >>> 8).toUInt8 _ _ h₁
  have h₃ := keeps_poke (4 * i + 2) (color >>> 16).toUInt8 _ _ h₂
  exact keeps_poke (4 * i + 3) (color >>> 24).toUInt8 _ _ h₃

theorem keeps_poke24 (offset : Nat) (color : UInt32) :
    KeepsBoth (Behind m screen) (Vesa.poke24 offset color) := by
  intro s t h
  have h₁ := keeps_poke offset color.toUInt8 s t h
  have h₂ := keeps_poke ((offset + 1) % 2 ^ 32) (color >>> 8).toUInt8 _ _ h₁
  exact keeps_poke ((offset + 2) % 2 ^ 32) (color >>> 16).toUInt8 _ _ h₂

theorem keeps_putPixel (x y : BitVec 32) (color : UInt32) :
    KeepsBoth (Behind m screen) (vesaPutPixel x y color) := by
  intro s t h
  simp only [vesaPutPixel, h.front.enabled, h.front.width, h.front.height, h.front.pitch,
    h.front.bpp, h.back.enabled, h.back.width, h.back.height, h.back.pitch, h.back.bpp]
  split
  · exact h
  · split
    · exact h
    · split
      · exact keeps_poke32 _ _ s t h
      · exact keeps_poke24 _ _ s t h

theorem steers_behind : Steers (Behind m screen) where
  on _ _ h := ⟨h.front.enabled, h.back.enabled⟩
  putPixel := keeps_putPixel

theorem keeps_clear (color : UInt32) : KeepsBoth (Behind m screen) (vesaClear color) := by
  have hpixel : ∀ y x : Nat, KeepsBoth (Behind m screen) fun s =>
      s.poke24 ((y * s.pitch.toNat + x * 3) % 2 ^ 32) color := by
    intro y x s t h
    simp only [h.front.pitch, h.back.pitch]
    exact keeps_poke24 _ _ s t h
  have hrow : ∀ y : Nat, KeepsBoth (Behind m screen) fun s => OsU.forNat s.width.toNat
      (fun x s => s.poke24 ((y * s.pitch.toNat + x * 3) % 2 ^ 32) color) s := by
    intro y s t h
    simp only [h.front.width, h.back.width]
    exact KeepsBoth.forNat _ (hpixel y) s t h
  intro s t h
  simp only [vesaClear, h.front.enabled, h.back.enabled, h.front.bpp, h.back.bpp, h.front.height,
    h.back.height, Bool.true_eq_false, if_false]
  split
  · simp only [h.front.pitch, h.back.pitch]
    exact KeepsBoth.forNat _ (fun i => keeps_poke32 i color) s t h
  · exact KeepsBoth.forNat _ hrow s t h

/-- **Every drawing function** does behind the screen what it does on it. -/
theorem Behind.drawRun {s t : Vesa} (h : Behind m screen s t) (ops : List DrawOp) :
    Behind m screen (OsU.drawRun ops s) (OsU.drawRun ops t) :=
  steers_behind.drawRun ops (fun color _ => keeps_clear color) s t h

end Drawing

/-! ## Presenting -/

section Present

variable {m : ModeInfo} {screen : Nat → UInt8} {s t : Vesa}

/-- `n` bytes of a picture have been copied to the screen. -/
def copied (n : Nat) (picture screen : Nat → UInt8) : Nat → UInt8 := fun a =>
  if a < n then picture a else screen a

theorem copied_zero (picture screen : Nat → UInt8) : copied 0 picture screen = screen := by
  funext a
  exact if_neg (Nat.not_lt_zero a)

theorem copied_succ (n : Nat) (picture screen : Nat → UInt8) :
    copied (n + 1) picture screen = Function.update (copied n picture screen) n (picture n) := by
  funext a
  by_cases ha : a = n
  · rw [ha, Function.update_self, copied, if_pos (Nat.lt_succ_self n)]
  · rw [Function.update_of_ne ha, copied, copied]
    exact if_congr (by omega) rfl rfl

/-- **A byte is copied**, and nothing of the drawing is lost. -/
theorem Behind.presentByte (h : Behind m screen s t) (i : Nat) :
    Behind m (Function.update screen i (s.frame.val i)) s (t.presentByte i) where
  front := h.front
  back := ⟨h.back.enabled, h.back.width, h.back.height, h.back.pitch, h.back.bpp, h.back.target⟩
  size := h.size
  bytes := h.bytes
  screen := by
    rw [← h.bytes, ← h.screen]
    rfl

theorem Behind.presentBytes (h : Behind m screen s t) (n : Nat) :
    Behind m (copied n s.frame.val screen) s (forNat n Vesa.presentByte t) := by
  induction n with
  | zero =>
    rw [copied_zero]
    exact h
  | succ n ih =>
    rw [copied_succ, forNat, List.range_succ, List.foldl_append]
    exact ih.presentByte n

/-- The store is copied as far as the rows of the mode go. `vesa_present` copies no more
than the size of the back buffer, and the mode fits in it. -/
theorem OnBackbuffer.presentTotal (h : OnBackbuffer m t) (hsize : t.backbufferSize = vesaBackbufferMax)
    (hfits : m.pitch.toNat * m.height.toNat ≤ vesaBackbufferMax) :
    t.presentTotal = m.pitch.toNat * m.height.toNat := by
  have hmax : vesaBackbufferMax = 1920000 := rfl
  have htotal : m.pitch.toNat * m.height.toNat % 2 ^ 32 = m.pitch.toNat * m.height.toNat :=
    Nat.mod_eq_of_lt (by omega)
  have hgo : ¬ (t.enabled = false ∨ t.useBackbuffer = false ∨ t.backbuffer = false) := by
    simp [h.enabled, h.target.1, h.target.2]
  rw [Vesa.presentTotal, if_neg hgo]
  simp only [h.pitch, h.height, hsize, htotal, if_neg (Nat.not_lt.mpr hfits)]

theorem Behind.present (h : Behind m screen s t)
    (hfits : m.pitch.toNat * m.height.toNat ≤ vesaBackbufferMax) :
    Behind m (copied (m.pitch.toNat * m.height.toNat) s.frame.val screen) s (vesaPresent t) := by
  rw [vesaPresent, h.back.presentTotal h.size hfits]
  exact h.presentBytes _

/-! ## What is seen -/

/-- The driver, reading from the screen. -/
def Vesa.seen (s : Vesa) : Vesa := vesaSetBackbuffer false s

theorem OnBackbuffer.seen (h : OnBackbuffer m t) : OnFrame m t.seen :=
  ⟨h.enabled, h.width, h.height, h.pitch, h.bpp, rfl⟩

/-- Pixels are inside the rows of the mode. -/
theorem pixelAt_congr (hroom : m.Roomy) {s' : Vesa} (h : OnFrame m s) (h' : OnFrame m s')
    (heq : ∀ a < m.pitch.toNat * m.height.toNat, s'.frame.val a = s.frame.val a)
    (p : BitVec 32 × BitVec 32) : pixelAt p s' = pixelAt p s := by
  by_cases hp : m.OnScreen p
  · obtain ⟨hx, hy⟩ := hp.toNat
    obtain ⟨hbpp, hpitch⟩ := hroom
    -- The bytes of a pixel on the screen are within the rows.
    have hrow : m.pitch.toNat * p.2.toNat + m.pitch.toNat ≤ m.pitch.toNat * m.height.toNat := by
      rw [← Nat.mul_succ]
      exact Nat.mul_le_mul_left _ hy
    rw [h.pixelAt_eq hp, h'.pixelAt_eq hp]
    rcases hbpp with h24 | h32
    · obtain ⟨hoff, hlt⟩ := offset_24 h24 hp
      rw [h24, show (24 : UInt8).toNat / 8 = 3 by decide] at hpitch
      have hcomm := Nat.mul_comm p.2.toNat m.pitch.toNat
      have hne : m.bpp ≠ 32 := by
        rw [h24]
        decide
      rw [if_neg hne, if_neg hne, hoff]
      simp only [Vesa.peek24, h.peek_eq, h'.peek_eq]
      have hlt' : p.2.toNat * m.pitch.toNat + p.1.toNat * 3 + 1 < 2 ^ 32 := by omega
      rw [Nat.mod_eq_of_lt hlt', Nat.mod_eq_of_lt hlt, heq _ (by omega), heq _ (by omega),
        heq _ (by omega)]
    · rw [h32, show (32 : UInt8).toNat / 8 = 4 by decide] at hpitch
      have hquarter : m.width.toNat ≤ m.pitch.toNat / 4 :=
        (Nat.le_div_iff_mul_le (by decide)).mpr hpitch
      have hlast := Nat.mul_div_le m.pitch.toNat 4
      have hwords : 4 * (p.2.toNat * (m.pitch.toNat / 4)) ≤ m.pitch.toNat * p.2.toNat := by
        rw [Nat.mul_left_comm, Nat.mul_comm m.pitch.toNat]
        exact Nat.mul_le_mul_left _ hlast
      rw [if_pos h32, if_pos h32]
      simp only [Vesa.peek32, h.peek_eq, h'.peek_eq]
      rw [heq _ (by omega), heq _ (by omega), heq _ (by omega), heq _ (by omega)]
  · rw [h.pixelAt_off hp, h'.pixelAt_off hp]

/-- After a copy, the screen of one is the screen of the other. -/
theorem Behind.seen_eq (h : Behind m screen s t) (hroom : m.Roomy)
    (hfits : m.pitch.toNat * m.height.toNat ≤ vesaBackbufferMax) (p : BitVec 32 × BitVec 32) :
    pixelAt p (vesaPresent t).seen = pixelAt p s := by
  have hp := h.present hfits
  refine pixelAt_congr hroom h.front hp.back.seen (fun a ha => ?_) p
  have hscreen := congrFun hp.screen a
  rw [copied, if_pos ha] at hscreen
  exact hscreen

end Present

/-! ## Frames -/

/-- Frames drawn behind the screen, each of them presented. -/
def framesBehind (frames : List (List DrawOp)) (s : Vesa) : Vesa :=
  frames.foldl (fun s ops => vesaPresent (drawRun ops s)) s

/-- The same drawn on the screen. -/
def framesOn (frames : List (List DrawOp)) (s : Vesa) : Vesa :=
  frames.foldl (fun s ops => drawRun ops s) s

/-- The driver that draws on a screen which shows what the store holds. -/
def ModeInfo.onScreen (m : ModeInfo) (s : Vesa) : Vesa := vesaInit m { s with frame := s.store }

section Frames

variable {m : ModeInfo} (hm : m.Accepted)
  (hfits : m.pitch.toNat * m.height.toNat ≤ vesaBackbufferMax)

include hm

theorem behind_start (s : Vesa) :
    Behind m (m.start s).frame.val (m.onScreen s) (m.start s) := by
  obtain ⟨hfb, hw, hbpp⟩ := hm
  have hgo : ¬ (m.framebuffer = 0 ∨ m.width = 0 ∨ (m.bpp ≠ 24 ∧ m.bpp ≠ 32)) := by tauto
  rw [ModeInfo.onScreen, ModeInfo.start, vesaInit, vesaInit, if_neg hgo, if_neg hgo]
  exact ⟨⟨rfl, rfl, rfl, rfl, rfl, rfl⟩, ⟨rfl, rfl, rfl, rfl, rfl, rfl, rfl⟩, rfl, rfl, rfl⟩

include hfits

theorem behind_frames (s : Vesa) (frames : List (List DrawOp)) :
    ∃ screen, Behind m screen (framesOn frames (m.onScreen s))
      (framesBehind frames (m.start s)) := by
  refine List.foldl_rel (r := fun a b => ∃ screen, Behind m screen a b)
    ⟨_, behind_start hm s⟩ ?_
  rintro ops - a b ⟨screen, h⟩
  exact ⟨_, (h.drawRun ops).present hfits⟩

/-- **The back buffer hides the drawing and nothing else.** Whatever frames have been drawn, a frame
is not seen while it is drawn, and once presented the screen shows what drawing on it would have
made of it. -/
theorem double_buffering (hroom : m.Roomy) (s : Vesa) (frames : List (List DrawOp))
    (ops : List DrawOp) (p : BitVec 32 × BitVec 32) :
    pixelAt p (drawRun ops (framesBehind frames (m.start s))).seen =
        pixelAt p (framesBehind frames (m.start s)).seen ∧
      pixelAt p (vesaPresent (drawRun ops (framesBehind frames (m.start s)))).seen =
        pixelAt p (drawRun ops (framesOn frames (m.onScreen s))) := by
  obtain ⟨screen, h⟩ := behind_frames hm hfits s frames
  have hdrawn := h.drawRun ops
  refine ⟨pixelAt_congr hroom h.back.seen hdrawn.back.seen (fun a _ => ?_) p,
    hdrawn.seen_eq hroom hfits p⟩
  exact congrFun (hdrawn.screen.trans h.screen.symm) a

end Frames

/-- A pixel that is red on the screen and about to be green. -/
theorem double_buffering_pixel :
    let s := framesBehind [[.putPixel 3 4 0xFF0000]] (smallMode.start Vesa.boot)
    pixelAt (3, 4) (drawRun [.putPixel 3 4 0x00FF00] s).seen = 0xFF0000 ∧
      pixelAt (3, 4) (vesaPresent (drawRun [.putPixel 3 4 0x00FF00] s)).seen = 0x00FF00 := by
  have hshows := double_buffering (m := smallMode) (by decide) (by decide) ⟨by decide, by decide⟩
    Vesa.boot
  obtain ⟨hdrawn, hshown⟩ := hshows [[.putPixel 3 4 0xFF0000]] [.putPixel 3 4 0x00FF00] (3, 4)
  -- the first frame, as it is presented
  have hfirst := (hshows [] [.putPixel 3 4 0xFF0000] (3, 4)).2
  have hone : framesBehind [[.putPixel 3 4 0xFF0000]] (smallMode.start Vesa.boot) =
      vesaPresent (drawRun [.putPixel 3 4 0xFF0000] (framesBehind [] (smallMode.start Vesa.boot))) := by
    rw [framesBehind, framesBehind, List.foldl_cons, List.foldl_nil, List.foldl_nil]
  rw [← hone] at hfirst
  refine ⟨hdrawn.trans (hfirst.trans ?_), hshown.trans ?_⟩
  · decide +kernel
  · decide +kernel

end OsU
