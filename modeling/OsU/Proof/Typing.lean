import OsU.Kernel.Readline
import OsU.Proof.Console

/-!
# What is typed is what is read

The line goes from the place where it begins over the rows of the screen, and the
console's cursor is behind it. A key that is typed moves both (`Typing.type`); a key
that is erased does, unless the cursor is at the beginning of a row, where the console
does not go back (`Typing.erase`).

The screen is one row of 2000 cells here, which is how the console addresses it, and a
line that runs over the end of a row goes on at the beginning of the next. That lets the
line be compared with the screen cell by cell, with no case for the rows, and leaves two
ways for them to part: scrolling moves the line up under a start that stays where it
was, and a backspace in column 0 does nothing. Both are conditions on the key and the
state before it.
-/

set_option autoImplicit false

namespace OsU

open Runs

/-- From a place on the screen shows the line, and then blanks. -/
def LineShown (start : Nat) (s : Readline) : Prop :=
  ∀ k, start + k < 2000 →
    s.vga.mem.val (start + k) = makeCell (if k < s.i then s.buf k else 0x20) s.vga.color

/-- The key does not make the screen scroll: Enter is not typed in the last row, nor a
character into the last cell. -/
def NoScroll (maxLen : Nat) (s : Readline) (c : UInt8) : Prop :=
  s.returned = false →
    (c = 0x0A → s.vga.cursorY.toNat < 24) ∧
      (s.i + 1 < maxLen → 32 ≤ c → c ≤ 126 →
        ¬ (s.vga.cursorX.toNat = 79 ∧ s.vga.cursorY.toNat = 24))

/-- Nothing is erased when the line ends with a row. `readline` has shortened the line
by then, and `vga_putc` leaves the cursor and the cell as they are. -/
def NoErase (start : Nat) (s : Readline) (c : UInt8) : Prop :=
  c = 0x08 → 0 < s.i → (start + s.i) % 80 ≠ 0

/-- The cursor one place to the left. -/
def Vga.back (v : Vga) : Vga := { v with cursorX := v.cursorX - 1 }

/-- A backspace inside a row. -/
theorem vgaPutc_back {v : Vga} (hpos : 0 < v.cursorX.toNat) (hx : v.cursorX.toNat < 80)
    (hy : v.cursorY.toNat < 25) :
    vgaPutc 0x08 v =
      Vga.updateCursor { v.back with mem := v.mem.set v.back.pos (makeCell 0x20 v.color) } := by
  have hgt : v.cursorX > 0 := UInt8.lt_iff_toNat_lt.mpr hpos
  have hback : (v.cursorX - 1).toNat < 80 := by
    rw [UInt8.toNat_sub, show (1 : UInt8).toNat = 1 from rfl]
    omega
  unfold vgaPutc
  rw [if_neg (by decide), if_neg (by decide), if_pos rfl, if_pos hgt]
  dsimp only
  rw [if_neg (by rw [vgaWidth]; omega)]
  exact congrArg Vga.updateCursor (Vga.scrollIfNeeded_of_lt hy)

/-- The console's cursor is behind the line: the line begins at cell `start` of the
screen and goes on from row to row. -/
structure Typing (start : Nat) (s : Readline) : Prop where
  shown : LineShown start s
  x : s.vga.cursorX.toNat = (start + s.i) % 80
  y : s.vga.cursorY.toNat = (start + s.i) / 80
  fits : start + s.i < 2000

namespace Typing

variable {start : Nat} {s : Readline} (h : Typing start s)

include h

theorem pos : s.vga.pos = start + s.i := by
  rw [Vga.pos, h.x, h.y, vgaWidth]
  omega

/-- A key is typed. -/
theorem type {c : UInt8} (hc : 32 ≤ c) (hroom : ¬ (s.vga.cursorX.toNat = 79 ∧
    s.vga.cursorY.toNat = 24)) :
    Typing start { s with buf := s.buf.put s.i c, i := s.i + 1, vga := vgaPutc c s.vga } := by
  have hx := h.x
  have hy := h.y
  have hfits := h.fits
  have hc' : 32 ≤ c.toNat := UInt8.le_iff_toNat_le.mp hc
  have hne : ∀ b : UInt8, b.toNat < 32 → c ≠ b := fun b hb heq => by
    rw [heq] at hc'
    omega
  have hnext : (s.vga.write c).cursorX.toNat = s.vga.cursorX.toNat + 1 := by
    change (s.vga.cursorX + 1).toNat = _
    rw [UInt8.toNat_add, show (1 : UInt8).toNat = 1 from rfl]
    omega
  have hcells : ∀ k, start + k < 2000 →
      (s.vga.write c).mem.val (start + k) =
        makeCell (if k < s.i + 1 then s.buf.put s.i c k else 0x20) s.vga.color := by
    intro k hk
    change Function.update s.vga.mem.val s.vga.pos _ _ = _
    rw [h.pos, ByteMem.put_apply]
    by_cases hat : k = s.i
    · rw [hat, Function.update_self, if_pos (Nat.lt_succ_self _), if_pos rfl]
    · rw [Function.update_of_ne (by omega), h.shown k hk, if_neg hat]
      exact congrArg (makeCell · s.vga.color) (if_congr (by omega) rfl rfl)
  -- A printable character is written at the cursor; what is left is where the cursor
  -- goes.
  have hput := vgaPutc_write (hne 0x0A (by decide)) (hne 0x08 (by decide)) (hne 0x0D (by decide))
    s.vga
  -- From the last column it goes to the next row, which is not below the screen.
  by_cases hfull : s.vga.cursorX.toNat = 79
  · have hrow : (s.vga.write c).newline.cursorY.toNat = s.vga.cursorY.toNat + 1 := by
      change (s.vga.cursorY + 1).toNat = _
      rw [UInt8.toNat_add, show (1 : UInt8).toNat = 1 from rfl]
      omega
    rw [if_pos (by rw [hnext, vgaWidth]; omega),
      Vga.scrollIfNeeded_of_lt (by rw [hrow, vgaHeight]; omega)] at hput
    rw [hput]
    refine ⟨hcells, ?_, hrow.trans ?_, ?_⟩
    · change 0 = (start + (s.i + 1)) % 80
      omega
    · change s.vga.cursorY.toNat + 1 = (start + (s.i + 1)) / 80
      omega
    · change start + (s.i + 1) < 2000
      omega
  · rw [if_neg (by rw [hnext, vgaWidth]; omega), Vga.scrollIfNeeded_of_lt (by
      change s.vga.cursorY.toNat < vgaHeight
      rw [vgaHeight]
      omega)] at hput
    rw [hput]
    refine ⟨hcells, hnext.trans ?_, hy.trans ?_, ?_⟩
    · change s.vga.cursorX.toNat + 1 = (start + (s.i + 1)) % 80
      omega
    · change (start + s.i) / 80 = (start + (s.i + 1)) / 80
      omega
    · change start + (s.i + 1) < 2000
      omega

/-- A key is erased. -/
theorem erase (hi : 0 < s.i) (hrow : (start + s.i) % 80 ≠ 0) :
    Typing start { s with i := s.i - 1, vga := vgaPutc 0x08 s.vga } := by
  have hx := h.x
  have hy := h.y
  have hfits := h.fits
  have hback : s.vga.back.cursorX.toNat = s.vga.cursorX.toNat - 1 := by
    change (s.vga.cursorX - 1).toNat = _
    rw [UInt8.toNat_sub, show (1 : UInt8).toNat = 1 from rfl]
    omega
  have hpos : s.vga.back.pos = start + (s.i - 1) := by
    change s.vga.cursorY.toNat * 80 + s.vga.back.cursorX.toNat = _
    omega
  rw [vgaPutc_back (by omega) (by omega) (by omega)]
  refine ⟨fun k hk => ?_, ?_, ?_, ?_⟩
  · change Function.update s.vga.mem.val s.vga.back.pos _ (start + k) =
      makeCell (if k < s.i - 1 then s.buf k else 0x20) s.vga.color
    rw [hpos]
    by_cases hat : k = s.i - 1
    · rw [hat, Function.update_self, if_neg (lt_irrefl _)]
    · rw [Function.update_of_ne (by omega), h.shown k hk]
      exact congrArg (makeCell · s.vga.color) (if_congr (by omega) rfl rfl)
  · change s.vga.back.cursorX.toNat = (start + (s.i - 1)) % 80
    omega
  · change s.vga.cursorY.toNat = (start + (s.i - 1)) / 80
    omega
  · change start + (s.i - 1) < 2000
    omega

/-- The line ends. -/
theorem enter (hrow : s.vga.cursorY.toNat < 24) :
    LineShown start
      { s with vga := vgaPutc 0x0A s.vga, buf := s.buf.put s.i 0, returned := true } := by
  have hnext : s.vga.newline.cursorY.toNat = s.vga.cursorY.toNat + 1 := by
    change (s.vga.cursorY + 1).toNat = _
    rw [UInt8.toNat_add, show (1 : UInt8).toNat = 1 from rfl]
    omega
  rw [vgaPutc_newline, Vga.scrollIfNeeded_of_lt (by rw [hnext, vgaHeight]; omega)]
  intro k hk
  change s.vga.mem.val (start + k) = makeCell (if k < s.i then s.buf.put s.i 0 k else 0x20) _
  rw [h.shown k hk]
  refine congrArg (makeCell · s.vga.color) ?_
  split
  · rw [ByteMem.put_apply, if_neg (by omega)]
  · rfl

end Typing

/-! ## The run -/

/-- What is kept: the line on the screen, and while it is typed the cursor behind it.
After the Enter key only the first is left, and no key does anything. -/
structure LineKept (start maxLen : Nat) (s : Readline) : Prop where
  shown : LineShown start s
  short : 0 < maxLen → s.i < maxLen
  typing : s.returned = false → 0 < maxLen ∧ Typing start s

theorem LineKept.step {start maxLen : Nat} {s : Readline} (h : LineKept start maxLen s) {c : UInt8}
    (hscroll : NoScroll maxLen s c) (herase : NoErase start s c) :
    LineKept start maxLen (readlineKey maxLen c s) := by
  rw [readlineKey]
  by_cases hr : s.returned = true
  · rw [if_pos hr]
    exact h
  · rw [if_neg hr]
    have hr' : s.returned = false := Bool.eq_false_iff.mpr hr
    obtain ⟨hmax, ht⟩ := h.typing hr'
    obtain ⟨henter, htype⟩ := hscroll hr'
    split
    · exact h
    · split
      · exact ⟨ht.enter (henter ‹_›), h.short, fun hgo => nomatch hgo⟩
      · split
        · split
          · rename_i hback hi
            have hstep := ht.erase hi (herase hback hi)
            exact ⟨hstep.shown, fun hm => (Nat.sub_le _ _).trans_lt (h.short hm),
              fun _ => ⟨hmax, hstep⟩⟩
          · exact h
        · split
          · rename_i hroom
            have hstep := ht.type hroom.2.1 (htype hroom.1 hroom.2.1 hroom.2.2)
            exact ⟨hstep.shown, fun _ => hroom.1, fun _ => ⟨hmax, hstep⟩⟩
          · exact h

/-- It holds before the first key. -/
theorem LineKept.start {v : Vga} (hx : v.cursorX.toNat < 80) (hy : v.cursorY.toNat < 25)
    (hblank : ∀ k, v.pos ≤ k → k < 2000 → v.mem.val k = makeCell 0x20 v.color) (buf : ByteMem)
    (maxLen : Nat) : LineKept v.pos maxLen (readlineStart buf maxLen v) := by
  have hpos : v.pos = v.cursorY.toNat * 80 + v.cursorX.toNat := rfl
  have hshown : LineShown v.pos (readlineStart buf maxLen v) := fun k hk =>
    hblank (v.pos + k) (Nat.le_add_right _ _) hk
  refine ⟨hshown, id, fun hr => ⟨?_, hshown, ?_, ?_, ?_⟩⟩
  · exact Nat.pos_of_ne_zero (of_decide_eq_false hr)
  · change v.cursorX.toNat = (v.pos + 0) % 80
    omega
  · change v.cursorY.toNat = (v.pos + 0) / 80
    omega
  · change v.pos + 0 < 2000
    omega

/-- **What is typed is what is read.** On a screen that is blank from the cursor on, as long as no
key makes it scroll and nothing is erased over the end of a row, the screen shows the line after
every key, and the line leaves room for its terminator. -/
theorem readline_shown {v : Vga} (hx : v.cursorX.toNat < 80) (hy : v.cursorY.toNat < 25)
    (hblank : ∀ k, v.pos ≤ k → k < 2000 → v.mem.val k = makeCell 0x20 v.color) (buf : ByteMem)
    (maxLen : Nat) {keys : List UInt8}
    (hscroll : Along (readlineKey maxLen) (NoScroll maxLen) (readlineStart buf maxLen v) keys)
    (herase : Along (readlineKey maxLen) (NoErase v.pos) (readlineStart buf maxLen v) keys)
    (n : Nat) :
    let s := run (readlineKey maxLen) (readlineStart buf maxLen v) (keys.take n)
    LineShown v.pos s ∧ (0 < maxLen → s.i < maxLen) := by
  intro s
  have hkept : LineKept v.pos maxLen s :=
    run_invariant (fun _ _ h hok => h.step hok.1 hok.2) (.start hx hy hblank buf maxLen)
      ((hscroll.and herase).take n)
  exact ⟨hkept.shown, hkept.short⟩

/-- A blank screen, with the cursor in column `x` of its first row. -/
def promptAt (x : Nat) : Vga := vgaSetCursor x 0 (vgaClear ⟨⟨fun _ => 0, 0⟩, 0, 0, 7, 0⟩)

theorem promptAt_blank (x : Nat) {k : Nat} (hk : k < 2000) :
    (promptAt x).mem.val k = makeCell 0x20 (promptAt x).color := by
  have hin : 0 ≤ k ∧ k < 0 + vgaWidth * vgaHeight := by
    rw [vgaWidth, vgaHeight]
    omega
  simp only [promptAt, vgaSetCursor, Vga.updateCursor_mem, Vga.updateCursor_color]
  rw [vgaClear_mem, Cells.fill_val, if_pos hin, vgaClear, Vga.updateCursor_color]

theorem readline_shown_retyped :
    let s := run (readlineKey 8) (readlineStart (fun _ => 0) 8 (promptAt 5))
      (List.take 4 [0x61, 0x62, 0x08, 0x0A])
    LineShown (promptAt 5).pos s ∧ (0 < 8 → s.i < 8) := by
  have hscroll : Along (readlineKey 8) (NoScroll 8) (readlineStart (fun _ => 0) 8 (promptAt 5))
      [0x61, 0x62, 0x08, 0x0A] :=
    ⟨fun _ => ⟨by decide, fun _ _ _ => by decide⟩, fun _ => ⟨by decide, fun _ _ _ => by decide⟩,
      fun _ => ⟨by decide, fun _ _ _ => by decide⟩, fun _ => ⟨by decide, fun _ _ _ => by decide⟩,
      trivial⟩
  have herase : Along (readlineKey 8) (NoErase (promptAt 5).pos)
      (readlineStart (fun _ => 0) 8 (promptAt 5)) [0x61, 0x62, 0x08, 0x0A] :=
    ⟨nofun, nofun, fun _ _ => by decide, nofun, trivial⟩
  exact readline_shown (by decide) (by decide) (fun k _ hk => promptAt_blank 5 hk) (fun _ => 0) 8
    hscroll herase 4

/-- At the end of a row the console does not go back, and the character stays. -/
theorem readline_erases_nothing :
    Along (readlineKey 8) (NoScroll 8) (readlineStart (fun _ => 0) 8 (promptAt 79)) [0x61, 0x08] ∧
      ¬ LineShown (promptAt 79).pos
        (run (readlineKey 8) (readlineStart (fun _ => 0) 8 (promptAt 79)) [0x61, 0x08]) := by
  refine ⟨⟨fun _ => ⟨by decide, fun _ _ _ => by decide⟩,
    fun _ => ⟨by decide, fun _ h _ => absurd h (by decide)⟩, trivial⟩, fun h => ?_⟩
  exact absurd (h 0 (by decide)) (by decide +kernel)

end OsU
