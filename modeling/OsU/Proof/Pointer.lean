import OsU.Kernel.Mouse
import OsU.Lib.Runs

/-!
# The pointer moves as the mouse does

A packet's movements have nine bits, and the driver reads eight of them: the sign in the
first byte is not looked at. `pointer_motion_iff` says for which packets that makes no
difference. Where the pointer is on the screen before an event, it is after it
(`OnScreen.step`), whatever was sent.

What was sent is kept beside the driver (`wireStep`), so a packet is a packet of the
mouse, and what the driver has in its buffer has to be shown to be the same (`Carries`).
The wire is assumed to hold its format: a first byte has bit 3 set and no overflow. With
it the driver never loses its place.

Movements from -128 to 127 are the same in eight bits. Any other movement is read 256
away from what it is, and that is seen unless the screen is one point wide, or the byte
is zero, the movement is -256 and the pointer is at the edge it moves to. A movement
that fits can still go wrong: on a screen almost as wide as an `int` the sum leaves its
range and comes back at the other side.
-/

set_option autoImplicit false

namespace OsU

open Runs

/-! ## Packets on the wire -/

/-- The bytes of the packet that is being sent, after an event. -/
def received (sent : List UInt8) : MouseEvent → List UInt8
  | .irq status data =>
    if status &&& 0x20 = 0 then sent else if sent.length = 2 then [] else sent ++ [data]
  | _ => sent

/-- The driver beside what has been sent to it. -/
def wireStep (e : MouseEvent) (w : List UInt8 × Mouse) : List UInt8 × Mouse :=
  (received w.1 e, e.step w.2)

/-- A first byte has bit 3 set, and no overflow bit. -/
def Format (w : List UInt8 × Mouse) : MouseEvent → Prop
  | .irq status data =>
    status &&& 0x20 ≠ 0 → w.1 = [] → data &&& 0x08 ≠ 0 ∧ data &&& 0xC0 = 0
  | _ => True

/-- The event brings the last byte of the packet `b`, `x`, `y`. -/
def Completes (w : List UInt8 × Mouse) (e : MouseEvent) (b x y : UInt8) : Prop :=
  w.1 = [b, x] ∧ ∃ status, e = .irq status y ∧ status &&& 0x20 ≠ 0

/-- The movement in two's complement: its sign bit, and the byte below. -/
def movement (sign low : UInt8) : Int := low.toNat - if sign = 0 then 0 else 256

def movementX (b x : UInt8) : Int := movement (b &&& 0x10) x

def movementY (b y : UInt8) : Int := movement (b &&& 0x20) y

/-- The coordinate of the screen that is nearest. -/
def clampTo (size v : Int) : Int := max 0 (min v (size - 1))

/-- The packet that the event completes moves the pointer, as far as the screen goes.
The movements are those of the packet, all nine bits of them; the handler takes eight.
-/
def MovesPointer (w : List UInt8 × Mouse) (e : MouseEvent) : Prop :=
  ∀ b x y, Completes w e b x y →
    (e.step w.2).mouseX.toInt =
        clampTo w.2.screenW.toInt (w.2.mouseX.toInt + movementX b x) ∧
      (e.step w.2).mouseY.toInt =
        clampTo w.2.screenH.toInt (w.2.mouseY.toInt - movementY b y)

/-- The pointer is on the screen. -/
structure OnScreen (s : Mouse) : Prop where
  x : 0 ≤ s.mouseX.toInt ∧ s.mouseX.toInt < s.screenW.toInt
  y : 0 ≤ s.mouseY.toInt ∧ s.mouseY.toInt < s.screenH.toInt

/-! ## When eight bits are enough -/

/-- The byte of the packet has the movement in it: with its sign, or it is lost at the edge. -/
def FitsX (size v m : Int) : Prop :=
  (-128 ≤ m ∧ m < 128 ∧ v + m < 2 ^ 31) ∨ size = 1 ∨ (m = -256 ∧ v = 0)

/-- The same along the other axis, which is turned over: the mouse counts upwards and
the screen downwards. -/
def FitsY (size v m : Int) : Prop :=
  (-128 ≤ m ∧ m < 128 ∧ v - m < 2 ^ 31) ∨ size = 1 ∨ (m = -256 ∧ v = size - 1)

/-- The packet that the event completes has movements that fit. An event that completes
no packet asks for nothing. -/
def Fits (w : List UInt8 × Mouse) (e : MouseEvent) : Prop :=
  ∀ b x y, Completes w e b x y →
    FitsX w.2.screenW.toInt w.2.mouseX.toInt (movementX b x) ∧
      FitsY w.2.screenH.toInt w.2.mouseY.toInt (movementY b y)

theorem toInt_pred {size : Int32} (h : 0 < size.toInt) : (size - 1).toInt = size.toInt - 1 := by
  have hlt := size.toInt_lt
  rw [Int32.toInt_sub, Int32.toInt_one]
  exact Int.bmod_eq_of_le (by omega) (by omega)

theorem toInt_keepOn {size : Int32} (v : Int32) (h : 0 < size.toInt) :
    (Mouse.keepOn size v).toInt = clampTo size.toInt v.toInt := by
  have hlast := toInt_pred h
  have hzero : (0 : Int32).toInt = 0 := rfl
  rw [Mouse.keepOn, clampTo]
  simp only [ge_iff_le, Int32.lt_iff_toInt_lt, Int32.le_iff_toInt_le, hzero]
  split <;> split <;> omega

/-- The byte as the driver reads it. -/
theorem toInt_toInt8 (b : UInt8) :
    b.toInt8.toInt = if b.toNat < 128 then (b.toNat : Int) else b.toNat - 256 := by
  have hcond : b.toBitVec.toInt =
      if 2 * b.toNat < 2 ^ 8 then (b.toNat : Int) else b.toNat - (2 ^ 8 : Nat) :=
    BitVec.toInt_eq_toNat_cond _
  rw [← Int8.toInt_toBitVec, UInt8.toBitVec_toInt8, hcond]
  split <;> split <;> omega

/-- An `int` that has left its range by less than its size. The sum of a coordinate and
a byte leaves it at the upper end only. -/
theorem bmod_int {v : Int} (h : -2 ^ 31 ≤ v) (h' : v < 2 ^ 32) :
    v.bmod (2 ^ 32) = if v < 2 ^ 31 then v else v - 2 ^ 32 := by
  split
  · exact Int.bmod_eq_of_le (by omega) (by omega)
  · rw [← Int.sub_bmod_right]
    exact Int.bmod_eq_of_le (by omega) (by omega)

theorem clampTo_of_neg {size v : Int} (h : v < 0) : clampTo size v = 0 := by
  rw [clampTo]
  omega

theorem clampTo_of_ge {size v : Int} (hs : 0 < size) (h : size ≤ v) :
    clampTo size v = size - 1 := by
  rw [clampTo]
  omega

/-- The byte is the movement, or they are 256 apart. -/
theorem byte_cases (sign low : UInt8) :
    (-128 ≤ movement sign low ∧ movement sign low < 128 ∧
        low.toInt8.toInt = movement sign low) ∨
      (-256 ≤ movement sign low ∧ movement sign low < -128 ∧
        low.toInt8.toInt = movement sign low + 256) ∨
      (128 ≤ movement sign low ∧ movement sign low < 256 ∧
        low.toInt8.toInt = movement sign low - 256) := by
  have hlow := low.toNat_lt
  rw [toInt_toInt8, movement]
  split <;> split <;> omega

section Axis

variable {size v m : Int} (hv : 0 ≤ v ∧ v < size) (hs : size < 2 ^ 31)

include hv hs

/-- The byte is the movement. -/
theorem clampTo_same_iff (hm : -256 ≤ m ∧ m ≤ 256) :
    clampTo size ((v + m).bmod (2 ^ 32)) = clampTo size (v + m) ↔ v + m < 2 ^ 31 ∨ size = 1 := by
  have hpos := hv.1.trans_lt hv.2
  rw [bmod_int (by omega) (by omega)]
  split
  · rename_i hlt
    exact iff_of_true rfl (.inl hlt)
  · -- the sum leaves its range at the end of the screen and comes back at its beginning
    rw [clampTo_of_neg (by omega), clampTo_of_ge hpos (by omega)]
    omega

/-- The sign is lost. -/
theorem clampTo_low_iff (hm : -256 ≤ m ∧ m < -127) :
    clampTo size ((v + (m + 256)).bmod (2 ^ 32)) = clampTo size (v + m) ↔
      size = 1 ∨ (m = -256 ∧ v = 0) := by
  have hpos := hv.1.trans_lt hv.2
  rw [bmod_int (by omega) (by omega)]
  rw [clampTo, clampTo]
  split <;> omega

/-- A sign is read that was not sent. -/
theorem clampTo_high_iff (hm : 127 < m ∧ m ≤ 256) :
    clampTo size ((v + (m - 256)).bmod (2 ^ 32)) = clampTo size (v + m) ↔
      size = 1 ∨ (m = 256 ∧ v = size - 1) := by
  have hpos := hv.1.trans_lt hv.2
  rw [bmod_int (by omega) (by omega), if_pos (by omega), clampTo, clampTo]
  omega

variable (sign low : UInt8)

/-- **One axis**: what the driver makes of the byte is the movement if and only if it fits. -/
theorem clampTo_add_iff :
    clampTo size ((v + low.toInt8.toInt).bmod (2 ^ 32)) = clampTo size (v + movement sign low) ↔
      FitsX size v (movement sign low) := by
  rw [FitsX]
  rcases byte_cases sign low with ⟨hlo, hhi, hb⟩ | ⟨hlo, hhi, hb⟩ | ⟨hlo, hhi, hb⟩
  · rw [hb, clampTo_same_iff hv hs (by omega)]
    omega
  · rw [hb, clampTo_low_iff hv hs (by omega)]
    omega
  · rw [hb, clampTo_high_iff hv hs (by omega)]
    omega

/-- The other axis. -/
theorem clampTo_sub_iff :
    clampTo size ((v - low.toInt8.toInt).bmod (2 ^ 32)) = clampTo size (v - movement sign low) ↔
      FitsY size v (movement sign low) := by
  rw [FitsY, sub_eq_add_neg, sub_eq_add_neg]
  rcases byte_cases sign low with ⟨hlo, hhi, hb⟩ | ⟨hlo, hhi, hb⟩ | ⟨hlo, hhi, hb⟩
  · rw [hb, clampTo_same_iff hv hs (by omega)]
    omega
  · rw [hb, neg_add, ← sub_eq_add_neg (-movement sign low), clampTo_high_iff hv hs (by omega)]
    omega
  · rw [hb, neg_sub, sub_eq_neg_add, clampTo_low_iff hv hs (by omega)]
    omega

end Axis

/-! ## Staying on the screen -/

theorem clampTo_mem {size : Int} (h : 0 < size) (v : Int) :
    0 ≤ clampTo size v ∧ clampTo size v < size := by
  rw [clampTo]
  omega

/-- One axis of `mouse_set_bounds`: the new size is positive, and the pointer is moved
to the last point when it would be outside. -/
theorem bound_mem {size v : Int32} (n : Int32) (h : 0 ≤ v.toInt ∧ v.toInt < size.toInt) :
    0 < (if n > 0 then n else size).toInt ∧
      0 ≤ (if v ≥ (if n > 0 then n else size) then (if n > 0 then n else size) - 1 else v).toInt ∧
      (if v ≥ (if n > 0 then n else size) then (if n > 0 then n else size) - 1 else v).toInt <
        (if n > 0 then n else size).toInt := by
  have hpos : 0 < (if n > 0 then n else size).toInt := by
    split
    · rename_i hn
      exact Int32.lt_iff_toInt_lt.mp hn
    · omega
  generalize (if n > 0 then n else size) = bound at hpos
  refine ⟨hpos, ?_⟩
  split
  · rw [toInt_pred hpos]
    omega
  · rename_i hv
    rw [ge_iff_le, Int32.le_iff_toInt_le] at hv
    omega

theorem OnScreen.takePacket {s : Mouse} (h : OnScreen s) : OnScreen s.takePacket where
  x := by
    rw [Mouse.takePacket, toInt_keepOn _ (h.x.1.trans_lt h.x.2)]
    exact clampTo_mem (h.x.1.trans_lt h.x.2) _
  y := by
    rw [Mouse.takePacket, toInt_keepOn _ (h.y.1.trans_lt h.y.2)]
    exact clampTo_mem (h.y.1.trans_lt h.y.2) _

/-- `mouse_set_bounds`, field by field. -/
theorem setBounds_eq (width height : Int32) (s : Mouse) :
    s.setBounds width height =
      { s with
        screenW := if width > 0 then width else s.screenW
        screenH := if height > 0 then height else s.screenH
        mouseX :=
          if s.mouseX ≥ (if width > 0 then width else s.screenW) then
            (if width > 0 then width else s.screenW) - 1
          else s.mouseX
        mouseY :=
          if s.mouseY ≥ (if height > 0 then height else s.screenH) then
            (if height > 0 then height else s.screenH) - 1
          else s.mouseY } := by
  rw [Mouse.setBounds]
  by_cases hw : width > 0 <;> by_cases hh : height > 0 <;> simp only [hw, hh, if_true, if_false]
  all_goals
    split
    · dsimp only
      split <;> rfl
    · split <;> rfl

theorem OnScreen.setBounds {s : Mouse} (h : OnScreen s) (width height : Int32) :
    OnScreen (s.setBounds width height) := by
  rw [setBounds_eq]
  exact ⟨(bound_mem width h.x).2, (bound_mem height h.y).2⟩

/-- **Whatever happens, the pointer stays on the screen.** -/
theorem OnScreen.step {s : Mouse} (h : OnScreen s) (e : MouseEvent) : OnScreen (e.step s) := by
  cases e with
  | irq status data =>
    rw [MouseEvent.step, Mouse.irqHandler]
    split
    · exact h
    · split
      · exact h
      · dsimp only
        split
        · exact ⟨h.x, h.y⟩
        · exact OnScreen.takePacket ⟨h.x, h.y⟩
  | setBounds width height => exact h.setBounds width height
  | poll =>
    rw [MouseEvent.step, Mouse.poll]
    split
    · exact h
    · exact ⟨h.x, h.y⟩

/-- The pointer starts in the middle. -/
theorem onScreen_init {s : Mouse} (hw : 0 < s.screenW.toInt) (hh : 0 < s.screenH.toInt) :
    OnScreen s.init := by
  have hhalf : ∀ n : Int32, 0 < n.toInt → 0 ≤ (n / 2).toInt ∧ (n / 2).toInt < n.toInt := by
    intro n hn
    rw [Int32.toInt_div_of_ne_right _ _ (by decide), show (2 : Int32).toInt = 2 from rfl,
      Int.tdiv_eq_ediv_of_nonneg hn.le]
    omega
  exact ⟨hhalf _ hw, hhalf _ hh⟩

/-! ## From bytes to packets -/

/-- The driver has the bytes that were sent. -/
structure Carries (w : List UInt8 × Mouse) : Prop where
  screen : OnScreen w.2
  index : w.2.packetIndex = w.1.length
  short : w.1.length < 3
  bytes : (List.range w.1.length).map w.2.packet = w.1

/-- A byte is taken. -/
theorem irqHandler_byte {w : List UInt8 × Mouse} (h : Carries w) {status data : UInt8}
    (hs : status &&& 0x20 ≠ 0) (hf : Format w (.irq status data)) :
    w.2.irqHandler status data =
      if w.1.length < 2 then
        { w.2 with
          packet := Function.update w.2.packet w.1.length data
          packetIndex := w.1.length + 1 }
      else Mouse.takePacket { w.2 with
        packet := Function.update w.2.packet w.1.length data
        packetIndex := w.1.length + 1 } := by
  have hsync : ¬ (w.2.packetIndex = 0 ∧ data &&& 0x08 = 0) := by
    rintro ⟨hi, hd⟩
    exact (hf hs (List.eq_nil_of_length_eq_zero (h.index.symm.trans hi))).1 hd
  rw [Mouse.irqHandler, if_neg hs, if_neg hsync]
  simp only [h.index, Nat.add_lt_iff_lt_sub_right]

theorem Carries.step {w : List UInt8 × Mouse} (h : Carries w) {e : MouseEvent} (hf : Format w e) :
    Carries (wireStep e w) := by
  have hscreen := h.screen.step e
  cases e with
  | irq status data =>
    by_cases hs : status &&& 0x20 = 0
    · rw [wireStep, received, if_pos hs, MouseEvent.step, Mouse.irqHandler, if_pos hs]
      exact h
    · have hbyte := irqHandler_byte h hs hf
      have hshort := h.short
      rw [wireStep, received, if_neg hs, MouseEvent.step]
      rw [MouseEvent.step] at hscreen
      -- The byte is added to those that were sent, or it is the last one and the packet
      -- is taken.
      by_cases hmore : w.1.length < 2
      · rw [if_pos hmore] at hbyte
        rw [hbyte] at hscreen ⊢
        rw [if_neg (by omega)]
        refine ⟨hscreen, by simp, ?_, ?_⟩
        · rw [List.length_append, List.length_singleton]
          omega
        have hold : (List.range w.1.length).map (Function.update w.2.packet w.1.length data) =
            (List.range w.1.length).map w.2.packet :=
          List.map_congr_left fun i hi =>
            Function.update_of_ne (List.mem_range.mp hi).ne data w.2.packet
        show (List.range (w.1 ++ [data]).length).map (Function.update w.2.packet w.1.length data) =
          w.1 ++ [data]
        rw [List.length_append, List.length_singleton, List.range_succ, List.map_append, hold,
          h.bytes, List.map_singleton, Function.update_self]
      · rw [if_neg hmore] at hbyte
        rw [hbyte] at hscreen ⊢
        rw [if_pos (by omega)]
        exact ⟨hscreen, rfl, Nat.zero_lt_succ 2, rfl⟩
  | setBounds width height =>
    have hindex : (w.2.setBounds width height).packetIndex = w.2.packetIndex := by
      rw [setBounds_eq]
    have hpacket : (w.2.setBounds width height).packet = w.2.packet := by
      rw [setBounds_eq]
    exact ⟨hscreen, hindex.trans h.index, h.short,
      (congrArg (fun p => (List.range w.1.length).map p) hpacket).trans h.bytes⟩
  | poll =>
    have hindex : w.2.poll.2.packetIndex = w.2.packetIndex := by
      rw [Mouse.poll]
      split <;> rfl
    have hpacket : w.2.poll.2.packet = w.2.packet := by
      rw [Mouse.poll]
      split <;> rfl
    exact ⟨hscreen, hindex.trans h.index, h.short,
      (congrArg (fun p => (List.range w.1.length).map p) hpacket).trans h.bytes⟩

/-- The packet that is complete is the one that was sent. -/
theorem Carries.completes {w : List UInt8 × Mouse} (h : Carries w) {e : MouseEvent}
    (hf : Format w e) {b x y : UInt8} (hc : Completes w e b x y) :
    (e.step w.2).mouseX = Mouse.keepOn w.2.screenW (w.2.mouseX + x.toInt8.toInt32) ∧
      (e.step w.2).mouseY = Mouse.keepOn w.2.screenH (w.2.mouseY - y.toInt8.toInt32) := by
  obtain ⟨hw, status, rfl, hs⟩ := hc
  have hbytes := h.bytes
  rw [hw] at hbytes
  have hx : w.2.packet 1 = x := congrArg (fun l => l.getD 1 0) hbytes
  rw [MouseEvent.step, irqHandler_byte h hs hf, hw, if_neg (by simp)]
  simp [Mouse.takePacket, hx]

/-- A packet moves the pointer rightly if and only if its movements fit. -/
theorem Carries.movesPointer_iff {w : List UInt8 × Mouse} (h : Carries w) {e : MouseEvent}
    (hf : Format w e) : MovesPointer w e ↔ Fits w e := by
  refine forall_congr' fun b => forall_congr' fun x => forall_congr' fun y =>
    forall_congr' fun hc => ?_
  obtain ⟨hx, hy⟩ := h.completes hf hc
  have hw := h.screen.x.1.trans_lt h.screen.x.2
  have hh := h.screen.y.1.trans_lt h.screen.y.2
  rw [hx, hy, toInt_keepOn _ hw, toInt_keepOn _ hh, Int32.toInt_add, Int32.toInt_sub,
    Int8.toInt_toInt32, Int8.toInt_toInt32]
  exact and_congr (clampTo_add_iff h.screen.x (Int32.toInt_lt _) (b &&& 0x10) x)
    (clampTo_sub_iff h.screen.y (Int32.toInt_lt _) (b &&& 0x20) y)

/-! ## The run -/

/-- **Pointer motion.** Over packets and calls in any order the pointer is always on the screen, and
it goes where the mouse went if and only if every packet's movements fit. -/
theorem pointer_motion_iff {s : Mouse} (hs : OnScreen s) (hi : s.packetIndex = 0)
    {es : List MouseEvent} (hf : Along wireStep Format ([], s) es) :
    (Along wireStep MovesPointer ([], s) es ∧ ∀ k, OnScreen (run wireStep ([], s) (es.take k)).2) ↔
      Along wireStep Fits ([], s) es := by
  have hcarries : Carries ([], s) := ⟨hs, hi, by simp, rfl⟩
  have hiff : Along wireStep MovesPointer ([], s) es ↔ Along wireStep Fits ([], s) es :=
    along_congr (fun _ _ h hf => h.movesPointer_iff hf) (fun _ _ h hf => h.step hf) hcarries hf
  have hscreen : ∀ k, OnScreen (run wireStep ([], s) (es.take k)).2 := fun k =>
    run_of_step (P := fun w : List UInt8 × Mouse => OnScreen w.2) (fun _ e h => h.step e)
      (es.take k) hs
  exact ⟨fun h => hiff.mp h.1, fun h => ⟨hiff.mpr h, hscreen⟩⟩

/-- A packet, and new bounds before its last byte. -/
theorem pointer_motion_iff_resized :
    Along wireStep MovesPointer ([], Mouse.boot.init)
        [.irq 0x21 0x08, .irq 0x21 5, .setBounds 403 300, .irq 0x21 3] ∧
      ∀ k, OnScreen (run wireStep ([], Mouse.boot.init)
        (List.take k [.irq 0x21 0x08, .irq 0x21 5, .setBounds 403 300, .irq 0x21 3])).2 := by
  have hwire : Along wireStep Format ([], Mouse.boot.init)
      [.irq 0x21 0x08, .irq 0x21 5, .setBounds 403 300, .irq 0x21 3] :=
    ⟨fun _ _ => by decide, fun _ h => (nomatch h), trivial, fun _ h => (nomatch h), trivial⟩
  refine (pointer_motion_iff (onScreen_init (by decide) (by decide)) rfl hwire).mpr ?_
  refine ⟨?_, ?_, ?_, ?_, trivial⟩
  · rintro b x y ⟨hbytes, -⟩
    exact nomatch hbytes
  · rintro b x y ⟨hbytes, -⟩
    exact nomatch hbytes
  · rintro b x y ⟨-, status, he, -⟩
    exact nomatch he
  · rintro b x y ⟨hbytes, status, he, -⟩
    cases hbytes
    cases he
    exact ⟨.inl (by decide), .inl (by decide)⟩

/-- The mouse goes 200 to the left, and the pointer 56 to the right. -/
theorem pointer_turns_round :
    Along wireStep Format ([], Mouse.boot.init) [.irq 0x21 0x18, .irq 0x21 56, .irq 0x21 0] ∧
      ¬ Along wireStep MovesPointer ([], Mouse.boot.init)
        [.irq 0x21 0x18, .irq 0x21 56, .irq 0x21 0] := by
  refine ⟨⟨fun _ _ => by decide, fun _ h => (nomatch h), fun _ h => (nomatch h), trivial⟩, ?_⟩
  intro h
  have hmoved := (h.2.2.1 0x18 56 0 ⟨rfl, 0x21, rfl, by decide⟩).1
  exact absurd hmoved (by decide)

end OsU
