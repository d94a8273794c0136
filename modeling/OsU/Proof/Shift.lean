import OsU.Proof.KeyQueue

/-!
# The shift keys

The driver keeps one flag for two keys: it is set by a press of either and cleared by a release of
either. So it stands for "the last shift stroke was a press", and that is what a character key
sees: the shifted character is missed while one shift key is still held after the other was
released. The second way to get a wrong character is the release code of key 0x60, which is the
prefix byte 0xE0, and the third is not about the keys at all: with 255 characters in the ring
`enqueue_char` drops the next one.

What the handler is asked for is the ring behind the stroke (`Enqueues`), not the character that it
has come to: a handler that decodes every stroke and forgets to put the character in the ring does
not track the shift keys. Between the strokes a reader may take characters out, so that the ring
need not fill up.
-/

set_option autoImplicit false

namespace OsU

open Runs CString

inductive ShiftKey where
  | left
  | right
  deriving DecidableEq, Repr

/-- A key that is not a shift key, by its make code. Make codes have the top bit clear;
whether the tables have a character for the key is left open. -/
structure CharKey where
  code : UInt8
  lt : code < 0x80
  ne_left : code ≠ 0x2A
  ne_right : code ≠ 0x36

inductive Key where
  | shift (s : ShiftKey)
  | char (c : CharKey)

inductive Stroke where
  | press (key : Key)
  | release (key : Key)

def Key.make : Key → UInt8
  | .shift .left => 0x2A
  | .shift .right => 0x36
  | .char c => c.code

/-- The byte the keyboard sends. -/
def Stroke.scancode : Stroke → UInt8
  | .press key => key.make
  | .release key => key.make ||| 0x80

/-- What the strokes so far say of the keys. The first field is what the hands do; the
other two are what the driver could know, and they are kept here to be compared with its
flags. -/
structure Hands where
  /-- The shift keys held down. -/
  held : ShiftKey → Bool
  /-- The last stroke of a shift key was a press. -/
  pressed : Bool
  /-- The last stroke was the release of key 0x60. -/
  prefixed : Bool

def Hands.idle : Hands := ⟨fun _ => false, false, false⟩

def Hands.stroke (h : Hands) : Stroke → Hands
  | .press (.shift s) => ⟨Function.update h.held s true, true, false⟩
  | .release (.shift s) => ⟨Function.update h.held s false, false, false⟩
  | .press (.char _) => { h with prefixed := false }
  | .release (.char c) => { h with prefixed := c.code == 0x60 }

/-- At least one shift key is held down. -/
def Hands.Shifted (h : Hands) : Prop := ∃ s, h.held s = true

instance (h : Hands) : Decidable h.Shifted :=
  decidable_of_iff (h.held .left = true ∨ h.held .right = true)
    ⟨fun hs => hs.elim (fun hl => ⟨.left, hl⟩) fun hr => ⟨.right, hr⟩,
      fun ⟨s, hs⟩ => by cases s with
        | left => exact Or.inl hs
        | right => exact Or.inr hs⟩

/-- The entry of the table the keys held down call for. -/
def Hands.char (h : Hands) (c : CharKey) : UInt8 :=
  if h.Shifted then mapShift.getD c.code.toNat 0 else mapNormal.getD c.code.toNat 0

/-- A stroke, delivered to the driver. -/
def strike (e : Stroke) (s : Keyboard × Hands) : Keyboard × Hands :=
  (s.1.irqHandler e.scancode, s.2.stroke e)

/-- What comes to the driver. `dequeue_char` is one event here: its only statement that changes the
driver is the last, and what it finds before stays there until then (`KeyRun.Inv`). -/
inductive KeyInput where
  | stroke (e : Stroke)
  | take

def KeyInput.step : KeyInput → Keyboard × Hands → Keyboard × Hands
  | .stroke e, s => strike e s
  | .take, s => (s.1.dequeueChar.2, s.2)

/-- The ring is left as it was. -/
structure SameRing (k k' : Keyboard) : Prop where
  buf : k'.kbdBuf = k.kbdBuf
  head : k'.kbdHead = k.kbdHead
  tail : k'.kbdTail = k.kbdTail

/-- A character is in the ring behind those that were there. -/
structure PutBehind (c : UInt8) (k k' : Keyboard) : Prop where
  buf : k'.kbdBuf = Function.update k.kbdBuf k.kbdHead c
  head : k'.kbdHead = (k.kbdHead + 1) % kbdBufSize
  tail : k'.kbdTail = k.kbdTail

/-- The press of a character key puts the character in the ring that the shift keys call for, if
there is one; every other stroke leaves the ring. -/
def Enqueues (s : Keyboard × Hands) : KeyInput → Prop
  | .stroke (.press (.char c)) =>
    if s.2.char c = 0 then SameRing s.1 (s.1.irqHandler c.code)
    else PutBehind (s.2.char c) s.1 (s.1.irqHandler c.code)
  | .stroke e => SameRing s.1 (s.1.irqHandler e.scancode)
  | .take => True

/-- No character key is pressed while a shift key is held and the last shift stroke was
a release, unless the two tables agree on it; and behind the release of key 0x60 only
keys without a character. These are conditions on the strokes, and the driver is not
mentioned. -/
def Hands.Clear (h : Hands) : Stroke → Prop
  | .press (.char c) =>
    if h.prefixed then extendedChar c.code = 0 ∧ mapNormal.getD c.code.toNat 0 = 0
    else (h.Shifted → h.pressed = true) ∨
      mapShift.getD c.code.toNat 0 = mapNormal.getD c.code.toNat 0
  | _ => True

/-- Fewer than 255 characters wait and the key is pressed in the clear; or 255 do, and the key has
no character. -/
def KeyInput.Clear (s : Keyboard × Hands) : KeyInput → Prop
  | .stroke (.press (.char c)) =>
    if s.1.Rejects then s.2.char c = 0 else s.2.Clear (.press (.char c))
  | _ => True

/-! ## What the handler does at a stroke -/

/-- The scan codes of a character key, among those the handler tests for. -/
theorem charKey_codes (c : CharKey) :
    c.code ≠ 0xE0 ∧ c.code ≠ 0xAA ∧ c.code ≠ 0xB6 ∧ c.code &&& 0x80 = 0 ∧
      (c.code ||| 0x80 = 0xE0 ↔ c.code = 0x60) ∧
      c.code ||| 0x80 ≠ 0x2A ∧ c.code ||| 0x80 ≠ 0x36 ∧ c.code ||| 0x80 ≠ 0xAA ∧
      c.code ||| 0x80 ≠ 0xB6 ∧ (c.code ||| 0x80) &&& 0x80 ≠ 0 :=
  forall_byte (p := fun b => b < 0x80 → b ≠ 0x2A → b ≠ 0x36 →
    b ≠ 0xE0 ∧ b ≠ 0xAA ∧ b ≠ 0xB6 ∧ b &&& 0x80 = 0 ∧ (b ||| 0x80 = 0xE0 ↔ b = 0x60) ∧
      b ||| 0x80 ≠ 0x2A ∧ b ||| 0x80 ≠ 0x36 ∧ b ||| 0x80 ≠ 0xAA ∧ b ||| 0x80 ≠ 0xB6 ∧
      (b ||| 0x80) &&& 0x80 ≠ 0) (by decide +kernel) c.code c.lt c.ne_left c.ne_right

/-- A key has a shifted character if it has one at all, and the keys that have another behind the
prefix have none without it. -/
theorem charMaps (b : UInt8) :
    (mapShift.getD b.toNat 0 = 0 ↔ mapNormal.getD b.toNat 0 = 0) ∧
      (extendedChar b ≠ 0 → mapNormal.getD b.toNat 0 = 0) :=
  forall_byte (p := fun b => (mapShift.getD b.toNat 0 = 0 ↔ mapNormal.getD b.toNat 0 = 0) ∧
    (extendedChar b ≠ 0 → mapNormal.getD b.toNat 0 = 0)) (by decide +kernel) b

section Handler

variable (k : Keyboard)

theorem Keyboard.decode_press (c : CharKey) :
    k.decode c.code =
      if k.extendedKey ≠ 0 then (extendedChar c.code, { k with extendedKey := 0 })
      else (if k.shiftDown ≠ 0 then mapShift.getD c.code.toNat 0
        else mapNormal.getD c.code.toNat 0, k) := by
  obtain ⟨he0, haa, hb6, hlow, -⟩ := charKey_codes c
  unfold Keyboard.decode
  rw [if_neg he0, if_neg (not_or.mpr ⟨c.ne_left, c.ne_right⟩), if_neg (not_or.mpr ⟨haa, hb6⟩),
    if_neg (not_not.mpr hlow)]

theorem Keyboard.decode_release (c : CharKey) :
    k.decode (c.code ||| 0x80) = (0, { k with extendedKey := if c.code = 0x60 then 1 else 0 }) := by
  obtain ⟨-, -, -, -, he0, h2a, h36, haa, hb6, hhigh⟩ := charKey_codes c
  unfold Keyboard.decode
  by_cases h60 : c.code = 0x60
  · rw [if_pos (he0.mpr h60), if_pos h60]
  · rw [if_neg fun h => h60 (he0.mp h), if_neg (not_or.mpr ⟨h2a, h36⟩),
      if_neg (not_or.mpr ⟨haa, hb6⟩), if_pos hhigh, if_neg h60]

theorem Keyboard.decode_shift (s : ShiftKey) :
    k.decode (Key.shift s).make = (0, { k with shiftDown := 1, extendedKey := 0 }) ∧
      k.decode ((Key.shift s).make ||| 0x80) = (0, { k with shiftDown := 0, extendedKey := 0 }) := by
  cases s with
  | left => exact ⟨rfl, rfl⟩
  | right => exact ⟨rfl, rfl⟩

/-- Putting a character in the buffer does not touch the flags. -/
theorem Keyboard.enqueueChar_flags (c : UInt8) :
    (k.enqueueChar c).shiftDown = k.shiftDown ∧ (k.enqueueChar c).extendedKey = k.extendedKey := by
  by_cases hfull : (k.kbdHead + 1) % kbdBufSize = k.kbdTail
  · rw [show k.enqueueChar c = k from if_pos hfull]
    exact ⟨rfl, rfl⟩
  · rw [show k.enqueueChar c = _ from if_neg hfull]
    exact ⟨rfl, rfl⟩

theorem Keyboard.irqHandler_flags (scancode : UInt8) :
    (k.irqHandler scancode).shiftDown = (k.decode scancode).2.shiftDown ∧
      (k.irqHandler scancode).extendedKey = (k.decode scancode).2.extendedKey := by
  by_cases hc : (k.decode scancode).1 ≠ 0
  · rw [show k.irqHandler scancode = _ from if_pos hc]
    exact Keyboard.enqueueChar_flags _ _
  · rw [show k.irqHandler scancode = _ from if_neg hc]
    exact ⟨rfl, rfl⟩

end Handler

/-! ## The flags along a run -/

/-- The flags say what the last strokes were. This is kept by every stroke, also by
those at which a wrong character is put in the ring. -/
structure Tracks (s : Keyboard × Hands) : Prop where
  shift : s.1.shiftDown ≠ 0 ↔ s.2.pressed = true
  extended : s.1.extendedKey ≠ 0 ↔ s.2.prefixed = true
  held : s.2.pressed = true → s.2.Shifted

theorem Tracks.boot (buf : Nat → UInt8) : Tracks (keyboardInit buf, .idle) where
  shift := by simp [keyboardInit, Hands.idle]
  extended := by simp [keyboardInit, Hands.idle]
  held := nofun

/-- Behind the prefix the extended character is the right one only for a key that has none. -/
theorem Hands.char_eq_extended (h : Hands) (c : CharKey) :
    extendedChar c.code = h.char c ↔
      extendedChar c.code = 0 ∧ mapNormal.getD c.code.toNat 0 = 0 := by
  obtain ⟨hshift, hext⟩ := charMaps c.code
  have hchar : h.char c = 0 ↔ mapNormal.getD c.code.toNat 0 = 0 := by
    unfold Hands.char
    split
    · exact hshift
    · exact Iff.rfl
  constructor
  · intro heq
    by_cases hzero : extendedChar c.code = 0
    · exact ⟨hzero, hchar.mp (heq ▸ hzero)⟩
    · exact absurd (heq.trans (hchar.mpr (hext hzero))) hzero
  · rintro ⟨hzero, hnone⟩
    rw [hzero, hchar.mpr hnone]

/-- The flag chooses the right table if it says that a shift key is held, or the tables agree. -/
theorem Hands.char_eq_flagged (h : Hands) (c : CharKey) (hp : h.pressed = true → h.Shifted) :
    (if h.pressed = true then mapShift.getD c.code.toNat 0
        else mapNormal.getD c.code.toNat 0) = h.char c ↔
      (h.Shifted → h.pressed = true) ∨
        mapShift.getD c.code.toNat 0 = mapNormal.getD c.code.toNat 0 := by
  unfold Hands.char
  by_cases hpressed : h.pressed = true
  · rw [if_pos hpressed, if_pos (hp hpressed)]
    exact iff_of_true rfl (Or.inl fun _ => hpressed)
  · rw [if_neg hpressed]
    by_cases hs : h.Shifted
    · rw [if_pos hs]
      exact ⟨fun heq => Or.inr heq.symm, fun hor => (hor.resolve_left fun hx => hpressed (hx hs)).symm⟩
    · rw [if_neg hs]
      exact iff_of_true rfl (Or.inl fun hx => absurd hx hs)

/-- **One stroke keeps the flags in step.** -/
theorem Tracks.strike {s : Keyboard × Hands} (h : Tracks s) (e : Stroke) :
    Tracks (strike e s) := by
  obtain ⟨k, hands⟩ := s
  have hflags := k.irqHandler_flags e.scancode
  -- Only `decode` matters here: the buffer of the keyboard has no part in it.
  suffices hdec : Tracks ((k.decode e.scancode).2, hands.stroke e) from
    ⟨hflags.1 ▸ hdec.shift, hflags.2 ▸ hdec.extended, hdec.held⟩
  cases e with
  | press key =>
    cases key with
    | shift sk =>
      have hd : (k.decode (Stroke.press (.shift sk)).scancode).2 = _ :=
        congrArg Prod.snd (k.decode_shift sk).1
      rw [hd]
      refine ⟨by simp [Hands.stroke], by simp [Hands.stroke], fun _ => ⟨sk, ?_⟩⟩
      exact Function.update_self _ _ _
    | char c =>
      have hd : (k.decode (Stroke.press (.char c)).scancode).2 = { k with extendedKey := 0 } := by
        change (k.decode c.code).2 = _
        rw [k.decode_press]
        by_cases hext : k.extendedKey ≠ 0
        · rw [if_pos hext]
        · rw [if_neg hext]
          rw [not_not] at hext
          change k = _
          rw [← hext]
      rw [hd]
      exact ⟨h.shift, by simp [Hands.stroke], h.held⟩
  | release key =>
    cases key with
    | shift sk =>
      have hd : (k.decode (Stroke.release (.shift sk)).scancode).2 = _ :=
        congrArg Prod.snd (k.decode_shift sk).2
      rw [hd]
      exact ⟨by simp [Hands.stroke], by simp [Hands.stroke], nofun⟩
    | char c =>
      have hd : (k.decode (Stroke.release (.char c)).scancode).2 = _ :=
        congrArg Prod.snd (k.decode_release c)
      rw [hd]
      refine ⟨h.shift, ?_, h.held⟩
      -- The release of key 0x60 is the prefix of an extended key.
      by_cases h60 : c.code = 0x60 <;> simp [Hands.stroke, h60]

/-- The character that the handler comes to is the right one exactly when the way is
clear. Two cases: behind the prefix the extended table is used, and otherwise the flag
chooses between the two tables. -/
theorem Tracks.decode_char_iff {k : Keyboard} {hands : Hands} (h : Tracks (k, hands))
    (c : CharKey) : (k.decode c.code).1 = hands.char c ↔ hands.Clear (.press (.char c)) := by
  simp only [Hands.Clear]
  rw [k.decode_press]
  by_cases hpre : hands.prefixed = true
  · rw [if_pos (h.extended.mpr hpre), if_pos hpre]
    exact hands.char_eq_extended c
  · rw [if_neg fun hx => hpre (h.extended.mp hx), if_neg hpre]
    have hflag : (k.shiftDown ≠ 0) = (hands.pressed = true) := propext h.shift
    simp only [hflag]
    exact hands.char_eq_flagged c h.held

/-! ## The ring behind a stroke -/

section Ring

variable (k : Keyboard)

/-- The handler puts in the ring what it has decoded, unless that is nothing or there is no room. -/
theorem Keyboard.irqHandler_ring (scancode : UInt8) :
    ((k.decode scancode).1 = 0 ∨ k.Rejects → SameRing k (k.irqHandler scancode)) ∧
      ((k.decode scancode).1 ≠ 0 → ¬ k.Rejects →
        PutBehind (k.decode scancode).1 k (k.irqHandler scancode)) := by
  obtain ⟨hbuf, hhead, htail⟩ := k.decode_ring scancode
  have hrej : (k.decode scancode).2.Rejects ↔ k.Rejects := by
    unfold Keyboard.Rejects
    rw [hhead, htail]
  unfold Keyboard.irqHandler
  dsimp only
  by_cases hc : (k.decode scancode).1 = 0
  · rw [if_neg (not_not.mpr hc)]
    exact ⟨fun _ => ⟨hbuf, hhead, htail⟩, fun h => absurd hc h⟩
  · rw [if_pos hc]
    by_cases hr : k.Rejects
    · rw [Keyboard.enqueueChar_rejects (hrej.mpr hr)]
      exact ⟨fun _ => ⟨hbuf, hhead, htail⟩, fun _ h => absurd hr h⟩
    · rw [Keyboard.enqueueChar_accepts fun h => hr (hrej.mp h)]
      refine ⟨fun h => absurd h (not_or.mpr ⟨hc, hr⟩), fun _ _ => ⟨?_, ?_, htail⟩⟩
      · dsimp only
        rw [hbuf, hhead]
      · dsimp only
        rw [hhead]

/-- A character put in the ring moves the head. -/
theorem PutBehind.not_same {c : UInt8} {k k' : Keyboard} (h : PutBehind c k k') :
    ¬ SameRing k k' := by
  intro hsame
  have hhead := h.head.symm.trans hsame.head
  unfold kbdBufSize at hhead
  omega

theorem PutBehind.char_eq {c c' : UInt8} {k k' : Keyboard} (h : PutBehind c k k')
    (h' : PutBehind c' k k') : c = c' := by
  have hcell := congrFun (h.buf.symm.trans h'.buf) k.kbdHead
  rwa [Function.update_self, Function.update_self] at hcell

/-- The ring behind a press is the one that is called for if the character is, and there is room;
without room, only if there is no character to put in. -/
theorem Keyboard.irqHandler_puts_iff (scancode c : UInt8) :
    (if c = 0 then SameRing k (k.irqHandler scancode)
        else PutBehind c k (k.irqHandler scancode)) ↔
      if k.Rejects then c = 0 else (k.decode scancode).1 = c := by
  obtain ⟨hsame, hput⟩ := k.irqHandler_ring scancode
  by_cases hr : k.Rejects
  · rw [if_pos hr]
    have hleft := hsame (.inr hr)
    split
    · rename_i hc
      exact iff_of_true hleft hc
    · rename_i hc
      exact iff_of_false (fun h => h.not_same hleft) hc
  · rw [if_neg hr]
    by_cases hd : (k.decode scancode).1 = 0
    · have hleft := hsame (.inl hd)
      rw [hd]
      split
      · rename_i hc
        exact iff_of_true hleft hc.symm
      · rename_i hc
        exact iff_of_false (fun h => h.not_same hleft) fun h => hc h.symm
    · have hin := hput hd hr
      split
      · rename_i hc
        exact iff_of_false (fun h => hin.not_same h) fun h => hd (h.trans hc)
      · exact ⟨fun h => hin.char_eq h, fun h => h ▸ hin⟩

end Ring

/-- The other strokes never touch the ring. -/
theorem strike_sameRing (k : Keyboard) {e : Stroke} (he : ∀ c, e ≠ .press (.char c)) :
    SameRing k (k.irqHandler e.scancode) := by
  refine (k.irqHandler_ring e.scancode).1 (.inl ?_)
  cases e with
  | press key =>
    cases key with
    | shift s => exact congrArg Prod.fst (k.decode_shift s).1
    | char c => exact absurd rfl (he c)
  | release key =>
    cases key with
    | shift s => exact congrArg Prod.fst (k.decode_shift s).2
    | char c => exact congrArg Prod.fst (k.decode_release c)

/-- **One step of the driver** does to the ring what the shift keys call for, exactly when the way
is clear. -/
theorem Tracks.enqueues_iff {s : Keyboard × Hands} (h : Tracks s) (i : KeyInput) :
    Enqueues s i ↔ i.Clear s := by
  cases i with
  | take => exact Iff.rfl
  | stroke e =>
    cases e with
    | release key => exact iff_of_true (strike_sameRing s.1 fun _ h => by cases h) trivial
    | press key =>
      cases key with
      | shift sk => exact iff_of_true (strike_sameRing s.1 fun _ h => by cases h) trivial
      | char c =>
        refine (s.1.irqHandler_puts_iff c.code (s.2.char c)).trans ?_
        simp only [KeyInput.Clear]
        split
        · exact Iff.rfl
        · exact h.decode_char_iff c

/-- A reader does not touch the flags. -/
theorem Tracks.step {s : Keyboard × Hands} (h : Tracks s) (i : KeyInput) : Tracks (i.step s) := by
  cases i with
  | stroke e => exact h.strike e
  | take =>
    obtain ⟨k, hands⟩ := s
    change Tracks (k.dequeueChar.2, hands)
    unfold Keyboard.dequeueChar
    split
    · exact h
    · exact ⟨h.shift, h.extended, h.held⟩

/-- **Shift tracking.** In a run of strokes and reads, every press of a character key
puts in the ring the character that the shift keys held down call for, exactly when each
is pressed in the clear and finds room. The ring is the whole conclusion: its cells, its
head and its tail. -/
theorem shift_tracking_iff (buf : Nat → UInt8) (is : List KeyInput) :
    Along KeyInput.step Enqueues (keyboardInit buf, .idle) is ↔
      Along KeyInput.step (fun s i => i.Clear s) (keyboardInit buf, .idle) is :=
  along_iff (P := Tracks) (fun _ i h => h.enqueues_iff i) (fun _ i h _ => h.step i) (.boot buf)

/-- The key A. -/
def keyA : CharKey := ⟨0x1E, by decide, by decide, by decide⟩

/-- Both shift keys down, the left one up again: A puts the small letter in the ring. -/
theorem shift_lost :
    ¬ Along KeyInput.step Enqueues (keyboardInit fun _ => 0, .idle)
      [.stroke (.press (.shift .left)), .stroke (.press (.shift .right)),
        .stroke (.release (.shift .left)), .stroke (.press (.char keyA))] := by
  rintro ⟨-, -, -, hA, -⟩
  simp only [Enqueues] at hA
  rw [if_neg (by decide)] at hA
  have hcell := congrFun hA.buf 0
  exact absurd hcell (by decide)

end OsU
