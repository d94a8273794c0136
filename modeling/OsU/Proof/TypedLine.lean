import OsU.Kernel.Readline
import OsU.Proof.KeyQueue
import OsU.Proof.Shift

/-!
# From the keys to the line

Three parts work at once: the interrupt handler turns strokes into characters,
`dequeue_char` takes them out of the ring a statement at a time, and `keyboard_readline`
edits its line with each one it is given. `LineRun.Inv` is what holds between any two
steps of them: what was typed is what the reader has been given and what the ring holds,
and the line is the reader's part of it, edited.

The invariant is the conjunction of three that are proved elsewhere, of the ring, of the
shift flags and of the line, and each event is taken by the one it is about. The strokes
are made by hands of which only the keys they hold down are known, so what is typed is a
function of the strokes alone (`typed`), whatever the driver makes of them.

What is asked of a stroke is that it is not misread and finds room (`Ready`). The second
half does without the first of these: it gives for every printable text the strokes that
type it, with one shift key, and these are never misread (`typeText_typed`).
-/

set_option autoImplicit false

namespace OsU

open Runs CString

/-! ## Editing a line -/

/-- What a key does to the line, and whether the line is finished. It is the reader's
part of `keyboard_readline` without the buffer and the screen. -/
def editKey (maxLen : Nat) (c : UInt8) (l : List UInt8 × Bool) : List UInt8 × Bool :=
  if l.2 then l
  else if c = 0x0A then (l.1, true)
  else if c = 0x08 then (l.1.dropLast, false)
  else if l.1.length + 1 < maxLen ∧ 32 ≤ c ∧ c ≤ 126 then (l.1 ++ [c], false)
  else l

/-- The line after some keys: Enter finishes it, backspace takes the last character
away, and a printable character is added while there is room for a terminator behind it.
-/
def editLine (maxLen : Nat) (cs : List UInt8) : List UInt8 × Bool := run (editKey maxLen) ([], false) cs

theorem editLine_append (maxLen : Nat) (cs : List UInt8) (c : UInt8) :
    editLine maxLen (cs ++ [c]) = editKey maxLen c (editLine maxLen cs) := by
  unfold editLine
  generalize (([], false) : List UInt8 × Bool) = l
  induction cs generalizing l with
  | nil => rfl
  | cons d cs ih => exact ih (editKey maxLen d l)

/-- The buffer of `keyboard_readline` holds the line, with its terminator when it is finished. -/
structure LineHolds (s : Readline) (l : List UInt8 × Bool) : Prop where
  line : s.buf.toList s.i = l.1
  returned : s.returned = l.2
  terminated : l.2 = true → s.buf s.i = 0

theorem LineHolds.i_eq {s : Readline} {l : List UInt8 × Bool} (h : LineHolds s l) :
    s.i = l.1.length := by
  rw [← h.line, ByteMem.length_toList]

/-- **One key**, of any kind. -/
theorem LineHolds.key {s : Readline} {l : List UInt8 × Bool} (h : LineHolds s l) (maxLen : Nat)
    (c : UInt8) : LineHolds (readlineKey maxLen c s) (editKey maxLen c l) := by
  have hi := h.i_eq
  unfold readlineKey editKey
  rw [h.returned]
  by_cases hdone : l.2 = true
  · rw [if_pos hdone, if_pos hdone]
    exact h
  have hgoing : l.2 = false := Bool.eq_false_iff.mpr hdone
  rw [if_neg hdone, if_neg hdone]
  -- A carriage return is passed over, Enter ends the line, BACKSPACE takes a character
  -- off it, and any other key adds one while there is room.
  by_cases hcr : c = 0x0D
  · rw [if_pos hcr, hcr, if_neg (by decide), if_neg (by decide),
      if_neg (fun hp => absurd hp.2.1 (by decide))]
    exact h
  rw [if_neg hcr]
  by_cases hn : c = 0x0A
  · rw [if_pos hn, if_pos hn]
    refine ⟨?_, rfl, fun _ => if_pos rfl⟩
    rw [← h.line]
    exact ByteMem.toList_congr fun j hj => if_neg (Nat.ne_of_lt hj)
  rw [if_neg hn, if_neg hn]
  by_cases hb : c = 0x08
  · rw [if_pos hb, if_pos hb]
    split
    · rename_i hpos
      obtain ⟨n, hn⟩ := Nat.exists_eq_succ_of_ne_zero (Nat.ne_of_gt hpos)
      refine ⟨?_, hgoing, nofun⟩
      have hline := h.line
      rw [hn, ByteMem.toList_add s.buf n 1] at hline
      change s.buf.toList (s.i - 1) = l.1.dropLast
      rw [← hline, hn, Nat.succ_sub_one]
      exact (List.dropLast_concat ..).symm
    · have hnil : l.1 = [] := List.length_eq_zero_iff.mp (by omega)
      refine ⟨?_, h.returned.trans hgoing, nofun⟩
      rw [h.line, hnil]
      rfl
  rw [if_neg hb, if_neg hb, hi]
  split
  · refine ⟨?_, hgoing, nofun⟩
    have hline : s.buf.toList l.1.length = l.1 := hi ▸ h.line
    have hfront : ByteMem.toList (s.buf.put l.1.length c) l.1.length = l.1 :=
      (ByteMem.toList_congr fun j hj => if_neg (Nat.ne_of_lt hj)).trans hline
    change ByteMem.toList (s.buf.put l.1.length c) (l.1.length + 1) = l.1 ++ [c]
    rw [ByteMem.toList_add _ l.1.length 1, hfront]
    exact congrArg (l.1 ++ [·]) (if_pos rfl)
  · exact h

/-! ## The parts together -/

/-- The driver with its reader, what the strokes say of the keys, and the line. -/
structure LineRun where
  keys : KeyRun
  hands : Hands
  line : Readline

/-- The interrupt handler runs whole; the reader is seen a statement of `dequeue_char` at a time. -/
inductive LineEvent where
  | stroke (e : Stroke)
  | statement

/-- The reader's next statement, until `keyboard_readline` has returned. -/
def LineRun.statement (maxLen : Nat) (r : LineRun) : LineRun :=
  if r.line.returned then r
  else
    { r with
      keys := r.keys.step .statement
      line := match (r.keys.consumer.next r.keys.kbd).2.2 with
        | none => r.line
        | some c => readlineKey maxLen c r.line }

def LineRun.step (maxLen : Nat) : LineEvent → LineRun → LineRun
  | .stroke e, r => { r with keys := r.keys.scan e.scancode, hands := r.hands.stroke e }
  | .statement, r => r.statement maxLen

/-- After `keyboard_init`, as `keyboard_readline` is called. -/
def LineRun.boot (kbdBuf : Nat → UInt8) (buf : ByteMem) (maxLen : Nat) (vga : Vga) : LineRun :=
  ⟨.boot kbdBuf, .idle, readlineStart buf maxLen vga⟩

/-- What a stroke types. -/
def Hands.types (h : Hands) : Stroke → List UInt8
  | .press (.char c) => if h.char c = 0 then [] else [h.char c]
  | _ => []

/-- What strokes type, one after the other. -/
def typed : Hands → List Stroke → List UInt8
  | _, [] => []
  | h, e :: es => h.types e ++ typed (h.stroke e) es

/-- The strokes of a run. -/
def strokesOf : List LineEvent → List Stroke
  | [] => []
  | .stroke e :: es => e :: strokesOf es
  | .statement :: es => strokesOf es

/-- A stroke is made in the clear, and the ring has room for what it types. It is a
condition on the state before the stroke; statements of the reader are under none. -/
def LineRun.Ready (r : LineRun) : LineEvent → Prop
  | .stroke e => r.hands.Clear e ∧ (r.hands.types e ≠ [] → ¬ r.keys.kbd.Rejects)
  | .statement => True

theorem Tracks.decode_types {k : Keyboard} {h : Hands} (ht : Tracks (k, h)) {e : Stroke}
    (hc : h.Clear e) :
    h.types e = if (k.decode e.scancode).1 = 0 then [] else [(k.decode e.scancode).1] := by
  cases e with
  | press key =>
    cases key with
    | shift s =>
      have hd : (k.decode (Stroke.press (.shift s)).scancode).1 = 0 :=
        congrArg Prod.fst (k.decode_shift s).1
      rw [hd]
      rfl
    | char c =>
      have hd : (k.decode c.code).1 = h.char c := (ht.decode_char_iff c).mpr hc
      change (if h.char c = 0 then [] else [h.char c]) =
        if (k.decode c.code).1 = 0 then [] else [(k.decode c.code).1]
      rw [hd]
  | release key =>
    have hd : (k.decode (Stroke.release key).scancode).1 = 0 := by
      cases key with
      | shift s => exact congrArg Prod.fst (k.decode_shift s).2
      | char c => exact congrArg Prod.fst (k.decode_release c)
    rw [hd]
    rfl

/-- What holds between two steps: `held` is in the ring, the flags say what the last
strokes were, and the buffer has the line that the returned characters make. -/
structure LineRun.Inv (maxLen : Nat) (r : LineRun) (held : List UInt8) : Prop where
  ring : r.keys.Inv held
  tracks : Tracks (r.keys.kbd, r.hands)
  line : LineHolds r.line (editLine maxLen r.keys.returned)

section Steps

variable {maxLen : Nat} {r : LineRun} {held : List UInt8}

theorem LineRun.Inv.boot (kbdBuf : Nat → UInt8) (buf : ByteMem) (hmax : 0 < maxLen) (vga : Vga) :
    (LineRun.boot kbdBuf buf maxLen vga).Inv maxLen [] where
  ring := .boot kbdBuf
  tracks := .boot kbdBuf
  line := ⟨rfl, decide_eq_false (Nat.ne_of_gt hmax), nofun⟩

/-- **A stroke** puts what it types behind the others. -/
theorem LineRun.Inv.stroke (h : r.Inv maxLen held) {e : Stroke} (hr : r.Ready (.stroke e)) :
    (r.step maxLen (.stroke e)).Inv maxLen (held ++ r.hands.types e) ∧
      (r.step maxLen (.stroke e)).keys.accepted = r.keys.accepted ++ r.hands.types e ∧
      (r.step maxLen (.stroke e)).keys.returned = r.keys.returned := by
  obtain ⟨hbuf, hhead, htail⟩ := r.keys.kbd.decode_ring e.scancode
  have htypes := h.tracks.decode_types hr.1
  -- Decoding leaves the ring alone; what it decoded is put in if there is room for it,
  -- which the stroke was ready for.
  have hdec : KeyRun.Inv { r.keys with kbd := (r.keys.kbd.decode e.scancode).2 } held := by
    refine ⟨?_, h.ring.conserved, h.ring.found, h.ring.out⟩
    change Ring.Holds (r.keys.kbd.decode e.scancode).2.kbdBuf kbdBufSize
      (r.keys.kbd.decode e.scancode).2.kbdHead (r.keys.kbd.decode e.scancode).2.kbdTail held
    rw [hbuf, hhead, htail]
    exact h.ring.ring
  have htracks : Tracks ((r.keys.scan e.scancode).kbd, r.hands.stroke e) := by
    rw [(KeyRun.scan_kbd r.keys e.scancode).1]
    exact h.tracks.strike e
  have hkeys : (r.keys.scan e.scancode).Inv (held ++ r.hands.types e) ∧
      (r.keys.scan e.scancode).accepted = r.keys.accepted ++ r.hands.types e ∧
      (r.keys.scan e.scancode).returned = r.keys.returned := by
    unfold KeyRun.scan
    rw [htypes]
    by_cases hd : (r.keys.kbd.decode e.scancode).1 = 0
    · rw [if_pos hd, if_neg (not_not.mpr hd), List.append_nil, List.append_nil]
      exact ⟨hdec, rfl, rfl⟩
    · have hroom : ¬ Keyboard.Rejects (r.keys.kbd.decode e.scancode).2 := by
        unfold Keyboard.Rejects
        rw [hhead, htail]
        refine hr.2 ?_
        rw [htypes, if_neg hd]
        exact List.cons_ne_nil _ _
      rw [if_neg hd, if_pos hd]
      exact ⟨hdec.enqueue _ hroom, if_neg hroom, rfl⟩
  refine ⟨⟨hkeys.1, htracks, ?_⟩, hkeys.2⟩
  change LineHolds r.line (editLine maxLen (r.keys.scan e.scancode).returned)
  rw [hkeys.2.2]
  exact h.line

/-- **A statement** of the reader edits the line when it is the last one of `dequeue_char`. -/
theorem LineRun.Inv.statement (h : r.Inv maxLen held) :
    ∃ held', (r.step maxLen .statement).Inv maxLen held' ∧
      (r.step maxLen .statement).keys.accepted = r.keys.accepted ∧
      (r.step maxLen .statement).hands = r.hands := by
  change ∃ held', (r.statement maxLen).Inv maxLen held' ∧
    (r.statement maxLen).keys.accepted = r.keys.accepted ∧
    (r.statement maxLen).hands = r.hands
  unfold LineRun.statement
  by_cases hdone : r.line.returned = true
  · rw [if_pos hdone]
    exact ⟨held, h, rfl, rfl⟩
  · rw [if_neg hdone]
    obtain ⟨held', hkeys⟩ := h.ring.statement
    refine ⟨held', ⟨hkeys, ?_, ?_⟩, rfl, rfl⟩
    · -- the flags are the handler's
      change Tracks ((r.keys.consumer.next r.keys.kbd).2.1, r.hands)
      cases r.keys.consumer with
      | test => exact h.tracks
      | read => exact h.tracks
      | release out => exact ⟨h.tracks.shift, h.tracks.extended, h.tracks.held⟩
    · change LineHolds _ (editLine maxLen
        (r.keys.returned ++ (r.keys.consumer.next r.keys.kbd).2.2.toList))
      cases (r.keys.consumer.next r.keys.kbd).2.2 with
      | none =>
        rw [Option.toList_none, List.append_nil]
        exact h.line
      | some c =>
        rw [Option.toList_some, editLine_append]
        exact h.line.key maxLen c

end Steps

/-- A run, stroke by stroke and statement by statement. -/
theorem line_run {maxLen : Nat} (es : List LineEvent) {r : LineRun} {held : List UInt8}
    (h : r.Inv maxLen held) (hes : Along (LineRun.step maxLen) LineRun.Ready r es) :
    ∃ held', (run (LineRun.step maxLen) r es).Inv maxLen held' ∧
      (run (LineRun.step maxLen) r es).keys.accepted =
        r.keys.accepted ++ typed r.hands (strokesOf es) := by
  induction es generalizing r held with
  | nil => exact ⟨held, h, (List.append_nil _).symm⟩
  | cons e es ih =>
    cases e with
    | stroke e =>
      obtain ⟨hstep, hacc, -⟩ := h.stroke hes.1
      obtain ⟨held', hinv, hrest⟩ := ih hstep hes.2
      refine ⟨held', hinv, hrest.trans ?_⟩
      rw [hacc, List.append_assoc]
      rfl
    | statement =>
      obtain ⟨held₁, hstep, hacc, hhands⟩ := h.statement
      obtain ⟨held', hinv, hrest⟩ := ih hstep hes.2
      refine ⟨held', hinv, hrest.trans ?_⟩
      rw [hacc, hhands]
      rfl

/-- From the start of the reader. -/
theorem boot_run (kbdBuf : Nat → UInt8) (buf : ByteMem) (maxLen : Nat) (hmax : 0 < maxLen)
    (vga : Vga) {es : List LineEvent}
    (hes : Along (LineRun.step maxLen) LineRun.Ready (.boot kbdBuf buf maxLen vga) es) :
    ∃ held, (run (LineRun.step maxLen) (.boot kbdBuf buf maxLen vga) es).Inv maxLen held ∧
      (run (LineRun.step maxLen) (.boot kbdBuf buf maxLen vga) es).keys.accepted =
        typed .idle (strokesOf es) :=
  line_run es (.boot kbdBuf buf hmax vga) hes

/-- **What is typed is what is read.** In every interleaving of strokes with the statements of the
reader, if no stroke is misread or finds the ring full: what was typed is what the reader has been
given and what the ring holds, in order, and the line is the first of these, edited. -/
theorem typed_line (kbdBuf : Nat → UInt8) (buf : ByteMem) (maxLen : Nat) (hmax : 0 < maxLen)
    (vga : Vga) {es : List LineEvent}
    (hes : Along (LineRun.step maxLen) LineRun.Ready (.boot kbdBuf buf maxLen vga) es) :
    let r := run (LineRun.step maxLen) (.boot kbdBuf buf maxLen vga) es
    ∃ held, typed .idle (strokesOf es) = r.keys.returned ++ held ∧
      Ring.Holds r.keys.kbd.kbdBuf kbdBufSize r.keys.kbd.kbdHead r.keys.kbd.kbdTail held ∧
      LineHolds r.line (editLine maxLen r.keys.returned) := by
  intro r
  obtain ⟨held, h, hacc⟩ := boot_run kbdBuf buf maxLen hmax vga hes
  exact ⟨held, hacc ▸ h.ring.conserved, h.ring.ring, h.line⟩

/-! ## Typing a text -/

/-- The key with a make code. -/
def charKey (code : UInt8) : Option CharKey :=
  if h : code < 0x80 ∧ code ≠ 0x2A ∧ code ≠ 0x36 then some ⟨code, h.1, h.2.1, h.2.2⟩ else none

/-- A key that types a character, and whether a shift key has to be held down. -/
def keyFor (c : UInt8) : Option (Bool × CharKey) :=
  (List.range 128).findSome? fun i => (charKey (UInt8.ofNat i)).bind fun k =>
    if mapNormal.getD i 0 = c then some (false, k)
    else if mapShift.getD i 0 = c then some (true, k)
    else none

/-- The strokes for a character. -/
def strokesFor (c : UInt8) : List Stroke :=
  match keyFor c with
  | none => []
  | some (false, k) => [.press (.char k), .release (.char k)]
  | some (true, k) =>
    [.press (.shift .left), .press (.char k), .release (.char k), .release (.shift .left)]

/-- A character a text may have. -/
def Typable (c : UInt8) : Prop := c = 0x0A ∨ 32 ≤ c ∧ c ≤ 126

instance (c : UInt8) : Decidable (Typable c) := inferInstanceAs (Decidable (_ ∨ _))

/-- There is a key for every character a text may have, and it is not key 0x60, whose
release code is the prefix. It is checked for each character against the two tables of
the driver. -/
theorem keyFor_spec {c : UInt8} (hc : Typable c) :
    ∃ b k, keyFor c = some (b, k) ∧ k.code ≠ 0x60 ∧
      (if b = true then mapShift.getD k.code.toNat 0 else mapNormal.getD k.code.toNat 0) = c := by
  have hcheck : ((keyFor c).any fun p => decide (p.2.code ≠ 0x60 ∧
      (if p.1 = true then mapShift.getD p.2.code.toNat 0
        else mapNormal.getD p.2.code.toNat 0) = c)) = true :=
    forall_byte (p := fun c => Typable c → ((keyFor c).any fun p => decide (p.2.code ≠ 0x60 ∧
      (if p.1 = true then mapShift.getD p.2.code.toNat 0
        else mapNormal.getD p.2.code.toNat 0) = c)) = true) (by decide +kernel) c hc
  obtain ⟨⟨b, k⟩, hkey, hp⟩ := (Option.any_eq_true _ _).mp hcheck
  obtain ⟨hcode, hchar⟩ := of_decide_eq_true hp
  exact ⟨b, k, hkey, hcode, hchar⟩

/-- The strokes are made in the clear. -/
def Hands.ClearAll (h : Hands) (es : List Stroke) : Prop :=
  Along (fun e h => h.stroke e) (fun h e => h.Clear e) h es

theorem typed_append (h : Hands) (es es' : List Stroke) :
    typed h (es ++ es') = typed h es ++ typed (run (fun e h => h.stroke e) h es) es' := by
  induction es generalizing h with
  | nil => rfl
  | cons e es ih => rw [List.cons_append, typed, typed, ih, run_cons, List.append_assoc]

/-- A character, typed by hands that hold nothing down before and after. So the strokes
for two characters, one behind the other, type the two. -/
structure TypedBy (c : UInt8) (es : List Stroke) : Prop where
  clear : Hands.idle.ClearAll es
  typed : typed .idle es = [c]
  idle : run (fun e h => Hands.stroke h e) .idle es = .idle

theorem strokesFor_typed {c : UInt8} (hc : Typable c) : TypedBy c (strokesFor c) := by
  obtain ⟨b, k, hkey, hcode, hchar⟩ := keyFor_spec hc
  have hzero : c ≠ 0 := by
    rintro rfl
    exact absurd hc (by decide)
  have hfree : (k.code == 0x60) = false := beq_false_of_ne hcode
  have hidle : ¬ Hands.idle.Shifted := by
    rintro ⟨s, hs⟩
    cases hs
  rw [strokesFor, hkey]
  -- The character is on the key itself, or on it with the left shift key held, which is
  -- released again.
  cases b with
  | false =>
    have hnormal : Hands.idle.char k = c := (if_neg hidle).trans hchar
    refine ⟨⟨Or.inl fun hs => absurd hs hidle, trivial, trivial⟩, ?_, ?_⟩
    · change (if Hands.idle.char k = 0 then [] else [Hands.idle.char k]) ++ [] = [c]
      rw [hnormal, if_neg hzero, List.append_nil]
    · change Hands.mk Hands.idle.held false (k.code == 0x60) = .idle
      rw [hfree]
      rfl
  | true =>
    have hshifted : (Hands.idle.stroke (.press (.shift .left))).Shifted := ⟨.left, rfl⟩
    have hshift : (Hands.idle.stroke (.press (.shift .left))).char k = c :=
      (if_pos hshifted).trans hchar
    refine ⟨⟨trivial, Or.inl fun _ => rfl, trivial, trivial, trivial⟩, ?_, ?_⟩
    · change (if (Hands.idle.stroke (.press (.shift .left))).char k = 0 then []
        else [(Hands.idle.stroke (.press (.shift .left))).char k]) ++ [] = [c]
      rw [hshift, if_neg hzero, List.append_nil]
    · change Hands.mk (Function.update (Function.update (fun _ => false) .left true) .left false)
        false false = .idle
      rw [Function.update_idem, Hands.idle, Hands.mk.injEq]
      exact ⟨Function.update_eq_self ShiftKey.left fun _ => false, rfl, rfl⟩

/-- The strokes for a text. -/
def typeText (t : List UInt8) : List Stroke := t.flatMap strokesFor

/-- **A text is typed.** -/
theorem typeText_typed {t : List UInt8} (ht : ∀ c ∈ t, Typable c) :
    Hands.idle.ClearAll (typeText t) ∧ typed .idle (typeText t) = t ∧
      run (fun e h => Hands.stroke h e) .idle (typeText t) = .idle := by
  induction t with
  | nil => exact ⟨trivial, rfl, rfl⟩
  | cons c t ih =>
    have hc := strokesFor_typed (ht c List.mem_cons_self)
    obtain ⟨hclear, htyped, hidle⟩ := ih fun d hd => ht d (List.mem_cons_of_mem c hd)
    rw [typeText, List.flatMap_cons]
    refine ⟨along_append.mpr ⟨hc.clear, ?_⟩, ?_, ?_⟩
    · rw [hc.idle]
      exact hclear
    · rw [typed_append, hc.typed, hc.idle]
      exact congrArg (c :: ·) htyped
    · rw [run_append, hc.idle]
      exact hidle

/-! ## Reading a text -/

/-- The ring has room for what a stroke types. -/
def LineRun.Room (r : LineRun) : LineEvent → Prop
  | .stroke e => r.hands.types e ≠ [] → ¬ r.keys.kbd.Rejects
  | .statement => True

theorem LineRun.statement_hands (maxLen : Nat) (r : LineRun) :
    (r.statement maxLen).hands = r.hands := by
  unfold LineRun.statement
  split <;> rfl

/-- What hands strike in the clear, and with room, is ready. -/
theorem LineRun.ready_of_clear {maxLen : Nat} {r : LineRun} {es : List LineEvent}
    (hroom : Along (LineRun.step maxLen) LineRun.Room r es)
    (hclear : r.hands.ClearAll (strokesOf es)) :
    Along (LineRun.step maxLen) LineRun.Ready r es := by
  induction es generalizing r with
  | nil => trivial
  | cons e es ih =>
    cases e with
    | stroke e => exact ⟨⟨hclear.1, hroom.1⟩, ih hroom.2 hclear.2⟩
    | statement =>
      refine ⟨trivial, ih hroom.2 ?_⟩
      change (r.statement maxLen).hands.ClearAll (strokesOf es)
      rw [LineRun.statement_hands]
      exact hclear

/-- Printable characters are not edited. -/
theorem editLine_text {maxLen : Nat} {t : List UInt8} (ht : ∀ c ∈ t, 32 ≤ c ∧ c ≤ 126)
    (hlen : t.length < maxLen) : editLine maxLen t = (t, false) := by
  induction t using List.reverseRecOn with
  | nil => rfl
  | append_singleton t c ih =>
    have hc := ht c (by simp)
    rw [List.length_append, List.length_singleton] at hlen
    have hlow : ∀ k : UInt8, k < 32 → c ≠ k := by
      rintro k hk rfl
      exact absurd hk (UInt8.not_lt.mpr hc.1)
    rw [editLine_append, ih (fun d hd => ht d (List.mem_append_left _ hd)) (by omega), editKey,
      if_neg Bool.noConfusion, if_neg (hlow _ (by decide)), if_neg (hlow _ (by decide)),
      if_pos ⟨hlen, hc⟩]

/-- **A text that is typed is read.** However the reader's statements fall between the strokes for a
printable text and Enter: once `keyboard_readline` returns its buffer is the text, and it has
returned when the ring is empty. -/
theorem text_read (kbdBuf : Nat → UInt8) (buf : ByteMem) (maxLen : Nat) (vga : Vga)
    {t : List UInt8} (ht : ∀ c ∈ t, 32 ≤ c ∧ c ≤ 126) (hlen : t.length < maxLen)
    {es : List LineEvent} (hes : strokesOf es = typeText (t ++ [0x0A]))
    (hroom : Along (LineRun.step maxLen) LineRun.Room (.boot kbdBuf buf maxLen vga) es) :
    let r := run (LineRun.step maxLen) (.boot kbdBuf buf maxLen vga) es
    (r.line.returned = true → r.line.buf.toList r.line.i = t ∧ r.line.buf r.line.i = 0) ∧
      (r.keys.kbd.kbdHead = r.keys.kbd.kbdTail → r.line.returned = true) := by
  intro r
  have htypable : ∀ c ∈ t ++ [0x0A], Typable c := by
    intro c hc
    rcases List.mem_append.mp hc with hc | hc
    · exact Or.inr (ht c hc)
    · exact Or.inl (List.mem_singleton.mp hc)
  obtain ⟨hclear, htyped, -⟩ := typeText_typed htypable
  rw [← hes] at hclear htyped
  obtain ⟨held, hinv, hacc⟩ := boot_run kbdBuf buf maxLen (Nat.zero_lt_of_lt hlen) vga
    (LineRun.ready_of_clear hroom hclear)
  have hring := hinv.ring.ring
  have hline := hinv.line
  have hkeys : t ++ [0x0A] = r.keys.returned ++ held :=
    htyped.symm.trans (hacc.symm.trans hinv.ring.conserved)
  have hwhole : editLine maxLen (t ++ [0x0A]) = (t, true) := by
    rw [editLine_append, editLine_text ht hlen]
    rfl
  rcases List.eq_nil_or_concat held with hnil | ⟨front, last, hlast⟩
  · -- the reader has been given everything
    rw [hnil, List.append_nil] at hkeys
    change LineHolds r.line (editLine maxLen r.keys.returned) at hline
    rw [← hkeys, hwhole] at hline
    exact ⟨fun _ => ⟨hline.line, hline.terminated rfl⟩, fun _ => hline.returned⟩
  · -- Enter is still in the ring
    rw [hlast, List.concat_eq_append, ← List.append_assoc] at hkeys
    have hfront : t = r.keys.returned ++ front := (List.append_inj' hkeys rfl).1
    have hpart : editLine maxLen r.keys.returned = (r.keys.returned, false) := by
      refine editLine_text (fun c hc => ht c (hfront ▸ List.mem_append_left _ hc)) ?_
      rw [hfront, List.length_append] at hlen
      omega
    refine ⟨fun hret => ?_, fun hempty => ?_⟩
    · rw [hline.returned, hpart] at hret
      cases hret
    · have hnil := hring.empty_iff.mp hempty
      rw [hlast] at hnil
      cases front <;> cases hnil

/-- The key Enter. -/
def keyEnter : CharKey := ⟨0x1C, by decide, by decide, by decide⟩

/-- A capital letter and Enter, with the reader running before, between and after the strokes. -/
def demoEvents : List LineEvent :=
  [.statement, .stroke (.press (.shift .left)), .stroke (.press (.char keyA)), .statement,
    .statement, .stroke (.release (.char keyA)), .stroke (.release (.shift .left)),
    .stroke (.press (.char keyEnter)), .statement, .stroke (.release (.char keyEnter)),
    .statement, .statement, .statement]

theorem demoEvents_strokes : strokesOf demoEvents = typeText ([0x41] ++ [0x0A]) := by rfl

/-- A reader of lines of at most seven characters. -/
def demoReader : LineRun := .boot (fun _ => 0) (fun _ => 0) 8 ⟨⟨fun _ => 0, 0⟩, 0, 0, 7, 0⟩

theorem demoEvents_room : Along (LineRun.step 8) LineRun.Room demoReader demoEvents := by
  refine ⟨trivial, fun _ => ?_, fun _ => ?_, trivial, trivial, fun _ => ?_, fun _ => ?_,
    fun _ => ?_, trivial, fun _ => ?_, trivial, trivial, trivial, trivial⟩
  all_goals decide +kernel

theorem text_read_capital :
    let r := run (LineRun.step 8) demoReader demoEvents
    r.line.returned = true ∧ r.line.buf.toList r.line.i = [0x41] := by
  have h := text_read (fun _ => 0) (fun _ => 0) 8 ⟨⟨fun _ => 0, 0⟩, 0, 0, 7, 0⟩
    (t := [0x41]) (by decide +kernel) (by decide) demoEvents_strokes demoEvents_room
  have hret := h.2 (by decide +kernel)
  exact ⟨hret, (h.1 hret).1⟩

theorem typed_line_capital :
    typed .idle (strokesOf demoEvents) = [0x41, 0x0A] ∧
      ∃ held, typed .idle (strokesOf demoEvents) =
        (run (LineRun.step 8) demoReader demoEvents).keys.returned ++ held := by
  have hclear : Hands.idle.ClearAll (strokesOf demoEvents) := by
    rw [demoEvents_strokes]
    exact (typeText_typed (by decide +kernel)).1
  obtain ⟨held, hkeys, -⟩ := typed_line (fun _ => 0) (fun _ => 0) 8 (by decide)
    ⟨⟨fun _ => 0, 0⟩, 0, 0, 7, 0⟩ (LineRun.ready_of_clear demoEvents_room hclear)
  exact ⟨by rw [demoEvents_strokes, (typeText_typed (by decide +kernel)).2.1]; rfl, held, hkeys⟩

end OsU
