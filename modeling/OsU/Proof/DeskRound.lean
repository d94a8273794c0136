import OsU.Lib.Leads
import OsU.Proof.Desktop

/-!
# A round of `gui_run`, and what is seen

## What is seen

`vesa_present` copies byte by byte, with interrupts enabled. A frame is whole in the back buffer
before it begins, but in between the screen has the first bytes of one picture and the others of the
one before. So half a picture may be seen, and `gui_screen` says of which two the halves are. Nothing
else of `gui_run` writes to the screen, and while it sleeps the picture there is the desktop as it
is (`DeskRun.Inv.asleep`).

## A round

Once an interrupt has ended its `hlt`, the loop comes round by itself: so many statements lead to the
next picture, and it is the picture of all the keys there were. The `hlt` of the loop is in front of
that, and the one of `timer_sleep` behind it.
-/

set_option autoImplicit false

namespace OsU

open Runs CString

/-! ## The screen, at any time -/

section Seen

variable {m : ModeInfo} {H : History} {r : DeskRun}

/-- **While a frame is copied**, it is the first bytes of it that are seen. -/
theorem DeskRun.Inv.presenting (h : r.Inv m H) (hm : m.Roomy) (hsize : m.Spacious) {i : Nat}
    (hpoint : r.desk.point = .present i) : ∃ old new, H.screen old ∧
      DeskShown m H r.returned r.desk.gui new ∧ r.desk.vesa.frame.val = copied i new old := by
  have hpos : 0 < m.width.toNat := by
    have hwide := hsize.width
    omega
  obtain ⟨old, s, made, hbehind, hs, hmade, hold⟩ :=
    h.screen.going (by rw [hpoint]; exact GuiPoint.noConfusion)
  rw [Progress, hpoint] at hmade
  obtain ⟨ticks, hticks, hdesk⟩ := hmade
  have hnew := depicts_made hm hpos h.typed.shows hdesk hs hbehind.front
  rw [hpoint] at hbehind
  exact ⟨old, _, hold, ⟨ticks, hticks, hdesk ▸ hnew⟩, hbehind.screen⟩

/-- At any other time, it is the screen of a moment of rest. -/
theorem DeskRun.Inv.seen (h : r.Inv m H) (hpoint : ∀ i, r.desk.point ≠ .present i) :
    H.screen r.desk.vesa.frame.val := by
  by_cases hdone : r.desk.point = .done
  · exact (h.screen.done hdone).2
  · have hnone : r.desk.point.presented = 0 := by
      cases hp : r.desk.point with
      | present i => exact absurd hp (hpoint i)
      | wait | poll | keys | background | foreground | sleep | done => rfl
    obtain ⟨old, s, made, hbehind, -, -, hold⟩ := h.screen.behind hdone hnone
    rw [hbehind.screen]
    exact hold

/-- As many bytes as the rows have are copied. -/
theorem DeskRun.Inv.presentTotal (h : r.Inv m H) (hgoing : r.desk.point ≠ .done)
    (hfits : m.pitch.toNat * m.height.toNat ≤ vesaBackbufferMax) :
    r.desk.vesa.presentTotal = m.pitch.toNat * m.height.toNat := by
  obtain ⟨old, s, made, hbehind, -⟩ := h.screen.going hgoing
  exact hbehind.back.presentTotal hbehind.size hfits

/-- The last byte has been copied. -/
theorem DeskRun.Inv.copied (h : r.Inv m H) (hm : m.Roomy) (hsize : m.Spacious)
    (hfits : m.pitch.toNat * m.height.toNat ≤ vesaBackbufferMax) {i : Nat}
    (hpoint : r.desk.point = .present i) (hlast : ¬ i < r.desk.vesa.presentTotal) :
    DeskShown m H r.returned r.desk.gui r.desk.vesa.frame.val := by
  rw [h.presentTotal (by rw [hpoint]; exact GuiPoint.noConfusion) hfits] at hlast
  obtain ⟨old, new, -, ⟨ticks, hticks, hpic⟩, hframe⟩ := h.presenting hm hsize hpoint
  refine ⟨ticks, hticks, hpic.congr hm fun a ha => ?_⟩
  rw [hframe]
  exact if_pos (Nat.lt_of_lt_of_le ha (Nat.not_lt.mp hlast))

/-- **The screen is up to date** as long as `gui_run` sleeps. -/
theorem DeskRun.Inv.asleep (h : r.Inv m H) (hm : m.Roomy) (hsize : m.Spacious)
    (hfits : m.pitch.toNat * m.height.toNat ≤ vesaBackbufferMax)
    (hseen : r.desk.point.Asleep →
      DeskShown m H r.returned r.desk.gui r.desk.vesa.frame.val) (e : DeskEvent) :
    (r.step e).desk.point.Asleep → DeskShown m H (r.step e).returned (r.step e).desk.gui
      (r.step e).desk.vesa.frame.val := by
  cases e with
  | key scancode =>
    intro hasleep
    rw [r.step_key_returned scancode]
    exact hseen (GuiPoint.Asleep.of_interrupt hasleep)
  | mouse status data => exact fun hasleep => hseen (GuiPoint.Asleep.of_interrupt hasleep)
  | tick => exact fun hasleep => hseen (GuiPoint.Asleep.of_interrupt hasleep)
  | statement =>
    obtain ⟨⟨keyboard, dequeue, mouse, timer, vesa, gui, tmp, point⟩, accepted, returned⟩ := r
    cases point with
    | wait w => cases w <;> exact fun hf => hf.elim
    | poll p =>
      cases p with
      | test =>
        rw [step_test]
        split
        · exact fun hf => hf.elim
        · exact fun hf => hf.elim
      | x | y | buttons | dx | dy | clear => exact fun hf => hf.elim
    | keys =>
      rcases @step_keys_cases keyboard dequeue mouse timer vesa gui tmp accepted returned with
        ⟨-, -, hstep⟩ | ⟨d, hstep⟩ | ⟨out, k, -, hstep⟩
      · rw [hstep]
        exact fun hf => hf.elim
      · rw [hstep]
        exact fun hf => hf.elim
      · rw [hstep]
        by_cases hgo : (guiKey out gui).running = true
        · rw [if_pos hgo]
          exact fun hf => hf.elim
        · rw [if_neg hgo]
          exact fun hf => hf.elim
    | background calls => cases calls <;> exact fun hf => hf.elim
    | foreground calls => cases calls <;> exact fun hf => hf.elim
    | present i =>
      rw [step_present]
      split
      · exact fun hf => hf.elim
      -- all of the frame is copied, and the buffers are as they were when it was begun
      · rename_i hlast
        exact fun _ => h.copied hm hsize hfits rfl hlast
    | sleep s =>
      cases hnext : s.next timer with
      | some s' =>
        rw [step_asleep hnext]
        exact hseen
      | none =>
        rw [step_woken hnext]
        split
        · exact fun hf => hf.elim
        · exact fun hf => hf.elim
    | done => exact fun hf => hf.elim

end Seen

theorem DeskShown.mono {m : ModeInfo} {H H' : History} {returned : List UInt8} {g : Gui}
    {screen : Nat → UInt8} (h : DeskShown m H returned g screen) (hmore : H.Le H') :
    DeskShown m H' returned g screen :=
  h.imp fun _ hshown => ⟨hmore.ticks _ hshown.1, hshown.2⟩

theorem Desktop.Displays.asleep {m : ModeInfo} {v : Vesa} {d : Desktop} (h : d.Displays m v)
    (es : List DeskEvent) :
    (run DeskRun.step (.boot d) es).desk.point.Asleep →
      DeskShown m (history d es) (run DeskRun.step (.boot d) es).returned
        (run DeskRun.step (.boot d) es).desk.gui
        (run DeskRun.step (.boot d) es).desk.vesa.frame.val := by
  induction es using List.reverseRecOn with
  | nil =>
    have hwait : (DeskRun.boot d).desk.point = .wait .before :=
      (guiStart_drivers h.enabled).2.2.1
    intro hasleep
    rw [run_nil, hwait] at hasleep
    exact hasleep.elim
  | append_singleton es e ih =>
    have hmore : (history d es).Le (history d (es ++ [e])) := history_le (List.prefix_append ..)
    rw [run_append, run_cons, run_nil]
    exact ((h.inv_run es).mono hmore).asleep h.roomy h.spacious h.fits
      (fun hasleep => (ih hasleep).mono hmore) e

/-! ## Statements -/

/-- Some statements of `gui_run` lead from `r` to a state with `P`. -/
abbrev DeskRun.Leads (r : DeskRun) (P : DeskRun → Prop) : Prop :=
  Runs.Leads DeskRun.step .statement r P

/-- Keys make no difference to a terminal that is closed. -/
theorem Terminal.keys_closed {cs : List UInt8} (h : (keys cs).closed = true) (rest : List UInt8) :
    keys (cs ++ rest) = keys cs := by
  induction rest using List.reverseRecOn with
  | nil => rw [List.append_nil]
  | append_singleton rest c ih =>
    rw [← List.append_assoc, keys_append, ih, key, if_pos h]

/-! ## The poll of the mouse -/

/-- From the statement `p` of `mouse_poll`, whatever it has copied, the loop comes to the keys. -/
def DeskRun.PollEnds (r : DeskRun) (p : Poll) : Prop :=
  ∀ tmp, DeskRun.Leads { r with desk := { r.desk with tmp := tmp, point := .poll p } }
    fun r' => r'.desk.point = .keys ∧ r'.keys = r.keys

theorem DeskRun.pollEnds (r : DeskRun) (p : Poll) : r.PollEnds p := by
  have hclear : r.PollEnds .clear := fun tmp => .head (.now ⟨rfl, rfl⟩)
  have hdy : r.PollEnds .dy := fun tmp => .head (hclear _)
  have hdx : r.PollEnds .dx := fun tmp => .head (hdy _)
  have hbuttons : r.PollEnds .buttons := fun tmp => .head (hdx _)
  have hy : r.PollEnds .y := fun tmp => .head (hbuttons _)
  have hx : r.PollEnds .x := fun tmp => .head (hy _)
  cases p with
  | test =>
    intro tmp
    refine .head ?_
    rw [DeskRun.step_test]
    split
    · exact .now ⟨rfl, rfl⟩
    · exact hx tmp
  | x => exact hx
  | y => exact hy
  | buttons => exact hbuttons
  | dx => exact hdx
  | dy => exact hdy
  | clear => exact hclear

/-- In a round, before the loop has read its keys. -/
def GuiPoint.Awake : GuiPoint → Prop
  | .wait h => h = .behind
  | .poll _ | .keys => True
  | _ => False

theorem leads_polled {r : DeskRun} (hpoint : r.desk.point.Awake) :
    r.Leads fun r' => r'.desk.point = .keys ∧ r'.keys = r.keys := by
  have hpoll := r.pollEnds
  obtain ⟨⟨keyboard, dequeue, mouse, timer, vesa, gui, tmp, point⟩, accepted, returned⟩ := r
  cases point with
  | wait w =>
    obtain rfl : w = .behind := hpoint
    exact .head (hpoll .test tmp)
  | poll p => exact hpoll p tmp
  | keys => exact .now ⟨rfl, rfl⟩
  | background | foreground | present | sleep | done => exact hpoint.elim

/-! ## The keys and the frame -/

section Round

variable {keyboard : Keyboard} {dequeue : Dequeue} {mouse : Mouse} {timer : Timer} {vesa : Vesa}
  {gui : Gui} {tmp : MouseState} {accepted returned : List UInt8}

/-- The drawing is begun, and the terminal is that of the characters `accepted`. -/
def ReadAll (accepted : List UInt8) (r : DeskRun) : Prop :=
  (∃ calls, r.desk.point = .background calls) ∧ Terminal.keys r.returned = Terminal.keys accepted

/-- **The keys are read** until there are none, or the terminal is closed. -/
theorem leads_read {held : List UInt8}
    (hkeys : KeyRun.Inv ⟨keyboard, dequeue, accepted, returned⟩ held)
    (hshows : GuiShows gui (Terminal.keys returned)) (hrunning : gui.running = true) :
    DeskRun.Leads ⟨⟨keyboard, dequeue, mouse, timer, vesa, gui, tmp, .keys⟩, accepted, returned⟩
      (ReadAll accepted) := by
  -- the induction is on the characters in the keyboard's buffer
  induction held generalizing keyboard dequeue gui returned with
  | nil =>
    cases dequeue with
    | test =>
      have hempty : keyboard.kbdHead = keyboard.kbdTail := hkeys.ring.empty_iff.mpr rfl
      have hall : accepted = returned ++ [] := hkeys.conserved
      refine .head ?_
      rw [DeskRun.step_keys_empty hempty]
      refine .now ⟨⟨_, rfl⟩, ?_⟩
      rw [hall, List.append_nil]
    | read => exact absurd rfl (hkeys.found rfl)
    | release out =>
      have hout := hkeys.out out rfl
      cases hout
  | cons c rest ih =>
    have hrelease : ∀ {keyboard : Keyboard},
        KeyRun.Inv ⟨keyboard, .release c, accepted, returned⟩ (c :: rest) → DeskRun.Leads
          ⟨⟨keyboard, .release c, mouse, timer, vesa, gui, tmp, .keys⟩, accepted, returned⟩
          (ReadAll accepted) := by
      intro keyboard hkeys
      have hopen : (Terminal.keys returned).closed = false := by
        have hclosed := hshows.running
        simpa [hrunning] using hclosed
      have hkey : GuiShows (guiKey c gui) (Terminal.keys (returned ++ [c])) := by
        rw [Terminal.keys_append]
        exact hshows.key hopen c
      have hall : accepted = returned ++ [c] ++ rest := by
        rw [List.append_assoc]
        exact hkeys.conserved
      refine .head ?_
      rw [DeskRun.step_keys_release]
      by_cases hgo : (guiKey c gui).running = true
      · rw [if_pos hgo]
        exact ih ⟨hkeys.ring.pop, hall, fun h => Dequeue.noConfusion h,
          fun _ h => Dequeue.noConfusion h⟩ hkey hgo
      · -- the keys behind it are not read, and would make no difference
        have hclosed : (Terminal.keys (returned ++ [c])).closed = true := by
          have hstopped := hkey.running
          simpa [hgo] using hstopped
        rw [if_neg hgo]
        refine .now ⟨⟨_, rfl⟩, ?_⟩
        rw [hall, Terminal.keys_closed hclosed]
    have hread : ∀ {keyboard : Keyboard},
        KeyRun.Inv ⟨keyboard, .read, accepted, returned⟩ (c :: rest) → DeskRun.Leads
          ⟨⟨keyboard, .read, mouse, timer, vesa, gui, tmp, .keys⟩, accepted, returned⟩
          (ReadAll accepted) := by
      intro keyboard hkeys
      have hfront : keyboard.kbdBuf keyboard.kbdTail = c := hkeys.ring.front
      refine .head ?_
      rw [DeskRun.step_keys_read, hfront]
      exact hrelease ⟨hkeys.ring, hkeys.conserved, fun h => Dequeue.noConfusion h,
        fun out h => congrArg some (Dequeue.release.inj h)⟩
    cases dequeue with
    | test =>
      have hfull : keyboard.kbdHead ≠ keyboard.kbdTail := fun heq =>
        List.cons_ne_nil _ _ (hkeys.ring.empty_iff.mp heq)
      refine .head ?_
      rw [DeskRun.step_keys_found hfull]
      exact hread ⟨hkeys.ring, hkeys.conserved, fun _ => List.cons_ne_nil _ _,
        fun _ h => Dequeue.noConfusion h⟩
    | read => exact hread hkeys
    | release out =>
      obtain rfl : c = out := Option.some.inj (hkeys.out out rfl)
      exact hrelease hkeys

/-- The calls in front of the background are made. -/
theorem leads_foreground (calls : List DrawOp) (vesa : Vesa) :
    DeskRun.Leads
      ⟨⟨keyboard, dequeue, mouse, timer, vesa, gui, tmp, .foreground calls⟩, accepted, returned⟩
      fun r' => r'.desk.point = .present 0 ∧ r'.returned = returned := by
  induction calls generalizing vesa with
  | nil => exact .head (.now ⟨rfl, rfl⟩)
  | cons op calls ih => exact .head (ih (op.step vesa))

/-- A frame is drawn. -/
theorem leads_drawn (calls : List DrawOp) (vesa : Vesa) :
    DeskRun.Leads
      ⟨⟨keyboard, dequeue, mouse, timer, vesa, gui, tmp, .background calls⟩, accepted, returned⟩
      fun r' => r'.desk.point = .present 0 ∧ r'.returned = returned := by
  induction calls generalizing vesa with
  | nil => exact .head (leads_foreground (drawForeground vesa timer.tickCount gui) vesa)
  | cons op calls ih => exact .head (ih (op.step vesa))

/-- `k` bytes of it are copied. -/
theorem leads_presenting (k : Nat) {i : Nat} {vesa : Vesa} (hk : i + k ≤ vesa.presentTotal) :
    DeskRun.Leads
      ⟨⟨keyboard, dequeue, mouse, timer, vesa, gui, tmp, .present i⟩, accepted, returned⟩
      fun r' => r'.desk.point = .present (i + k) ∧ r'.desk.vesa.presentTotal = vesa.presentTotal ∧
        r'.returned = returned := by
  induction k generalizing i vesa with
  | zero => exact .now ⟨rfl, rfl, rfl⟩
  | succ k ih =>
    refine .head ?_
    rw [DeskRun.step_present, if_pos (by omega), show i + (k + 1) = i + 1 + k by omega]
    have hrest : i + 1 + k ≤ (vesa.presentByte i).presentTotal := by
      rw [Nat.add_assoc, Nat.add_comm 1 k]
      exact hk
    exact ih hrest

/-- All of it is, and `gui_run` sleeps. -/
theorem leads_presented (vesa : Vesa) :
    DeskRun.Leads
      ⟨⟨keyboard, dequeue, mouse, timer, vesa, gui, tmp, .present 0⟩, accepted, returned⟩
      fun r' => r'.desk.point.Asleep ∧ r'.returned = returned := by
  refine (leads_presenting vesa.presentTotal (Nat.le_of_eq (Nat.zero_add _))).trans fun r' hr' => ?_
  obtain ⟨⟨k, dq, mouse, timer, vesa', gui, tmp, point⟩, acc, ret⟩ := r'
  obtain ⟨hpoint, htotal, hret⟩ := hr'
  obtain rfl : point = .present (0 + vesa.presentTotal) := hpoint
  refine .head ?_
  rw [DeskRun.step_present, if_neg (by rw [htotal, Nat.zero_add]; exact Nat.lt_irrefl _)]
  exact .now ⟨trivial, hret⟩

end Round

/-! ## The round -/

/-- **A frame is drawn**, and it is one of all the keys there were. -/
theorem DeskRun.leads_present {r : DeskRun} {held : List UInt8} (hkeys : r.keys.Inv held)
    (htyped : r.Typed) (hpoint : r.desk.point.Awake) :
    r.Leads fun r' => r'.desk.point = .present 0 ∧
      Terminal.keys r'.returned = Terminal.keys r.accepted := by
  have hread : r.Leads (ReadAll r.accepted) := by
    refine ((leads_polled hpoint).keeps (fun _ e ht => ht.step e) htyped).trans fun r' hr' => ?_
    obtain ⟨⟨k, dq, mouse, timer, vesa, gui, tmp, point⟩, acc, ret⟩ := r'
    obtain ⟨htyped', hpoint', hsame⟩ := hr'
    obtain rfl : point = .keys := hpoint'
    rw [← hsame] at hkeys
    obtain rfl : acc = r.accepted := congrArg KeyRun.accepted hsame
    exact leads_read hkeys htyped'.shows (htyped'.reading trivial)
  refine hread.trans fun r' hr' => ?_
  obtain ⟨⟨k, dq, mouse, timer, vesa, gui, tmp, point⟩, acc, ret⟩ := r'
  obtain ⟨⟨calls, hcalls⟩, hall⟩ := hr'
  obtain rfl : point = .background calls := hcalls
  refine (leads_drawn calls vesa).imp fun r'' hr'' => ⟨hr''.1, ?_⟩
  rw [hr''.2, hall]

/-- **The loop comes round.** -/
theorem DeskRun.leads_asleep {r : DeskRun} {held : List UInt8} (hkeys : r.keys.Inv held)
    (htyped : r.Typed) (hpoint : r.desk.point.Awake) :
    r.Leads fun r' => r'.desk.point.Asleep ∧
      Terminal.keys r'.returned = Terminal.keys r.accepted := by
  refine (leads_present hkeys htyped hpoint).trans fun r' hr' => ?_
  obtain ⟨⟨k, dq, mouse, timer, vesa, gui, tmp, point⟩, acc, ret⟩ := r'
  obtain ⟨hpresent, hall⟩ := hr'
  obtain rfl : point = .present 0 := hpresent
  refine (leads_presented vesa).imp fun r'' hr'' => ⟨hr''.1, ?_⟩
  rw [hr''.2, hall]

/-- **What is typed is shown.** From any moment in a round before its keys are read, so many
statements lead to a picture of the terminal that all the keys accepted by then make. -/
theorem gui_shows_keys {m : ModeInfo} {d : Desktop} {v : Vesa} (h : d.Displays m v)
    (es : List DeskEvent) (hpoint : (run DeskRun.step (.boot d) es).desk.point.Awake) :
    ∃ n,
      let es' := es ++ List.replicate n .statement
      let r := run DeskRun.step (.boot d) es'
      r.desk.point.Asleep ∧ DeskShown m (history d es')
        (run DeskRun.step (.boot d) es).accepted r.desk.gui r.desk.vesa.frame.val := by
  obtain ⟨⟨held, hkeys⟩, htyped⟩ := typed_run h.toReady es
  obtain ⟨n, hasleep, hall⟩ := DeskRun.leads_asleep hkeys htyped hpoint
  refine ⟨n, ?_⟩
  rw [← run_append] at hasleep hall
  obtain ⟨ticks, hticks, hpic⟩ := h.asleep _ hasleep
  rw [deskOf, hall] at hpic
  exact ⟨hasleep, ticks, hticks, hpic⟩

/-- The key with the letter wakes the loop, and the frame that comes of it shows the letter. -/
theorem gui_shows_keys_letter :
    ∃ n,
      let es := .statement :: .key 0x1E :: List.replicate n .statement
      let r := run DeskRun.step (.boot bootDesktop) es
      r.desk.point.Asleep ∧ DeskShown deskMode (history bootDesktop es) (ascii "a") r.desk.gui
        r.desk.vesa.frame.val := by
  have haccepted : (run DeskRun.step (.boot bootDesktop) [.statement, .key 0x1E]).accepted =
      ascii "a" := by
    decide +kernel
  have hshown := gui_shows_keys bootDesktop_displays [.statement, .key 0x1E] rfl
  rw [haccepted] at hshown
  exact hshown

/-! ## What is seen -/

/-- **What is seen are pictures of the desktop.** Outside `vesa_present` the screen is what it was
when `gui_run` was called, or when it slept last or before. In `vesa_present`, with `i` bytes copied,
these are the first `i` bytes of the desktop as it is, and the others are those of that screen. While
`gui_run` sleeps, all of the screen is the desktop as it is. -/
theorem gui_screen {m : ModeInfo} {d : Desktop} {v : Vesa} (h : d.Displays m v)
    (es : List DeskEvent) :
    let r := run DeskRun.step (.boot d) es
    (∃ old, (history d es).screen old ∧
      match r.desk.point with
      | .present i =>
        ∃ new, DeskShown m (history d es) r.returned r.desk.gui new ∧
          r.desk.vesa.frame.val = copied i new old
      | _ => r.desk.vesa.frame.val = old) ∧
      (r.desk.point.Asleep →
        DeskShown m (history d es) r.returned r.desk.gui r.desk.vesa.frame.val) := by
  intro r
  refine ⟨?_, h.asleep es⟩
  split
  · rename_i i hpoint
    obtain ⟨old, new, hold, hnew, hframe⟩ := (h.inv_run es).presenting h.roomy h.spacious hpoint
    exact ⟨old, hold, new, hnew, hframe⟩
  · rename_i hnot
    exact ⟨_, (h.inv_run es).seen hnot, rfl⟩

/-- In the frame that shows the letter, with a thousand bytes of it copied. -/
theorem gui_screen_letter :
    ∃ n,
      let es := .statement :: .key 0x1E :: List.replicate n .statement
      let r := run DeskRun.step (.boot bootDesktop) es
      ∃ old new, (history bootDesktop es).screen old ∧
        DeskShown deskMode (history bootDesktop es) (ascii "a") r.desk.gui new ∧
        r.desk.vesa.frame.val = copied 1000 new old := by
  have hopens := bootDesktop_displays.toOpens
  obtain ⟨⟨held, hkeys⟩, htyped⟩ := typed_run hopens.toReady [.statement, .key 0x1E]
  have haccepted : (run DeskRun.step (.boot bootDesktop) [.statement, .key 0x1E]).accepted =
      ascii "a" := by
    decide +kernel
  -- the frame is drawn, and copied as far as that
  obtain ⟨n₁, hpoint₁, hall₁⟩ := DeskRun.leads_present hkeys htyped rfl
  rw [← run_append] at hpoint₁ hall₁
  have htotal := (hopens.inv_run _).presentTotal (by rw [hpoint₁]; exact GuiPoint.noConfusion)
    bootDesktop_displays.fits
  generalize hes : [DeskEvent.statement, .key 0x1E] ++ List.replicate n₁ .statement = es₁ at *
  have hcopied : DeskRun.Leads (run DeskRun.step (.boot bootDesktop) es₁) fun r' =>
      r'.desk.point = .present 1000 ∧
        r'.returned = (run DeskRun.step (.boot bootDesktop) es₁).returned := by
    generalize run DeskRun.step (.boot bootDesktop) es₁ = r₁ at *
    obtain ⟨⟨k, dq, mouse, timer, vesa, gui, tmp, point⟩, acc, ret⟩ := r₁
    obtain rfl : point = .present 0 := hpoint₁
    exact (leads_presenting 1000 (by rw [htotal]; decide)).imp fun r' hr' => ⟨hr'.1, hr'.2.2⟩
  obtain ⟨n₂, hpoint, hret⟩ := hcopied
  have hes₂ : es₁ ++ List.replicate n₂ .statement =
      .statement :: .key 0x1E :: List.replicate (n₁ + n₂) .statement := by
    rw [← hes, List.replicate_add]
    rfl
  rw [← run_append, hes₂] at hpoint hret
  refine ⟨n₁ + n₂, ?_⟩
  obtain ⟨⟨old, hold, hscreen⟩, -⟩ := gui_screen bootDesktop_displays
    (.statement :: .key 0x1E :: List.replicate (n₁ + n₂) .statement)
  rw [hpoint] at hscreen
  obtain ⟨new, ⟨ticks, hticks, hpic⟩, hframe⟩ := hscreen
  rw [deskOf, hret, hall₁, haccepted] at hpic
  exact ⟨old, new, hold, ⟨ticks, hticks, hpic⟩, hframe⟩

end OsU
