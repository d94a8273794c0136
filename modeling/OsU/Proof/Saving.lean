import OsU.Proof.Editing

/-!
# The editor does not discard edits

While `dirty` is clear the buffer is what the file was last known to hold: what was
loaded, or the data of the last call of `vfs_write_raw` that returned 0. A step either
leaves both as they are, or sets `dirty`, or saves; and only the commands that test
`dirty`, save, or say `q!` return.

The calls of `vfs_write_raw` are recorded with their data and what they returned, so
"saved" is a fact about the run and does not ask whether the driver stored anything:
that it did is another matter, settled in `RoundTrip`. The invariant holds from any
state of the driver and for any answers it gives.
-/

set_option autoImplicit false

namespace OsU

open Runs Cells CString

/-- The bytes of the buffer. -/
def Editor.content (e : Editor) : List UInt8 := e.text.slice 0 e.len

/-- What was saved last: the data of the last call that returned 0, or what was loaded.
A call that failed does not count, whatever it did to the file. -/
def lastSaved (loaded : List UInt8) (writes : List (List UInt8 × Int)) : List UInt8 :=
  writes.foldl (fun kept w => if w.2 = 0 then w.1 else kept) loaded

theorem lastSaved_append (loaded data : List UInt8) (writes : List (List UInt8 × Int)) (r : Int) :
    lastSaved loaded (writes ++ [(data, r)]) = if r = 0 then data else lastSaved loaded writes := by
  rw [lastSaved, List.foldl_append]
  rfl

/-- Nothing is lost: the buffer is marked as changed or is what was saved last, and the editor has
returned only in the second case, or by `q!`. -/
structure Editor.Safe (loaded : List UInt8) (e : Editor) : Prop where
  clean : e.dirty = false → e.content = lastSaved loaded e.writes
  returned : ∀ cmd, e.waits = .returned cmd →
    cmd = ascii "q!" ∨ e.content = lastSaved loaded e.writes

/-- Whether the editor has returned. -/
def Waits.Open (w : Waits) : Prop := ∀ cmd, w ≠ .returned cmd

section Steps

variable {loaded : List UInt8} {e e' : Editor}

/-- A step that leaves the buffer and the flag. -/
theorem Editor.Safe.same (h : e.Safe loaded) (hc : e'.content = e.content)
    (hd : e'.dirty = e.dirty) (hs : e'.writes = e.writes) (hw : e'.waits.Open) : e'.Safe loaded where
  clean hclean := by
    rw [hc, hs]
    exact h.clean (hd ▸ hclean)
  returned cmd hr := absurd hr (hw cmd)

/-- A step that marks the buffer as changed. -/
theorem Editor.Safe.edited (hd : e'.dirty = true) (hw : e'.waits.Open) : e'.Safe loaded where
  clean hclean := absurd (hd.symm.trans hclean) (by decide)
  returned cmd hr := absurd hr (hw cmd)

/-! ## The buffer -/

theorem Editor.content_of_val (ht : e'.text.val = e.text.val) (hl : e'.len = e.len) :
    e'.content = e.content := by
  unfold Editor.content
  rw [hl]
  exact slice_congr fun k _ => by rw [ht]

theorem Editor.draw_val (e : Editor) : e.draw.text.val = e.text.val := by
  have hloop : ∀ v, (drawLoop e.cursor e.len 0 ⟨e.text, 1, 0, 1, 0, v⟩).buf.val = e.text.val :=
    fun v => (drawLoop_reads (d := ⟨e.text, 1, 0, 1, 0, v⟩) (le_refl (0 + e.len))).val
  unfold Editor.draw drawEditor
  dsimp only
  split_ifs <;> exact hloop _

/-- The two line motions only read the text. -/
theorem Editor.down_val (e : Editor) :
    e.down.text.val = e.text.val ∧ e.down.len = e.len ∧ e.down.dirty = e.dirty ∧
      e.down.writes = e.writes ∧ e.down.waits = e.waits := by
  unfold Editor.down
  dsimp only
  split
  · split
    · refine ⟨?_, rfl, rfl, rfl, rfl⟩
      rw [lineEnd_val, use_val, lineEnd_val, lineStart_val]
    · refine ⟨?_, rfl, rfl, rfl, rfl⟩
      rw [use_val, lineEnd_val, lineStart_val]
  · refine ⟨?_, rfl, rfl, rfl, rfl⟩
    rw [lineEnd_val, lineStart_val]

theorem Editor.up_val (e : Editor) :
    e.up.text.val = e.text.val ∧ e.up.len = e.len ∧ e.up.dirty = e.dirty ∧
      e.up.writes = e.writes ∧ e.up.waits = e.waits := by
  unfold Editor.up
  dsimp only
  split
  · refine ⟨?_, rfl, rfl, rfl, rfl⟩
    rw [lineStart_val, lineStart_val]
  · refine ⟨?_, rfl, rfl, rfl, rfl⟩
    rw [lineStart_val]

/-! ## The parts of a step

`dirty` is set by every key that changes the text and cleared by a save that returned 0,
and by nothing else. The invariant is about the history of saves, so a save that fails
is in it too. -/

/-- A call of `vfs_write_raw` saves the buffer if it returns 0. -/
theorem Editor.lastSaved_vfsWriteRaw (loaded : List UInt8) (e : Editor) :
    lastSaved loaded e.vfsWriteRaw.2.writes =
      if e.vfsWriteRaw.1 = 0 then e.content else lastSaved loaded e.writes :=
  lastSaved_append _ _ _ _

theorem Editor.vfsWriteRaw_content (e : Editor) : e.vfsWriteRaw.2.content = e.content :=
  Editor.content_of_val rfl rfl

/-- A save that fails changes nothing that matters. -/
theorem Editor.Safe.notSaved (h : e.Safe loaded) (hr : e.vfsWriteRaw.1 ≠ 0) :
    e.vfsWriteRaw.2.Safe loaded where
  clean hclean := by
    rw [e.vfsWriteRaw_content, e.lastSaved_vfsWriteRaw, if_neg hr]
    exact h.clean hclean
  returned cmd hcmd := by
    rw [e.vfsWriteRaw_content, e.lastSaved_vfsWriteRaw, if_neg hr]
    exact h.returned cmd hcmd

theorem Editor.Safe.write (h : e.Safe loaded) (hw : e.waits.Open) : e.write.Safe loaded := by
  unfold Editor.write
  by_cases hr : e.vfsWriteRaw.1 = 0
  · simp only [if_pos hr]
    refine ⟨fun _ => ?_, fun cmd hcmd => absurd hcmd (hw cmd)⟩
    refine (e.lastSaved_vfsWriteRaw loaded).symm ▸ ?_
    rw [if_pos hr]
    exact e.vfsWriteRaw_content
  · simp only [if_neg hr]
    exact (h.notSaved hr).same (Editor.content_of_val rfl rfl) rfl rfl hw

theorem Editor.Safe.type (h : e.Safe loaded) (hw : e.waits.Open) (c : UInt8) :
    (e.type c).Safe loaded ∧ (e.type c).waits = e.waits := by
  unfold Editor.type Editor.insertChar
  by_cases hfull : e.len + 1 ≥ fsMaxFileSize
  · simp only [if_pos hfull]
    exact ⟨h.same rfl rfl rfl hw, rfl⟩
  · simp only [if_neg hfull]
    exact ⟨.edited rfl hw, rfl⟩

theorem Editor.deleteAt_waits (e : Editor) (pos : Nat) : (e.deleteAt pos).waits = e.waits := by
  unfold Editor.deleteAt
  split <;> rfl

/-- Moving the cursor by one. -/
theorem Editor.Safe.setCursor (h : e.Safe loaded) (hw : e.waits.Open) (n : Nat) :
    Editor.Safe loaded { e with cursor := n } :=
  h.same rfl rfl rfl hw

theorem Editor.Safe.insertKey (h : e.Safe loaded) (hw : e.waits.Open) (c : UInt8) :
    (e.insertKey c).Safe loaded := by
  unfold Editor.insertKey
  split
  · exact h.write hw
  split
  · exact h.same rfl rfl rfl hw
  split
  · split
    · refine .edited rfl ?_
      have hwaits : (Editor.deleteAt (e.cursor - 1) { e with cursor := e.cursor - 1 }).waits =
          e.waits := Editor.deleteAt_waits _ _
      change Waits.Open (Editor.deleteAt _ _).waits
      rw [hwaits]
      exact hw
    · exact h
  split
  · exact (h.type hw 0x0A).1
  · -- What is typed is an edit, and the cursor motions behind it leave the text.
    have htyped : Editor.Safe loaded (if 32 ≤ c ∧ c ≤ 126 then e.type c else e) ∧
        (if 32 ≤ c ∧ c ≤ 126 then e.type c else e).waits.Open := by
      split
      · exact ⟨(h.type hw c).1, (h.type hw c).2 ▸ hw⟩
      · exact ⟨h, hw⟩
    dsimp only
    generalize (if 32 ≤ c ∧ c ≤ 126 then e.type c else e) = t at htyped
    split
    · exact htyped.1.setCursor htyped.2 _
    · split
      · exact htyped.1.setCursor htyped.2 _
      · exact htyped.1

theorem Editor.Safe.normalKey (h : e.Safe loaded) (hw : e.waits.Open) (c : UInt8) :
    (e.normalKey c).Safe loaded := by
  unfold Editor.normalKey
  split
  · exact h.write hw
  split
  · exact h.same rfl rfl rfl hw
  split
  · unfold Editor.left
    split
    · exact h.setCursor hw _
    · exact h
  split
  · unfold Editor.right
    split
    · exact h.setCursor hw _
    · exact h
  split
  · split
    · exact .edited rfl (Editor.deleteAt_waits e e.cursor ▸ hw)
    · exact h
  split
  · obtain ⟨ht, hl, hd, hs, hwaits⟩ := e.down_val
    exact h.same (Editor.content_of_val ht hl) hd hs (hwaits ▸ hw)
  split
  · obtain ⟨ht, hl, hd, hs, hwaits⟩ := e.up_val
    exact h.same (Editor.content_of_val ht hl) hd hs (hwaits ▸ hw)
  split
  · exact h.same rfl rfl rfl nofun
  · exact h

theorem Editor.Safe.command (h : e.Safe loaded) (hw : e.waits.Open) (cmd : List UInt8) :
    (e.command cmd).Safe loaded := by
  unfold Editor.command
  split
  · exact h
  split
  · exact h.write hw
  split
  · split
    · exact h.same rfl rfl rfl hw
    · -- `q` returns only when nothing has changed
      rename_i hclean
      have hsaved : e.content = lastSaved loaded e.writes := h.clean (by simpa using hclean)
      exact ⟨fun _ => hsaved, fun _ _ => Or.inr hsaved⟩
  split
  · rename_i hquit
    refine ⟨h.clean, fun cmd' hcmd => Or.inl ?_⟩
    rw [← hquit]
    exact (Waits.returned.inj hcmd).symm
  split
  · by_cases hr : e.vfsWriteRaw.1 = 0
    · have hsaved : e.vfsWriteRaw.2.content = lastSaved loaded e.vfsWriteRaw.2.writes := by
        rw [e.lastSaved_vfsWriteRaw, if_pos hr, e.vfsWriteRaw_content]
      simp only [if_pos hr]
      exact ⟨fun _ => hsaved, fun _ _ => Or.inr hsaved⟩
    · simp only [if_neg hr]
      exact (h.notSaved hr).same (Editor.content_of_val rfl rfl) rfl rfl hw
  · exact h.same rfl rfl rfl hw

theorem Editor.Safe.colonKey (h : e.Safe loaded) (c : UInt8) (cmd : List UInt8) :
    (e.colonKey c cmd).Safe loaded := by
  have hkey : Editor.Safe loaded { e with waits := .key } := h.same rfl rfl rfl nofun
  unfold Editor.colonKey
  split
  · exact h
  split
  · exact hkey.command nofun _
  split
  · exact hkey
  split
  · split
    · exact h.same rfl rfl rfl nofun
    · exact h
  split
  · exact h.same rfl rfl rfl nofun
  · exact h

/-- **One key.** The editor waits for a key or for the rest of a command, and once it
has returned no key does anything. -/
theorem Editor.Safe.key (h : e.Safe loaded) (c : UInt8) : (e.key c).Safe loaded := by
  unfold Editor.key
  cases hw : e.waits with
  | key =>
    have hopen : e.draw.waits.Open := by
      intro cmd hcmd
      exact nomatch hw.symm.trans hcmd
    have hdraw : e.draw.Safe loaded :=
      h.same (Editor.content_of_val e.draw_val rfl) rfl rfl hopen
    cases e.mode with
    | insert => exact hdraw.insertKey hopen c
    | normal => exact hdraw.normalKey hopen c
  | colon cmd => exact h.colonKey c cmd
  | returned cmd => exact h

end Steps

/-! ## Runs -/

/-- The buffer holds what was loaded. -/
theorem editorEditFile_content (name : List UInt8) (stack : Nat → UInt8) (vga : Vga) (s : Fs) :
    (editorEditFile name stack vga s).content = loadedBytes name s := by
  unfold Editor.content loadedBytes
  cases hr : (vfsReadPtr name s).1 with
  | none =>
    rw [(editorEditFile_none stack vga hr).2]
    rfl
  | some n =>
    obtain ⟨ht, hl⟩ := editorEditFile_some stack vga hr
    rw [ht, hl]
    refine List.map_congr_left fun k hk => ?_
    have hlt : k < n := List.mem_range.mp hk
    rw [Nat.zero_add, set_val, Function.update_of_ne (Nat.ne_of_lt hlt)]
    exact if_pos hlt

/-- **The editor never discards edits silently.** At every key of every run, a clear `dirty` means
that the buffer is what was last loaded or saved; and the editor has returned only after `q!`, or
with such a buffer. -/
theorem editor_keeps_edits (name : List UInt8) (stack : Nat → UInt8) (vga : Vga) (s : Fs)
    (keys : List UInt8) :
    let e := run Editor.key (editorEditFile name stack vga s) keys
    (e.dirty = false → e.text.slice 0 e.len = lastSaved (loadedBytes name s) e.writes) ∧
      ∀ cmd, e.waits = .returned cmd →
        cmd = ascii "q!" ∨ e.text.slice 0 e.len = lastSaved (loadedBytes name s) e.writes := by
  intro e
  have hsafe : e.Safe (loadedBytes name s) := by
    refine run_of_step (P := Editor.Safe (loadedBytes name s)) (fun _ c h => h.key c) keys ?_
    exact ⟨fun _ => editorEditFile_content name stack vga s, nofun⟩
  exact ⟨hsafe.clean, hsafe.returned⟩

end OsU
