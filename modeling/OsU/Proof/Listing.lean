import OsU.Proof.RoundTrip

/-!
# Directories as lists of names

A directory is well formed (`DirWf`) when nothing live follows the end mark, no two live
entries share a name, and the names are ones the encoder makes. The mutators keep it so,
because a new name only ever goes to the first vacant slot, and only when the scan has
seen that it is absent.

In a well-formed directory the two listings enumerate the same entries, the live ones
that are not `.` or `..`, each once and in slot order, and the scan for a name agrees
with them.

The two listings do not skip the same entries. `fs_list_dir_entry` leaves out every name
with a dot in front, `fs_list_entry` looks at the second character as well. It comes to
the same only because the encoder makes no name with a dot in front, which is why
`named` is part of being well formed.

The first half of the main result is an invariant and the second is about one state, and
they hold of any volume: nothing is asked of the chains, except that a subdirectory's
own sector is not given away while it is the current one (`OwnSector`).
-/

set_option autoImplicit false

namespace OsU

open Scan

/-! ## Well-formed directories -/

/-- The first `n` slots of a directory are well formed. `ended`: an end mark has nothing
live behind it, so a scan that stops there misses nothing. `distinct`: a live name is in
one slot. `named`: and it is a name that can be typed, unless it is `.` or `..`. -/
structure DirWf (slot : Nat → FatDirEntry) (n : Nat) : Prop where
  ended : ∀ j k, j < k → k < n → (slot j).lead = 0x00 → ¬ (slot k).Live
  distinct : ∀ j k, j < n → k < n → (slot j).Live → (slot k).Live →
    (slot j).name11 = (slot k).name11 → j = k
  named : ∀ j, j < n → (slot j).Live → ¬ (slot j).IsDot →
    ∃ name, fatNameFromInput name = some (slot j).name11

/-- The current directory is. -/
def Fs.DirWf (s : Fs) : Prop :=
  OsU.DirWf (s.volume.slot s.currentDirCluster) (maxEntries s.currentDirCluster)

/-- What a mutator may put in slot `i`: an entry of the same name, a deleted entry, or a
name that is new to the directory, in its first vacant slot. The three are the cases of
the proof that follows, and each mutator is shown to be one of them. -/
inductive SlotEdit (v : Volume) (d i : Nat) (e : FatDirEntry) : Prop
  | renewed : FatDirEntry.SameHead (v.slot d i) e → SlotEdit v d i e
  | deleted : (v.slot d i).Live → e.lead = 0xE5 → SlotEdit v d i e
  | added (name f11 : List UInt8) : fatNameFromInput name = some f11 → Offered v d f11 i →
      e.name11 = f11 → e.attr ≠ 0x0F → SlotEdit v d i e

/-- Up to the end mark, everything is in reach of the scan. -/
theorem DirWf.reach {slot : Nat → FatDirEntry} {n k : Nat} (h : DirWf slot n) (hk : k < n)
    (hl : (slot k).Live) : ∀ j < k, (slot j).lead ≠ 0x00 :=
  fun j hj hz => h.ended j k hj hk hz hl

section Edits

variable {v v' : Volume} {d i : Nat} (h : DirWf (v.slot d) (maxEntries d))
  (hother : ∀ j < maxEntries d, j ≠ i → v'.slot d j = v.slot d j)
include h hother

/-- The heads of all slots are what they were, and they are all that matters. -/
theorem DirWf.renew (hhead : FatDirEntry.SameHead (v.slot d i) (v'.slot d i)) :
    DirWf (v'.slot d) (maxEntries d) := by
  have hall : ∀ j < maxEntries d, FatDirEntry.SameHead (v.slot d j) (v'.slot d j) := by
    intro j hj
    by_cases hji : j = i
    · subst hji
      exact hhead
    · rw [hother j hj hji]
      exact ⟨rfl, rfl⟩
  refine ⟨fun j k hjk hk hz => ?_, fun j k hj hk hlj hlk hn => ?_, fun j hj hl hd => ?_⟩
  · rw [(hall j (by omega)).lead] at hz
    rw [(hall k hk).live]
    exact h.ended j k hjk hk hz
  · rw [(hall j hj).live] at hlj
    rw [(hall k hk).live] at hlk
    rw [(hall j hj).name11, (hall k hk).name11] at hn
    exact h.distinct j k hj hk hlj hlk hn
  · rw [(hall j hj).live] at hl
    rw [(hall j hj).isDot] at hd
    rw [(hall j hj).name11]
    exact h.named j hj hl hd

/-- The live entries but the deleted one are what they were. -/
theorem DirWf.delete (hdel : (v'.slot d i).lead = 0xE5) : DirWf (v'.slot d) (maxEntries d) := by
  have hgone : ∀ j, (v'.slot d j).Live → j ≠ i := by
    intro j hl hji
    rw [hji] at hl
    exact hl.1 (Or.inr hdel)
  refine ⟨fun j k hjk hk hz hl => ?_, fun j k hj hk hlj hlk hn => ?_, fun j hj hl hd => ?_⟩
  · have hji : j ≠ i := by
      rintro rfl
      rw [hdel] at hz
      exact absurd hz (by decide)
    rw [hother j (by omega) hji] at hz
    rw [hother k hk (hgone k hl)] at hl
    exact h.ended j k hjk hk hz hl
  · have hji := hgone j hlj
    have hki := hgone k hlk
    rw [hother j hj hji] at hlj hn
    rw [hother k hk hki] at hlk hn
    exact h.distinct j k hj hk hlj hlk hn
  · have hji := hgone j hl
    rw [hother j hj hji] at hl hd ⊢
    exact h.named j hj hl hd

/-- No other live entry has the new name: the scan would have come across it. And
nothing live is behind the vacant slot's end mark, if it was one, but the new entry
itself, which takes its place. -/
theorem DirWf.add {name f11 : List UInt8} (hf : fatNameFromInput name = some f11)
    (hoff : Offered v d f11 i) (howns : (v'.slot d i).Owns)
    (hname : (v'.slot d i).name11 = f11) : DirWf (v'.slot d) (maxEntries d) := by
  -- The name is new: the scan has looked at every entry that is in use.
  have hfresh : ∀ k < maxEntries d, k ≠ i → (v.slot d k).Live → (v.slot d k).name11 ≠ f11 := by
    intro k hk _ hl
    exact hoff.name_ne hk (h.reach hk hl) hl
  -- In each condition on two entries at most one is the new one.
  refine ⟨fun j k hjk hk hz hl => ?_, fun j k hj hk hlj hlk hn => ?_, fun j hj hl hd => ?_⟩
  · have hji : j ≠ i := by
      rintro rfl
      exact howns.1.1 (Or.inl hz)
    rw [hother j (by omega) hji] at hz
    by_cases hki : k = i
    · subst hki
      exact hoff.before j hjk (Or.inl hz)
    · rw [hother k hk hki] at hl
      exact h.ended j k hjk hk hz hl
  · by_cases hji : j = i
    · by_cases hki : k = i
      · rw [hji, hki]
      · rw [hother k hk hki] at hlk hn
        rw [hji, hname] at hn
        exact absurd hn.symm (hfresh k hk hki hlk)
    · by_cases hki : k = i
      · rw [hother j hj hji] at hlj hn
        rw [hki, hname] at hn
        exact absurd hn (hfresh j hj hji hlj)
      · rw [hother j hj hji] at hlj hn
        rw [hother k hk hki] at hlk hn
        exact h.distinct j k hj hk hlj hlk hn
  · by_cases hji : j = i
    · rw [hji, hname]
      exact ⟨name, hf⟩
    · rw [hother j hj hji] at hl hd ⊢
      exact h.named j hj hl hd

/-- **The edits of the mutators keep a directory well formed.** -/
theorem DirWf.edit {e : FatDirEntry} (hnew : v'.slot d i = e) (hs : SlotEdit v d i e) :
    DirWf (v'.slot d) (maxEntries d) := by
  subst hnew
  cases hs with
  | renewed hhead => exact h.renew hother hhead
  | deleted hlive hdel => exact h.delete hother hdel
  | added name f11 hf hoff hname hattr =>
    exact h.add hother hf hoff (FatDirEntry.owns_of_name hf hname hattr) hname

end Edits

/-! ## The mutators -/

/-- A subdirectory's own cluster is in use, and on no chain of its entries. -/
def Fs.OwnSector (s : Fs) : Prop :=
  s.currentDirCluster ≠ 0 → s.volume.fat s.currentDirCluster ≠ 0 ∧
    ∀ i < maxEntries s.currentDirCluster, (s.volume.slot s.currentDirCluster i).Owns →
      ¬ Chain s.volume s.currentDirCluster i s.currentDirCluster

/-- An edit of a well-formed directory, wherever the entry got to: with the new entry,
or with the old one when the flush did not happen. -/
theorem Done.dirWf {s s' : Fs} {reached : Prop} {i first : Nat} {e : FatDirEntry} {l ws : List Nat}
    (hd : Done s s' reached i e first l ws) (hs : s.AtDir) (hw : s.DirWf)
    (hws : s.currentDirCluster ∉ ws) (he : SlotEdit s.volume s.currentDirCluster i e) : s'.DirWf := by
  have hother : ∀ j < maxEntries s.currentDirCluster, j ≠ i →
      s'.volume.slot s.currentDirCluster j = s.volume.slot s.currentDirCluster j :=
    fun j hj hji => hd.slot_kept _ j hs.1 hws hj fun h => hji h.2
  rw [Fs.DirWf, hd.currentDirCluster]
  by_cases hr : reached
  · exact DirWf.edit hw hother (hd.slot_new hr) he
  · exact DirWf.edit hw hother (hd.slot_old hr hws) (.renewed ⟨rfl, rfl⟩)

theorem Quiet.dirWf {s s' : Fs} (h : Quiet s s') (hw : s.DirWf) : s'.DirWf := by
  rw [Fs.DirWf, h.volume, h.currentDirCluster]
  exact hw

/-- The sector of the directory is not among the free ones. -/
theorem Fs.OwnSector.not_stored {s : Fs} (hown : s.OwnSector) {first : Nat} {ws : List Nat}
    (hst : ∀ c ∈ ws, InRange c ∧ (s.volume.fat c = 0 ∨ OnChain s.volume.fat first c))
    (hfirst : first = 0 ∨ ∃ i < maxEntries s.currentDirCluster,
      (s.volume.slot s.currentDirCluster i).Owns ∧
      (s.volume.slot s.currentDirCluster i).fstClusLo = first) :
    s.currentDirCluster ∉ ws := by
  intro hmem
  obtain ⟨hr, hfree⟩ := hst _ hmem
  have h0 : s.currentDirCluster ≠ 0 := fun h => not_inRange_zero (h ▸ hr)
  obtain ⟨hused, hoff⟩ := hown h0
  rcases hfirst with rfl | ⟨i, hi, ho, rfl⟩
  · exact hused (hfree.resolve_right (not_onChain not_inRange_zero))
  · exact hoff i hi ho (hfree.resolve_left hused)

/-- An entry with the head of the one the write started from. -/
theorem writeSlot_edit {s : Fs} {name : List UInt8} {i : Nat} {e e' : FatDirEntry}
    (hslot : s.writeSlot name = some (i, e)) (hhead : FatDirEntry.SameHead e e') :
    SlotEdit s.volume s.currentDirCluster i e' := by
  obtain ⟨hf, ⟨-, -, rfl⟩ | ⟨-, hoff, rfl⟩⟩ := writeSlot_cases hslot
  · exact .renewed hhead
  · refine .added name _ hf hoff (by rw [hhead.name11, newEntry_name11 hf]) ?_
    rw [hhead.attr]
    simp [newEntry]
    decide

section Mutators

variable {s : Fs} (hs : s.AtDir) (hw : s.DirWf)
include hs hw

theorem fsTouch_dirWf (name : List UInt8) : (fsTouch name s).2.DirWf := by
  rcases fsTouch_cases hs name with hq | ⟨i, t, -, hsk, hp, he⟩
  · exact hq.dirWf hw
  · obtain ⟨hf, hoff⟩ := seek_offered hsk
    rw [he]
    refine (hp.finish hs (flushCurrentDir_finish (hp.atDir hs))).1.dirWf hs hw (by simp) ?_
    exact .added name _ hf hoff (touchEntry_name11 hf) (by simp [touchEntry, newEntry]; decide)

theorem fsRemove_dirWf (name : List UInt8) : (fsRemove name s).2.DirWf := by
  rcases fsRemove_cases hs name with hr | ⟨i, t, -, -, hsk, hp, -, he⟩
  · exact hr.quiet.dirWf hw
  · rw [he]
    refine (hp.finish hs (commit_finish (show (-2 : Int) ≠ 0 by decide) (hp.atDir hs))).1.dirWf hs hw
      (by simp) ?_
    exact .deleted (seek_found hsk).2.live (by simp [removedEntry])

theorem fsRmdir_dirWf (name : List UInt8) : (fsRmdir name s).2.DirWf := by
  rcases fsRmdir_cases hs name with hr | ⟨i, t, -, -, hsk, -, -, hp, -, he⟩
  · exact hr.quiet.dirWf hw
  · rw [he]
    refine (hp.finish hs (commit_finish (show (-5 : Int) ≠ 0 by decide) (hp.atDir hs))).1.dirWf hs hw
      (by simp) ?_
    exact .deleted (seek_found hsk).2.live (by simp [rmdiredEntry])

/-- The two that store clusters need the directory's own one to be taken. -/
theorem fsMkdir_dirWf (hown : s.OwnSector) (name : List UInt8) : (fsMkdir name s).2.DirWf := by
  rcases fsMkdir_cases hs name with hr | ⟨i, x, -, hsk, hx, hx0, hcase⟩
  · exact hr.quiet.dirWf hw
  · obtain ⟨hf, hoff⟩ := seek_offered hsk
    have hedit : SlotEdit s.volume s.currentDirCluster i (mkdirEntry (nameBytes name) x) :=
      .added name _ hf hoff (mkdirEntry_name11 hf x) (by simp [mkdirEntry, newEntry]; decide)
    rcases hcase with ⟨h0, -, hheld⟩ | ⟨t, hp, -, he⟩
    · have hd := hheld.abandon h0 hoff.slot_lt (mkdirEntry (nameBytes name) x)
      exact hd.dirWf hs hw (hown.not_stored hd.stored (Or.inl rfl)) hedit
    · rw [he]
      have hd := (hp.finish hs (commit_finish (show (-6 : Int) ≠ 0 by decide) (hp.atDir hs))).1
      exact hd.dirWf hs hw (hown.not_stored hd.stored (Or.inl rfl)) hedit

theorem fsWriteRaw_dirWf (hown : s.OwnSector) (name data : List UInt8) :
    (fsWriteRaw name data s).2.DirWf := by
  rcases fsWriteRaw_cases hs name data with ⟨hr, -⟩ | ⟨i, e, u, hwr, hp, -, -, he⟩
  · exact hr.quiet.dirWf hw
  · -- The chain that was freed is the entry's, so it is not the directory's own.
    have hfirst : e.fstClusLo = 0 ∨ ∃ j < maxEntries s.currentDirCluster,
        (s.volume.slot s.currentDirCluster j).Owns ∧
        (s.volume.slot s.currentDirCluster j).fstClusLo = e.fstClusLo := by
      obtain ⟨hf, ⟨-, hfound, rfl⟩ | ⟨-, -, rfl⟩⟩ := writeSlot_cases hwr.slot
      · exact Or.inr ⟨i, hfound.slot_lt, hfound.owns hf, rfl⟩
      · exact Or.inl (newEntry_clus _ _)
    rw [he]
    rcases writeEntry_cases hp data with ⟨ws, -, hpd, -⟩ | ⟨t, l, hpt, hc, -⟩
    · have hd := hpd.abandon
      exact hd.dirWf hs hw (hown.not_stored hd.stored hfirst)
        (writeSlot_edit hwr.slot (droppedEntry_head e))
    · rw [hc]
      have hd := (hpt.finish hs (commit_finish (show (-4 : Int) ≠ 0 by decide) (hpt.atDir hs))).1
      exact hd.dirWf hs hw (hown.not_stored hd.stored hfirst)
        (writeSlot_edit hwr.slot (writtenEntry_head e _ _))

end Mutators

/-! ## The listings

The two listing functions differ in their test on dot entries. In a well-formed
directory the tests pass the same entries, and a listing is the list of the entries by
index. -/

/-- What the listing loop runs over: the entries before the end mark that it does not
pass. The test `skip` is where the two listings differ. -/
def visible (skip : FatDirEntry → Bool) (ent : Nat → FatDirEntry) : Nat → Nat → List FatDirEntry
  | 0, _ => []
  | n + 1, i =>
    if (ent i).lead = 0x00 then []
    else if (ent i).lead = 0xE5 ∨ (ent i).attr = 0x0F then visible skip ent n (i + 1)
    else if skip (ent i) then visible skip ent n (i + 1)
    else ent i :: visible skip ent n (i + 1)

/-- The loop picks the entry at the index. -/
theorem listLoop_eq (skip : FatDirEntry → Bool) (ent : Nat → FatDirEntry) (n i k : Nat) :
    listLoop skip ent n i k = (visible skip ent n i)[k]? := by
  induction n generalizing i k with
  | zero => rfl
  | succ n ih =>
    simp only [listLoop, visible]
    split
    · rfl
    · split
      · exact ih _ _
      · split
        · exact ih _ _
        · cases k with
          | zero => rfl
          | succ k => exact ih _ _

theorem visible_congr {skip : FatDirEntry → Bool} {ent ent' : Nat → FatDirEntry} {n i : Nat}
    (h : ∀ k, i ≤ k → k < i + n → ent k = ent' k) : visible skip ent n i = visible skip ent' n i := by
  induction n generalizing i with
  | zero => rfl
  | succ n ih =>
    have hi := h i (Nat.le_refl i) (by omega)
    have hrest : visible skip ent n (i + 1) = visible skip ent' n (i + 1) :=
      ih fun k h₁ h₂ => h k (by omega) (by omega)
    simp only [visible, hi, hrest]

/-- An entry is visible when it is live, in reach of the scan, and not skipped. -/
theorem mem_visible {skip : FatDirEntry → Bool} {ent : Nat → FatDirEntry} {n i : Nat}
    {e : FatDirEntry} : e ∈ visible skip ent n i ↔
      ∃ j, Reaches (fun k => (ent k).lead = 0x00) n i j ∧
        (ent j).Live ∧ skip (ent j) = false ∧ e = ent j := by
  induction n generalizing i with
  | zero => exact iff_of_false nofun fun ⟨_, h, _⟩ => not_reaches_zero h
  | succ n ih =>
    rw [exists_reaches_succ, ← ih]
    simp only [visible]
    split
    · rename_i hz
      refine iff_of_false nofun ?_
      rintro (⟨hl, -⟩ | ⟨hi, -⟩)
      · exact hl.1 (Or.inl hz)
      · exact hi hz
    · rename_i hz
      -- A slot that is passed over is not the one, but does not end the scan.
      have pass : ¬ ((ent i).Live ∧ skip (ent i) = false) → (e ∈ visible skip ent n (i + 1) ↔
          ((ent i).Live ∧ skip (ent i) = false ∧ e = ent i) ∨
            ¬ (ent i).lead = 0x00 ∧ e ∈ visible skip ent n (i + 1)) := by
        intro hno
        rw [or_iff_right fun h => hno ⟨h.1, h.2.1⟩, and_iff_right hz]
      split
      · rename_i hskip
        refine pass fun hl => ?_
        cases hskip with
        | inl h => exact hl.1.1 (Or.inr h)
        | inr h => exact hl.1.2 h
      · rename_i hlive
        have hl : (ent i).Live :=
          ⟨not_or.mpr ⟨hz, fun h => hlive (Or.inl h)⟩, fun h => hlive (Or.inr h)⟩
        split
        · rename_i hskip
          exact pass fun h => absurd h.2 (by rw [hskip]; decide)
        · rename_i hskip
          have hskip' : skip (ent i) = false := by simpa using hskip
          rw [List.mem_cons]
          constructor
          · intro h
            cases h with
            | inl he => exact Or.inl ⟨hl, hskip', he⟩
            | inr h => exact Or.inr ⟨hz, h⟩
          · intro h
            cases h with
            | inl h => exact Or.inl h.2.2
            | inr h => exact Or.inr h.2

/-- The entries of a directory: its live slots but `.` and `..`, in slot order. -/
def entries (ent : Nat → FatDirEntry) (n i : Nat) : List FatDirEntry :=
  ((List.range' i n).filter fun j => (ent j).Owns).map ent

/-- In a well-formed directory a listing is the list of its entries, whichever test on
dot entries it uses. By induction on the slots that are left; at an end mark the rest
has nothing live, so the filter is empty there as well. -/
theorem visible_eq {slot : Nat → FatDirEntry} {m : Nat} (h : DirWf slot m)
    {skip : FatDirEntry → Bool}
    (hskip : ∀ j < m, (slot j).Live → (skip (slot j) = true ↔ (slot j).IsDot)) {n i : Nat}
    (hn : i + n = m) : visible skip slot n i = entries slot n i := by
  induction n generalizing i with
  | zero => rfl
  | succ n ih =>
    have ih' := ih (show i + 1 + n = m by omega)
    have hcons : entries slot (n + 1) i =
        if (slot i).Owns then slot i :: entries slot n (i + 1) else entries slot n (i + 1) := by
      simp only [entries, List.range'_succ, List.filter_cons, decide_eq_true_eq]
      split <;> rfl
    have hpass : ¬ (slot i).Owns → entries slot (n + 1) i = entries slot n (i + 1) := fun ho => by
      rw [hcons, if_neg ho]
    simp only [visible]
    split
    · -- After the end mark there is nothing live.
      rename_i hz
      symm
      rw [entries, List.map_eq_nil_iff, List.filter_eq_nil_iff]
      intro j hj
      rw [List.mem_range'_1] at hj
      simp only [decide_eq_true_eq]
      intro ho
      rcases Nat.eq_or_lt_of_le hj.1 with rfl | hij
      · exact ho.1.1 (Or.inl hz)
      · exact h.ended i j hij (by omega) hz ho.1
    · rename_i hz
      split
      · rename_i hdead
        rw [ih', hpass]
        rintro ⟨hl, -⟩
        rcases hdead with hd | hd
        · exact hl.1 (Or.inr hd)
        · exact hl.2 hd
      · rename_i hlive
        have hl : (slot i).Live :=
          ⟨not_or.mpr ⟨hz, fun h => hlive (Or.inl h)⟩, fun h => hlive (Or.inr h)⟩
        have hs := hskip i (by omega) hl
        split
        · rename_i hsk
          rw [ih', hpass]
          exact fun ho => ho.2 (hs.mp hsk)
        · rename_i hsk
          rw [ih', hcons, if_pos ⟨hl, fun hd => hsk (hs.mpr hd)⟩]

/-- Among live entries of a well-formed directory, a leading dot means `.` or `..`. -/
theorem DirWf.dot_iff {slot : Nat → FatDirEntry} {n j : Nat} (h : DirWf slot n) (hj : j < n)
    (hl : (slot j).Live) : (slot j).lead = 0x2E ↔ (slot j).IsDot := by
  refine ⟨fun hlead => ?_, FatDirEntry.IsDot.lead_eq⟩
  by_contra hd
  obtain ⟨name, hf⟩ := h.named j hj hl hd
  have hv := head_of_fatNameFromInput hf
  rw [← FatDirEntry.lead_eq_name11] at hv
  exact (valid_ne hv).2.2.1 hlead

theorem DirWf.skipDotNames_iff {slot : Nat → FatDirEntry} {n : Nat} (h : DirWf slot n) :
    ∀ j < n, (slot j).Live → (skipDotNames (slot j) = true ↔ (slot j).IsDot) := by
  intro j hj hl
  rw [← h.dot_iff hj hl]
  simp [skipDotNames]

theorem DirWf.skipDots_iff {slot : Nat → FatDirEntry} {n : Nat} (h : DirWf slot n) :
    ∀ j < n, (slot j).Live → (skipDots (slot j) = true ↔ (slot j).IsDot) := by
  intro j hj hl
  have hbyte : ∀ e : FatDirEntry, e.byte 1 = e.name11.getD 1 0 := fun e => by simp [FatDirEntry.name11]
  have hsk : skipDots (slot j) = true ↔
      (slot j).lead = 0x2E ∧ ((slot j).byte 1 = 0x20 ∨ (slot j).byte 1 = 0x2E) := by
    simp [skipDots]
  rw [hsk]
  constructor
  · exact fun hs => (h.dot_iff hj hl).mp hs.1
  · intro hd
    refine ⟨hd.lead_eq, ?_⟩
    rw [hbyte]
    rcases hd with hd | hd <;> rw [hd]
    · exact Or.inl rfl
    · exact Or.inr rfl

/-! ## Names, as typed and as listed -/

/-- The string is the listed name, whatever the case of its letters; a name without an
extension may be followed by a dot. It is the caller's view of a name, and
`sameName_iff` says that it is the encoder's view. -/
def SameName (name printed : List UInt8) : Prop :=
  upper name = printed ∨ (0x2E : UInt8) ∉ printed ∧ upper name = printed ++ [0x2E]

theorem sameName_spell {base ext : List UInt8} (h : Parts base ext) (name : List UInt8) :
    SameName name (spell base ext) ↔ Spells name base ext := by
  cases ext with
  | nil => simp [SameName, spell, Spells, h.dot_not_mem]
  | cons c ext => simp [SameName, spell, Spells]

theorem encode83_inj {b e b' e' : List UInt8} (h : Parts b e) (h' : Parts b' e')
    (heq : encode83 b e = encode83 b' e') : b = b' ∧ e = e' := by
  have hs : Spells (spell b' e') b e := by
    rw [← fatNameToPrintable_encode83 h', ← heq, fatNameToPrintable_encode83 h]
    exact spells_spell h
  exact hs.unique h.dot_not_mem h'.dot_not_mem (spells_spell h')

/-- Two ways to say that a string names an entry: the encoder makes its eleven bytes of it, or it
is the printed name. -/
theorem sameName_iff {inp f : List UInt8} (hf : fatNameFromInput inp = some f) (name : List UInt8) :
    SameName name (fatNameToPrintable f) ↔ fatNameFromInput name = some f := by
  obtain ⟨base, ext, hp, -, rfl⟩ := fatNameFromInput_eq_some.mp hf
  rw [fatNameToPrintable_encode83 hp, sameName_spell hp, fatNameFromInput_eq_some]
  constructor
  · intro hs
    exact ⟨base, ext, hp, hs, rfl⟩
  · rintro ⟨base', ext', hp', hs, heq⟩
    obtain ⟨rfl, rfl⟩ := encode83_inj hp hp' heq
    exact hs

/-! ## Lookup and listing

Both go through the slots in their order, the lookup for one name and the listing for
one index. In a well-formed directory every name is there once, so the two speak of the
same entries. -/

theorem mem_entries {ent : Nat → FatDirEntry} {n : Nat} {e : FatDirEntry} :
    e ∈ entries ent n 0 ↔ ∃ j < n, (ent j).Owns ∧ ent j = e := by
  simp [entries, List.mem_range'_1, and_assoc]

/-- In a well-formed directory a live name is where the scan finds it. -/
theorem DirWf.found {v : Volume} {d j : Nat} (h : DirWf (v.slot d) (maxEntries d))
    (hj : j < maxEntries d) (hl : (v.slot d j).Live) : Found v d (v.slot d j).name11 j := by
  refine ⟨hj, hl, rfl, fun k hk => ⟨h.reach hj hl k hk, fun hlk hn => ?_⟩⟩
  have := h.distinct k j (by omega) hj hlk hl hn
  omega

/-- The listing at an index, on a device that answers. -/
theorem listCurrent_eq {s : Fs} (hg : s.dev.Good) (hs : s.AtDir) (hready : s.fsReady = true)
    (skip : FatDirEntry → Bool) (k : Nat) : (listCurrent skip k s).1 =
      (visible skip (s.volume.slot s.currentDirCluster) (maxEntries s.currentDirCluster) 0)[k]? := by
  have hr : ¬ s.fsReady = false := by rw [hready]; decide
  rcases currentDirEntries_cases hs with ⟨-, t, he, hl⟩ | ⟨hno, -⟩
  · have hent : visible skip t.ent (maxEntries s.currentDirCluster) 0 =
        visible skip (s.volume.slot s.currentDirCluster) (maxEntries s.currentDirCluster) 0 :=
      visible_congr fun j _ hj => hl.ent j (by omega)
    simp only [listCurrent, if_neg hr, he, Bool.true_eq_false, if_false, listLoop_eq,
      hl.currentDirCluster, hent]
  · exact absurd (hg.runs _) hno

theorem fsListDirEntry_eq {s : Fs} (hg : s.dev.Good) (hs : s.AtDir) (hready : s.fsReady = true)
    (hw : s.DirWf) (k : Nat) : (fsListDirEntry k s).1 =
      (entries (s.volume.slot s.currentDirCluster) (maxEntries s.currentDirCluster) 0)[k]?.map
        FatDirEntry.listing := by
  simp only [fsListDirEntry, listCurrent_eq hg hs hready]
  rw [visible_eq hw hw.skipDotNames_iff (Nat.zero_add _)]

theorem fsListEntry_eq {s : Fs} (hg : s.dev.Good) (hs : s.AtDir) (hready : s.fsReady = true)
    (hw : s.DirWf) (k : Nat) : (fsListEntry k s).1 =
      (entries (s.volume.slot s.currentDirCluster) (maxEntries s.currentDirCluster) 0)[k]?.map
        fun e => (e.listing.name, e.listing.len) := by
  simp only [fsListEntry, listCurrent_eq hg hs hready]
  rw [visible_eq hw hw.skipDots_iff (Nat.zero_add _)]

/-- What is listed is an entry with a name of the encoder's. -/
theorem listed_name {s : Fs} (hg : s.dev.Good) (hs : s.AtDir) (hready : s.fsReady = true)
    (hw : s.DirWf) {k : Nat} {l : Listing} (h : (fsListDirEntry k s).1 = some l) :
    ∃ j < maxEntries s.currentDirCluster, (s.volume.slot s.currentDirCluster j).Owns ∧
      l = (s.volume.slot s.currentDirCluster j).listing ∧
      ∃ inp, fatNameFromInput inp = some (s.volume.slot s.currentDirCluster j).name11 := by
  rw [fsListDirEntry_eq hg hs hready hw, Option.map_eq_some_iff] at h
  obtain ⟨e, he, rfl⟩ := h
  obtain ⟨j, hj, ho, rfl⟩ := mem_entries.mp (List.mem_of_getElem? he)
  exact ⟨j, hj, ho, rfl, hw.named j hj ho.1 ho.2⟩

/-- The scan for a name finds something exactly when the encoder makes the name of some entry. -/
theorem find_isSome_iff {s : Fs} (hg : s.dev.Good) (hs : s.AtDir) (hw : s.DirWf)
    (name : List UInt8) : (findEntryInCurrent name s).1.idx.isSome = true ↔
      ∃ j < maxEntries s.currentDirCluster, (s.volume.slot s.currentDirCluster j).Owns ∧
        fatNameFromInput name = some (s.volume.slot s.currentDirCluster j).name11 := by
  have hseek : (findEntryInCurrent name s).1 = s.seek name := by
    rcases findEntryInCurrent_cases hs name with ⟨-, -, t, he, -⟩ | ⟨hno, t, he, -⟩
    · rw [he]
    · rw [he, Fs.seek]
      cases hf : fatNameFromInput name with
      | none => rfl
      | some f11 => exact absurd ⟨by rw [validName, hf]; rfl, hg.runs _⟩ hno
  rw [hseek, Option.isSome_iff_exists]
  constructor
  · rintro ⟨i, hi⟩
    obtain ⟨hf, hfound⟩ := seek_found hi
    exact ⟨i, hfound.slot_lt, hfound.owns hf, by rw [hf, hfound.name11]⟩
  · rintro ⟨j, hj, ho, hf⟩
    refine ⟨j, ?_⟩
    rw [Fs.seek, hf]
    exact (lookup_idx (length_of_fatNameFromInput hf)).mpr (hw.found hj ho.1)

/-- **A well-formed directory stays one under every mutator, and its listings and the
scan for a name agree.** The listings answer at every index, and with nothing from the
number of entries on; a name is found exactly when it is a way to type one that is
listed. -/
theorem dirWf_kept_and_listed {s : Fs} (hg : s.dev.Good) (hs : s.AtDir) (hready : s.fsReady = true)
    (hw : s.DirWf) :
    (s.OwnSector → ∀ name : List UInt8, (fsTouch name s).2.DirWf ∧
      (∀ data : List UInt8, (fsWriteRaw name data s).2.DirWf) ∧ (fsMkdir name s).2.DirWf ∧
      (fsRemove name s).2.DirWf ∧ (fsRmdir name s).2.DirWf) ∧
    (∀ k, (fsListDirEntry k s).1 = (entries (s.volume.slot s.currentDirCluster)
      (maxEntries s.currentDirCluster) 0)[k]?.map FatDirEntry.listing) ∧
    (∀ k, (fsListEntry k s).1 = (entries (s.volume.slot s.currentDirCluster)
      (maxEntries s.currentDirCluster) 0)[k]?.map fun e => (e.listing.name, e.listing.len)) ∧
    ∀ name : List UInt8,
      ((findEntryInCurrent name s).1.idx.isSome = true ↔
        ∃ k l, (fsListDirEntry k s).1 = some l ∧ SameName name l.name) ∧
      ∀ k l, (fsListDirEntry k s).1 = some l →
        (SameName name l.name ↔ fatNameFromInput name = fatNameFromInput l.name) := by
  refine ⟨fun hown name => ⟨fsTouch_dirWf hs hw name, fsWriteRaw_dirWf hs hw hown name,
    fsMkdir_dirWf hs hw hown name, fsRemove_dirWf hs hw name, fsRmdir_dirWf hs hw name⟩,
    fsListDirEntry_eq hg hs hready hw, fsListEntry_eq hg hs hready hw, fun name => ⟨?_, ?_⟩⟩
  · -- What is found is listed under the same name, and the other way round.
    rw [find_isSome_iff hg hs hw]
    constructor
    · rintro ⟨j, hj, ho, hf⟩
      obtain ⟨k, hk⟩ := List.mem_iff_getElem?.mp
        (mem_entries.mpr ⟨j, hj, ho, rfl⟩ : s.volume.slot s.currentDirCluster j ∈ entries _ _ 0)
      refine ⟨k, (s.volume.slot s.currentDirCluster j).listing, ?_, (sameName_iff hf name).mpr hf⟩
      rw [fsListDirEntry_eq hg hs hready hw, hk]
      rfl
    · rintro ⟨k, l, hl, hsame⟩
      obtain ⟨j, hj, ho, rfl, inp, hinp⟩ := listed_name hg hs hready hw hl
      exact ⟨j, hj, ho, (sameName_iff hinp name).mp hsame⟩
  · intro k l hl
    obtain ⟨j, -, -, rfl, inp, hinp⟩ := listed_name hg hs hready hw hl
    have hback : fatNameFromInput (s.volume.slot s.currentDirCluster j).listing.name =
        some (s.volume.slot s.currentDirCluster j).name11 := fatNameFromInput_printable hinp
    rw [hback]
    exact sameName_iff hinp name

theorem freshFs_dirWf : freshFs.DirWf := by
  have hlead : ∀ j, (freshFs.volume.slot freshFs.currentDirCluster j).lead = 0x00 := by
    intro j
    rw [freshFs_cluster]
    exact freshFs_empty.root j
  refine ⟨fun _ k _ _ _ hl => hl.1 (Or.inl (hlead k)), fun j _ _ _ hl => ?_, fun j _ hl => ?_⟩
  · exact absurd (Or.inl (hlead j)) hl.1
  · exact absurd (Or.inl (hlead j)) hl.1

/-- The root of a new disk with two files. -/
def writtenTwice : Fs :=
  (fsWriteRaw [0x41] [1, 2, 3] (fsWriteRaw [0x42] [4] freshFs).2).2

/-- The root with a file in its second slot, behind a deleted one, on a disk whose transfers
succeed. -/
def trashedFs : Fs :=
  let s := (fsRemove [0x42] writtenTwice).2
  { s with dev := { s.dev with ok := fun _ => true } }

theorem writtenTwice_dirWf : writtenTwice.DirWf := by
  have hroot : ∀ {s : Fs}, s.currentDirCluster = 0 → s.AtDir ∧ s.OwnSector := by
    intro s h0
    rw [Fs.AtDir, h0]
    exact ⟨⟨.inl rfl, by decide⟩, fun h => absurd h0 h⟩
  obtain ⟨hs₀, hown₀⟩ := hroot freshFs_cluster
  have hfirst := fsWriteRaw_dirWf hs₀ freshFs_dirWf hown₀ [0x42] [4]
  have hcwd : (fsWriteRaw [0x42] [4] freshFs).2.currentDirCluster = 0 := by decide +kernel
  obtain ⟨hs₁, hown₁⟩ := hroot hcwd
  exact fsWriteRaw_dirWf hs₁ hfirst hown₁ [0x41] [1, 2, 3]

/-- Whether the disk answers is no part of a directory. -/
theorem Fs.DirWf.answering {s : Fs} (h : s.DirWf) (ok : Nat → Bool) :
    Fs.DirWf { s with dev := { s.dev with ok := ok } } := h

theorem trashedFs_dirWf : trashedFs.DirWf := by
  have hcwd : writtenTwice.currentDirCluster = 0 := by decide +kernel
  have hs : writtenTwice.AtDir := by
    rw [Fs.AtDir, hcwd]
    exact ⟨.inl rfl, by decide⟩
  exact (fsRemove_dirWf hs writtenTwice_dirWf [0x42]).answering fun _ => true

/-- That root stays well formed, lists the file alone, and finds it by its name in small letters. -/
theorem dirWf_kept_and_listed_trashed :
    (trashedFs.volume.slot 0 0).lead = 0xE5 ∧ (fsWriteRaw [0x43] [5] trashedFs).2.DirWf ∧
    (fsMkdir [0x44] trashedFs).2.DirWf ∧ (fsRemove [0x41] trashedFs).2.DirWf ∧
    (fsListDirEntry 0 trashedFs).1 = some ⟨[0x41], 3, false⟩ ∧
    (fsListDirEntry 1 trashedFs).1 = none ∧
    (findEntryInCurrent [0x61] trashedFs).1.idx.isSome = true := by
  have h0 : trashedFs.currentDirCluster = 0 := by decide +kernel
  have hs : trashedFs.AtDir := by
    rw [Fs.AtDir, h0]
    exact ⟨.inl rfl, by decide⟩
  obtain ⟨hkeep, hlist, -, hfind⟩ :=
    dirWf_kept_and_listed (s := trashedFs) (fun _ => rfl) hs (by decide +kernel) trashedFs_dirWf
  have hown : trashedFs.OwnSector := fun h => absurd h0 h
  obtain ⟨-, hwrite, -⟩ := hkeep hown [0x43]
  obtain ⟨-, -, hmkdir, -⟩ := hkeep hown [0x44]
  obtain ⟨-, -, -, hremove, -⟩ := hkeep hown [0x41]
  have hfile : (fsListDirEntry 0 trashedFs).1 = some ⟨[0x41], 3, false⟩ := by
    rw [hlist 0]
    decide +kernel
  have hend : (fsListDirEntry 1 trashedFs).1 = none := by
    rw [hlist 1]
    decide +kernel
  exact ⟨by decide +kernel, hwrite [5], hmkdir, hremove, hfile, hend,
    (hfind [0x61]).1.mpr ⟨0, _, hfile, .inl (by decide)⟩⟩

end OsU
