import OsU.Proof.Read

/-!
# The mutators as edits of the tree

Each pending edit of `OsU/Proof/Ops.lean`, carried out, is one of the four kinds of edit
the tree survives (`EditOk`). The one thing that can go wrong shows up as a hypothesis,
`reached ∨ ¬ InRange first`: when a chain is freed, the new entry must get to the
volume.

An edit can be carried out and its entry still not be on the disk, because the flush of
the directory comes last and may fail. So the edits are stated for both outcomes, with
`reached` for whether the slot has the new entry, and the lemmas below look at the same
edit twice. The old entry in the slot is harmless when nothing was freed (`Done.lost`).
-/

set_option autoImplicit false

namespace OsU

namespace FatDirEntry

/-! ## The entries the mutators make -/

theorem Vacant.not_owns {e : FatDirEntry} (h : e.Vacant) : ¬ e.Owns := fun ho => ho.1.1 h

theorem Vacant.not_dot {e : FatDirEntry} (h : e.Vacant) : ¬ e.IsDot := by
  intro hd
  have := hd.lead_eq
  rcases h with h | h <;> rw [h] at this <;> exact absurd this (by decide)

/-- The fields of an entry that say whose it is. An edit of a file changes the cluster
and the size and keeps these, so that the file is found under its name as before. -/
structure SameHead (e e' : FatDirEntry) : Prop where
  name11 : e'.name11 = e.name11
  attr : e'.attr = e.attr

theorem SameHead.lead {e e' : FatDirEntry} (h : SameHead e e') : e'.lead = e.lead := by
  rw [lead_eq_name11, lead_eq_name11, h.name11]

theorem SameHead.live {e e' : FatDirEntry} (h : SameHead e e') : e'.Live ↔ e.Live := by
  simp only [Live, Vacant, h.lead, h.attr]

theorem SameHead.isDir {e e' : FatDirEntry} (h : SameHead e e') : e'.isDir = e.isDir := by
  simp only [FatDirEntry.isDir, h.attr]

theorem SameHead.isDot {e e' : FatDirEntry} (h : SameHead e e') : e'.IsDot ↔ e.IsDot := by
  simp only [IsDot, h.name11]

theorem not_owns_of_lead {e : FatDirEntry} (h : e.lead = 0xE5) : ¬ e.Owns :=
  Vacant.not_owns (Or.inr h)

end FatDirEntry

theorem droppedEntry_head (e : FatDirEntry) : FatDirEntry.SameHead e (droppedEntry e) := by
  unfold droppedEntry
  split
  · exact ⟨by simp, by simp⟩
  · exact ⟨rfl, rfl⟩

theorem writtenEntry_head (e : FatDirEntry) (first size : Nat) :
    FatDirEntry.SameHead e (writtenEntry e first size) := by
  have h := droppedEntry_head e
  exact ⟨by simp [writtenEntry, h.name11], by simp [writtenEntry, h.attr]⟩

theorem writtenEntry_clus (e : FatDirEntry) {first : Nat} (h : first < 65536) (size : Nat) :
    (writtenEntry e first size).fstClusLo = first := by
  simp [writtenEntry, Nat.mod_eq_of_lt h]

theorem writtenEntry_size (e : FatDirEntry) (first : Nat) {size : Nat} (h : size ≤ fsMaxFileSize) :
    (writtenEntry e first size).fileSize = size := by
  have : fsMaxFileSize = 4096 := rfl
  simp only [writtenEntry, FatDirEntry.fileSize_setFileSize]
  omega

/-- The entry is dropped, or there was nothing to drop. -/
theorem droppedEntry_clus (e : FatDirEntry) :
    (droppedEntry e).fstClusLo = 0 ∨ (droppedEntry e = e ∧ e.fstClusLo < fatClusterMin) := by
  unfold droppedEntry
  split
  · exact Or.inl (by simp)
  · exact Or.inr ⟨rfl, by omega⟩

section NewEntry

variable {name f11 : List UInt8} (hf : fatNameFromInput name = some f11)
include hf

theorem newEntry_name11 (attr : UInt8) : (newEntry f11 attr).name11 = f11 := by
  simp [newEntry, FatDirEntry.name11_setName _ (length_of_fatNameFromInput hf)]

theorem newEntry_owns {attr : UInt8} (ha : attr ≠ 0x0F) : (newEntry f11 attr).Owns :=
  FatDirEntry.owns_of_name hf (newEntry_name11 hf attr) (by simpa [newEntry] using ha)

theorem mkdirEntry_name11 (x : Nat) : (mkdirEntry f11 x).name11 = f11 := by
  simp [mkdirEntry, newEntry_name11 hf]

theorem touchEntry_name11 : (touchEntry f11).name11 = f11 := by
  simp [touchEntry, newEntry_name11 hf]

end NewEntry

theorem newEntry_clus (f11 : List UInt8) (attr : UInt8) : (newEntry f11 attr).fstClusLo = 0 := by
  simp [newEntry]

theorem newEntry_file (f11 : List UInt8) : (newEntry f11 fatAttrArchive).isDir = false := by
  simp [newEntry, FatDirEntry.isDir, fatAttrArchive]
  decide

theorem mkdirEntry_clus (f11 : List UInt8) {x : Nat} (h : x < 65536) :
    (mkdirEntry f11 x).fstClusLo = x := by
  simp [mkdirEntry, Nat.mod_eq_of_lt h]

/-! ## A new directory -/

theorem newDir_ent (x p : Nat) {j : Nat} (hj : j < 16) :
    entryAt (sectorOf (newDir x p) 0).mem j =
      if j = 1 then dotEntry dotdotName p else if j = 0 then dotEntry dotName x else FatDirEntry.zero := by
  rw [entryAt_mem_sectorOf _ hj, newDir, entryAt_putEntry, entryAt_putEntry]
  split
  · rfl
  · split
    · rfl
    · refine FatDirEntry.ext_bytes fun k => ?_
      have := k.isLt
      simp only [entryAt, ByteMem.fill, FatDirEntry.zero]
      rw [if_pos (by omega)]

theorem dotEntry_name11 {name : List UInt8} (h : name.length = 11) (c : Nat) :
    (dotEntry name c).name11 = name := by
  simp [dotEntry, newEntry, FatDirEntry.name11_setName _ h]

theorem dotEntry_clus (name : List UInt8) {c : Nat} (h : c < 65536) :
    (dotEntry name c).fstClusLo = c := by
  simp [dotEntry, Nat.mod_eq_of_lt h]

/-- The sector of a new directory says what a directory promises, and holds nothing else. -/
theorem newDir_slots {v : Volume} {x p : Nat} (hx : InRange x) (hp : p < 65536)
    (hs : v.sector x = sectorOf (newDir x p) 0) :
    (v.slot x 0).name11 = dotName ∧ (v.slot x 0).fstClusLo = x ∧ (v.slot x 1).name11 = dotdotName ∧
      (v.slot x 1).fstClusLo = p ∧ ∀ j < 16, ¬ (v.slot x j).Owns := by
  have hxr := inRange_iff.mp hx
  have hslot : ∀ j < 16, v.slot x j = if j = 1 then dotEntry dotdotName p else
      if j = 0 then dotEntry dotName x else FatDirEntry.zero := fun j hj => by
    rw [Volume.slot, if_neg (by omega), hs, newDir_ent x p hj]
  have h₀ := hslot 0 (by omega)
  have h₁ := hslot 1 (by omega)
  simp only [Nat.zero_ne_one, if_false, if_true] at h₀ h₁
  refine ⟨by rw [h₀, dotEntry_name11 rfl], by rw [h₀, dotEntry_clus _ (by omega)],
    by rw [h₁, dotEntry_name11 rfl], by rw [h₁, dotEntry_clus _ hp], fun j hj ho => ?_⟩
  rw [hslot j hj] at ho
  split at ho
  · exact ho.2 (Or.inr (dotEntry_name11 rfl _))
  · split at ho
    · exact ho.2 (Or.inl (dotEntry_name11 rfl _))
    · exact ho.1.1 (Or.inl rfl)

/-! ## The edits -/

section Edits

variable {s s' : Fs} {reached : Prop} {name : List UInt8} {i : Nat}

theorem Found.owner {v : Volume} {d : Nat} {f11 : List UInt8} (h : Found v d f11 i)
    (hf : fatNameFromInput name = some f11) (hd : IsDir v d) : Owner v d i :=
  ⟨hd, h.slot_lt, h.owns hf⟩

/-- An edit that did not reach the volume, and freed nothing, left the slot as it was. -/
theorem Done.lost {e : FatDirEntry} {first : Nat} {l ws : List Nat}
    (hd : Done s s' reached i e first l ws) (hO : Owned s.volume)
    (hdir : IsDir s.volume s.currentDirCluster) (hr : ¬ reached) (hfirst : ¬ InRange first) :
    s'.volume.slot s.currentDirCluster i = s.volume.slot s.currentDirCluster i := by
  refine hd.slot_old hr fun hw => ?_
  obtain ⟨hrng, hfree⟩ := hd.stored _ hw
  obtain ⟨_, _, -, -, -, hu⟩ := hO.dir_owner hdir hrng
  exact hu (hfree.resolve_right (not_onChain hfirst))

/-- `fs_touch`: a file without a chain. -/
theorem Done.touch_ok (hd : Done s s' reached i (touchEntry (nameBytes name)) 0 [] [])
    (hO : Owned s.volume) (hdir : IsDir s.volume s.currentDirCluster)
    (hsk : s.seek name = ⟨none, some i⟩) :
    EditOk s.volume s'.volume s.currentDirCluster i 0 [] [] where
  toEdit := hd.toEdit
  dir := hdir
  own := fun h => absurd h not_inRange_zero
  kind := by
    by_cases hr : reached
    · refine .file (fun c hs => (seek_offered hsk).2.vacant.not_owns hs.owns) ?_ ?_
      · rw [hd.slot_new hr]
        simpa [touchEntry, FatDirEntry.isDir] using newEntry_file (nameBytes name)
      · rw [hd.slot_new hr]
        simp [touchEntry]
    · exact .lost not_inRange_zero (hd.lost hO hdir hr not_inRange_zero)

/-- `fs_remove` and `fs_rmdir`: the entry is deleted. -/
theorem Done.remove_ok {e : FatDirEntry}
    (hd : Done s s' reached i e (s.volume.slot s.currentDirCluster i).fstClusLo [] [])
    (he : e.lead = 0xE5) (hO : Owned s.volume) (hdir : IsDir s.volume s.currentDirCluster)
    (hsk : (s.seek name).idx = some i)
    (hsafe : reached ∨ ¬ InRange (s.volume.slot s.currentDirCluster i).fstClusLo) :
    EditOk s.volume s'.volume s.currentDirCluster i
      (s.volume.slot s.currentDirCluster i).fstClusLo [] [] where
  toEdit := hd.toEdit
  dir := hdir
  own := fun _ => by
    obtain ⟨hf, hfound⟩ := seek_found hsk
    exact ⟨hfound.owner hf hdir, rfl⟩
  kind := by
    by_cases hr : reached
    · exact .cleared (by rw [hd.slot_new hr]; exact FatDirEntry.not_owns_of_lead he) rfl rfl
    · have hn := hsafe.resolve_left hr
      exact .lost hn (hd.lost hO hdir hr hn)

/-- `fs_mkdir`: a directory with nothing in it. -/
theorem Done.mkdir_ok {x : Nat} (hd : Done s s' reached i (mkdirEntry (nameBytes name) x) 0 [x] [x])
    (hsec : reached → s'.volume.sector x = sectorOf (newDir x s.currentDirCluster) 0)
    (hO : Owned s.volume) (hdir : IsDir s.volume s.currentDirCluster)
    (hsk : s.seek name = ⟨none, some i⟩) :
    EditOk s.volume s'.volume s.currentDirCluster i 0 [x] [x] where
  toEdit := hd.toEdit
  dir := hdir
  own := fun h => absurd h not_inRange_zero
  kind := by
    have hx := (hd.fresh x (by simp)).1
    have hx2 := inRange_iff.mp hx
    by_cases hr : reached
    · obtain ⟨h₀, h₀c, h₁, h₁c, hno⟩ := newDir_slots hx hdir.lt (hsec hr)
      have hslot := hd.slot_new hr
      have hclus : (mkdirEntry (nameBytes name) x).fstClusLo = x := mkdirEntry_clus _ (by omega)
      refine .made x (seek_offered hsk).2.vacant.not_owns rfl (by rw [hslot, hclus]) ?_ hno
      rw [hslot]
      refine ⟨by rwa [hclus], ?_, by rwa [hclus], by rwa [hclus], by rwa [hclus], by rwa [hclus]⟩
      rw [hclus]
      exact (hd.chain (by simp)).fat_ne_zero x (by simp)
    · exact .lost not_inRange_zero (hd.lost hO hdir hr not_inRange_zero)

/-- The slot `fs_write_raw` works on: the entry of that name, or a new one in the slot
offered. There is none when the name cannot be encoded, or is absent and the directory
is full. -/
theorem writeSlot_cases {e : FatDirEntry} (h : s.writeSlot name = some (i, e)) :
    fatNameFromInput name = some (nameBytes name) ∧
    (((s.seek name).idx = some i ∧ Found s.volume s.currentDirCluster (nameBytes name) i ∧
        e = s.volume.slot s.currentDirCluster i) ∨
      (s.seek name = ⟨none, some i⟩ ∧ Offered s.volume s.currentDirCluster (nameBytes name) i ∧
        e = newEntry (nameBytes name) fatAttrArchive)) := by
  rw [Fs.writeSlot] at h
  rcases hsk : s.seek name with ⟨_ | j, _ | k⟩ <;> rw [hsk] at h <;>
    simp only [Option.some.injEq, Prod.mk.injEq, reduceCtorEq] at h
  · obtain ⟨rfl, rfl⟩ := h
    obtain ⟨hf, ho⟩ := seek_offered hsk
    exact ⟨hf, Or.inr ⟨rfl, ho, rfl⟩⟩
  all_goals
    obtain ⟨rfl, rfl⟩ := h
    obtain ⟨hf, ho⟩ := seek_found (show (s.seek name).idx = some j by rw [hsk])
    exact ⟨hf, Or.inl ⟨rfl, ho, rfl⟩⟩

/-- The name is absent from the current directory, or it is a file's. -/
def Fs.FileOrAbsent (s : Fs) (name : List UInt8) : Prop :=
  ∀ i, (s.seek name).idx = some i → (s.volume.slot s.currentDirCluster i).isDir = false

/-- `fs_write_raw`: a file on a new chain, or on none if it gave up. The first cluster
in the entry is the head of the new chain, and 0 if that is empty; or the entry is the
old one, which had no chain to begin with. -/
theorem Done.write_ok {e e' : FatDirEntry} {l ws : List Nat}
    (hd : Done s s' reached i e' e.fstClusLo l ws) (hhead : FatDirEntry.SameHead e e')
    (hclus : e'.fstClusLo = l.headD 0 ∨ (e' = e ∧ l = [] ∧ e.fstClusLo < fatClusterMin))
    (hO : Owned s.volume) (hdir : IsDir s.volume s.currentDirCluster)
    (hslot : s.writeSlot name = some (i, e)) (hfile : s.FileOrAbsent name)
    (hsafe : reached ∨ ¬ InRange e.fstClusLo) :
    EditOk s.volume s'.volume s.currentDirCluster i e.fstClusLo l ws := by
  obtain ⟨hf, hcases⟩ := writeSlot_cases hslot
  refine { toEdit := hd.toEdit, dir := hdir, own := fun hr => ?_, kind := ?_ }
  · rcases hcases with ⟨-, hfound, rfl⟩ | ⟨-, -, rfl⟩
    · exact ⟨hfound.owner hf hdir, rfl⟩
    · rw [newEntry_clus] at hr
      exact absurd hr not_inRange_zero
  · by_cases hr : reached
    · have hs := hd.slot_new hr
      have hnotdir : ∀ c, ¬ SubDir s.volume s.currentDirCluster i c := by
        intro c hc
        rcases hcases with ⟨hsk, -, -⟩ | ⟨-, hoff, -⟩
        · exact absurd hc.isDir (by rw [hfile i hsk]; decide)
        · exact hoff.vacant.not_owns hc.owns
      have hedir : e.isDir = false := by
        rcases hcases with ⟨hsk, -, rfl⟩ | ⟨-, -, rfl⟩
        · exact hfile i hsk
        · exact newEntry_file _
      have hdir' : (s'.volume.slot s.currentDirCluster i).isDir = false := by
        rw [hs, hhead.isDir, hedir]
      -- The entry leads to its new chain; or it is as before, an empty file's without a
      -- chain.
      rcases hclus with hclus | ⟨rfl, rfl, hlt⟩
      · exact .file hnotdir hdir' (by rw [hs, hclus])
      · rcases hcases with ⟨-, -, rfl⟩ | ⟨-, -, rfl⟩
        · exact .lost (fun h => by have := h.1; omega) hs
        · exact .file hnotdir hdir' (by rw [hs, newEntry_clus]; rfl)
    · have hn := hsafe.resolve_left hr
      exact .lost hn (hd.lost hO hdir hr hn)

theorem headD_lt {l : List Nat} (h : ∀ c ∈ l, InRange c) : l.headD 0 < 65536 := by
  cases l with
  | nil => decide
  | cons c l =>
    have := inRange_iff.mp (h c (by simp))
    simp only [List.headD_cons]
    omega

end Edits

end OsU
