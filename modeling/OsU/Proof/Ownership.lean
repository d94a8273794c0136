import OsU.Proof.Steps

/-!
# Ownership on a device that never fails

With every transfer succeeding, one thing is left that can break ownership: a write to a
file that already has a chain, in a directory other than the root, with more data than
the free clusters and that chain can hold. `fs_write_raw` has freed the chain by then,
returns `-3`, and the edit of the entry is lost with `dir_buf`: the entry on the disk
still claims clusters the table calls free. In the root the entry is edited in place and
nothing is claimed twice.

The condition `Strands` is about the state before the call: where the name is found, how
many clusters are free, and how many sectors the data has. It does not mention what the
call returns. That it is exact is `owned_step_iff`; that it can be met is shown on a
volume with every cluster in use (`fullFs`), where a write of 512 bytes is served and
one of 513 is not.

`Proper` keeps files and directories apart. It is what the callers of these functions
promise, and without it a write to a directory's name would be another way to lose
ownership, which is `Directories`.
-/

set_option autoImplicit false

namespace OsU

/-- The name is absent from the current directory, or it is a directory's. -/
def Fs.DirOrAbsent (s : Fs) (name : List UInt8) : Prop :=
  ∀ i, (s.seek name).idx = some i → (s.volume.slot s.currentDirCluster i).isDir = true

/-- A mutator on a name of the kind it is meant for: files are written and removed as
files, directories as directories. A new name is of either kind. Calls that only look
are not mutators. -/
def FsOp.Proper : FsOp → Fs → Prop
  | .touch name, s => s.FileOrAbsent name
  | .writeRaw name _, s => s.FileOrAbsent name
  | .write name _, s => s.FileOrAbsent name
  | .append name _, s => s.FileOrAbsent name
  | .remove name, s => s.FileOrAbsent name
  | .mkdir _, _ => True
  | .rmdir name, s => s.DirOrAbsent name
  | _, _ => False

/-- The data does not fit in the free clusters and the chain of the file it is for, and
the file is in a directory other than the root. `freeAfter` is the set of clusters that
are free once the chain of the file has been freed. -/
def Fs.Strands (s : Fs) (name data : List UInt8) : Prop :=
  s.fsReady = true ∧ data.length ≤ fsMaxFileSize ∧ ∃ i, (s.seek name).idx = some i ∧ s.CanStrand i ∧
    (s.freeAfter (s.volume.slot s.currentDirCluster i).fstClusLo).card < sectorsFor data.length

/-- The call is such a write. A call that writes text writes it up to its NUL, and an
`append` writes what the file holds with the text behind it. -/
def FsOp.Strands : FsOp → Fs → Prop
  | .writeRaw name data, s => s.Strands name data
  | .write name text, s => s.Strands name (cstr text)
  | .append name text, s => s.Strands name ((s.reads name).getD [] ++ cstr text)
  | _, _ => False

theorem Quiet.strands {s t : Fs} (h : Quiet s t) (name data : List UInt8) :
    t.Strands name data ↔ s.Strands name data := by
  simp only [Fs.Strands, Fs.CanStrand, Fs.freeAfter, h.fsReady, h.seek, h.volume,
    h.currentDirCluster, h.fatBuf]

theorem Quiet.fileOrAbsent {s t : Fs} (h : Quiet s t) (name : List UInt8) :
    t.FileOrAbsent name ↔ s.FileOrAbsent name := by
  simp only [Fs.FileOrAbsent, h.seek, h.volume, h.currentDirCluster]

/-- A write that does not strand a chain is safe. On a device whose transfers succeed
the general condition of `Commit` has one way to fail left. -/
theorem writeSafe_of_not_strands {s : Fs} (hg : s.dev.Good) {name data : List UInt8}
    (hfile : s.FileOrAbsent name) (h : ¬ s.Strands name data) : s.WriteSafe name data := by
  intro hopen hlen i hi
  refine ⟨hfile i hi, fun hcan => ⟨?_, hg.runs _⟩⟩
  by_contra hroom
  exact h ⟨hopen.1, hlen, i, hi, hcan, not_le.mp hroom⟩

theorem safe_of_not_strands {s : Fs} (hs : s.AtDir) (hg : s.dev.Good) {op : FsOp}
    (hp : op.Proper s) (h : ¬ op.Strands s) : op.Safe s := by
  cases op with
  | writeRaw name data => exact writeSafe_of_not_strands hg hp h
  | write name text => exact writeSafe_of_not_strands hg hp h
  | append name text =>
    have hq := appendState_quiet hs name text
    refine writeSafe_of_not_strands (hq.good hg) ((hq.fileOrAbsent name).mpr hp) ?_
    rw [hq.strands, appended_eq]
    exact h
  | remove name => exact fun _ _ _ _ => hg.runs _
  | rmdir name => exact fun _ _ _ _ _ _ _ => hg.runs _
  | _ => trivial

/-- The mutators, on any device. -/
theorem proper_changed {s : Fs} (hO : Owned s.volume) (hdir : IsDir s.volume s.currentDirCluster)
    {op : FsOp} (hp : op.Proper s) (hsafe : op.Safe s) : Changed s (op.step s) := by
  cases op with
  | touch name => exact fsTouch_changed hO hdir name
  | writeRaw name data => exact fsWriteRaw_changed hO hdir hsafe
  | write name text => exact fsWriteRaw_changed hO hdir hsafe
  | append name text => exact fsAppend_changed hO hdir hsafe
  | remove name => exact fsRemove_changed hO hdir hsafe
  | mkdir name => exact fsMkdir_changed hO hdir name
  | rmdir name => exact fsRmdir_changed hO hdir hsafe
  | _ => exact hp.elim

/-! ## A stranded chain -/

/-- Freeing the chain of a file and storing into free clusters moves no directory: a
cluster that is free, or of a file, is not a directory's. By induction on the way to the
directory from the root. -/
theorem Edit.isDir_of_file {v v' : Volume} {d i first : Nat} {l ws : List Nat}
    (h : Edit v v' d i first l ws) (hO : Owned v)
    (hown : InRange first → Owner v d i ∧ (v.slot d i).fstClusLo = first)
    (hfile : ∀ c, ¬ SubDir v d i c) {d' : Nat} (hd' : IsDir v d') : IsDir v' d' ∧ d' ∉ ws := by
  have hws : ∀ p, IsDir v p → p ∉ ws := by
    intro p hp hw
    obtain ⟨hr, hfree⟩ := h.stored p hw
    exact hfile p (hO.dir_not_free hp hr hfree hown).2
  refine ⟨?_, hws d' hd'⟩
  induction hd' with
  | root => exact .root
  | @sub p j c hp hs ih =>
    have hne : ¬ (p = d ∧ j = i) := by
      rintro ⟨rfl, rfl⟩
      exact hfile c hs
    have he := h.slot_kept p j hp.dirNo (hws p hp) hs.slot_lt hne
    obtain ⟨h₁, h₂, h₃, h₄, h₅⟩ := hs
    rw [← he] at h₂ h₃ h₄
    exact .sub ih ⟨h₁, h₂, h₃, h₄, h₅⟩

/-- A write that runs out of clusters has freed the chain, and ends there: the root has
the edit of the entry, any other directory does not. `Done` says so with its fourth
argument, whether the slot took the new entry. -/
theorem fsWriteRaw_full {s : Fs} (hs : s.AtDir) {name data : List UInt8} {i : Nat} {e : FatDirEntry}
    (hw : Writes s name data i e)
    (hroom : (s.freeAfter e.fstClusLo).card < sectorsFor data.length) :
    (fsWriteRaw name data s).1 = -3 ∧ ∃ ws,
      Done s (fsWriteRaw name data s).2 (s.currentDirCluster = 0) i (droppedEntry e) e.fstClusLo []
        ws := by
  rcases fsWriteRaw_cases hs name data with ⟨-, hno⟩ | ⟨j, e', u, hw', hp, -, -, he⟩
  · exact absurd hw (hno i e)
  · obtain ⟨rfl, rfl⟩ : j = i ∧ e' = e := by
      have := hw'.slot
      rw [hw.slot, Option.some.injEq, Prod.mk.injEq] at this
      exact ⟨this.1.symm, this.2.symm⟩
    rw [he]
    rcases writeEntry_cases hp data with ⟨ws, h3, hpd, -⟩ | ⟨t, l, -, -, hroom', -⟩
    · exact ⟨h3, ws, hpd.abandon⟩
    · omega

/-- A write that finds its clusters succeeds on a device that does not fail. -/
theorem fsWriteRaw_fits {s : Fs} (hs : s.AtDir) (hg : s.dev.Good) {name data : List UInt8} {i : Nat}
    {e : FatDirEntry} (hw : Writes s name data i e)
    (hroom : sectorsFor data.length ≤ (s.freeAfter e.fstClusLo).card) :
    (fsWriteRaw name data s).1 = 0 := by
  rcases fsWriteRaw_cases hs name data with ⟨-, hno⟩ | ⟨j, e', u, hw', hp, -, hok, he⟩
  · exact absurd hw (hno i e)
  · obtain ⟨rfl, rfl⟩ : j = i ∧ e' = e := by
      have := hw'.slot
      rw [hw.slot, Option.some.injEq, Prod.mk.injEq] at this
      exact ⟨this.1.symm, this.2.symm⟩
    have hgood : u.dev.Good := fun n => by rw [hok]; exact hg n
    rcases writeEntry_cases hp data with ⟨-, -, -, hwhy⟩ | ⟨t, l, ht, hc, -⟩
    · exact absurd ⟨hroom, hgood.runs _⟩ hwhy
    · obtain ⟨w, -, hwrote⟩ := ht.wrote
      have hgood' : t.dev.Good := fun n => by rw [hwrote.ok]; exact hg n
      rw [he, hc, (commit_finish (show (-4 : Int) ≠ 0 by decide) (ht.atDir hs)).code]
      exact hgood'.runs _

/-- The entry a stranding write has in hand, and the room it lacks. -/
theorem Fs.Strands.writes {s : Fs} (hg : s.dev.Good) {name data : List UInt8}
    (h : s.Strands name data) : ∃ i, (s.seek name).idx = some i ∧ s.CanStrand i ∧
      Writes s name data i (s.volume.slot s.currentDirCluster i) ∧
      (s.freeAfter (s.volume.slot s.currentDirCluster i).fstClusLo).card <
        sectorsFor data.length := by
  obtain ⟨hready, hlen, i, hi, hcan, hroom⟩ := h
  have hslot : s.writeSlot name = some (i, s.volume.slot s.currentDirCluster i) := by
    rcases hsk : s.seek name with ⟨idx, free⟩
    rw [hsk] at hi
    subst hi
    rw [Fs.writeSlot, hsk]
  exact ⟨i, hi, hcan, ⟨hready, hlen, hslot, hg.runs _⟩, hroom⟩

theorem Fs.Strands.code {s : Fs} (hg : s.dev.Good) (hs : s.AtDir) {name data : List UInt8}
    (h : s.Strands name data) : (fsWriteRaw name data s).1 = -3 := by
  obtain ⟨i, -, -, hw, hroom⟩ := h.writes hg
  exact (fsWriteRaw_full hs hw hroom).1

/-- A failed write left the entry on the disk and freed its chain: the first cluster is claimed
and free. -/
theorem not_owned_of_strands {s : Fs} (hO : Owned s.volume)
    (hdir : IsDir s.volume s.currentDirCluster) (hg : s.dev.Good) {name data : List UInt8}
    (hfile : s.FileOrAbsent name) (h : s.Strands name data) :
    ¬ Owned (fsWriteRaw name data s).2.volume := by
  obtain ⟨i, hi, ⟨h0, hrng⟩, hw, hroom⟩ := h.writes hg
  obtain ⟨hf, hfound⟩ := seek_found hi
  obtain ⟨-, ws, hd⟩ := fsWriteRaw_full hdir.atDir hw hroom
  intro hO'
  have howner := hfound.owner hf hdir
  have hnotdir : ∀ c, ¬ SubDir s.volume s.currentDirCluster i c := fun c hc =>
    absurd hc.isDir (by rw [hfile i hi]; decide)
  obtain ⟨hdir', hws⟩ := hd.isDir_of_file hO (fun _ => ⟨howner, rfl⟩) hnotdir hdir
  have hsame := hd.slot_old h0 hws
  -- The entry is as it was, so it still starts at the cluster that was freed.
  have howner' : Owner (fsWriteRaw name data s).2.volume s.currentDirCluster i :=
    ⟨hdir', howner.slot_lt, by rw [hsame]; exact howner.owns⟩
  have hchain : Chain (fsWriteRaw name data s).2.volume s.currentDirCluster i
      (s.volume.slot s.currentDirCluster i).fstClusLo := by
    rw [Chain, hsame]
    exact onChain_self hrng
  exact hO'.used howner' hchain (hd.freed _ (by simp) (onChain_self hrng))

/-- **Ownership survives a call exactly when the call strands nothing.** For every
mutator on a name of its kind, from every owned volume. One direction is the safety of
calls that do not strand a chain; for the other, the write that does leaves an entry
whose first cluster is free. -/
theorem owned_step_iff {s : Fs} {op : FsOp} (hg : s.dev.Good)
    (hdir : IsDir s.volume s.currentDirCluster) (hO : Owned s.volume) (hp : op.Proper s) :
    Owned (op.step s).volume ↔ ¬ op.Strands s := by
  constructor
  · intro hO' hst
    cases op with
    | writeRaw name data => exact not_owned_of_strands hO hdir hg hp hst hO'
    | write name text => exact not_owned_of_strands hO hdir hg hp hst hO'
    | append name text =>
      have hq := appendState_quiet hdir.atDir name text
      -- An append is a write of what it has read and the text, in a state that differs
      -- by the reads.
      have hst' : s.Strands name (s.appended name text) := by
        rw [appended_eq]
        exact hst
      have hready : ¬ s.fsReady = false := by
        rw [hst'.1]
        decide
      have hlen : ¬ (s.appended name text).length > fsMaxFileSize := Nat.not_lt.mpr hst'.2.1
      have he : FsOp.step (.append name text) s =
          (fsWriteRaw name (s.appended name text) (s.appendState name text)).2 := by
        show (fsAppend name text s).2 = _
        rw [fsAppend_eq, if_neg hready, if_neg hlen]
      rw [he] at hO'
      refine not_owned_of_strands ?_ ?_ (hq.good hg) ((hq.fileOrAbsent name).mpr hp)
        ((hq.strands name _).mpr hst') hO'
      · rw [hq.volume]
        exact hO
      · rw [hq.volume, hq.currentDirCluster]
        exact hdir
    -- No other call strands anything.
    | _ => exact hst
  · intro hst
    cases proper_changed hO hdir hp (safe_of_not_strands hdir.atDir hg hp hst) with
    | quiet hq =>
      rw [hq.volume]
      exact hO
    | edit _ hok _ => exact hok.owned hO

/-! ## A full volume

A root with one directory `D` in cluster 2, and in it one file `F` of one byte in cluster 3. All
clusters are marked as in use, so a write of more than 512 bytes to `F` cannot be served. -/

def fullRoot : ByteMem := putEntry (fun _ => 0) 0 (mkdirEntry (nameBytes [0x44]) 2)

def fullDir : ByteMem :=
  putEntry (newDir 2 0) 2 (writtenEntry (newEntry (nameBytes [0x46]) fatAttrArchive) 3 1)

def fullDisk : Device where
  sectors := fun lba =>
    if lba = fatLbaStart then sectorOf bootSector 0
    else if lba < rootLba then fun _ => 0xFF
    else if lba = rootLba then sectorOf fullRoot 0
    else if lba = clusterLba 2 then sectorOf fullDir 0
    else fun _ => 0
  ok := fun _ => true
  clock := 0
  written := []

/-- The driver in `D`. -/
def fullFs : Fs :=
  { Fs.boot fullDisk with
    fatBuf := fun _ => 0xFF
    rootBuf := fullRoot
    fsReady := true
    currentDirCluster := 2
    currentPath := 0x2F :: 0x44 :: List.replicate 126 0 }

namespace FullDisk

theorem good : fullFs.dev.Good := fun _ => rfl

theorem fatGet_eq (c : Nat) : fatGet fullFs.fatBuf c = 0xFFFF := by
  show fatGet (fun _ => 0xFF) c = 0xFFFF
  simp only [fatGet, ByteMem.le16]
  decide

theorem fat_eq (c : Nat) : fullFs.volume.fat c = 0xFFFF := fatGet_eq c

theorem chain_iff {d i c : Nat} (h : InRange (fullFs.volume.slot d i).fstClusLo) :
    Chain fullFs.volume d i c ↔ c = (fullFs.volume.slot d i).fstClusLo := by
  have hc : FatChain fullFs.volume.fat (fullFs.volume.slot d i).fstClusLo
      [(fullFs.volume.slot d i).fstClusLo] := .last h (by rw [fat_eq]; decide)
  rw [Chain, ← hc.mem_iff, List.mem_singleton]

/-- The two tables: `D` in the root, and in `D` the file. -/
theorem tables : (∀ i < maxEntries 0, (fullFs.volume.slot 0 i).Owns → i = 0) ∧
    (∀ i < maxEntries 2, (fullFs.volume.slot 2 i).Owns → i = 2) ∧
    ((fullFs.volume.slot 0 0).fstClusLo = 2 ∧ (fullFs.volume.slot 0 0).isDir = true ∧
      (fullFs.volume.slot 0 0).Owns) ∧
    ((fullFs.volume.slot 2 2).fstClusLo = 3 ∧ (fullFs.volume.slot 2 2).isDir = false ∧
      (fullFs.volume.slot 2 2).Owns) ∧
    fullFs.seek [0x46] = ⟨some 2, none⟩ := by
  decide +kernel

theorem root_slots : ∀ i < maxEntries 0, (fullFs.volume.slot 0 i).Owns → i = 0 := tables.1

theorem dir_slots : ∀ i < maxEntries 2, (fullFs.volume.slot 2 i).Owns → i = 2 := tables.2.1

theorem slot_d : (fullFs.volume.slot 0 0).fstClusLo = 2 ∧ (fullFs.volume.slot 0 0).isDir = true ∧
    (fullFs.volume.slot 0 0).Owns :=
  tables.2.2.1

theorem slot_f : (fullFs.volume.slot 2 2).fstClusLo = 3 ∧ (fullFs.volume.slot 2 2).isDir = false ∧
    (fullFs.volume.slot 2 2).Owns :=
  tables.2.2.2.1

theorem dir_cases {d : Nat} (h : IsDir fullFs.volume d) : d = 0 ∨ d = 2 := by
  induction h with
  | root => exact Or.inl rfl
  | sub _ hs ih =>
    rcases ih with rfl | rfl
    · obtain rfl := root_slots _ hs.slot_lt hs.owns
      exact Or.inr (hs.clus.symm.trans slot_d.1)
    · obtain rfl := dir_slots _ hs.slot_lt hs.owns
      exact absurd hs.isDir (by rw [slot_f.2.1]; decide)

theorem owner_cases {d i : Nat} (h : Owner fullFs.volume d i) : d = 0 ∧ i = 0 ∨ d = 2 ∧ i = 2 := by
  rcases dir_cases h.dir with rfl | rfl
  · exact Or.inl ⟨rfl, root_slots _ h.slot_lt h.owns⟩
  · exact Or.inr ⟨rfl, dir_slots _ h.slot_lt h.owns⟩

theorem chainsOk : ChainsOk fullFs.volume where
  chain := by
    intro d i h
    have hr : InRange (fullFs.volume.slot d i).fstClusLo := by
      rcases owner_cases h with ⟨rfl, rfl⟩ | ⟨rfl, rfl⟩
      · rw [slot_d.1]; decide
      · rw [slot_f.1]; decide
    exact Or.inr ⟨_, .last hr (by rw [fat_eq]; decide)⟩
  alone := by
    intro d i d' i' c h h' hc hc'
    have h₂ : InRange (fullFs.volume.slot 0 0).fstClusLo := by rw [slot_d.1]; decide
    have h₃ : InRange (fullFs.volume.slot 2 2).fstClusLo := by rw [slot_f.1]; decide
    rcases owner_cases h with ⟨rfl, rfl⟩ | ⟨rfl, rfl⟩ <;>
      rcases owner_cases h' with ⟨rfl, rfl⟩ | ⟨rfl, rfl⟩
    · exact ⟨rfl, rfl⟩
    · rw [chain_iff h₂, slot_d.1] at hc
      rw [chain_iff h₃, slot_f.1] at hc'
      omega
    · rw [chain_iff h₃, slot_f.1] at hc
      rw [chain_iff h₂, slot_d.1] at hc'
      omega
    · exact ⟨rfl, rfl⟩

theorem isDir : IsDir fullFs.volume fullFs.currentDirCluster := by
  obtain ⟨hc, hd, ho⟩ := slot_d
  exact .sub .root ⟨by decide, ho, hd, hc, by decide⟩

theorem seek_f : fullFs.seek [0x46] = ⟨some 2, none⟩ := tables.2.2.2.2

theorem fileOrAbsent : fullFs.FileOrAbsent [0x46] := by
  intro i hi
  rw [seek_f, Option.some.injEq] at hi
  subst hi
  exact slot_f.2.1

/-- Freeing the chain of `F` frees one cluster. -/
theorem freeAfter_card : (fullFs.freeAfter 3).card ≤ 1 := by
  have hsub : fullFs.freeAfter 3 ⊆ {3} := by
    intro c hc
    rw [Fs.freeAfter, mem_freeClusters] at hc
    by_contra hne
    have hr : InRange (fullFs.volume.slot 2 2).fstClusLo := by rw [slot_f.1]; decide
    have hoff : ¬ OnChain (fatGet fullFs.fatBuf) 3 c := fun h => by
      have hchain : Chain fullFs.volume 2 2 c := by
        rw [Chain, slot_f.1]
        exact h
      rw [chain_iff hr, slot_f.1] at hchain
      exact hne (Finset.mem_singleton.mpr hchain)
    rw [freeChain_of_not_onChain hoff] at hc
    exact absurd hc.2 (by rw [fatGet_eq]; decide)
  exact Finset.card_le_card hsub

/-- One sector fits in the cluster of `F`. -/
theorem fits : (fsWriteRaw [0x46] (List.replicate 512 0x78) fullFs).1 = 0 := by
  have hslot : fullFs.writeSlot [0x46] = some (2, fullFs.volume.slot 2 2) := by
    rw [Fs.writeSlot, seek_f]
    rfl
  have hw : Writes fullFs [0x46] (List.replicate 512 0x78) 2 (fullFs.volume.slot 2 2) :=
    ⟨rfl, by rw [List.length_replicate]; decide, hslot, good.runs _⟩
  have hfree : 3 ∈ fullFs.freeAfter 3 := by
    rw [Fs.freeAfter, mem_freeClusters]
    decide +kernel
  refine fsWriteRaw_fits isDir.atDir good hw ?_
  rw [slot_f.1, List.length_replicate]
  exact Finset.card_pos.mpr ⟨3, hfree⟩

theorem strands (n : Nat) (hn : 512 < n) (hle : n ≤ 4096) :
    fullFs.Strands [0x46] (List.replicate n 0x78) := by
  refine ⟨rfl, ?_, 2, by rw [seek_f], ⟨by decide, ?_⟩, ?_⟩
  · simpa [fsMaxFileSize] using hle
  · show InRange (fullFs.volume.slot 2 2).fstClusLo
    rw [slot_f.1]
    decide
  · show (fullFs.freeAfter (fullFs.volume.slot 2 2).fstClusLo).card < _
    rw [slot_f.1, List.length_replicate, sectorsFor]
    have := freeAfter_card
    omega

end FullDisk

/-- A write of 513 bytes to `F`: the volume was owned, the call returns -3, and the cluster of `F`
is free while `F` still claims it. -/
theorem not_owned_fullFs :
    fullFs.dev.Good ∧ IsDir fullFs.volume fullFs.currentDirCluster ∧ Owned fullFs.volume ∧
    (FsOp.writeRaw [0x46] (List.replicate 513 0x78)).Proper fullFs ∧
    ((FsOp.writeRaw [0x46] (List.replicate 513 0x78)).exec fullFs).1 = -3 ∧
    ¬ Owned ((FsOp.writeRaw [0x46] (List.replicate 513 0x78)).step fullFs).volume := by
  have hO := FullDisk.chainsOk.owned
  have hst := FullDisk.strands 513 (by decide) (by decide)
  refine ⟨FullDisk.good, FullDisk.isDir, hO, FullDisk.fileOrAbsent,
    hst.code FullDisk.good FullDisk.isDir.atDir, ?_⟩
  rw [FsOp.step_writeRaw]
  exact not_owned_of_strands hO FullDisk.isDir FullDisk.good FullDisk.fileOrAbsent hst

/-- With 512 bytes the write succeeds, and the volume stays owned. -/
theorem owned_step_iff_fullFs :
    ((FsOp.writeRaw [0x46] (List.replicate 512 0x78)).exec fullFs).1 = 0 ∧
    Owned ((FsOp.writeRaw [0x46] (List.replicate 512 0x78)).step fullFs).volume := by
  have hno : ¬ (FsOp.writeRaw [0x46] (List.replicate 512 0x78)).Strands fullFs := by
    intro hst
    have hcode := Fs.Strands.code FullDisk.good FullDisk.isDir.atDir hst
    exact absurd (FullDisk.fits.symm.trans hcode) (by decide)
  have hp : (FsOp.writeRaw [0x46] (List.replicate 512 0x78)).Proper fullFs := FullDisk.fileOrAbsent
  exact ⟨FullDisk.fits, (owned_step_iff FullDisk.good FullDisk.isDir FullDisk.chainsOk.owned
    hp).mpr hno⟩

end OsU
