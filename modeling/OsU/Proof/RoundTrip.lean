import OsU.Proof.Edits
import OsU.Proof.Format

/-!
# Writing and reading back

On a volume with sound chains and a device whose transfers succeed, a write that returns
0 is a write: the name reads back the data, every other file reads what it read, and the
chains are sound again.

What a successful call did is collected once, in `Stored`: the slot it chose, the chain
of the clusters it took, and the sectors they now hold. The facts about names and files
are then read off it, and no proof below opens `fs_write_raw` again.

Two readings of "every other file" are kept apart. A file can be meant by its name,
looked up from its directory, and then the name must encode differently from the one
written: names are compared in their 8.3 form, so `a.txt` and `A.TXT` are one file. Or
it can be meant by its entry, and then any slot but the one written will do.
`fsWriteRaw_round_trip` says both.

The file must not be a directory (`FileOrAbsent`): `fs_write_raw` does not look at the
attribute, and on the name of a directory it would put data where its table was.
-/

set_option autoImplicit false

namespace OsU

/-- The driver, looking from directory `d`. -/
def Fs.cd (s : Fs) (d : Nat) : Fs := { s with currentDirCluster := d }

/-! ## Names after an edit -/

/-- A name in another slot is found where it was. The lookup takes the first live entry
of a name, so one thing could hide it: a live entry of the same name in an earlier slot,
and the slot under edit can only have got a live entry of another name. -/
theorem Found.kept {v v' : Volume} {d i d' j : Nat} {f' : List UInt8} (h : Found v d' f' j)
    (hslot : ∀ k < maxEntries d', ¬ (d' = d ∧ k = i) → v'.slot d' k = v.slot d' k)
    (hnew : d' = d → i < j → (v'.slot d i).lead ≠ 0x00 ∧ (v'.slot d i).name11 ≠ f')
    (hj : ¬ (d' = d ∧ j = i)) : Found v' d' f' j := by
  have hlt := h.slot_lt
  refine ⟨hlt, ?_, ?_, fun k hk => ?_⟩
  · rw [hslot j hlt hj]
    exact h.live
  · rw [hslot j hlt hj]
    exact h.name11
  · by_cases hki : d' = d ∧ k = i
    · obtain ⟨rfl, rfl⟩ := hki
      obtain ⟨h₁, h₂⟩ := hnew rfl hk
      exact ⟨h₁, fun _ => h₂⟩
    · rw [hslot k (by omega) hki]
      exact h.before k hk

/-- The name in the slot under edit is found there, when it was found there before or the slot was
the one offered for it. -/
theorem found_new {v v' : Volume} {d i : Nat} {f11 : List UInt8}
    (hslot : ∀ k < maxEntries d, k ≠ i → v'.slot d k = v.slot d k) (hlive : (v'.slot d i).Live)
    (hname : (v'.slot d i).name11 = f11) (h : Found v d f11 i ∨ Offered v d f11 i) :
    Found v' d f11 i := by
  have hlt : i < maxEntries d := h.elim (·.slot_lt) (·.slot_lt)
  refine ⟨hlt, hlive, hname, fun k hk => ?_⟩
  rw [hslot k (by omega) (by omega)]
  rcases h with h | h
  · exact h.before k hk
  · have hz : ∀ m < i, (v.slot d m).lead ≠ 0x00 := fun m hm hl => h.before m hm (Or.inl hl)
    exact ⟨hz k hk, h.name_ne (by omega) fun m hm => hz m (by omega)⟩

/-- Two names with one encoding find the same entry. This is the lookup in one
equivalence: the name is one that can be encoded, and the entry is the first live one of
the encoded name. -/
theorem seek_idx_iff {s : Fs} {name : List UInt8} {i : Nat} :
    (s.seek name).idx = some i ↔ fatNameFromInput name = some (nameBytes name) ∧
      Found s.volume s.currentDirCluster (nameBytes name) i := by
  refine ⟨seek_found, fun ⟨hf, h⟩ => ?_⟩
  rw [Fs.seek, hf]
  exact (lookup_idx (length_of_fatNameFromInput hf)).mpr h

/-! ## A write that succeeds

A call that returned 0 has had all of its transfers succeed, so nothing has to be
assumed of the device. What it did is in one structure (`Stored`), and the parts of the
round trip are read off it one by one: the name, the other names, the chains, the
directories. -/

/-- What a successful `fs_write_raw` did, on a device whose transfers succeed: the slot
it wrote, the chain `l` it gave the file, of as many clusters as the data has sectors,
and the data in the sectors of the chain, sector by sector. -/
structure Stored (s s' : Fs) (name data : List UInt8) (i : Nat) (e : FatDirEntry) (l : List Nat) :
    Prop where
  slot : s.writeSlot name = some (i, e)
  ready : s'.fsReady = true
  fits : data.length ≤ fsMaxFileSize
  good : s'.dev.Good
  done : Done s s' True i (writtenEntry e (l.headD 0) data.length) e.fstClusLo l l
  length : l.length = sectorsFor data.length
  holds : ∀ k c, l[k]? = some c → c ≠ s.currentDirCluster → s'.volume.sector c = chunk data k

/-- A write that returned 0, whatever the device did: its transfers succeeded. -/
theorem fsWriteRaw_done {s : Fs} (hs : s.AtDir) {name data : List UInt8}
    (h0 : (fsWriteRaw name data s).1 = 0) :
    ∃ i e l, s.writeSlot name = some (i, e) ∧ (fsWriteRaw name data s).2.fsReady = true ∧
      data.length ≤ fsMaxFileSize ∧
      Done s (fsWriteRaw name data s).2 True i (writtenEntry e (l.headD 0) data.length) e.fstClusLo
        l l ∧
      l.length = sectorsFor data.length ∧
      ∀ k c, l[k]? = some c → c ≠ s.currentDirCluster →
        (fsWriteRaw name data s).2.volume.sector c = chunk data k := by
  rcases fsWriteRaw_cases hs name data with ⟨hr, -⟩ | ⟨i, e, u, hw, hp, -, -, he⟩
  · exact absurd h0 hr.code
  · rw [he] at h0 ⊢
    rcases writeEntry_cases hp data with ⟨ws, hc, -⟩ | ⟨t, l, hpt, hc, -, -, hlen, -, hhold⟩
    · rw [hc] at h0
      exact absurd h0 (by decide)
    · have hfin := commit_finish (show (-4 : Int) ≠ 0 by decide) (hpt.atDir hs)
      rw [← hc] at hfin
      obtain ⟨hd, hsec⟩ := hpt.finish hs hfin
      have hruns := hfin.code.mp h0
      rw [hpt.currentDirCluster] at hruns
      refine ⟨i, e, l, hw.slot, hd.fsReady.trans hw.ready, hw.fits, ?_, hlen, fun k c hk hcd => ?_⟩
      · rw [hpt.currentDirCluster] at hd
        exact hd.mono (iff_of_true (Or.inr hruns) trivial)
      · have hc2 := (hpt.fresh c (List.mem_of_getElem? hk)).1
        rw [hsec c (inRange_iff.mp hc2).1 hcd, hhold k c hk]

theorem fsWriteRaw_stored {s : Fs} (hs : s.AtDir) (hg : s.dev.Good) {name data : List UInt8}
    (h0 : (fsWriteRaw name data s).1 = 0) :
    ∃ i e l, Stored s (fsWriteRaw name data s).2 name data i e l := by
  obtain ⟨i, e, l, hslot, hready, hfits, hd, hlen, hhold⟩ := fsWriteRaw_done hs h0
  exact ⟨i, e, l, hslot, hready, hfits, fun n => by rw [hd.ok]; exact hg n, hd, hlen, hhold⟩

namespace Stored

variable {s s' : Fs} {name data : List UInt8} {i : Nat} {e : FatDirEntry} {l : List Nat}

theorem entry (h : Stored s s' name data i e l) :
    s'.volume.slot s.currentDirCluster i = writtenEntry e (l.headD 0) data.length :=
  h.done.slot_new trivial

theorem clus (h : Stored s s' name data i e l) :
    (writtenEntry e (l.headD 0) data.length).fstClusLo = l.headD 0 :=
  writtenEntry_clus e (headD_lt fun c hc => (h.done.fresh c hc).1) _

theorem editOk (h : Stored s s' name data i e l) (hO : Owned s.volume)
    (hdir : IsDir s.volume s.currentDirCluster) (hfile : s.FileOrAbsent name) :
    EditOk s.volume s'.volume s.currentDirCluster i e.fstClusLo l l :=
  h.done.write_ok (writtenEntry_head e _ _) (Or.inl h.clus) hO hdir h.slot hfile (Or.inl trivial)

/-- The entry is live, of that name, and a file: an entry in place kept its name and its
attribute, and a new one was made with `FAT_ATTR_ARCHIVE`. -/
theorem written_live (h : Stored s s' name data i e l) (hfile : s.FileOrAbsent name) :
    (s'.volume.slot s.currentDirCluster i).Live ∧
      (s'.volume.slot s.currentDirCluster i).name11 = nameBytes name ∧
      (s'.volume.slot s.currentDirCluster i).isDir = false := by
  have hhead := writtenEntry_head e (l.headD 0) data.length
  rw [h.entry, hhead.live, hhead.name11, hhead.isDir]
  obtain ⟨hf, ⟨hsk, hfound, rfl⟩ | ⟨-, -, rfl⟩⟩ := writeSlot_cases h.slot
  · exact ⟨hfound.live, hfound.name11, hfile i hsk⟩
  · exact ⟨(newEntry_owns hf (by decide)).1, newEntry_name11 hf _, newEntry_file _⟩

/-- The chain holds the data. The current directory is no cluster of it: the cluster
would have been free, and a directory's is not, so no sector of data was lost under the
flush of `dir_buf`. -/
theorem bytes_eq (h : Stored s s' name data i e l) (hO : Owned s.volume)
    (hdir : IsDir s.volume s.currentDirCluster) (hfile : s.FileOrAbsent name) :
    fileBytes s'.volume (writtenEntry e (l.headD 0) data.length) = data := by
  have hsize := writtenEntry_size e (l.headD 0) h.fits
  have hok := h.editOk hO hdir hfile
  have hlen := h.length
  rw [sectorsFor] at hlen
  by_cases hd : data.length = 0
  · rw [fileBytes, if_pos (Or.inl (by rw [hsize, hd])), List.length_eq_zero_iff.mp hd]
  · have hl : l ≠ [] := by
      rintro rfl
      simp only [List.length_nil] at hlen
      omega
    have hchain := h.done.chain hl
    have hfirst := hchain.first_inRange.1
    have hnot : ¬ ((writtenEntry e (l.headD 0) data.length).fileSize = 0 ∨
        (writtenEntry e (l.headD 0) data.length).fstClusLo < fatClusterMin) := by
      rw [hsize, h.clus]
      omega
    have hfits : ¬ data.length > fsMaxFileSize := Nat.not_lt.mpr h.fits
    rw [fileBytes, if_neg hnot]
    simp only [hsize, if_neg hfits, h.clus]
    have hread : chainBytes s'.volume data.length (l.headD 0) (data.length - 512 * 0) =
        data.drop (512 * 0) := by
      refine chainBytes_stored hchain (fun j x hj m => ?_) (by simpa using hlen) (by omega)
      -- The clusters that were taken were free, so the sector of the directory is not
      -- among them.
      have hx : x ≠ s.currentDirCluster := by
        rintro rfl
        exact hok.not_stored hO hdir (List.mem_of_getElem? hj)
      rw [h.holds j x hj hx, chunk, Nat.zero_add]
    simpa using hread

/-- A name the write is not about is found where it was. -/
theorem found_other (h : Stored s s' name data i e l) (hO : Owned s.volume)
    (hfile : s.FileOrAbsent name) (hdir : IsDir s.volume s.currentDirCluster) {d j : Nat}
    {f' : List UInt8} (hd : IsDir s.volume d) (hfound : Found s.volume d f' j)
    (hne : d = s.currentDirCluster → f' ≠ nameBytes name) :
    Found s'.volume d f' j ∧ ¬ (d = s.currentDirCluster ∧ j = i) := by
  obtain ⟨hlive, hname, -⟩ := h.written_live hfile
  have hij : ¬ (d = s.currentDirCluster ∧ j = i) := by
    rintro ⟨rfl, rfl⟩
    obtain ⟨-, ⟨-, hf, -⟩ | ⟨-, hoff, -⟩⟩ := writeSlot_cases h.slot
    · exact hne rfl (hfound.name11.symm.trans hf.name11)
    · exact hfound.live.1 hoff.vacant
  refine ⟨hfound.kept (fun k hk hki => (h.editOk hO hdir hfile).slot_eq hO hd hk hki)
    (fun hdc _ => ⟨fun hz => hlive.1 (Or.inl hz), ?_⟩) hij, hij⟩
  rw [hname]
  exact (hne hdc).symm

/-- The name is found in the slot that was written. -/
theorem seek_written (h : Stored s s' name data i e l) (hO : Owned s.volume)
    (hdir : IsDir s.volume s.currentDirCluster) (hfile : s.FileOrAbsent name) :
    (s'.seek name).idx = some i := by
  obtain ⟨hlive, hname, -⟩ := h.written_live hfile
  obtain ⟨hf, hslot⟩ := writeSlot_cases h.slot
  rw [seek_idx_iff, h.done.currentDirCluster]
  refine ⟨hf, found_new (v := s.volume) (fun k hk hki => ?_) hlive hname ?_⟩
  · exact (h.editOk hO hdir hfile).slot_eq hO hdir hk fun hd => hki hd.2
  · exact hslot.imp (·.2.1) (·.2.1)

/-- The name reads back the data. -/
theorem reads_back (h : Stored s s' name data i e l) (hO : Owned s.volume)
    (hdir : IsDir s.volume s.currentDirCluster) (hfile : s.FileOrAbsent name) :
    s'.reads name = some data := by
  have hcwd := h.done.currentDirCluster
  have hs' : s'.AtDir := by
    rw [Fs.AtDir, hcwd]
    exact ⟨hdir.dirNo, hdir.lt⟩
  rw [reads_eq hs' h.good h.ready, h.seek_written hO hdir hfile, Option.map_some, hcwd, h.entry,
    h.bytes_eq hO hdir hfile]

/-- And it is a file's. -/
theorem fileOrAbsent (h : Stored s s' name data i e l) (hO : Owned s.volume)
    (hdir : IsDir s.volume s.currentDirCluster) (hfile : s.FileOrAbsent name) :
    s'.FileOrAbsent name := by
  intro j hj
  rw [h.seek_written hO hdir hfile, Option.some.injEq] at hj
  rw [← hj, h.done.currentDirCluster]
  exact (h.written_live hfile).2.2

/-- The chains are still there, with the new one among them. -/
theorem chainsOk (h : Stored s s' name data i e l) (hC : ChainsOk s.volume)
    (hdir : IsDir s.volume s.currentDirCluster) (hfile : s.FileOrAbsent name) :
    ChainsOk s'.volume :=
  (h.editOk hC.owned hdir hfile).chainsOk hC

/-- And so are the directories. -/
theorem isDir (h : Stored s s' name data i e l) (hO : Owned s.volume)
    (hdir : IsDir s.volume s.currentDirCluster) (hfile : s.FileOrAbsent name) {d : Nat}
    (hd : IsDir s.volume d) : IsDir s'.volume d := by
  obtain ⟨-, hslot⟩ := writeSlot_cases h.slot
  refine (h.editOk hO hdir hfile).isDir_of hO (fun c hc => ?_) hd
  obtain ⟨hsk, -, -⟩ | ⟨-, hoff, -⟩ := hslot
  · exact absurd hc.isDir (by rw [hfile i hsk]; decide)
  · exact absurd hc.owns hoff.vacant.not_owns

end Stored

theorem IsDir.atDir {s : Fs} {v : Volume} (h : IsDir v s.currentDirCluster) : s.AtDir :=
  ⟨h.dirNo, h.lt⟩

/-- **Write and read back.** After a write that returned 0: the name reads back the
data, with its length; every other name of every directory of the tree reads what it
read; every other file's entry is what it was, and its bytes are; and chains and current
directory are sound, so that the next call starts where this one did. -/
theorem fsWriteRaw_round_trip {s : Fs} {name data : List UInt8} (hg : s.dev.Good)
    (hdir : IsDir s.volume s.currentDirCluster) (hC : ChainsOk s.volume)
    (hfile : s.FileOrAbsent name) (h0 : (fsWriteRaw name data s).1 = 0) :
    ((fsReadPtr name (fsWriteRaw name data s).2).1 = some data.length ∧
      (fsWriteRaw name data s).2.reads name = some data) ∧
    (∀ d name' j, IsDir s.volume d → ((s.cd d).seek name').idx = some j →
      (s.volume.slot d j).isDir = false →
      (d = s.currentDirCluster → nameBytes name' ≠ nameBytes name) →
      ((fsWriteRaw name data s).2.cd d).reads name' = (s.cd d).reads name') ∧
    (∀ d j, Owner s.volume d j → (s.volume.slot d j).isDir = false →
      ¬ (d = s.currentDirCluster ∧ (s.seek name).idx = some j) →
      Owner (fsWriteRaw name data s).2.volume d j ∧
      (fsWriteRaw name data s).2.volume.slot d j = s.volume.slot d j ∧
      fileBytes (fsWriteRaw name data s).2.volume (s.volume.slot d j) =
        fileBytes s.volume (s.volume.slot d j)) ∧
    ChainsOk (fsWriteRaw name data s).2.volume ∧
    IsDir (fsWriteRaw name data s).2.volume s.currentDirCluster := by
  have hs := hdir.atDir
  have hO := hC.owned
  obtain ⟨i, e, l, h⟩ := fsWriteRaw_stored hs hg h0
  generalize (fsWriteRaw name data s).2 = s' at h ⊢
  have hok := h.editOk hO hdir hfile
  have hready : s.fsReady = true := h.done.fsReady ▸ h.ready
  obtain ⟨-, hslot⟩ := writeSlot_cases h.slot
  refine ⟨?_, ?_, ?_, h.chainsOk hC hdir hfile, h.isDir hO hdir hfile hdir⟩
  · -- The bytes of the file determine the number that the read returns.
    have hread := h.reads_back hO hdir hfile
    refine ⟨?_, hread⟩
    rw [Fs.reads] at hread
    cases hn : (fsReadPtr name s').1 with
    | none =>
      rw [hn] at hread
      exact absurd hread (by simp)
    | some n =>
      rw [hn, Option.map_some, Option.some.injEq] at hread
      rw [← hread, ByteMem.length_toList]
  · intro d name' j hd hj hfile' hne
    obtain ⟨hf', hfound⟩ := seek_found hj
    change Found s.volume d (nameBytes name') j at hfound
    obtain ⟨hfound', hij⟩ := h.found_other hO hfile hdir hd hfound hne
    have hseek' : ((s'.cd d).seek name').idx = some j := seek_idx_iff.mpr ⟨hf', hfound'⟩
    have had : ∀ t : Fs, (t.cd d).AtDir := fun _ => ⟨hd.dirNo, hd.lt⟩
    rw [reads_eq (had s') h.good h.ready, reads_eq (had s) hg hready, hj, hseek']
    have howner := hfound.owner hf' hd
    show some (fileBytes s'.volume (s'.volume.slot d j)) = some (fileBytes s.volume (s.volume.slot d j))
    rw [hok.slot_eq hO hd hfound.slot_lt hij, hok.fileBytes_eq hO howner hfile' hij]
  · intro d j ho hfile' hne
    -- The other slot is not the one written to: that was found under the name, or
    -- vacant.
    have hij : ¬ (d = s.currentDirCluster ∧ j = i) := by
      rintro ⟨rfl, rfl⟩
      obtain ⟨hsk, -, -⟩ | ⟨-, hoff, -⟩ := hslot
      · exact hne ⟨rfl, hsk⟩
      · exact hoff.vacant.not_owns ho.owns
    exact ⟨hok.owner_of hO ho (h.isDir hO hdir hfile ho.dir) hij, hok.slot_eq hO ho.dir ho.slot_lt hij,
      hok.fileBytes_eq hO ho hfile' hij⟩

theorem freshFs_fileOrAbsent (name : List UInt8) : freshFs.FileOrAbsent name := by
  intro i hi
  obtain ⟨hf, hfound⟩ := seek_found hi
  rw [freshFs_cluster] at hfound
  exact absurd (hfound.owner hf .root) freshFs_empty.not_owner

theorem freshFs_isDir : IsDir freshFs.volume freshFs.currentDirCluster := by
  rw [freshFs_cluster]
  exact .root

/-- Three bytes under a new name on the fresh volume. -/
theorem fsWriteRaw_round_trip_fresh :
    ((fsReadPtr [0x41] (fsWriteRaw [0x41] [1, 2, 3] freshFs).2).1 = some 3 ∧
      (fsWriteRaw [0x41] [1, 2, 3] freshFs).2.reads [0x41] = some [1, 2, 3]) ∧
    ChainsOk (fsWriteRaw [0x41] [1, 2, 3] freshFs).2.volume := by
  have h := fsWriteRaw_round_trip freshFs_good freshFs_isDir freshFs_empty.chainsOk
    (freshFs_fileOrAbsent [0x41]) (show (fsWriteRaw [0x41] [1, 2, 3] freshFs).1 = 0 by decide +kernel)
  exact ⟨h.1, h.2.2.2.1⟩

end OsU
