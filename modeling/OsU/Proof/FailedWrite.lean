import OsU.Proof.Listing
import OsU.Proof.Ownership

/-!
# A write that fails

`fs_write_raw` makes its entry and frees the old chain before it knows whether the
clusters suffice. When they do not, what is lost depends on where the file is: in the
root the edit of `root_buf` stays, so a new name is listed and an old one has lost its
chain; in any other directory the edit goes with `dir_buf`, and only the table
remembers. A file without a chain, or a new name away from the root, loses nothing
(`Kept`).

Doing no harm is stated as a caller sees it (`KeepsAll`): what could be read, what was
listed and with what size, that no new name has come up, and which clusters are free. It
looks at the whole tree and not at the one file. `Kept`, the same table and the same
entries, is stronger, and it is what the proof gets from a failure that loses nothing.

`failed_write_keeps_iff` says exactly when a failed write does no harm, for
`fs_write_raw` and for `fs_append`, which is a read and a write of the joined text.
-/

set_option autoImplicit false

namespace OsU

/-! ## What is to be kept -/

/-- The entry is one a listing of directory `d` shows. -/
def Fs.Listed (s : Fs) (skip : FatDirEntry → Bool) (d : Nat) (e : FatDirEntry) : Prop :=
  ∃ k, (listCurrent skip k (s.cd d)).1 = some e

/-- From `s` to `s'` nothing was lost and nothing came up: in every directory of the tree the
names that could be read read the same, what was listed is listed with the same size, no new name
is listed, and the free clusters are the same. -/
structure KeepsAll (s s' : Fs) : Prop where
  reads : ∀ d name bytes, IsDir s.volume d → (s.cd d).reads name = some bytes →
    (s'.cd d).reads name = some bytes
  sizes : ∀ skip d e, IsDir s.volume d → s.Listed skip d e →
    ∃ e', s'.Listed skip d e' ∧ e'.name11 = e.name11 ∧ e'.fileSize = e.fileSize
  names : ∀ skip d e', IsDir s.volume d → s'.Listed skip d e' →
    ∃ e, s.Listed skip d e ∧ e.name11 = e'.name11
  free : freeClusters (fatGet s'.fatBuf) = freeClusters (fatGet s.fatBuf)

/-- The table, the entries of the tree and the sectors of their chains are the same, and
so is how the device answers. Free clusters may have been written, and buffers reloaded.
-/
structure Kept (s s' : Fs) : Prop where
  fsReady : s'.fsReady = s.fsReady
  ok : s'.dev.ok = s.dev.ok
  fat : s'.volume.fat = s.volume.fat
  slot : ∀ {d i : Nat}, IsDir s.volume d → i < maxEntries d → s'.volume.slot d i = s.volume.slot d i
  sector : ∀ {d i c : Nat}, Owner s.volume d i → Chain s.volume d i c →
    s'.volume.sector c = s.volume.sector c

theorem Kept.good {s s' : Fs} (h : Kept s s') (hg : s.dev.Good) : s'.dev.Good := fun n => by
  rw [h.ok, hg n]

theorem Quiet.kept {s s' : Fs} (h : Quiet s s') : Kept s s' where
  fsReady := h.fsReady
  ok := h.ok
  fat := by rw [h.volume]
  slot := fun _ _ => by rw [h.volume]
  sector := fun _ _ => by rw [h.volume]

theorem lookup_congr {v v' : Volume} {d : Nat} (f11 : List UInt8)
    (h : ∀ i < maxEntries d, v'.slot d i = v.slot d i) : lookup v' d f11 = lookup v d f11 :=
  findLoop_congr f11 (fun k _ hk => h k (by omega)) none

/-- What is listed is what the scan of the volume passes. -/
theorem listed_iff {s : Fs} (hg : s.dev.Good) (hready : s.fsReady = true)
    (skip : FatDirEntry → Bool) {d : Nat} (hd : IsDir s.volume d) (e : FatDirEntry) :
    s.Listed skip d e ↔ e ∈ visible skip (s.volume.slot d) (maxEntries d) 0 := by
  have hs : (s.cd d).AtDir := ⟨hd.dirNo, hd.lt⟩
  rw [List.mem_iff_getElem?]
  refine exists_congr fun k => ?_
  rw [listCurrent_eq (s := s.cd d) hg hs hready]
  rfl

theorem not_listed {s : Fs} (hready : s.fsReady = false) (skip : FatDirEntry → Bool) (d : Nat)
    (e : FatDirEntry) : ¬ s.Listed skip d e := by
  rintro ⟨k, hk⟩
  have hnone : listCurrent skip k (s.cd d) = (none, s.cd d) := if_pos hready
  rw [hnone] at hk
  exact absurd hk (by simp)

/-- A directory kept is listed as it was. -/
theorem Kept.listed {s s' : Fs} (h : Kept s s') (hg : s.dev.Good)
    (skip : FatDirEntry → Bool) {d : Nat} (hd : IsDir s.volume d) (hd' : IsDir s'.volume d)
    (e : FatDirEntry) : s'.Listed skip d e ↔ s.Listed skip d e := by
  cases hready : s.fsReady with
  | false =>
    have hready' := h.fsReady.trans hready
    exact iff_of_false (not_listed hready' skip d e) (not_listed hready skip d e)
  | true =>
    rw [listed_iff hg hready skip hd, listed_iff (h.good hg) (h.fsReady.trans hready) skip hd',
      visible_congr fun k _ hk => h.slot hd (by omega)]

/-- The tree kept is the same tree. -/
theorem Kept.isDir {s s' : Fs} (h : Kept s s') {d : Nat} (hd : IsDir s.volume d) :
    IsDir s'.volume d := by
  induction hd with
  | root => exact .root
  | sub hp hs ih =>
    have he := h.slot hp hs.slot_lt
    obtain ⟨h₁, h₂, h₃, h₄, h₅⟩ := hs
    rw [← he] at h₂ h₃ h₄
    exact .sub ih ⟨h₁, h₂, h₃, h₄, h₅⟩

/-- A state that keeps the table and the entries keeps everything a caller can see of
them. -/
theorem Kept.keepsAll {s s' : Fs} (h : Kept s s') (hg : s.dev.Good) : KeepsAll s s' where
  reads := by
    intro d name bytes hd hr
    have hs : (s.cd d).AtDir := ⟨hd.dirNo, hd.lt⟩
    have hs' : (s'.cd d).AtDir := hs
    cases hready : s.fsReady with
    | false =>
      have : fsReadPtr name (s.cd d) = (none, s.cd d) := if_pos hready
      rw [Fs.reads, this] at hr
      exact absurd hr (by simp)
    | true =>
      -- The scan goes over the same entries, and so does the read over the sectors of
      -- the chain.
      have hseek : (s'.cd d).seek name = (s.cd d).seek name := by
        rw [Fs.seek, Fs.seek]
        split
        · rfl
        · exact lookup_congr _ fun i hi => h.slot hd hi
      rw [reads_eq hs hg hready] at hr
      rw [reads_eq hs' (h.good hg) (h.fsReady.trans hready), hseek, ← hr]
      cases hi : ((s.cd d).seek name).idx with
      | none => rfl
      | some i =>
        obtain ⟨hf, hfound⟩ := seek_found hi
        have ho : Owner s.volume d i := hfound.owner hf hd
        show some (fileBytes s'.volume (s'.volume.slot d i)) =
          some (fileBytes s.volume (s.volume.slot d i))
        rw [h.slot hd ho.slot_lt, fileBytes_congr fun c hc => ⟨by rw [h.fat], h.sector ho hc⟩]
  sizes := by
    intro skip d e hd he
    exact ⟨e, (h.listed hg skip hd (h.isDir hd) e).mpr he, rfl, rfl⟩
  names := by
    intro skip d e hd he
    exact ⟨e, (h.listed hg skip hd (h.isDir hd) e).mp he, rfl⟩
  free := by
    show freeClusters s'.volume.fat = freeClusters s.volume.fat
    rw [h.fat]

/-- Keeping goes from step to step, as long as the directories of the first state are
directories of the second. -/
theorem KeepsAll.trans {s t s' : Fs} (hd : ∀ d, IsDir s.volume d → IsDir t.volume d)
    (h : KeepsAll s t) (h' : KeepsAll t s') : KeepsAll s s' where
  reads := fun d name bytes hs hr => h'.reads d name bytes (hd d hs) (h.reads d name bytes hs hr)
  sizes := by
    intro skip d e hs he
    obtain ⟨e₁, h₁, hn₁, hz₁⟩ := h.sizes skip d e hs he
    obtain ⟨e₂, h₂, hn₂, hz₂⟩ := h'.sizes skip d e₁ (hd d hs) h₁
    exact ⟨e₂, h₂, hn₂.trans hn₁, hz₂.trans hz₁⟩
  names := by
    intro skip d e hs he
    obtain ⟨e₁, h₁, hn₁⟩ := h'.names skip d e (hd d hs) he
    obtain ⟨e₂, h₂, hn₂⟩ := h.names skip d e₁ hs h₁
    exact ⟨e₂, h₂, hn₂.trans hn₁⟩
  free := h'.free.trans h.free

/-- A quiet step before does not matter. -/
theorem Quiet.keepsAll_iff {s t : Fs} (h : Quiet s t) (hg : s.dev.Good) (s' : Fs) :
    KeepsAll t s' ↔ KeepsAll s s' := by
  have hback : Kept t s := by
    refine ⟨h.fsReady.symm, h.ok.symm, ?_, fun _ _ => ?_, fun _ _ => ?_⟩ <;> rw [h.volume]
  have hdir : ∀ d, IsDir t.volume d ↔ IsDir s.volume d := fun d => by rw [h.volume]
  constructor
  · exact fun hk => (h.kept.keepsAll hg).trans (fun d => (hdir d).mpr) hk
  · exact fun hk => (hback.keepsAll (h.good hg)).trans (fun d => (hdir d).mp) hk

/-! ## When something is lost -/

/-- The clusters do not suffice, and the entry has a chain to lose or is a new one in
the root. The size test comes first in the source, so data over `FS_MAX_FILE_SIZE` is
refused before anything is lost. -/
def Fs.Loses (s : Fs) (name data : List UInt8) : Prop :=
  s.fsReady = true ∧ data.length ≤ fsMaxFileSize ∧ ∃ i e, s.writeSlot name = some (i, e) ∧
    (s.freeAfter e.fstClusLo).card < sectorsFor data.length ∧
    (InRange e.fstClusLo ∨ s.currentDirCluster = 0 ∧ (s.seek name).idx = none)

theorem Quiet.loses {s t : Fs} (h : Quiet s t) (name data : List UInt8) :
    t.Loses name data ↔ s.Loses name data := by
  simp only [Fs.Loses, Fs.writeSlot, Fs.freeAfter, h.fsReady, h.seek, h.volume,
    h.currentDirCluster, h.fatBuf]

/-- A new name in the root is listed, though the write failed. -/
theorem new_name_listed {s s' : Fs} {name : List UInt8} {i : Nat} {ws : List Nat}
    (h0 : s.currentDirCluster = 0) (hready : s'.fsReady = true) (hg' : s'.dev.Good)
    (hoff : Offered s.volume s.currentDirCluster (nameBytes name) i)
    (hf : fatNameFromInput name = some (nameBytes name)) {e : FatDirEntry} {first : Nat}
    (hhead : FatDirEntry.SameHead (newEntry (nameBytes name) fatAttrArchive) e)
    (hd : Done s s' (s.currentDirCluster = 0) i e first [] ws) (hws : ∀ c ∈ ws, InRange c) :
    ∃ e', s'.Listed skipDotNames 0 e' ∧ e'.name11 = nameBytes name := by
  have hname : e.name11 = nameBytes name := by rw [hhead.name11, newEntry_name11 hf]
  have howns : e.Owns := FatDirEntry.owns_of_name hf hname (by
    rw [hhead.attr]
    simp [newEntry]
    decide)
  have hslot := hd.slot_new h0
  have hoff' := hoff.slot_lt
  have hbefore := hoff.before
  have hkept := hd.slot_kept 0
  rw [h0] at hslot hoff' hbefore hkept
  refine ⟨e, (listed_iff hg' hready _ .root e).mpr (mem_visible.mpr ?_), hname⟩
  have hw0 : (0 : Nat) ∉ ws := fun hm => not_inRange_zero (hws 0 hm)
  refine ⟨i, ⟨Nat.zero_le i, by omega, fun k _ hk hz => ?_⟩, by rw [hslot]; exact howns.1, ?_,
    hslot.symm⟩
  · rw [hkept k (Or.inl rfl) hw0 (by omega) fun h => by omega] at hz
    exact hbefore k hk (Or.inl hz)
  · have hv := valid_ne (head_of_fatNameFromInput hf)
    rw [hslot, skipDotNames, e.lead_eq_name11, hname]
    simpa using hv.2.2.1

section Write

variable {s : Fs} (hg : s.dev.Good) (hdir : IsDir s.volume s.currentDirCluster)
  (hC : ChainsOk s.volume)
include hg hdir

/-- A call that fails was refused, or ran out of clusters. There is no third way on a
device whose transfers succeed: once everything is stored, the flushes succeed as well.
-/
theorem fsWriteRaw_failed {name data : List UInt8} (hcode : (fsWriteRaw name data s).1 ≠ 0) :
    Refused s (fsWriteRaw name data s) ∨ ∃ i e, Writes s name data i e ∧
      (s.freeAfter e.fstClusLo).card < sectorsFor data.length := by
  rcases fsWriteRaw_cases hdir.atDir name data with ⟨hr, -⟩ | ⟨i, e, u, hw, hp, -, hok, he⟩
  · exact Or.inl hr
  · have hgu : u.dev.Good := fun n => by rw [hok, hg n]
    rw [he] at hcode
    rcases writeEntry_cases hp data with ⟨ws, -, -, hwhy⟩ | ⟨t, l, hpt, hc, -⟩
    · exact Or.inr ⟨i, e, hw, not_le.mp fun hle => hwhy ⟨hle, hgu.runs _⟩⟩
    · -- Everything was stored, and the flushes succeed.
      obtain ⟨w, -, hwt⟩ := hpt.wrote
      have hfin := commit_finish (show (-4 : Int) ≠ 0 by decide) (hpt.atDir hdir.atDir)
      rw [hc] at hcode
      exact absurd (hfin.code.mpr ((hwt.good hg).runs _)) hcode

include hC

/-- A failed write that loses nothing changed nothing. -/
theorem fsWriteRaw_kept {name data : List UInt8} (hcode : (fsWriteRaw name data s).1 ≠ 0)
    (hno : ¬ s.Loses name data) : Kept s (fsWriteRaw name data s).2 := by
  have hO := hC.owned
  rcases fsWriteRaw_failed hg hdir hcode with hr | ⟨i, e, hw, hroom⟩
  · exact hr.quiet.kept
  · obtain ⟨-, ws, hd⟩ := fsWriteRaw_full hdir.atDir hw hroom
    generalize (fsWriteRaw name data s).2 = s' at hd ⊢
    have hfew : ¬ (InRange e.fstClusLo ∨ s.currentDirCluster = 0 ∧ (s.seek name).idx = none) :=
      fun h => hno ⟨hw.ready, hw.fits, i, e, hw.slot, hroom, h⟩
    obtain ⟨hrng, hnew⟩ := not_or.mp hfew
    have hfree : ∀ c ∈ ws, InRange c ∧ s.volume.fat c = 0 := fun c hc => by
      obtain ⟨h₁, h₂⟩ := hd.stored c hc
      exact ⟨h₁, h₂.resolve_right (not_onChain hrng)⟩
    have hdirs : ∀ d, IsDir s.volume d → d ∉ ws := fun d hd' hm => by
      obtain ⟨h₁, h₂⟩ := hfree d hm
      obtain ⟨_, _, -, -, -, hu⟩ := hO.dir_owner hd' h₁
      exact hu h₂
    -- The slot: a file without a chain is as it was, and a new name went with the buffer.
    have hslot : s'.volume.slot s.currentDirCluster i = s.volume.slot s.currentDirCluster i := by
      by_cases h0 : s.currentDirCluster = 0
      · obtain ⟨hf, ⟨-, hfound, rfl⟩ | ⟨hsk, -, -⟩⟩ := writeSlot_cases hw.slot
        · rw [hd.slot_new h0, droppedEntry, if_neg]
          rcases hC.chain (hfound.owner hf hdir) with hlt | ⟨l, hl⟩
          · exact Nat.not_le.mpr hlt
          · exact absurd hl.first_inRange hrng
        · exact absurd ⟨h0, by rw [hsk]⟩ hnew
      · exact hd.slot_old h0 (hdirs _ hdir)
    refine ⟨hd.fsReady, hd.ok, funext fun c => hd.kept c (by simp) (not_onChain hrng), ?_, ?_⟩
    · intro d j hd' hj
      by_cases hji : d = s.currentDirCluster ∧ j = i
      · obtain ⟨rfl, rfl⟩ := hji
        exact hslot
      · exact hd.slot_kept d j hd'.dirNo (hdirs d hd') hj hji
    · intro d j c ho hc
      have hcw : c ∉ ws := fun hm => hO.used ho hc (hfree c hm).2
      have h2 := (inRange_iff.mp (OnChain.inRange hc)).1
      by_cases hcd : c = s.currentDirCluster
      · subst hcd
        exact hd.sector_old (by omega) hcw
      · exact hd.sector_kept c h2 hcw hcd

/-- A write that loses something fails, and something is lost: the first cluster of the
chain is free, or the new name is listed. Both are visible to the next call. -/
theorem fsWriteRaw_not_keepsAll {name data : List UInt8} (h : s.Loses name data) :
    (fsWriteRaw name data s).1 ≠ 0 ∧ ¬ KeepsAll s (fsWriteRaw name data s).2 := by
  obtain ⟨hready, hfits, i, e, hslot, hroom, hlost⟩ := h
  obtain ⟨h3, ws, hd⟩ := fsWriteRaw_full hdir.atDir ⟨hready, hfits, hslot, hg.runs _⟩ hroom
  refine ⟨by rw [h3]; decide, fun hk => ?_⟩
  generalize (fsWriteRaw name data s).2 = s' at hd hk
  obtain ⟨hf, hcases⟩ := writeSlot_cases hslot
  rcases hlost with hrng | ⟨h0, hnone⟩
  · have hfreed : s'.volume.fat e.fstClusLo = 0 := hd.freed _ (by simp) (onChain_self hrng)
    have hmem : e.fstClusLo ∈ freeClusters (fatGet s.fatBuf) := by
      rw [← hk.free]
      exact mem_freeClusters.mpr ⟨hrng, hfreed⟩
    rcases hcases with ⟨-, hfound, rfl⟩ | ⟨-, -, rfl⟩
    · exact hC.owned.used (hfound.owner hf hdir) (onChain_self hrng) (mem_freeClusters.mp hmem).2
    · rw [newEntry_clus] at hrng
      exact not_inRange_zero hrng
  · rcases hcases with ⟨hsk, -, -⟩ | ⟨hsk, hoff, rfl⟩
    · rw [hnone] at hsk
      exact absurd hsk (by simp)
    · have hg' : s'.dev.Good := fun n => by rw [hd.ok, hg n]
      obtain ⟨e', he', hn'⟩ := new_name_listed h0 (hd.fsReady.trans hready) hg' hoff hf
        (droppedEntry_head _) hd fun c hc => (hd.stored c hc).1
      obtain ⟨e₀, he₀, hn₀⟩ := hk.names _ _ _ .root he'
      -- An entry of that name was there before, so the scan would have found it.
      rw [listed_iff hg hready _ .root, mem_visible] at he₀
      obtain ⟨j, hr, hl, -, rfl⟩ := he₀
      have hj := hr.lt
      rw [h0] at hoff
      exact hoff.name_ne (by omega) (fun k hk => hr.before k (Nat.zero_le k) hk) hl (hn₀.trans hn')

theorem fsWriteRaw_keeps_iff (name data : List UInt8) :
    ((fsWriteRaw name data s).1 ≠ 0 → KeepsAll s (fsWriteRaw name data s).2) ↔
      ¬ s.Loses name data := by
  constructor
  · intro hk hl
    obtain ⟨hcode, hno⟩ := fsWriteRaw_not_keepsAll hg hdir hC hl
    exact hno (hk hcode)
  · intro hno hcode
    exact (fsWriteRaw_kept hg hdir hC hcode hno).keepsAll hg

/-- **A failed write does no harm, unless it loses a chain or leaves a new name in the
root.** The first half is `fs_write_raw`; the second is `fs_append`, for which the data
are what the name read, followed by the text. -/
theorem failed_write_keeps_iff (name : List UInt8) :
    (∀ data : List UInt8, ((fsWriteRaw name data s).1 ≠ 0 → KeepsAll s (fsWriteRaw name data s).2) ↔
      ¬ s.Loses name data) ∧
    ∀ text : List UInt8, ((fsAppend name text s).1 ≠ 0 → KeepsAll s (fsAppend name text s).2) ↔
      ¬ s.Loses name ((s.reads name).getD [] ++ cstr text) := by
  refine ⟨fsWriteRaw_keeps_iff hg hdir hC name, fun text => ?_⟩
  rw [← appended_eq]
  have hread := fsReadPtr_quiet hdir.atDir name
  have hq := appendState_quiet hdir.atDir name text
  rw [fsAppend_eq]
  by_cases hready : s.fsReady = false
  · rw [if_pos hready]
    refine iff_of_true (fun _ => (Quiet.refl s).kept.keepsAll hg) fun hl => ?_
    rw [hl.1] at hready
    exact absurd hready (by decide)
  · rw [if_neg hready]
    -- A text that is too long is refused before the write. Otherwise the call is a
    -- write, in a state that differs by its reads.
    by_cases hlen : (s.appended name text).length > fsMaxFileSize
    · rw [if_pos hlen]
      exact iff_of_true (fun _ => hread.kept.keepsAll hg) fun hl =>
        absurd hl.2.1 (by omega)
    · rw [if_neg hlen, ← hq.keepsAll_iff hg, ← hq.loses]
      refine fsWriteRaw_keeps_iff (hq.good hg) ?_ ?_ name _
      · rw [hq.volume, hq.currentDirCluster]
        exact hdir
      · rw [hq.volume]
        exact hC

end Write

namespace FullDisk

theorem seek_g : fullFs.seek [0x47] = ⟨none, some 3⟩ := by
  decide +kernel

theorem loses_f : fullFs.Loses [0x46] (List.replicate 513 0x78) := by
  obtain ⟨h₁, h₂, i, hi, ⟨-, hrng⟩, hroom⟩ := strands 513 (by decide) (by decide)
  refine ⟨h₁, h₂, i, _, ?_, hroom, Or.inl hrng⟩
  obtain rfl : 2 = i := by simpa [seek_f] using hi
  rw [Fs.writeSlot, seek_f]

theorem not_loses_g (data : List UInt8) : ¬ fullFs.Loses [0x47] data := by
  rintro ⟨-, -, i, e, hslot, -, hwhy⟩
  rw [Fs.writeSlot, seek_g, Option.some.injEq, Prod.mk.injEq] at hslot
  obtain ⟨-, rfl⟩ := hslot
  rcases hwhy with h | ⟨h, -⟩
  · rw [newEntry_clus] at h
    exact not_inRange_zero h
  · exact absurd h (by decide)

end FullDisk

/-- A write of 513 bytes to `F` on the full volume fails, and the cluster of `F` is free. -/
theorem not_keepsAll_fullFs :
    fullFs.dev.Good ∧ IsDir fullFs.volume fullFs.currentDirCluster ∧ ChainsOk fullFs.volume ∧
    (fsWriteRaw [0x46] (List.replicate 513 0x78) fullFs).1 = -3 ∧
    ¬ KeepsAll fullFs (fsWriteRaw [0x46] (List.replicate 513 0x78) fullFs).2 :=
  ⟨FullDisk.good, FullDisk.isDir, FullDisk.chainsOk,
    (FullDisk.strands 513 (by decide) (by decide)).code FullDisk.good FullDisk.isDir.atDir,
    (fsWriteRaw_not_keepsAll FullDisk.good FullDisk.isDir FullDisk.chainsOk FullDisk.loses_f).2⟩

/-- A new name there fails as well, and nothing is lost. -/
theorem failed_write_keeps_iff_fullFs :
    (fsWriteRaw [0x47] [1] fullFs).1 = -3 ∧ KeepsAll fullFs (fsWriteRaw [0x47] [1] fullFs).2 := by
  have hcode : (fsWriteRaw [0x47] [1] fullFs).1 = -3 := by decide +kernel
  have h := (failed_write_keeps_iff FullDisk.good FullDisk.isDir FullDisk.chainsOk [0x47]).1 [1]
  exact ⟨hcode, h.mpr (FullDisk.not_loses_g [1]) (by rw [hcode]; decide)⟩

end OsU
