import OsU.Proof.FailedWrite
import OsU.Proof.Links
import OsU.Proof.Undo

/-!
# The calls as commands to a store

On a device whose transfers succeed and a sound volume, each call of the driver does
what the command does to the store that is pictured, and answers what it answers
(`Settles`). A call that changes the volume is an edit of the slot of one name; one that
is refused leaves everything that is pictured alone.

The three ways in which a call can leave the picture are told apart by what they keep:
`Quiet` keeps all of the volume, `Kept` what is in use, `NameEdit` all but the slot of
one name and the clusters of its chains. For each there is one lemma that the picture is
kept or entered, and the calls only have to say which of them they are.

`Fs.Sound` says more than a picture needs, since a call has to find it again. The
current directory is one that a path leads to; the volume has its chains apart from each
other and its directories well formed.
-/

set_option autoImplicit false

namespace OsU

/-- The limits of the volume: the longest file, the blocks that so many bytes take, and
the fourteen slots of a new directory behind its first two. -/
def fsLimits : Limits := ⟨fsMaxFileSize, sectorsFor, 14⟩

/-- A mounted, sound volume on a device whose transfers succeed, with the working
directory in its tree. It is what every call keeps, and what the store can be read off
from. -/
structure Fs.Sound (s : Fs) : Prop where
  good : s.dev.Good
  ready : s.fsReady = true
  dir : IsDir s.volume s.currentDirCluster
  volume : s.volume.Sound

/-- A call that returns a status, against the change of the store. The store has refused
when there is no change (`none`); then the picture is that of before. -/
structure Settles (t : FileTree FatName) (r : Int × Fs) (o : Option (FileTree FatName)) : Prop where
  code : r.1 = 0 ↔ o.isSome = true
  sound : r.2.Sound
  pictures : Pictures r.2 (o.getD t)

/-! ## Nothing changes -/

theorem Quiet.sound {s s' : Fs} (h : Quiet s s') (hs : s.Sound) : s'.Sound where
  good := h.good hs.good
  ready := h.fsReady.trans hs.ready
  dir := by
    rw [h.volume, h.currentDirCluster]
    exact hs.dir
  volume := by
    rw [h.volume]
    exact hs.volume

theorem Quiet.pictures {s s' : Fs} (h : Quiet s s') {t : FileTree FatName} (ht : Pictures s t) :
    Pictures s' t := by
  obtain ⟨h₁, h₂, h₃⟩ := ht
  rw [← h.volume] at h₁ h₂
  rw [← h.currentDirCluster] at h₂
  rw [← h.fatBuf] at h₃
  exact ⟨h₁, h₂, h₃⟩

section Kept

variable {s s' : Fs} (h : Kept s s')

include h

theorem Kept.isDir_iff (d : Nat) : IsDir s'.volume d ↔ IsDir s.volume d :=
  isDir_iff_of_entries (fun _ _ hd hi _ => h.slot hd hi) d

theorem Kept.linkOf_eq {d j : Nat} (ho : Owner s.volume d j) :
    s'.volume.linkOf (s.volume.slot d j) = s.volume.linkOf (s.volume.slot d j) := by
  rw [Volume.linkOf, Volume.linkOf, h.fat,
    fileBytes_congr fun x hx => ⟨congrFun h.fat x, h.sector ho hx⟩]

theorem Kept.links_eq {d : Nat} (hd : IsDir s.volume d) (f : FatName) :
    s'.volume.links d f = s.volume.links d f := by
  have hslot : ∀ i < maxEntries d, s'.volume.slot d i = s.volume.slot d i := fun i hi =>
    h.slot hd hi
  rcases hl : s.volume.links d f with _ | e
  · rw [links_eq_none] at hl ⊢
    intro j hj
    rw [← lookup_idx f.length, lookup_congr f.1 hslot, lookup_idx f.length] at hj
    exact hl j hj
  · obtain ⟨j, hj, rfl⟩ := links_eq_some.mp hl
    have hj' := hj
    rw [← lookup_idx f.length, ← lookup_congr f.1 hslot, lookup_idx f.length] at hj'
    obtain ⟨name, hname⟩ := f.2
    rw [links_found hj', hslot j hj.slot_lt, h.linkOf_eq (hj.owner hname hd)]

variable (hs : s.Sound)

include hs

theorem Kept.sound (hcwd : s'.currentDirCluster = s.currentDirCluster) : s'.Sound := by
  have hV := hs.volume
  have howner : ∀ {d i : Nat}, Owner s'.volume d i → Owner s.volume d i := by
    rintro d i ⟨hd, hi, ho⟩
    have hd' := (h.isDir_iff d).mp hd
    exact ⟨hd', hi, h.slot hd' hi ▸ ho⟩
  have hslot : ∀ {d i : Nat}, Owner s'.volume d i → s'.volume.slot d i = s.volume.slot d i :=
    fun ho => h.slot (howner ho).dir ho.slot_lt
  have hchain : ∀ {d i c : Nat}, Owner s'.volume d i → Chain s'.volume d i c →
      Chain s.volume d i c := by
    intro d i c ho hc
    rwa [Chain, hslot ho, h.fat] at hc
  refine ⟨h.good hs.good, h.fsReady.trans hs.ready, ?_, ?_, ?_, ?_, ?_⟩
  · rw [hcwd]
    exact (h.isDir_iff _).mpr hs.dir
  · refine ⟨fun ho => ?_, fun ho ho' hc hc' => ?_⟩
    · have hch := hV.chains.chain (howner ho)
      rwa [ChainOk, ← h.fat, ← hslot ho] at hch
    · exact hV.chains.alone (howner ho) (howner ho') (hchain ho hc) (hchain ho' hc')
  · intro d i ho hdir
    have hd := hs.volume.dirs (howner ho) (hslot ho ▸ hdir)
    have hsub : SubDir s.volume d i (s.volume.slot d i).fstClusLo :=
      ⟨ho.slot_lt, (howner ho).owns, hslot ho ▸ hdir, rfl, (inRange_iff.mp hd.inRange).1⟩
    have hc : IsDir s.volume (s.volume.slot d i).fstClusLo := .sub (howner ho).dir hsub
    have hmax : maxEntries (s.volume.slot d i).fstClusLo = 16 := if_neg (by
      have := hsub.two_le
      omega)
    have h₀ := h.slot hc (i := 0) (by omega)
    have h₁ := h.slot hc (i := 1) (by omega)
    rw [hslot ho]
    obtain ⟨a₁, a₂, a₃, a₄, a₅, a₆⟩ := hd
    rw [← h₀] at a₃ a₄
    rw [← h₁] at a₅ a₆
    rw [← h.fat] at a₂
    exact ⟨a₁, a₂, a₃, a₄, a₅, a₆⟩
  · intro d hd
    have hd' := (h.isDir_iff d).mp hd
    exact (hV.wf d hd').congr fun j hj => h.slot hd' hj
  · intro d i hd hi
    have hd' := (h.isDir_iff d).mp hd
    rw [h.slot hd' hi]
    exact hV.short d i hd' hi

theorem Kept.pictures (hcwd : s'.currentDirCluster = s.currentDirCluster) {t : FileTree FatName}
    (ht : Pictures s t) : Pictures s' t := by
  have hnode : ∀ q, s'.volume.links.node 0 q = s.volume.links.node 0 q :=
    Linkage.node_congr fun q d f hq => h.links_eq (hs.volume.isDir hq) f
  refine ⟨fun q => ?_, ?_, ?_⟩
  · rw [ht.node, hnode q]
    rcases hl : s.volume.links.node 0 q with _ | x | c
    · rfl
    · rfl
    · have hvac : s'.volume.vacant c = s.volume.vacant c := by
        rw [Volume.vacant, Volume.vacant]
        congr 1
        refine Finset.filter_congr fun k hk => ?_
        rw [h.slot (hs.volume.isDir hl) (Finset.mem_range.mp hk)]
      simp only [Option.map_some, Volume.asNode, hvac, h.fat]
  · rw [hnode, hcwd]
    exact ht.cwd
  · rw [ht.free]
    exact congrArg (fun fat => (freeClusters fat).card) h.fat.symm

end Kept

/-! ## What an edit leaves -/

/-- After an edit a directory is one that was there, or in the slot. -/
theorem EditOk.isDir_or {v v' : Volume} {d i first c : Nat} {l ws : List Nat}
    (h : EditOk v v' d i first l ws) (hO : Owned v) (hc : IsDir v' c) :
    IsDir v c ∨ SubDir v' d i c := by
  rcases hc.cases_sub with rfl | ⟨p, j, hp, hs⟩
  · exact Or.inl .root
  · rcases h.isDir_cases hO hp with hp' | ⟨-, -, hnone⟩
    · by_cases hpj : p = d ∧ j = i
      · obtain ⟨rfl, rfl⟩ := hpj
        exact Or.inr hs
      · exact Or.inl (.sub hp' ((h.subDir_iff hO hp' hpj).mp hs))
    · exact absurd hs.owns (hnone j hs.slot_lt)

/-- A sound volume is sound after an edit of the slot of a name, if a directory made there is. -/
theorem NameEdit.sound {v v' : Volume} {d i first : Nat} {l ws : List Nat} {f : FatName}
    (h : NameEdit v v' d i first l ws f) (hV : v.Sound)
    (hmade : ∀ c, SubDir v' d i c → DirWf (v'.slot c) (maxEntries c) ∧
      ∀ j < maxEntries c, ¬ (v'.slot c j).Vacant → (v'.slot c j).Live) : v'.Sound := by
  have hO := hV.chains.owned
  have hdot : ¬ (v.slot d i).IsDot := by
    rcases h.before with hv | hf
    · exact hv.not_dot
    · obtain ⟨name, hname⟩ := f.2
      exact (hf.owns hname).2
  refine ⟨h.chainsOk hV.chains, h.dirsOk hO hV.dirs hdot, fun c hc => ?_, fun c j hc hj hv => ?_⟩
  · rcases h.isDir_or hO hc with hc' | hs
    · by_cases hcd : c = d
      · rw [hcd]
        exact h.wf
      · exact (hV.wf c hc').congr fun k hk => h.slot_eq hO hc' hk fun hij => hcd hij.1
    · exact (hmade c hs).1
  · rcases h.isDir_or hO hc with hc' | hs
    · by_cases hij : c = d ∧ j = i
      · obtain ⟨rfl, rfl⟩ := hij
        rcases h.after with hv' | ⟨hl, -⟩
        · exact absurd hv' hv
        · exact hl
      · rw [h.slot_eq hO hc' hj hij] at hv ⊢
        exact hV.short c j hc' hj hv
    · exact (hmade c hs).2 j hj hv

/-! ## What a scan says about the store -/

/-- The answer of the scan for a name: its slot, a vacant slot for it, or neither. -/
inductive Scan83 (s : Fs) (name : List UInt8) (f : FatName) : Prop
  | found (i : Nat) : (s.seek name).idx = some i → Found s.volume s.currentDirCluster f.1 i →
      Scan83 s name f
  | offered (i : Nat) : s.seek name = ⟨none, some i⟩ →
      Offered s.volume s.currentDirCluster f.1 i → Scan83 s name f
  | full : s.seek name = ⟨none, none⟩ → s.volume.vacant s.currentDirCluster = 0 →
      (∀ i, ¬ Found s.volume s.currentDirCluster f.1 i) → Scan83 s name f

theorem nameBytes_eq {name : List UInt8} {f : FatName} (h : fatName name = some f) :
    nameBytes name = f.1 := by
  rw [nameBytes, fatName_eq_some.mp h]
  rfl

theorem scan83 (s : Fs) {name : List UInt8} {f : FatName} (h : fatName name = some f) :
    Scan83 s name f := by
  have hname := fatName_eq_some.mp h
  have hseek : s.seek name = lookup s.volume s.currentDirCluster f.1 := by rw [Fs.seek, hname]
  rcases hsk : s.seek name with ⟨_ | i, _ | k⟩
  · rw [hseek] at hsk
    refine .full (by rw [hseek, hsk]) ?_ ?_
    · rw [Volume.vacant, Finset.card_eq_zero, Finset.filter_eq_empty_iff]
      intro j hj
      exact findLoop_full hsk (Nat.zero_le j) (by simpa using hj)
    · intro i hi
      rw [← lookup_idx f.length, hsk] at hi
      cases hi
  · obtain ⟨-, hoff⟩ := seek_offered hsk
    rw [nameBytes_eq h] at hoff
    exact .offered k hsk hoff
  all_goals
    have hidx : (s.seek name).idx = some i := by rw [hsk]
    obtain ⟨-, hf⟩ := seek_found hidx
    rw [nameBytes_eq h] at hf
    exact .found i hidx hf

/-- There is a vacant slot where one is offered. -/
theorem Offered.vacant_pos {v : Volume} {d i : Nat} {f11 : List UInt8} (h : Offered v d f11 i) :
    0 < v.vacant d :=
  Finset.card_pos.mpr ⟨i, Finset.mem_filter.mpr ⟨Finset.mem_range.mpr h.slot_lt, h.vacant⟩⟩

namespace Pictures

variable {s : Fs} {t : FileTree FatName} (ht : Pictures s t) {f : FatName} {i : Nat}

include ht

theorem here_found (hf : Found s.volume s.currentDirCluster f.1 i) :
    t.here f = some (s.volume.asNode
      (s.volume.linkOf (s.volume.slot s.currentDirCluster i))) := by
  rw [ht.here_eq, links_found hf]
  rfl

theorem here_none (hf : ∀ i, ¬ Found s.volume s.currentDirCluster f.1 i) : t.here f = none := by
  rw [ht.here_eq, links_eq_none.mpr hf]
  rfl

/-- A file of the store is a file of the volume. -/
theorem file (hf : Found s.volume s.currentDirCluster f.1 i)
    (hfile : (s.volume.slot s.currentDirCluster i).isDir = false) :
    t.here f = some (.file (fileBytes s.volume (s.volume.slot s.currentDirCluster i))
      (chainCard s.volume.fat (s.volume.slot s.currentDirCluster i).fstClusLo)) := by
  rw [ht.here_found hf, Volume.linkOf, if_neg (by simp [hfile])]
  rfl

theorem directory (hf : Found s.volume s.currentDirCluster f.1 i)
    (hdir : (s.volume.slot s.currentDirCluster i).isDir = true) :
    t.here f = some (.dir (s.volume.vacant (s.volume.slot s.currentDirCluster i).fstClusLo)
      (chainCard s.volume.fat (s.volume.slot s.currentDirCluster i).fstClusLo)) := by
  rw [ht.here_found hf, Volume.linkOf, if_pos hdir]
  rfl

theorem isDir_eq_false (hf : Found s.volume s.currentDirCluster f.1 i)
    (hfile : ∀ k b, t.here f ≠ some (.dir k b)) :
    (s.volume.slot s.currentDirCluster i).isDir = false := by
  by_contra hdir
  exact hfile _ _ (ht.directory hf (Bool.not_eq_false _ ▸ hdir))

end Pictures

end OsU
