import OsU.Lib.FileTree
import OsU.Lib.PathTree
import OsU.Proof.Listing
import OsU.Proof.Room

/-!
# The volume as a store of files by path

The directories of the volume are linked by the entries that a scan finds, each under
the eleven bytes of its name. What is seen from the root along these links is the store
that the driver is for (`Pictures`). An edit of one slot is an edit of one entry of the
store (`Pictures.enter`).

The store is a tree of names (`FileTree`): it has no clusters, no slots and no order of
entries. Two numbers are part of the picture nevertheless, the free clusters and the
vacant slots of a directory, because a caller can run out of them, and an abstract call
that may fail has to say when.

A directory may be reached in one way only, and that follows from ownership: its cluster
is on the chain of one entry. So an edit of the slot of a name changes the store at one
path and nowhere else (`enter`), which is the lemma that every step of the simulation in
`TreeSteps` comes down to.
-/

set_option autoImplicit false

namespace OsU

/-! ## Names -/

/-- Eleven bytes that the encoder makes. -/
abbrev FatName : Type := { f11 : List UInt8 // ∃ name, fatNameFromInput name = some f11 }

/-- What a string names. -/
def fatName (name : List UInt8) : Option FatName :=
  (fatNameFromInput name).attach.map fun f => ⟨f.1, name, f.2⟩

theorem FatName.length (f : FatName) : f.1.length = 11 := by
  obtain ⟨f11, name, h⟩ := f
  exact length_of_fatNameFromInput h

theorem fatName_eq_some {name : List UInt8} {f : FatName} :
    fatName name = some f ↔ fatNameFromInput name = some f.1 := by
  rw [fatName, Option.map_eq_some_iff]
  constructor
  · rintro ⟨⟨f11, h⟩, -, rfl⟩
    exact h
  · intro h
    exact ⟨⟨f.1, h⟩, by simp [Option.attach_eq_some_iff, h], rfl⟩

theorem fatName_eq_none {name : List UInt8} :
    fatName name = none ↔ fatNameFromInput name = none := by
  rw [fatName, Option.map_eq_none_iff, Option.attach_eq_none_iff]

/-! ## Linkage -/

/-- What an entry stands for: a file with its bytes and the length of its chain, or a directory. -/
noncomputable def Volume.linkOf (v : Volume) (e : FatDirEntry) : Link Nat (List UInt8 × Nat) :=
  if e.isDir then .dir e.fstClusLo else .leaf (fileBytes v e, chainCard v.fat e.fstClusLo)

/-- What a scan of directory `d` finds under a name. -/
noncomputable def Volume.links (v : Volume) : Linkage Nat FatName (List UInt8 × Nat) :=
  fun d f => (lookup v d f.1).idx.map fun i => v.linkOf (v.slot d i)

/-- The slots of directory `d` that hold no entry. -/
def Volume.vacant (v : Volume) (d : Nat) : Nat :=
  ((Finset.range (maxEntries d)).filter fun i => (v.slot d i).Vacant).card

noncomputable def Volume.asNode (v : Volume) : Link Nat (List UInt8 × Nat) → Node
  | .leaf x => .file x.1 x.2
  | .dir d => .dir (v.vacant d) (chainCard v.fat d)

/-- The store `t` is what is on the volume: the tree of names from the root along the
links, the path of the working directory, and what is left of clusters and slots. -/
structure Pictures (s : Fs) (t : FileTree FatName) : Prop where
  node : ∀ q, t.node q = (s.volume.links.node 0 q).map s.volume.asNode
  cwd : s.volume.links.node 0 t.cwd = some (.dir s.currentDirCluster)
  free : t.free = (freeClusters (fatGet s.fatBuf)).card

/-- Chains are well formed and disjoint, and directories keep their promise and are well formed,
without pieces of long names. -/
structure Volume.Sound (v : Volume) : Prop where
  chains : ChainsOk v
  dirs : DirsOk v
  wf : ∀ d, IsDir v d → DirWf (v.slot d) (maxEntries d)
  short : ∀ d i, IsDir v d → i < maxEntries d → ¬ (v.slot d i).Vacant → (v.slot d i).Live

section Volume

variable {v v' : Volume} {d i c : Nat} {f m : FatName}

theorem links_eq_some {e : Link Nat (List UInt8 × Nat)} :
    v.links d f = some e ↔ ∃ i, Found v d f.1 i ∧ v.linkOf (v.slot d i) = e := by
  rw [Volume.links, Option.map_eq_some_iff]
  exact exists_congr fun i => and_congr_left fun _ => lookup_idx f.length

theorem links_found (h : Found v d f.1 i) : v.links d f = some (v.linkOf (v.slot d i)) :=
  links_eq_some.mpr ⟨i, h, rfl⟩

theorem links_eq_none : v.links d f = none ↔ ∀ i, ¬ Found v d f.1 i := by
  constructor
  · intro h i hi
    rw [links_found hi] at h
    cases h
  · intro h
    rcases hl : v.links d f with _ | e
    · rfl
    · obtain ⟨i, hi, -⟩ := links_eq_some.mp hl
      exact absurd hi (h i)

theorem links_eq_dir :
    v.links d f = some (.dir c) ↔
      ∃ i, Found v d f.1 i ∧ (v.slot d i).isDir = true ∧ (v.slot d i).fstClusLo = c := by
  rw [links_eq_some]
  refine exists_congr fun i => and_congr_right fun _ => ?_
  rw [Volume.linkOf]
  split <;> simp_all

theorem DirWf.congr {slot slot' : Nat → FatDirEntry} {n : Nat} (h : DirWf slot n)
    (hsame : ∀ j < n, slot' j = slot j) : DirWf slot' n := by
  refine ⟨fun j k hjk hk => ?_, fun j k hj hk => ?_, fun j hj => ?_⟩
  · rw [hsame j (by omega), hsame k hk]
    exact h.ended j k hjk hk
  · rw [hsame j hj, hsame k hk]
    exact h.distinct j k hj hk
  · rw [hsame j hj]
    exact h.named j hj

/-- In a well-formed directory the order of the entries does not matter. -/
theorem DirWf.found_iff (h : DirWf (v.slot d) (maxEntries d)) {f11 : List UInt8} {j : Nat} :
    Found v d f11 j ↔ j < maxEntries d ∧ (v.slot d j).Live ∧ (v.slot d j).name11 = f11 := by
  constructor
  · exact fun hf => ⟨hf.slot_lt, hf.live, hf.name11⟩
  · rintro ⟨hj, hl, hn⟩
    refine ⟨hj, hl, hn, fun k hk => ⟨h.reach hj hl k hk, fun hlk hnk => ?_⟩⟩
    exact absurd (h.distinct k j (by omega) hj hlk hl (hnk.trans hn.symm)) (by omega)

/-! ## The tree -/

namespace Volume.Sound

variable (h : v.Sound)

include h

theorem subDir (hd : IsDir v d) (hf : Found v d f.1 i) (hdir : (v.slot d i).isDir = true) :
    SubDir v d i (v.slot d i).fstClusLo := by
  obtain ⟨name, hname⟩ := f.2
  have ho := hf.owner hname hd
  exact ⟨ho.slot_lt, ho.owns, hdir, rfl, (inRange_iff.mp (h.dirs ho hdir).inRange).1⟩

theorem isDir {q : List FatName} {d : Nat} (hq : v.links.node 0 q = some (.dir d)) : IsDir v d := by
  induction q using List.reverseRecOn generalizing d with
  | nil =>
    cases hq
    exact .root
  | append_singleton q n ih =>
    obtain ⟨p, hp, hl⟩ := Linkage.node_snoc_eq_some.mp hq
    obtain ⟨i, hf, hdir, rfl⟩ := links_eq_dir.mp hl
    exact .sub (ih hp) (h.subDir (ih hp) hf hdir)

/-- The entry that leads to a directory. -/
theorem place {p : List FatName} (hp : v.links.node 0 p = some (.dir d))
    (hl : v.links d f = some (.dir c)) :
    ∃ i, Found v d f.1 i ∧ SubDir v d i c ∧ Chain v d i c := by
  obtain ⟨i, hf, hdir, rfl⟩ := links_eq_dir.mp hl
  have hs := h.subDir (h.isDir hp) hf hdir
  exact ⟨i, hf, hs, hs.chain_self (h.dirs (hs.owner (h.isDir hp)) hdir).inRange⟩

theorem treeLike : v.links.TreeLike 0 := by
  refine Linkage.treeLike_of_place ?_ ?_
  · intro p d n hp hl
    obtain ⟨i, -, hs, -⟩ := h.place hp hl
    exact absurd hs.two_le (by decide)
  · intro p q d d' m n c hp hq hl hl'
    obtain ⟨i, hf, hs, hc⟩ := h.place hp hl
    obtain ⟨j, hf', hs', hc'⟩ := h.place hq hl'
    obtain ⟨rfl, rfl⟩ := h.chains.alone (hs.owner (h.isDir hp)) (hs'.owner (h.isDir hq)) hc hc'
    exact ⟨rfl, Subtype.ext (hf.name11.symm.trans hf'.name11)⟩

end Volume.Sound

/-! ## An edit of a slot -/

theorem chainCard_congr {fat fat' : Nat → Nat} {first : Nat}
    (h : ∀ c, OnChain fat' first c ↔ OnChain fat first c) :
    chainCard fat' first = chainCard fat first := by
  rw [chainCard, chainCard]
  simp only [h]

/-- An edit of the slot of a name: it was vacant or that name's, and it is. -/
structure NameEdit (v v' : Volume) (d i first : Nat) (l ws : List Nat) (f : FatName) : Prop
    extends EditOk v v' d i first l ws where
  slot_lt : i < maxEntries d
  wf : DirWf (v'.slot d) (maxEntries d)
  before : (v.slot d i).Vacant ∨ Found v d f.1 i
  after : (v'.slot d i).Vacant ∨ (v'.slot d i).Live ∧ (v'.slot d i).name11 = f.1

namespace NameEdit

variable {first : Nat} {l ws : List Nat} (h : NameEdit v v' d i first l ws f) (hV : v.Sound)

include h hV

/-- Another entry stands for what it stood for. -/
theorem linkOf_eq {j : Nat} (ho : Owner v c j) (hne : ¬ (c = d ∧ j = i)) :
    v'.linkOf (v'.slot c j) = v.linkOf (v.slot c j) := by
  have hO := hV.chains.owned
  rw [Volume.linkOf, Volume.linkOf, h.slot_eq hO ho.dir ho.slot_lt hne]
  by_cases hdir : (v.slot c j).isDir = true
  · rw [if_pos hdir, if_pos hdir]
  · rw [if_neg hdir, if_neg hdir, h.fileBytes_eq hO ho (Bool.eq_false_iff.mpr hdir) hne,
      chainCard_congr fun x => h.onChain_iff hO ho fun _ => hne]

/-- A scan for another name, or of another directory, finds what it found. -/
theorem found_iff (hc : IsDir v c) (hne : ¬ (c = d ∧ m = f)) {j : Nat} :
    Found v' c m.1 j ↔ Found v c m.1 j := by
  have hO := hV.chains.owned
  by_cases hcd : c = d
  · subst hcd
    have hmf : m.1 ≠ f.1 := fun he => hne ⟨rfl, Subtype.ext he⟩
    rw [h.wf.found_iff, (hV.wf c hc).found_iff]
    refine and_congr_right fun hj => ?_
    by_cases hji : j = i
    · rw [hji]
      refine iff_of_false ?_ ?_
      · rintro ⟨hl, hn⟩
        rcases h.after with hv | ⟨-, hn'⟩
        · exact hl.1 hv
        · exact hmf (hn.symm.trans hn')
      · rintro ⟨hl, hn⟩
        rcases h.before with hv | hf
        · exact hl.1 hv
        · exact hmf (hn.symm.trans hf.name11)
    · rw [h.slot_eq hO hc hj fun hij => hji hij.2]
  · have hsame : ∀ k < maxEntries c, v'.slot c k = v.slot c k := fun k hk =>
      h.slot_eq hO hc hk fun hij => hcd hij.1
    rw [← lookup_idx m.length, ← lookup_idx m.length, lookup,
      findLoop_congr m.1 (fun k _ hk => hsame k (by omega)) none, lookup]

theorem links_eq (hc : IsDir v c) (hne : ¬ (c = d ∧ m = f)) : v'.links c m = v.links c m := by
  rcases hl : v.links c m with _ | e
  · rw [links_eq_none] at hl ⊢
    exact fun j hj => hl j ((h.found_iff hV hc hne).mp hj)
  · obtain ⟨j, hj, rfl⟩ := links_eq_some.mp hl
    have hj' := (h.found_iff hV hc hne).mpr hj
    obtain ⟨name, hname⟩ := m.2
    rw [links_found hj', h.linkOf_eq hV (hj.owner hname hc)]
    rintro ⟨rfl, rfl⟩
    rcases h.before with hv | hf
    · exact hj.live.1 hv
    · exact hne ⟨rfl, Subtype.ext (hj.name11.symm.trans hf.name11)⟩

theorem vacant_eq (hc : IsDir v c) (hcd : c ≠ d) : v'.vacant c = v.vacant c := by
  rw [Volume.vacant, Volume.vacant]
  congr 1
  refine Finset.filter_congr fun k hk => ?_
  rw [h.slot_eq hV.chains.owned hc (Finset.mem_range.mp hk) fun hij => hcd hij.1]

/-- The vacant slots of the directory, but for the one under edit, are the same. -/
theorem vacant_add :
    v'.vacant d + (if (v.slot d i).Vacant then 1 else 0) =
      v.vacant d + if (v'.slot d i).Vacant then 1 else 0 := by
  have hsplit : ∀ u : Volume, u.vacant d = (if (u.slot d i).Vacant then 1 else 0) +
      ∑ k ∈ (Finset.range (maxEntries d)).erase i, if (u.slot d k).Vacant then 1 else 0 := by
    intro u
    rw [Volume.vacant, Finset.card_filter]
    exact (Finset.add_sum_erase _ (fun k => if (u.slot d k).Vacant then 1 else 0)
      (Finset.mem_range.mpr h.slot_lt)).symm
  have hrest : (∑ k ∈ (Finset.range (maxEntries d)).erase i,
      if (v'.slot d k).Vacant then 1 else 0) =
      ∑ k ∈ (Finset.range (maxEntries d)).erase i, if (v.slot d k).Vacant then 1 else 0 := by
    refine Finset.sum_congr rfl fun k hk => ?_
    obtain ⟨hki, hk⟩ := Finset.mem_erase.mp hk
    rw [h.slot_eq hV.chains.owned h.dir (Finset.mem_range.mp hk) fun hij => hki hij.2]
  rw [hsplit v', hsplit v, hrest]
  omega

/-- The chain of a directory that is reached in another way. -/
theorem chainCard_eq {q p : List FatName} (hp : v.links.node 0 p = some (.dir d))
    (hq : v.links.node 0 q = some (.dir c)) (hne : q ≠ p ++ [f]) :
    chainCard v'.fat c = chainCard v.fat c := by
  cases q using List.reverseRecOn with
  | nil =>
    cases hq
    rw [chainCard_of_not_inRange not_inRange_zero, chainCard_of_not_inRange not_inRange_zero]
  | append_singleton q n =>
    obtain ⟨d', hq', hl⟩ := Linkage.node_snoc_eq_some.mp hq
    obtain ⟨j, hf, hs, -⟩ := hV.place hq' hl
    have hij : ¬ (d' = d ∧ j = i) := by
      rintro ⟨rfl, rfl⟩
      rcases h.before with hv | hf'
      · exact hf.live.1 hv
      · obtain rfl : n = f := Subtype.ext (hf.name11.symm.trans hf'.name11)
        exact hne (by rw [hV.treeLike q p d' hq' hp])
    have ho := hs.owner (hV.isDir hq')
    have hchain := fun x => h.onChain_iff hV.chains.owned (c := x) ho fun _ => hij
    simp only [hs.clus, Chain] at hchain
    exact chainCard_congr hchain

end NameEdit

end Volume

/-! ## The store -/

namespace Pictures

variable {s s' : Fs} {t : FileTree FatName} {f : FatName} (h : Pictures s t)

include h

theorem here_eq (f : FatName) :
    t.here f = (s.volume.links s.currentDirCluster f).map s.volume.asNode := by
  rw [FileTree.here, h.node, Linkage.node_snoc_dir h.cwd]

theorem vacant_eq : t.vacant = s.volume.vacant s.currentDirCluster := by
  rw [FileTree.vacant, h.node, h.cwd]
  rfl

/-- **An edit of a slot is an edit of an entry of the store.** The links of the edited
directory change at the name, all others stay, and the counts go by what the edit took
and gave back. -/
theorem enter (hV : s.volume.Sound) {i first : Nat} {l ws : List Nat}
    (he : NameEdit s.volume s'.volume s.currentDirCluster i first l ws f)
    (hcwd : s'.currentDirCluster = s.currentDirCluster)
    (hold : ∀ c m, s.volume.links s.currentDirCluster f = some (.dir c) →
      s.volume.links c m = none)
    (hnew : ∀ c m, s'.volume.links s.currentDirCluster f = some (.dir c) →
      s'.volume.links c m = none) {e : Option Node} {k n : Nat}
    (hentry : (s'.volume.links s.currentDirCluster f).map s'.volume.asNode = e)
    (hvacant : s'.volume.vacant s.currentDirCluster = k)
    (hfree : (freeClusters (fatGet s'.fatBuf)).card = n) : Pictures s' (t.enter f e k n) := by
  -- No path leads through the slot, before or after, so only the path to it changes.
  have hnode := Linkage.node_edit hV.treeLike h.cwd
    (fun q c m hq hne => he.links_eq hV (hV.isDir hq) hne) hold hnew
  refine ⟨fun q => ?_, ?_, hfree.symm⟩
  · rw [hnode q]
    simp only [FileTree.enter]
    by_cases hq : q = t.cwd ++ [f]
    · rw [if_pos hq, if_pos hq, hentry]
    · rw [if_neg hq, if_neg hq]
      -- The working directory has another number of vacant slots. Any other directory
      -- is as it was.
      by_cases hqc : q = t.cwd
      · rw [if_pos hqc, h.node, hqc, h.cwd]
        simp only [Option.map_some, Volume.asNode, Node.setVacant, hvacant]
        rw [he.chainCard_eq hV h.cwd h.cwd (by simp)]
      · rw [if_neg hqc, h.node]
        rcases hl : s.volume.links.node 0 q with _ | x | c
        · rfl
        · rfl
        · have hcd : c ≠ s.currentDirCluster := by
            rintro rfl
            exact hqc (hV.treeLike q t.cwd _ hl h.cwd)
          simp only [Option.map_some, Volume.asNode]
          rw [he.vacant_eq hV (hV.isDir hl) hcd, he.chainCard_eq hV h.cwd hl hq]
  · rw [hcwd]
    change s'.volume.links.node 0 t.cwd = _
    rw [hnode t.cwd, if_neg (by simp), h.cwd]

end Pictures

end OsU
