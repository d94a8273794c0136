import OsU.Proof.Fat32Errors

/-!
# The two walks over a FAT32 directory

`fat32_list_dir` and `fat32_find_entry` go through the same entries: those of the
clusters of the chain, up to the first that begins with a zero. What each does with the
entries of one cluster is said here in terms of the list of them (`listEntries_eq`,
`scanEntries_spec`), and what a round does in terms of the volume.

Nothing but an end mark or the end of the chain stops a walk, so over a table whose
chain comes back to where it was, it goes round for ever.

The list is a value of the volume, while the driver looks at its buffer. The step
between them is that a round has read the whole cluster, and that the number of entries
it looks at is no greater than what has been read (`entries_le`). It holds for any
number of sectors in the model; that the buffer is as large is asked for in the results
only.
-/

set_option autoImplicit false

namespace OsU

open Rounds

/-! ## Entries -/

/-- The `i`-th entry of a cluster. -/
def dirSlot (m : ByteMem) (i : Nat) : ByteMem := fun k => m (32 * i + k)

/-- The entries from the `i`-th on, `n` of them. -/
def dirSlots (m : ByteMem) (n i : Nat) : List ByteMem := (List.range' i n).map (dirSlot m)

/-- The end of the directory. -/
abbrev EndMark (e : ByteMem) : Prop := e 0 = 0x00

/-- Neither deleted nor a part of a long name. This is all the lookup asks for, so a
volume label is seen. -/
abbrev Seen (e : ByteMem) : Prop := e 0 ≠ 0xE5 ∧ e 11 &&& fatAttrLfn ≠ fatAttrLfn

/-- What the listing leaves of these: no label, and no name with a dot in front. -/
abbrev Listed (e : ByteMem) : Prop := Seen e ∧ e 11 &&& fatAttrVolumeId = 0 ∧ e 0 ≠ 0x2E

/-- The name of an entry is a C string. -/
abbrev Named (name : List UInt8) (e : ByteMem) : Prop :=
  cstr (Fat32.fatNameToStr e) = cstr name

/-- What the callback is told of an entry. -/
def callOf (e : ByteMem) : Fat32.DirCall :=
  ⟨cstr (Fat32.fatNameToStr e), e 11 &&& fatAttrDirectory ≠ 0, e.le32 28⟩

/-- The entries before the end mark. -/
def liveEntries (es : List ByteMem) : List ByteMem := es.takeWhile fun e => ¬ EndMark e

theorem dirSlots_succ (m : ByteMem) (n i : Nat) :
    dirSlots m (n + 1) i = dirSlot m i :: dirSlots m n (i + 1) := rfl

theorem liveEntries_subset (es : List ByteMem) : liveEntries es ⊆ es :=
  (List.takeWhile_prefix _).subset

theorem liveEntries_cons_end {e : ByteMem} {es : List ByteMem} (h : EndMark e) :
    liveEntries (e :: es) = [] :=
  List.takeWhile_cons_of_neg (by simpa using h)

theorem liveEntries_cons {e : ByteMem} {es : List ByteMem} (h : ¬ EndMark e) :
    liveEntries (e :: es) = e :: liveEntries es :=
  List.takeWhile_cons_of_pos (by simpa using h)

theorem liveEntries_append_of_ended {es es' : List ByteMem} (h : ∃ e ∈ es, EndMark e) :
    liveEntries (es ++ es') = liveEntries es := by
  induction es with
  | nil =>
    obtain ⟨e, he, -⟩ := h
    exact absurd he List.not_mem_nil
  | cons e es ih =>
    rw [List.cons_append, liveEntries, liveEntries, List.takeWhile_cons, List.takeWhile_cons]
    split
    · rename_i hlive
      obtain ⟨e', he', hend⟩ := h
      rcases List.mem_cons.mp he' with rfl | he'
      · exact absurd hend (of_decide_eq_true hlive)
      · exact congrArg (e :: ·) (ih ⟨e', he', hend⟩)
    · rfl

theorem liveEntries_append {es es' : List ByteMem} (h : ¬ ∃ e ∈ es, EndMark e) :
    liveEntries (es ++ es') = es ++ liveEntries es' :=
  List.takeWhile_append_of_pos fun e he => decide_eq_true fun hend => h ⟨e, he, hend⟩

theorem liveEntries_eq_self {es : List ByteMem} (h : ¬ ∃ e ∈ es, EndMark e) :
    liveEntries es = es := by
  have happ : liveEntries (es ++ []) = es ++ liveEntries [] := liveEntries_append h
  rwa [List.append_nil, show liveEntries [] = [] from rfl, List.append_nil] at happ

/-- The listing calls for a listed entry and goes on. -/
theorem listEntries_succ {m : ByteMem} {n i : Nat} (h : ¬ EndMark (dirSlot m i)) :
    Fat32.listEntries m (n + 1) i =
      if Listed (dirSlot m i) then
        ((Fat32.listEntries m n (i + 1)).1,
          callOf (dirSlot m i) :: (Fat32.listEntries m n (i + 1)).2)
      else Fat32.listEntries m n (i + 1) := by
  have hslot : (fun k => m (32 * i + k)) = dirSlot m i := rfl
  rw [Fat32.listEntries, hslot, if_neg h]
  by_cases hdel : dirSlot m i 0 = 0xE5
  · rw [if_pos hdel, if_neg fun hl => hl.1.1 hdel]
  · by_cases hattr : dirSlot m i 11 &&& fatAttrLfn = fatAttrLfn ∨
        dirSlot m i 11 &&& fatAttrVolumeId ≠ 0
    · rw [if_neg hdel, if_pos hattr,
        if_neg fun hl => hattr.elim hl.1.2 fun hvol => hvol hl.2.1]
    · have hlfn : dirSlot m i 11 &&& fatAttrLfn ≠ fatAttrLfn := fun hl => hattr (.inl hl)
      have hvol : dirSlot m i 11 &&& fatAttrVolumeId = 0 :=
        by_contra fun hv => hattr (.inr hv)
      rw [if_neg hdel, if_neg hattr]
      by_cases hdot : dirSlot m i 0 = 0x2E
      · rw [if_pos hdot, if_neg fun hl => hl.2.2 hdot]
      · rw [if_neg hdot, if_pos ⟨⟨hdel, hlfn⟩, hvol, hdot⟩]
        rfl

/-- The lookup stops at an entry it sees under the name. -/
theorem scanEntries_succ {name : List UInt8} {m : ByteMem} {n i : Nat}
    (h : ¬ EndMark (dirSlot m i)) :
    Fat32.scanEntries name m (n + 1) i =
      if Seen (dirSlot m i) ∧ Named name (dirSlot m i) then .found i
      else Fat32.scanEntries name m n (i + 1) := by
  have hslot : (fun k => m (32 * i + k)) = dirSlot m i := rfl
  rw [Fat32.scanEntries, hslot, if_neg h]
  by_cases hdel : dirSlot m i 0 = 0xE5
  · rw [if_pos hdel, if_neg fun hl => hl.1.1 hdel]
  · by_cases hlfn : dirSlot m i 11 &&& 0x0F = 0x0F
    · rw [if_neg hdel, if_pos hlfn, if_neg fun hl => hl.1.2 hlfn]
    · rw [if_neg hdel, if_neg hlfn]
      exact if_congr (and_iff_right ⟨hdel, hlfn⟩).symm rfl rfl

/-- What the loop of the listing makes of some entries. -/
theorem listEntries_eq (m : ByteMem) (n i : Nat) :
    Fat32.listEntries m n i =
      (decide (∃ e ∈ dirSlots m n i, EndMark e),
        ((liveEntries (dirSlots m n i)).filter fun e => Listed e).map callOf) := by
  induction n generalizing i with
  | zero => rfl
  | succ n ih =>
    rw [dirSlots_succ]
    by_cases hend : EndMark (dirSlot m i)
    · rw [liveEntries_cons_end hend, decide_eq_true ⟨_, List.mem_cons_self, hend⟩]
      exact if_pos hend
    · have hex : (∃ e ∈ dirSlot m i :: dirSlots m n (i + 1), EndMark e) ↔
          ∃ e ∈ dirSlots m n (i + 1), EndMark e := by
        simp only [List.mem_cons, exists_eq_or_imp, hend, false_or]
      rw [listEntries_succ hend, liveEntries_cons hend, decide_eq_decide.mpr hex, ih]
      by_cases hl : Listed (dirSlot m i)
      · rw [if_pos hl, List.filter_cons, decide_eq_true hl, if_pos rfl, List.map_cons]
      · rw [if_neg hl, List.filter_cons, decide_eq_false hl, if_neg Bool.false_ne_true]

/-- What the loop of the lookup makes of them: an entry before the end mark, the end
mark without such an entry, or neither. -/
theorem scanEntries_spec (name : List UInt8) (m : ByteMem) (n i : Nat) :
    match Fat32.scanEntries name m n i with
    | .missing => (∃ e ∈ dirSlots m n i, EndMark e) ∧
        (liveEntries (dirSlots m n i)).find? (fun e => Seen e ∧ Named name e) = none
    | .found j => j < i + n ∧
        (liveEntries (dirSlots m n i)).find? (fun e => Seen e ∧ Named name e) =
          some (dirSlot m j)
    | .more => (¬ ∃ e ∈ dirSlots m n i, EndMark e) ∧
        (liveEntries (dirSlots m n i)).find? (fun e => Seen e ∧ Named name e) = none := by
  induction n generalizing i with
  | zero => exact ⟨by simp [dirSlots], rfl⟩
  | succ n ih =>
    rw [dirSlots_succ]
    by_cases hend : EndMark (dirSlot m i)
    · have hmiss : Fat32.scanEntries name m (n + 1) i = .missing := if_pos hend
      rw [hmiss, liveEntries_cons_end hend]
      exact ⟨⟨_, List.mem_cons_self, hend⟩, rfl⟩
    · have hex : (∃ e ∈ dirSlot m i :: dirSlots m n (i + 1), EndMark e) ↔
          ∃ e ∈ dirSlots m n (i + 1), EndMark e := by
        simp only [List.mem_cons, exists_eq_or_imp, hend, false_or]
      rw [scanEntries_succ hend, liveEntries_cons hend]
      by_cases hl : Seen (dirSlot m i) ∧ Named name (dirSlot m i)
      · rw [if_pos hl]
        exact ⟨by omega, by rw [List.find?_cons, decide_eq_true hl]⟩
      · rw [if_neg hl, hex, List.find?_cons, decide_eq_false hl]
        have hrest := ih (i + 1)
        revert hrest
        cases Fat32.scanEntries name m n (i + 1) with
        | missing => exact id
        | found j => exact fun hj => ⟨by omega, hj.2⟩
        | more => exact id

/-! ## One cluster of the volume -/

theorem copy_congr {m src src' : ByteMem} {a n : Nat} (h : ∀ k < n, src k = src' k) :
    m.copy a src n = m.copy a src' n := by
  funext i
  rw [ByteMem.copy_apply, ByteMem.copy_apply]
  by_cases hi : a ≤ i ∧ i < a + n
  · rw [if_pos hi, if_pos hi, h _ (by omega)]
  · rw [if_neg hi, if_neg hi]

theorem callOf_congr {e e' : ByteMem} (h : ∀ k < 32, e k = e' k) : callOf e = callOf e' := by
  have hsize : e.le32 28 = e'.le32 28 := ByteMem.le32_congr fun k hk => h (28 + k) (by omega)
  rw [callOf, callOf, fatNameToStr_congr fun k hk => h k (by omega), h 11 (by decide), hsize]

theorem listEntries_congr {m m' : ByteMem} {n i : Nat} (h : ∀ k < 32 * (i + n), m k = m' k) :
    Fat32.listEntries m n i = Fat32.listEntries m' n i := by
  induction n generalizing i with
  | zero => rfl
  | succ n ih =>
    have hentry : ∀ k < 32, dirSlot m i k = dirSlot m' i k := fun k hk => h _ (by omega)
    have hrest := ih (i := i + 1) fun k hk => h k (by omega)
    by_cases hend : EndMark (dirSlot m i)
    · have hend' : EndMark (dirSlot m' i) := (hentry 0 (by decide)).symm.trans hend
      have hm : Fat32.listEntries m (n + 1) i = (true, []) := if_pos hend
      rw [hm]
      exact (if_pos hend').symm
    · have hend' : ¬ EndMark (dirSlot m' i) := fun he => hend ((hentry 0 (by decide)).trans he)
      have hlisted : Listed (dirSlot m i) ↔ Listed (dirSlot m' i) := by
        rw [Listed, Listed, Seen, Seen, hentry 0 (by decide), hentry 11 (by decide)]
      rw [listEntries_succ hend, listEntries_succ hend', hrest, callOf_congr hentry]
      exact if_congr hlisted rfl rfl

/-- The entries of a cluster of the volume. -/
def clusterSlots (s : Fat32) (v : UInt32) : List ByteMem :=
  dirSlots (s.clusterAt v) (entriesPerCluster s) 0

/-! ## Rounds -/

/-- A round of `fat32_list_dir`, at a value with the calls made: on the left what it
returns, on the right the next head. The value is the cluster number as the table gives
it, before any test. -/
def listRound (h : UInt32 × List Fat32.DirCall × Fat32) :
    (Int × List Fat32.DirCall × Fat32) ⊕ (UInt32 × List Fat32.DirCall × Fat32) :=
  if h.1 < fat32Eoc then
    let r := h.2.2.readCluster h.1
    if r.1 ≠ 0 then .inl (-1, h.2.1, r.2)
    else
      let l := Fat32.listEntries r.2.clusterBuffer (entriesPerCluster h.2.2) 0
      if l.1 then .inl (0, h.2.1 ++ l.2, r.2)
      else
        let e := r.2.fatReadEntry h.1
        .inr (e.1, h.2.1 ++ l.2, e.2)
  else .inl (0, h.2.1, h.2.2)

theorem listLoop_eq_some {n : Nat} {h : UInt32 × List Fat32.DirCall × Fat32} {r : Int}
    {calls : List Fat32.DirCall} {s : Fat32} :
    Fat32.listLoop n h.1 h.2.1 h.2.2 = (some r, calls, s) ↔
      loop listRound n h = some (r, calls, s) := by
  induction n generalizing h with
  | zero => simp [Fat32.listLoop, loop]
  | succ n ih =>
    rw [Fat32.listLoop, loop, listRound, entriesPerCluster]
    split
    · dsimp only
      split
      · simp
      · generalize Fat32.listEntries (h.2.2.readCluster h.1).2.clusterBuffer _ 0 = l
        split
        · simp
        · exact ih (h := ⟨_, h.2.1 ++ l.2, _⟩)
    · simp

section Walk

variable {s d : Fat32} {clock : Nat}

/-- With a device that does not fail, a round reads the cluster and can read the entry. -/
theorem Later.walk (h : Later s clock d) (hg : s.dev.Good) (v : UInt32) :
    ∃ d₁ d₂ clock', d.readCluster v = (0, d₁) ∧ d₁.fatReadEntry v = (s.entryAt v, d₂) ∧
      Later s clock' d₂ ∧ ∀ i < 512 * s.count, d₁.clusterBuffer i = s.clusterAt v i := by
  obtain ⟨buf, hread, hbuf⟩ := h.readCluster v fun k _ => hg (clock + k)
  have h₁ := h.clusterRead v buf (clock + s.count)
  obtain ⟨buf', hnext⟩ := h₁.fatReadEntry v (hg _)
  exact ⟨_, _, _, hread, hnext, h₁.entryRead v _ buf', hbuf⟩

/-- The listing at a cluster: the calls for its entries, and on unless the directory ends. -/
theorem listRound_cluster (hs : Opened s) (hg : s.dev.Good) (h : Later s clock d) {v : UInt32}
    (hv : v < fat32Eoc) (calls : List Fat32.DirCall) :
    ∃ d', ((∃ e ∈ clusterSlots s v, EndMark e) ∧ listRound (v, calls, d) =
        .inl (0, calls ++
          ((liveEntries (clusterSlots s v)).filter fun e => Listed e).map callOf, d')) ∨
      ((¬ ∃ e ∈ clusterSlots s v, EndMark e) ∧ (∃ clock', Later s clock' d') ∧
        listRound (v, calls, d) = .inr (s.entryAt v, calls ++
          ((liveEntries (clusterSlots s v)).filter fun e => Listed e).map callOf, d')) := by
  obtain ⟨d₁, d₂, clock', hread, hnext, hlater, hbuf⟩ := h.walk hg v
  have hle := entries_le hs.small
  have hlist : Fat32.listEntries d₁.clusterBuffer (entriesPerCluster s) 0 =
      (decide (∃ e ∈ clusterSlots s v, EndMark e),
        ((liveEntries (clusterSlots s v)).filter fun e => Listed e).map callOf) := by
    rw [listEntries_congr fun k hk => hbuf k (by omega)]
    exact listEntries_eq _ _ _
  have hround : listRound (v, calls, d) =
      if decide (∃ e ∈ clusterSlots s v, EndMark e) = true then
        .inl (0, calls ++
          ((liveEntries (clusterSlots s v)).filter fun e => Listed e).map callOf, d₁)
      else .inr (s.entryAt v, calls ++
          ((liveEntries (clusterSlots s v)).filter fun e => Listed e).map callOf, d₂) := by
    rw [listRound, if_pos hv, hread]
    simp only [ne_eq, not_true_eq_false, if_false]
    rw [h.entriesPerCluster, hlist, hnext]
  rw [hround]
  by_cases hend : ∃ e ∈ clusterSlots s v, EndMark e
  · exact ⟨d₁, .inl ⟨hend, if_pos (decide_eq_true hend)⟩⟩
  · exact ⟨d₂, .inr ⟨hend, ⟨clock', hlater⟩, if_neg (by simpa only [decide_eq_true_eq] using hend)⟩⟩

/-- The lookup at a cluster: the entry, or the end of the directory, or on. -/
theorem findRound_cluster (hs : Opened s) (hg : s.dev.Good) (h : Later s clock d) {v : UInt32}
    (hv : v < fat32Eoc) (name : List UInt8) (entry : ByteMem) :
    ∃ d', (∃ e, (liveEntries (clusterSlots s v)).find? (fun e => Seen e ∧ Named name e) = some e ∧
        findRound name entry (v, d) = .inl (0, entry.copy 0 e 32, d')) ∨
      ((liveEntries (clusterSlots s v)).find? (fun e => Seen e ∧ Named name e) = none ∧
        (((∃ e ∈ clusterSlots s v, EndMark e) ∧
            findRound name entry (v, d) = .inl (-1, entry, d')) ∨
          ((¬ ∃ e ∈ clusterSlots s v, EndMark e) ∧ (∃ clock', Later s clock' d') ∧
            findRound name entry (v, d) = .inr (s.entryAt v, d')))) := by
  obtain ⟨d₁, d₂, clock', hread, hnext, hlater, hbuf⟩ := h.walk hg v
  have hle := entries_le hs.small
  have hround : findRound name entry (v, d) =
      match Fat32.scanEntries name (s.clusterAt v) (entriesPerCluster s) 0 with
      | .missing => .inl (-1, entry, d₁)
      | .found i => .inl (0, entry.copy 0 (dirSlot d₁.clusterBuffer i) 32, d₁)
      | .more => .inr (s.entryAt v, d₂) := by
    rw [findRound, if_pos hv, hread]
    simp only [ne_eq, not_true_eq_false, if_false]
    rw [h.entriesPerCluster, scan_buffer hs hbuf, hnext]
    rfl
  have hspec := scanEntries_spec name (s.clusterAt v) (entriesPerCluster s) 0
  rw [hround]
  revert hspec
  cases Fat32.scanEntries name (s.clusterAt v) (entriesPerCluster s) 0 with
  | missing => exact fun hspec => ⟨d₁, .inr ⟨hspec.2, .inl ⟨hspec.1, rfl⟩⟩⟩
  | found i =>
    intro hspec
    -- the 32 bytes of the entry have been read
    have hcopy : entry.copy 0 (dirSlot d₁.clusterBuffer i) 32 =
        entry.copy 0 (dirSlot (s.clusterAt v) i) 32 :=
      copy_congr fun k hk => hbuf _ (by omega)
    exact ⟨d₁, .inl ⟨_, hspec.2, by dsimp only; rw [hcopy]⟩⟩
  | more => exact fun hspec => ⟨d₂, .inr ⟨hspec.2, .inr ⟨hspec.1, ⟨clock', hlater⟩, rfl⟩⟩⟩

end Walk

/-! ## The chain of the directory

The walk has no bound of its own, so it ends when the chain does or when an entry ends
it, and in no other case. A failed read of a cluster ends it too. -/

/-- The values of the chain that begins with `dir`. -/
def chainValue (s : Fat32) (dir : UInt32) (k : Nat) : UInt32 := (fun v => s.entryAt v)^[k] dir

theorem chainValue_succ (s : Fat32) (dir : UInt32) (k : Nat) :
    chainValue s dir (k + 1) = s.entryAt (chainValue s dir k) :=
  Function.iterate_succ_apply' _ _ _

section Ends

variable {s : Fat32} {dir : UInt32}

/-- The listing returns when it comes to an end mark, and only then. -/
theorem list_ends_iff (hs : Opened s) (hg : s.dev.Good) :
    (∃ n r, loop listRound n (dir, [], s) = some r) ↔
      ∃ k, fat32Eoc ≤ chainValue s dir k ∨
        ∃ e ∈ clusterSlots s (chainValue s dir k), EndMark e := by
  refine loop_ends_iff
    (R := fun k h => h.1 = chainValue s dir k ∧ ∃ clock, Later s clock h.2.2) ?_ ?_
    ⟨rfl, s.dev.clock, Later.refl s⟩
  · rintro k ⟨v, calls, d⟩ ⟨rfl, clock, hd⟩ hgo
    obtain ⟨hlt, hmark⟩ := not_or.mp hgo
    obtain ⟨d', ⟨hend, -⟩ | ⟨-, hlater, hround⟩⟩ :=
      listRound_cluster hs hg hd (UInt32.not_le.mp hlt) calls
    · exact absurd hend hmark
    · exact ⟨_, hround, (chainValue_succ s dir k).symm, hlater⟩
  · rintro k ⟨v, calls, d⟩ ⟨rfl, clock, hd⟩ hstop
    by_cases hlt : chainValue s dir k < fat32Eoc
    · obtain ⟨d', ⟨-, hround⟩ | ⟨hmark, -⟩⟩ := listRound_cluster hs hg hd hlt calls
      · exact ⟨_, hround⟩
      · exact absurd (hstop.resolve_left (UInt32.not_le.mpr hlt)) hmark
    · exact ⟨_, by rw [listRound, if_neg hlt]⟩

theorem find?_live_eq_none_iff {es : List ByteMem} {p : ByteMem → Prop} [DecidablePred p]
    (h : ¬ ∃ e ∈ es, EndMark e) :
    (liveEntries es).find? (fun e => p e) = none ↔ ¬ ∃ e ∈ es, p e := by
  rw [liveEntries_eq_self h, List.find?_eq_none]
  simp only [decide_eq_true_eq, not_exists, not_and]

/-- The lookup returns when it comes to an end mark or to the entry, and only then. -/
theorem find_ends_iff (hs : Opened s) (hg : s.dev.Good) (name : List UInt8) (entry : ByteMem) :
    (∃ n r, loop (findRound name entry) n (dir, s) = some r) ↔
      ∃ k, fat32Eoc ≤ chainValue s dir k ∨
        ∃ e ∈ clusterSlots s (chainValue s dir k), EndMark e ∨ Seen e ∧ Named name e := by
  refine loop_ends_iff
    (R := fun k h => h.1 = chainValue s dir k ∧ ∃ clock, Later s clock h.2) ?_ ?_
    ⟨rfl, s.dev.clock, Later.refl s⟩
  · rintro k ⟨v, d⟩ ⟨rfl, clock, hd⟩ hgo
    obtain ⟨hlt, hnone⟩ := not_or.mp hgo
    obtain ⟨d', ⟨e, hfind, -⟩ | ⟨-, ⟨⟨e, he, hend⟩, -⟩ | ⟨-, hlater, hround⟩⟩⟩ :=
      findRound_cluster hs hg hd (UInt32.not_le.mp hlt) name entry
    · have hmem : e ∈ clusterSlots s (chainValue s dir k) :=
        liveEntries_subset _ (List.mem_of_find?_eq_some hfind)
      have hseen := List.find?_some hfind
      rw [decide_eq_true_eq] at hseen
      exact absurd ⟨e, hmem, .inr hseen⟩ hnone
    · exact absurd ⟨e, he, .inl hend⟩ hnone
    · exact ⟨_, hround, (chainValue_succ s dir k).symm, hlater⟩
  · rintro k ⟨v, d⟩ ⟨rfl, clock, hd⟩ hstop
    by_cases hlt : chainValue s dir k < fat32Eoc
    · obtain ⟨d', ⟨e, -, hround⟩ | ⟨hnone, ⟨-, hround⟩ | ⟨hmark, -⟩⟩⟩ :=
        findRound_cluster hs hg hd hlt name entry
      · exact ⟨_, hround⟩
      · exact ⟨_, hround⟩
      · obtain ⟨e, he, hend | hseen⟩ := hstop.resolve_left (UInt32.not_le.mpr hlt)
        · exact absurd ⟨e, he, hend⟩ hmark
        · exact absurd ⟨e, he, hseen⟩ ((find?_live_eq_none_iff hmark).mp hnone)
    · exact ⟨_, by rw [findRound, if_neg hlt]⟩

end Ends

/-- The parts of what a call returned. -/
theorem eq_some_of_isSome {α β : Type} {x : Option Int × α × β} (h : x.1.isSome) :
    ∃ r a b, x = (some r, a, b) := by
  obtain ⟨r, hr⟩ := Option.isSome_iff_exists.mp h
  exact ⟨r, x.2.1, x.2.2, Prod.ext hr rfl⟩

theorem listDir_ends {s : Fat32} (hs : Opened s) (dir : UInt32) :
    (∃ n, (s.listDir n dir).1.isSome) ↔ ∃ n r, loop listRound n (dir, [], s) = some r := by
  have hvalid : ¬ s.valid = false := by simp [hs.valid]
  constructor
  · rintro ⟨n, hn⟩
    obtain ⟨r, calls, d, hrun⟩ := eq_some_of_isSome hn
    rw [Fat32.listDir, if_neg hvalid] at hrun
    exact ⟨n, _, listLoop_eq_some (h := (dir, [], s)).mp hrun⟩
  · rintro ⟨n, ⟨r, calls, d⟩, hrun⟩
    refine ⟨n, ?_⟩
    rw [Fat32.listDir, if_neg hvalid, listLoop_eq_some (h := (dir, [], s)).mpr hrun]
    rfl

theorem findEntry_ends {s : Fat32} (hs : Opened s) (dir : UInt32) (name : List UInt8)
    (entry : ByteMem) :
    (∃ n, (s.findEntry n dir name entry).1.isSome) ↔
      ∃ n r, loop (findRound name entry) n (dir, s) = some r := by
  have hvalid : ¬ s.valid = false := by simp [hs.valid]
  constructor
  · rintro ⟨n, hn⟩
    obtain ⟨r, entry', d, hrun⟩ := eq_some_of_isSome hn
    rw [Fat32.findEntry, if_neg hvalid] at hrun
    exact ⟨n, _, findLoop_eq_some (h := (dir, s)).mp hrun⟩
  · rintro ⟨n, ⟨r, entry', d⟩, hrun⟩
    refine ⟨n, ?_⟩
    rw [Fat32.findEntry, if_neg hvalid, findLoop_eq_some (h := (dir, s)).mpr hrun]
    rfl

/-- **When the walks end**, on a volume whose clusters fit into the buffer. The chain
has to come to its end or to a cluster with an end mark; the lookup also ends at a
cluster with the entry. A driver that has no volume returns at once. -/
theorem dir_walks_end_iff {s : Fat32} (hspc : Narrow s) (hg : s.dev.Good)
    (dir : UInt32) (name : List UInt8) (entry : ByteMem) :
    ((∃ n, (s.listDir n dir).1.isSome) ↔
      s.valid = false ∨ ∃ k, fat32Eoc ≤ chainValue s dir k ∨
        ∃ e ∈ clusterSlots s (chainValue s dir k), EndMark e) ∧
    ((∃ n, (s.findEntry n dir name entry).1.isSome) ↔
      s.valid = false ∨ ∃ k, fat32Eoc ≤ chainValue s dir k ∨
        ∃ e ∈ clusterSlots s (chainValue s dir k), EndMark e ∨ Seen e ∧ Named name e) := by
  by_cases hvalid : s.valid = false
  · -- nothing is open, and both return at once
    have hlist : (s.listDir 0 dir).1 = some (-1) := by rw [Fat32.listDir, if_pos hvalid]
    have hfind : (s.findEntry 0 dir name entry).1 = some (-1) := by
      rw [Fat32.findEntry, if_pos hvalid]
    exact ⟨iff_of_true ⟨0, by rw [hlist]; rfl⟩ (.inl hvalid),
      iff_of_true ⟨0, by rw [hfind]; rfl⟩ (.inl hvalid)⟩
  · have hs : Opened s := ⟨by simpa using hvalid, hspc.trans_lt (by decide)⟩
    rw [listDir_ends hs, findEntry_ends hs, list_ends_iff hs hg, find_ends_iff hs hg]
    exact ⟨(or_iff_right hvalid).symm, (or_iff_right hvalid).symm⟩

/-- A partition whose cluster 2 is followed by `next`, and all entries of it begin with `lead`. -/
def oneDir (next lead : UInt8) : Device where
  sectors l :=
    if l = 0 then fun i =>
      if i.val = 12 then 2 else if i.val = 13 ∨ i.val = 14 ∨ i.val = 16 ∨ i.val = 36 then 1 else 0
    else if l = 1 then fun i => if i.val = 8 then next else 0
    else fun i => if i.val % 32 = 0 then lead else 0x20
  ok := fun _ => true
  clock := 0
  written := []

/-- A directory with an end mark. -/
theorem dir_walks_end_marked :
    (∃ n, (((closedFat32 (oneDir 2 0)).init 0).2.listDir n 2).1.isSome) ∧
      ∃ n, (((closedFat32 (oneDir 2 0)).init 0).2.findEntry n 2 [0x41] fun _ => 0).1.isSome := by
  have hspc : Narrow ((closedFat32 (oneDir 2 0)).init 0).2 := by decide +kernel
  have hmark : ∃ e ∈ clusterSlots ((closedFat32 (oneDir 2 0)).init 0).2 2, EndMark e := by
    decide +kernel
  obtain ⟨e, he, hend⟩ := hmark
  have h := dir_walks_end_iff hspc (fun _ => rfl) 2 [0x41] fun _ => 0
  exact ⟨h.1.mpr (.inr ⟨0, .inr ⟨e, he, hend⟩⟩), h.2.mpr (.inr ⟨0, .inr ⟨e, he, .inl hend⟩⟩)⟩

/-- A full cluster whose entry in the table is the cluster itself: neither call returns. -/
theorem dir_walks_cycle :
    ((closedFat32 (oneDir 2 0x42)).init 0).1 = 0 ∧
      Narrow ((closedFat32 (oneDir 2 0x42)).init 0).2 ∧ (oneDir 2 0x42).Good ∧
      (¬ ∃ n, (((closedFat32 (oneDir 2 0x42)).init 0).2.listDir n 2).1.isSome) ∧
      ¬ ∃ n, (((closedFat32 (oneDir 2 0x42)).init 0).2.findEntry n 2 [0x41]
        fun _ => 0).1.isSome := by
  have hopen : ((closedFat32 (oneDir 2 0x42)).init 0).1 = 0 := by decide +kernel
  have hs := init_opened hopen
  have hg : (oneDir 2 0x42).Good := fun _ => rfl
  have hnext : ((closedFat32 (oneDir 2 0x42)).init 0).2.entryAt 2 = 2 := by decide +kernel
  have hvalue (k : Nat) : chainValue ((closedFat32 (oneDir 2 0x42)).init 0).2 2 k = 2 :=
    Function.iterate_fixed hnext k
  have hslots : ∀ e ∈ clusterSlots ((closedFat32 (oneDir 2 0x42)).init 0).2 2,
      ¬ EndMark e ∧ ¬ (Seen e ∧ Named [0x41] e) := by
    decide +kernel
  have heoc : ¬ fat32Eoc ≤ 2 := by decide
  refine ⟨hopen, by decide +kernel, hg, ?_, ?_⟩
  · rw [listDir_ends hs, list_ends_iff hs hg]
    rintro ⟨k, hk⟩
    rw [hvalue] at hk
    rcases hk with hk | ⟨e, he, hend⟩
    · exact heoc hk
    · exact (hslots e he).1 hend
  · rw [findEntry_ends hs, find_ends_iff hs hg]
    rintro ⟨k, hk⟩
    rw [hvalue] at hk
    rcases hk with hk | ⟨e, he, hend | hseen⟩
    · exact heoc hk
    · exact (hslots e he).1 hend
    · exact (hslots e he).2 hseen

end OsU
