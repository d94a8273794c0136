import OsU.Volume.Chain
import OsU.Fs.Access

/-!
# Walking a chain on any disk

Nothing is assumed of the table: it may hold cycles, chains that meet, and words that
are no cluster. A walk follows a word only after it has checked that it is a cluster of
the data area, so the accesses are inside `fat_buf` and the data area whatever the words
are (`Access.Ok`), and each round of `load_cluster_chain` but the last moves 512 bytes
of at most 4096.

Two reasons keep a walk from going round for ever. `free_chain` clears each word it has
passed, so it meets a cluster at most once, and `load_cluster_chain` stops when the size
in the entry has been read, cycle or not. The size comes from the disk too, and is cut
to the size of the buffer first.

The functions of the model do not record their accesses, so each has a twin that does,
with the same result (`Traced`), and fuel for as many rounds as there are clusters is
shown to be enough.
-/

set_option autoImplicit false

namespace OsU

/-- The access is inside what it is for: a word of `fat_buf`, a sector of the data area, the first
`limit` bytes of `read_cache`, or the place of the terminator after them. -/
def Access.Ok (limit : Nat) : Access → Prop
  | .get c => 2 * c + 1 < fatEuSize
  | .set c => 2 * c + 1 < fatEuSize
  | .read lba => ∃ c, InRange c ∧ lba = clusterLba c
  | .copy off len => off + len ≤ limit
  | .terminate off => off ≤ limit

/-- The sectors read. -/
def sectorsRead (tr : List Access) : Nat := tr.countP fun a => a matches .read _

/-- The bytes copied by one access. -/
def Access.copied : Access → Nat
  | .copy _ len => len
  | _ => 0

/-- The bytes copied to `read_cache`. -/
def bytesCopied (tr : List Access) : Nat := (tr.map Access.copied).sum

theorem sectorsRead_append (tr tr' : List Access) :
    sectorsRead (tr ++ tr') = sectorsRead tr + sectorsRead tr' := List.countP_append

theorem bytesCopied_append (tr tr' : List Access) :
    bytesCopied (tr ++ tr') = bytesCopied tr + bytesCopied tr' := by
  simp [bytesCopied]

/-- The words of the clusters of the data area are in `fat_buf`. -/
theorem InRange.in_fat {c : Nat} (h : InRange c) : 2 * c + 1 < fatEuSize := by
  have hc := (inRange_iff.mp h).2
  have hsize : fatEuSize = 16384 := rfl
  omega

/-- So are the two words `fat_format` sets. -/
theorem reserved_ok (limit : Nat) : ∀ c < 2, (Access.set c).Ok limit := by
  intro c hc
  have hsize : fatEuSize = 16384 := rfl
  simp only [Access.Ok]
  omega

/-- The words an access list touches. -/
theorem words_in_fat {limit : Nat} {tr : List Access} (h : ∀ a ∈ tr, a.Ok limit) (c : Nat)
    (hc : .get c ∈ tr ∨ .set c ∈ tr) : 2 * c + 1 < fatEuSize := by
  cases hc with
  | inl hm => exact h _ hm
  | inr hm => exact h _ hm

/-- A loop with its accesses is the loop, and its accesses are inside. The twin is only
for looking: erasing the list gives the function of the model. -/
structure Traced {α : Type} (limit : Nat) (r : List Access × α) (r' : α) : Prop where
  eq : r.2 = r'
  ok : ∀ a ∈ r.1, a.Ok limit

theorem Traced.ite {α : Type} {limit : Nat} {p : Prop} [Decidable p] {a b : List Access × α}
    {a' b' : α} (ha : p → Traced limit a a') (hb : ¬ p → Traced limit b b') :
    Traced limit (if p then a else b) (if p then a' else b') := by
  by_cases h : p
  · rw [if_pos h, if_pos h]
    exact ha h
  · rw [if_neg h, if_neg h]
    exact hb h

theorem Traced.after {α : Type} {limit : Nat} {tr : List Access} {r : List Access × α} {r' : α}
    (ht : ∀ a ∈ tr, a.Ok limit) (h : Traced limit r r') : Traced limit (tr ++ r.1, r.2) r' :=
  ⟨h.eq, List.forall_mem_append.mpr ⟨ht, h.ok⟩⟩

/-! ## `free_chain` -/

/-- The walk with its accesses is the walk, and a cluster is checked before its word is touched. -/
theorem freeChainTrace_spec (limit n : Nat) (fat fat' : ByteMem) (c : Nat)
    (h : freeChainLoop n fat c = some fat') :
    ∃ tr, freeChainTrace n fat c = some (tr, fat') ∧ ∀ a ∈ tr, a.Ok limit := by
  induction n generalizing fat c with
  | zero => exact nomatch h
  | succ n ih =>
    rw [freeChainLoop] at h
    rw [freeChainTrace]
    by_cases hc : InRange c
    · rw [if_pos hc] at h ⊢
      by_cases hstop : 0xFFF8 ≤ fatGet fat c ∨ fatGet fat c = 0
      · rw [if_pos hstop] at h
        cases h
        exact ⟨_, if_pos hstop, by simp [Access.Ok, hc.in_fat]⟩
      · rw [if_neg hstop] at h
        obtain ⟨tr, he, hok⟩ := ih (fatSet fat c 0) (fatGet fat c) h
        refine ⟨.get c :: .set c :: tr, ?_, ?_⟩
        · simp only [if_neg hstop, he, Option.map_some]
        · exact List.forall_mem_cons.mpr ⟨hc.in_fat, List.forall_mem_cons.mpr ⟨hc.in_fat, hok⟩⟩
    · rw [if_neg hc] at h ⊢
      cases h
      exact ⟨[], rfl, by simp⟩

/-- With fuel for every cluster, the walk has ended, and with the same table. -/
theorem freeChainLoop_eq {n : Nat} (hn : fatClusterCount < n) (fat : ByteMem) (first : Nat) :
    freeChainLoop n fat first = some (freeChain fat first) := by
  obtain ⟨fat', he, hz, hk⟩ := freeChainLoop_spec n fat first
    (Nat.lt_of_le_of_lt (card_usedClusters_le _) hn)
  rw [he]
  congr 1
  apply fat_ext
  intro x
  by_cases hx : OnChain (fatGet fat) first x
  · rw [hz x hx, freeChain_of_onChain hx]
  · rw [hk x hx, freeChain_of_not_onChain hx]

/-! ## `load_cluster_chain` -/

/-- **The walk of `load_cluster_chain`**, with at most `k` sectors of `size` still to read: it ends
within `k` rounds, as the loop does that is bounded by the bytes. -/
theorem loadTrace_spec (size k n m c copied : Nat) (s : Fs) (hk : size ≤ copied + 512 * k)
    (hn : k < n) (hm : size ≤ copied + m) (hle : copied ≤ size) :
    ∃ tr, loadTrace size n c copied s = some (tr, loadLoop size m c copied s) ∧
      sectorsRead tr ≤ k ∧ copied + bytesCopied tr ≤ size ∧ (∀ a ∈ tr, a.Ok size) ∧
      ∀ r ∈ (loadLoop size m c copied s).1, r ≤ size := by
  induction k generalizing n m c copied s with
  | zero =>
    cases n with
    | zero => exact absurd hn (Nat.lt_irrefl 0)
    | succ n =>
      have hdone : ¬ (InRange c ∧ copied < size) := fun h => by omega
      have hloop : loadLoop size m c copied s = (some copied, s) := by
        cases m with
        | zero => rfl
        | succ m => rw [loadLoop, if_neg hdone]
      rw [loadTrace, if_neg hdone, hloop]
      exact ⟨[], rfl, Nat.le_refl 0, hle, by simp, by simpa using hle⟩
  | succ k ih =>
    cases n with
    | zero => exact absurd hn (Nat.not_lt_zero _)
    | succ n =>
      by_cases hgo : InRange c ∧ copied < size
      · cases m with
        | zero => omega
        | succ m =>
          have hread : (Access.read (clusterLba c)).Ok size := ⟨c, hgo.1, rfl⟩
          rw [loadTrace, loadLoop, if_pos hgo, if_pos hgo]
          by_cases hfail : (diskReadSectors (clusterLba c) 1 (fun _ => 0) s.dev).1 ≠ 0
          · simp only [if_pos hfail]
            exact ⟨_, rfl, by simp [sectorsRead], by simpa [bytesCopied, Access.copied] using hle,
              by simpa using hread, by simp⟩
          · simp only [if_neg hfail]
            generalize htake : (if size - copied > 512 then 512 else size - copied) = take
            have hroom : copied + take ≤ size ∧ size ≤ copied + take + 512 * k ∧ 0 < take := by
              split at htake <;> omega
            -- what one round touches
            have htouched : ∀ a ∈ [Access.read (clusterLba c), .copy copied take, .get c],
                a.Ok size := by
              simp [Access.Ok, hgo.1.in_fat, hroom.1]
              exact hread
            by_cases hstop : 0xFFF8 ≤ fatGet s.fatBuf c ∨ fatGet s.fatBuf c = 0
            · simp only [if_pos hstop]
              refine ⟨_, rfl, by simp [sectorsRead], ?_, htouched, by simpa using hroom.1⟩
              simpa [bytesCopied, Access.copied] using hroom.1
            · simp only [if_neg hstop]
              obtain ⟨tr, he, hreads, hbytes, hok, hret⟩ := ih n m (fatGet s.fatBuf c)
                (copied + take) _ hroom.2.1 (Nat.lt_of_succ_lt_succ hn) (by omega) hroom.1
              refine ⟨_, by rw [he]; rfl, ?_, ?_, ?_, hret⟩
              · rw [sectorsRead_append]
                simp only [sectorsRead, List.countP_cons, List.countP_nil] at hreads ⊢
                simp
                omega
              · rw [bytesCopied_append]
                simp [bytesCopied, Access.copied] at hbytes ⊢
                omega
              · exact List.forall_mem_append.mpr ⟨htouched, hok⟩
      · have hloop : loadLoop size m c copied s = (some copied, s) := by
          cases m with
          | zero => rfl
          | succ m => rw [loadLoop, if_neg hgo]
        rw [loadTrace, if_neg hgo, hloop]
        exact ⟨[], rfl, Nat.zero_le _, hle, by simp, by simpa using hle⟩

/-- The bound on what `load_cluster_chain` copies. -/
def loadLimit (size : Nat) : Nat := min size fsMaxFileSize

/-- `load_cluster_chain` ends after at most 8 sectors, and stays in its buffers. -/
theorem loadClusterChainTrace_spec {n : Nat} (hn : 8 < n) (first size : Nat) (s : Fs) :
    ∃ tr, loadClusterChainTrace n first size s = some (tr, loadClusterChain first size s) ∧
      sectorsRead tr ≤ 8 ∧ bytesCopied tr ≤ loadLimit size ∧ ∀ a ∈ tr, a.Ok (loadLimit size) := by
  have hlimit : (if size > fsMaxFileSize then fsMaxFileSize else size) = loadLimit size := by
    rw [loadLimit]
    split <;> omega
  have hmax : loadLimit size ≤ 512 * 8 := Nat.min_le_right _ _
  obtain ⟨tr, he, hreads, hbytes, hok, hret⟩ := loadTrace_spec (loadLimit size) 8 n
    (loadLimit size) first 0 s (by omega) hn (by omega) (Nat.zero_le _)
  rw [Nat.zero_add] at hbytes
  simp only [loadClusterChainTrace, loadClusterChain, hlimit, he, Option.map_some]
  cases hr : (loadLoop (loadLimit size) (loadLimit size) first 0 s).1 with
  | none => exact ⟨tr, rfl, hreads, hbytes, hok⟩
  | some copied =>
    refine ⟨_, rfl, ?_, ?_, ?_⟩
    · rw [sectorsRead_append]
      simpa [sectorsRead] using hreads
    · rw [bytesCopied_append]
      simpa [bytesCopied, Access.copied] using hbytes
    · refine List.forall_mem_append.mpr ⟨hok, ?_⟩
      rw [List.forall_mem_singleton]
      exact hret copied hr

/-! ## The other callers of `fat_get` and `fat_set` -/

theorem allocTrace_spec (limit : Nat) (fat : ByteMem) (n c : Nat) (hc : fatClusterMin ≤ c)
    (hn : c + n ≤ fatClusterMax + 1) : Traced limit (allocTrace fat n c) (allocLoop fat n c) := by
  induction n generalizing c with
  | zero => exact ⟨rfl, by simp [allocTrace]⟩
  | succ n ih =>
    have hin : InRange c := ⟨hc, by omega⟩
    rw [allocTrace, allocLoop]
    apply Traced.ite
    · intro _
      exact ⟨rfl, by simp [Access.Ok, hin.in_fat]⟩
    · intro _
      have hhead : ∀ a ∈ [Access.get c], a.Ok limit := List.forall_mem_singleton.mpr hin.in_fat
      exact Traced.after hhead (ih (c + 1) (by omega) (by omega))

theorem allocClusterTrace_spec (limit : Nat) (fat : ByteMem) :
    Traced limit (allocClusterTrace fat) (allocCluster fat) := by
  apply allocTrace_spec limit fat fatClusterCount fatClusterMin (Nat.le_refl _)
  rw [fatClusterMin_eq, fatClusterCount_eq, fatClusterMax_eq]

theorem allocCluster_inRange {fat : ByteMem} (h : (allocCluster fat).1 ≠ 0) :
    InRange (allocCluster fat).1 := by
  rcases allocCluster_cases fat with ⟨x, hx, -, -, he⟩ | ⟨-, he⟩
  · rw [he]
    exact hx
  · rw [he] at h
    exact absurd rfl h

theorem undoTrace_ok (limit : Nat) (fat : ByteMem) (first : Nat) :
    ∀ a ∈ undoTrace fat first, a.Ok limit := by
  obtain ⟨tr, he, hok⟩ := freeChainTrace_spec limit (fatClusterCount + 1) fat _ first
    (freeChainLoop_eq (Nat.lt_succ_self _) fat first)
  rw [undoTrace, he]
  exact hok

theorem linkTrace_ok (limit : Nat) {prev c : Nat} (hp : prev = 0 ∨ InRange prev) (hc : InRange c) :
    ∀ a ∈ linkTrace prev c, a.Ok limit := by
  refine List.forall_mem_append.mpr ⟨?_, List.forall_mem_singleton.mpr hc.in_fat⟩
  split
  · rename_i h0
    exact List.forall_mem_singleton.mpr (hp.resolve_left h0).in_fat
  · simp

/-- The loop of `write_cluster_chain` links clusters that `alloc_cluster` returned. -/
theorem writeTrace_spec (limit : Nat) (data : List UInt8) (n first prev written : Nat) (s : Fs)
    (hp : prev = 0 ∨ InRange prev) :
    Traced limit (writeTrace data n first prev written s)
      (writeLoop data n first prev written s) := by
  induction n generalizing first prev written s with
  | zero => exact ⟨rfl, by simp [writeTrace]⟩
  | succ n ih =>
    have ha := allocClusterTrace_spec limit s.fatBuf
    rw [writeTrace, writeLoop]
    apply Traced.ite
    · intro _
      simp only [ha.eq]
      apply Traced.ite
      · intro _
        refine ⟨rfl, List.forall_mem_append.mpr ⟨ha.ok, ?_⟩⟩
        split
        · exact undoTrace_ok limit _ _
        · simp
      · intro h0
        have hc := allocCluster_inRange h0
        have hlinked := List.forall_mem_append.mpr ⟨ha.ok, linkTrace_ok limit hp hc⟩
        apply Traced.ite
        · intro _
          exact ⟨rfl, List.forall_mem_append.mpr ⟨hlinked, undoTrace_ok limit _ _⟩⟩
        · intro _
          exact Traced.after hlinked (ih _ _ _ _ (Or.inr hc))
    · intro _
      exact ⟨rfl, by simp⟩

/-- **Walking a chain is safe on any disk.** The table may hold anything, cycles
included: the loops end, each access is to an entry of the table or a sector of the data
area, and nothing is written outside the buffers. The three parts are the loop that
frees, the one that reads, and those that allocate. -/
theorem chain_walk_safe (s : Fs) (first size : Nat) :
    -- `free_chain` ends, clears what is reached and nothing else, and stays in the table
    ((∀ n, fatClusterCount < n →
        freeChainLoop n s.fatBuf first = some (freeChain s.fatBuf first)) ∧
      (∀ x, OnChain (fatGet s.fatBuf) first x → fatGet (freeChain s.fatBuf first) x = 0) ∧
      (∀ x, ¬ OnChain (fatGet s.fatBuf) first x →
        fatGet (freeChain s.fatBuf first) x = fatGet s.fatBuf x) ∧
      ∃ tr, freeChainTrace (fatClusterCount + 1) s.fatBuf first =
          some (tr, freeChain s.fatBuf first) ∧
        ∀ c, .get c ∈ tr ∨ .set c ∈ tr → 2 * c + 1 < fatEuSize) ∧
    -- `load_cluster_chain` ends within 8 rounds, and stays in the data area and in its buffers
    (∃ tr, loadClusterChainTrace 9 first size s = some (tr, loadClusterChain first size s) ∧
      sectorsRead tr ≤ 8 ∧ (∀ lba, .read lba ∈ tr → ∃ c, InRange c ∧ lba = clusterLba c) ∧
      bytesCopied tr ≤ min size 4096 ∧
      (∀ off len, .copy off len ∈ tr → off + len ≤ min size 4096) ∧
      (∀ off, .terminate off ∈ tr → off ≤ 4096) ∧
      ∀ c, .get c ∈ tr ∨ .set c ∈ tr → 2 * c + 1 < fatEuSize) ∧
    -- and the loops that allocate stay in the table
    ((allocClusterTrace s.fatBuf).2 = allocCluster s.fatBuf ∧
      (∀ c, .get c ∈ (allocClusterTrace s.fatBuf).1 ∨ .set c ∈ (allocClusterTrace s.fatBuf).1 →
        2 * c + 1 < fatEuSize) ∧
      ∀ data n, (writeTrace data n 0 0 0 s).2 = writeLoop data n 0 0 0 s ∧
        ∀ c, .get c ∈ (writeTrace data n 0 0 0 s).1 ∨ .set c ∈ (writeTrace data n 0 0 0 s).1 →
          2 * c + 1 < fatEuSize) := by
  refine ⟨⟨fun n hn => freeChainLoop_eq hn _ _, fun x => freeChain_of_onChain,
    fun x => freeChain_of_not_onChain, ?_⟩, ?_, ?_, ?_, ?_⟩
  · obtain ⟨tr, he, hok⟩ := freeChainTrace_spec 0 (fatClusterCount + 1) s.fatBuf _ first
      (freeChainLoop_eq (Nat.lt_succ_self _) s.fatBuf first)
    exact ⟨tr, he, words_in_fat hok⟩
  · obtain ⟨tr, he, hreads, hbytes, hok⟩ := loadClusterChainTrace_spec (n := 9) (by decide) first
      size s
    refine ⟨tr, he, hreads, ?_, hbytes, ?_, ?_, words_in_fat hok⟩
    · intro lba hm
      exact hok _ hm
    · intro off len hm
      exact hok _ hm
    · intro off hm
      exact Nat.le_trans (hok _ hm) (Nat.min_le_right _ _)
  · exact (allocClusterTrace_spec 0 s.fatBuf).eq
  · exact words_in_fat (allocClusterTrace_spec 0 s.fatBuf).ok
  · intro data n
    have ht := writeTrace_spec 0 data n 0 0 0 s (Or.inl rfl)
    exact ⟨ht.eq, words_in_fat ht.ok⟩

/-- A table in which two clusters lead to each other. -/
def cyclicFat : ByteMem := fatSet (fatSet (fun _ => 0) 2 3) 3 2

/-- The driver with that table, and a disk of zeros. -/
def cyclicFs : Fs :=
  { Fs.boot ⟨fun _ _ => 0, fun _ => true, 0, []⟩ with fatBuf := cyclicFat, fsReady := true }

theorem onChain_cyclic : OnChain (fatGet cyclicFat) 2 2 ∧ OnChain (fatGet cyclicFat) 2 3 := by
  have hnext : fatGet cyclicFat 2 = 3 := by decide
  refine ⟨onChain_self (by decide), ?_⟩
  rw [onChain_next (by decide) (by rw [hnext]; decide), hnext]
  exact Or.inr (onChain_self (by decide))

/-- Freeing from one of the two ends, with both free. -/
theorem chain_walk_safe_cycle :
    freeChainLoop 8152 cyclicFat 2 = some (freeChain cyclicFat 2) ∧
    fatGet (freeChain cyclicFat 2) 2 = 0 ∧ fatGet (freeChain cyclicFat 2) 3 = 0 := by
  obtain ⟨⟨hends, hclears, -⟩, -⟩ := chain_walk_safe cyclicFs 2 4096
  exact ⟨hends 8152 (by decide), hclears 2 onChain_cyclic.1, hclears 3 onChain_cyclic.2⟩

end OsU
