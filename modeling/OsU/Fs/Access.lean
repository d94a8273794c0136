import OsU.Fs.File

/-!
# `fs.c` — what the chain loops touch

The loops over cluster chains once more, each with the list of the accesses it makes: to
words of `fat_buf`, to sectors, and to `read_cache`. A walk that has not ended when its
fuel has is `none` here, so that a bound on the fuel is a bound on the walk. That these
are the loops of `OsU/Fs/Fat.lean` and `OsU/Fs/File.lean` is proved with what they touch
(`OsU/Proof/ChainWalk.lean`).

The memories of the model have no ends, so a loop that left its array would go on
unnoticed in the functions themselves. The list is where it would be seen.
-/

set_option autoImplicit false

namespace OsU

/-- One access of a chain loop, to the table, to the disk or to `read_cache`. The trace
of a run is the list of them, in their order; a bound is one on each of them. -/
inductive Access where
  /-- `fat_get(cluster)` -/
  | get (cluster : Nat)
  /-- `fat_set(cluster, ..)` -/
  | set (cluster : Nat)
  /-- One sector read from `lba`. -/
  | read (lba : Nat)
  /-- `memcpy(read_cache + off, .., len)` -/
  | copy (off len : Nat)
  /-- `read_cache[off] = '\0'` -/
  | terminate (off : Nat)
  deriving DecidableEq, Repr

/-- `free_chain`, with `n` rounds of fuel and `none` when they do not suffice: only so
can it be said that the loop ends, and after how many rounds. -/
def freeChainTrace : Nat → ByteMem → Nat → Option (List Access × ByteMem)
  | 0, _, _ => none
  | n + 1, fat, c =>
    if InRange c then
      let next := fatGet fat c
      let fat := fatSet fat c 0
      if 0xFFF8 ≤ next ∨ next = 0 then some ([.get c, .set c], fat)
      else (freeChainTrace n fat next).map fun r => (.get c :: .set c :: r.1, r.2)
    else some ([], fat)

/-- The loop of `load_cluster_chain`, with its accesses. Unlike `loadLoop` it gives
`none` when the fuel runs out, so that a result says that the loop has ended. -/
def loadTrace (size : Nat) : Nat → Nat → Nat → Fs → Option (List Access × Option Nat × Fs)
  | 0, _, _, _ => none
  | n + 1, c, copied, s =>
    if InRange c ∧ copied < size then
      let r := diskReadSectors (clusterLba c) 1 (fun _ => 0) s.dev
      if r.1 ≠ 0 then some ([.read (clusterLba c)], none, { s with dev := r.2.2 })
      else
        let take := if size - copied > 512 then 512 else size - copied
        let s := { s with dev := r.2.2, readCache := s.readCache.copy copied r.2.1 take }
        let next := fatGet s.fatBuf c
        let touched := [.read (clusterLba c), .copy copied take, .get c]
        if 0xFFF8 ≤ next ∨ next = 0 then some (touched, some (copied + take), s)
        else (loadTrace size n next (copied + take) s).map fun r => (touched ++ r.1, r.2)
    else some ([], some copied, s)

/-- `load_cluster_chain`, whose loop has fuel `n`. The size is cut to the buffer first,
so the byte that ends the text still has its place. -/
def loadClusterChainTrace (n first size : Nat) (s : Fs) :
    Option (List Access × Option Nat × Fs) :=
  let size := if size > fsMaxFileSize then fsMaxFileSize else size
  (loadTrace size n first 0 s).map fun r =>
    match r.2.1 with
    | none => r
    | some copied =>
      (r.1 ++ [.terminate copied], some copied,
        { r.2.2 with readCache := r.2.2.readCache.put copied 0 })

/-- The loop of `alloc_cluster`. -/
def allocTrace (fat : ByteMem) : Nat → Nat → List Access × Nat × ByteMem
  | 0, _ => ([], 0, fat)
  | n + 1, c =>
    if fatGet fat c = 0 then ([.get c, .set c], c, fatSet fat c fat16Eoc)
    else
      let r := allocTrace fat n (c + 1)
      (.get c :: r.1, r.2)

/-- `alloc_cluster` -/
def allocClusterTrace (fat : ByteMem) : List Access × Nat × ByteMem :=
  allocTrace fat fatClusterCount fatClusterMin

/-- The clusters a linking round of `write_cluster_chain` sets, before it stores the sector. -/
def linkTrace (prev c : Nat) : List Access := (if prev ≠ 0 then [.set prev] else []) ++ [.set c]

/-- The accesses of `free_chain` when the loop of `write_cluster_chain` gives up. -/
def undoTrace (fat : ByteMem) (first : Nat) : List Access :=
  ((freeChainTrace (fatClusterCount + 1) fat first).getD ([], fat)).1

/-- The loop of `write_cluster_chain`; of its accesses, those to the table. Each round
takes a cluster for 512 bytes; when there is none left, or the disk fails, the clusters
taken so far are freed. -/
def writeTrace (data : List UInt8) : Nat → Nat → Nat → Nat → Fs → List Access × Option Nat × Fs
  | 0, first, _, _, s => ([], some first, s)
  | n + 1, first, prev, written, s =>
    if written < data.length then
      let t := allocClusterTrace s.fatBuf
      let a := t.2
      if a.1 = 0 then
        (t.1 ++ (if first ≠ 0 then undoTrace a.2 first else []), none,
          { s with fatBuf := if first ≠ 0 then freeChain a.2 first else a.2 })
      else
        let c := a.1
        let first := if first = 0 then c else first
        let fat := if prev ≠ 0 then fatSet a.2 prev c else a.2
        let fat := fatSet fat c fat16Eoc
        let take := if data.length - written > 512 then 512 else data.length - written
        let sec : ByteMem := ByteMem.copy (ByteMem.fill (fun _ => 0) 0 512) 0
          (fun i => data.getD (written + i) 0) take
        let w := diskWriteSectors .writeClusterChain (clusterLba c) 1 sec s.dev
        if w.1 ≠ 0 then
          (t.1 ++ linkTrace prev c ++ undoTrace fat first, none,
            { s with fatBuf := freeChain fat first, dev := w.2 })
        else
          let r := writeTrace data n first c (written + take) { s with fatBuf := fat, dev := w.2 }
          (t.1 ++ linkTrace prev c ++ r.1, r.2)
    else ([], some first, s)

end OsU
