import OsU.Fs.State

/-!
# `fs.c` — files

Reading and writing the cluster chain of a file, and the operations on names that stay
in the current directory. The two chain loops are bounded by the bytes still to move:
each round moves at least one, so the fuel `size` given to them is never what ends them.

## The order of a write

`fs_write_raw` finds the entry or makes a new one, frees the old chain in memory,
allocates and writes the new one sector by sector, stores the new first cluster and size
in the entry, and flushes the table and the directory. A failure on the way returns an
error and undoes nothing but the new chain. The pieces of this order are definitions of
their own (`dropChain`, `writeClusterChain`, `writeEntry`), because what a failed write
has already done depends on which piece failed.

## What is cut

A file has at most 4096 bytes: a longer write is refused, a longer size in an entry is
cut when it is read. The text of `fs_write` and `fs_append` ends at its first zero byte,
that of `fs_write_raw` does not.
-/

set_option autoImplicit false

namespace OsU

/-! ## Chains -/

/-- The loop of `load_cluster_chain`, at cluster `c` with `copied` bytes moved, and for
`n` rounds of it. It ends with the last byte of the file or with the chain, whichever
comes first; a chain that is longer than the file is not followed to its end. Every
round but the last moves 512 bytes, so the size bounds the rounds and a chain with a
cycle ends it too. -/
def loadLoop (size : Nat) : Nat → Nat → Nat → Fs → Option Nat × Fs
  | 0, _, copied, s => (some copied, s)
  | n + 1, c, copied, s =>
    if InRange c ∧ copied < size then
      let r := diskReadSectors (clusterLba c) 1 (fun _ => 0) s.dev
      if r.1 ≠ 0 then (none, { s with dev := r.2.2 })
      else
        let take := if size - copied > 512 then 512 else size - copied
        let s := { s with dev := r.2.2, readCache := s.readCache.copy copied r.2.1 take }
        let next := fatGet s.fatBuf c
        if 0xFFF8 ≤ next ∨ next = 0 then (some (copied + take), s)
        else loadLoop size n next (copied + take) s
    else (some copied, s)

/-- `load_cluster_chain`: the bytes copied to `read_cache`; `none` for the error return. -/
def loadClusterChain (first size : Nat) (s : Fs) : Option Nat × Fs :=
  let size := if size > fsMaxFileSize then fsMaxFileSize else size
  let r := loadLoop size size first 0 s
  match r.1 with
  | none => r
  | some copied => (some copied, { r.2 with readCache := r.2.readCache.put copied 0 })

/-- The loop of `write_cluster_chain`, with `written` bytes of `data` stored. Returns
the first cluster, `none` for the error return, behind which the clusters taken so far
are free again. -/
def writeLoop (data : List UInt8) : Nat → Nat → Nat → Nat → Fs → Option Nat × Fs
  | 0, first, _, _, s => (some first, s)
  | n + 1, first, prev, written, s =>
    if written < data.length then
      let a := allocCluster s.fatBuf
      if a.1 = 0 then
        (none, { s with fatBuf := if first ≠ 0 then freeChain a.2 first else a.2 })
      else
        let c := a.1
        let first := if first = 0 then c else first
        let fat := if prev ≠ 0 then fatSet a.2 prev c else a.2
        let fat := fatSet fat c fat16Eoc
        let take := if data.length - written > 512 then 512 else data.length - written
        let sec : ByteMem := ByteMem.copy (ByteMem.fill (fun _ => 0) 0 512) 0
          (fun i => data.getD (written + i) 0) take
        let w := diskWriteSectors .writeClusterChain (clusterLba c) 1 sec s.dev
        if w.1 ≠ 0 then (none, { s with fatBuf := freeChain fat first, dev := w.2 })
        else writeLoop data n first c (written + take) { s with fatBuf := fat, dev := w.2 }
    else (some first, s)

/-- `write_cluster_chain` -/
def writeClusterChain (data : List UInt8) (s : Fs) : Option Nat × Fs :=
  if data.length = 0 then (some 0, s) else writeLoop data data.length 0 0 0 s

/-! ## Operations -/

/-- The entry a new name starts from: cleared, named, and given its attribute. -/
def newEntry (f11 : List UInt8) (attr : UInt8) : FatDirEntry :=
  (FatDirEntry.zero.setName f11).setAttr attr

/-- The eleven bytes of a name the caller has already validated. -/
def nameBytes (name : List UInt8) : List UInt8 := (fatNameFromInput name).getD []

/-- `fs_touch`. A name that is there already is left as it is, also where it is a
directory. The entry of a new file has no cluster, so only the directory is flushed and
the table stays. -/
def fsTouch (name : List UInt8) (s : Fs) : Int × Fs :=
  if s.fsReady = false ∨ validName name = false then (-1, s)
  else
    let f := findEntryInCurrent name s
    match f.1.idx with
    | some _ => (0, f.2)
    | none =>
      match f.1.freeIdx with
      | none => (-2, f.2)
      | some freeIdx =>
        let d := currentDirEntries f.2
        if d.1 = false then (-1, d.2)
        else
          flushCurrentDir (d.2.setEnt freeIdx
            (((newEntry (nameBytes name) fatAttrArchive).setFstClusLo 0).setFileSize 0))

/-- The part of `fs_remove` after the entry is found. It does not ask whether the entry
is a directory. -/
def removeEntry (idx : Nat) (s : Fs) : Int × Fs :=
  let first := (s.ent idx).fstClusLo
  let s := if first ≥ fatClusterMin then { s with fatBuf := freeChain s.fatBuf first } else s
  let s := s.setEnt idx ((((s.ent idx).setLead 0xE5).setFileSize 0).setFstClusLo 0)
  let f := flushFat s
  if f.1 ≠ 0 then (-2, f.2)
  else
    let g := flushCurrentDir f.2
    if g.1 ≠ 0 then (-2, g.2) else (0, g.2)

/-- `fs_remove`. There is no test that the entry is a file: a directory is removed like
one, with only its own chain freed. -/
def fsRemove (name : List UInt8) (s : Fs) : Int × Fs :=
  if s.fsReady = false then (-1, s)
  else
    let f := findEntryInCurrent name s
    match f.1.idx with
    | none => (-1, f.2)
    | some idx =>
      let d := currentDirEntries f.2
      if d.1 = false then (-1, d.2) else removeEntry idx d.2

/-- The middle of `fs_write_raw`: the old chain of the entry is freed and the entry has
no cluster, both in memory only. The size in the entry stays for now. -/
def dropChain (idx : Nat) (s : Fs) : Fs :=
  if (s.ent idx).fstClusLo ≥ fatClusterMin then
    { s with fatBuf := freeChain s.fatBuf (s.ent idx).fstClusLo }.setEnt idx
      ((s.ent idx).setFstClusLo 0)
  else s

/-- The part of `fs_write_raw` after the entry is there. The old chain is freed before
the new one is written, in memory only; nothing of the table is on the disk until the
chain is complete. When the chain cannot be written, the entry in memory is left without
a cluster and with the size it had. -/
def writeEntry (idx : Nat) (data : List UInt8) (s : Fs) : Int × Fs :=
  let w := writeClusterChain data (dropChain idx s)
  match w.1 with
  | none => (-3, w.2)
  | some first =>
    let f := flushFat (w.2.setEnt idx (((w.2.ent idx).setFstClusLo first).setFileSize data.length))
    if f.1 ≠ 0 then (-4, f.2)
    else
      let g := flushCurrentDir f.2
      if g.1 ≠ 0 then (-4, g.2) else (0, g.2)

/-- `fs_write_raw`, on the `len` bytes `data` points to. The directory is read a second
time behind the scan, and a failure of that read comes before everything else. -/
def fsWriteRaw (name data : List UInt8) (s : Fs) : Int × Fs :=
  if s.fsReady = false ∨ validName name = false ∨ data.length > fsMaxFileSize then (-1, s)
  else
    let f := findEntryInCurrent name s
    let d := currentDirEntries f.2
    if d.1 = false then (-1, d.2)
    else
      match f.1.idx with
      | some idx => writeEntry idx data d.2
      | none =>
        match f.1.freeIdx with
        | none => (-2, d.2)
        | some idx =>
          writeEntry idx data (d.2.setEnt idx (newEntry (nameBytes name) fatAttrArchive))

/-- The bytes of a C string, up to its terminator. -/
def cstr (text : List UInt8) : List UInt8 := text.takeWhile (· ≠ 0)

/-- `fs_write` -/
def fsWrite (name text : List UInt8) (s : Fs) : Int × Fs := fsWriteRaw name (cstr text) s

/-- `fs_read_ptr`: the length stored through `len`, `none` for a null return. The bytes
are the first ones of `read_cache`, with a zero behind them. -/
def fsReadPtr (name : List UInt8) (s : Fs) : Option Nat × Fs :=
  if s.fsReady = false then (none, s)
  else
    let f := findEntryInCurrent name s
    match f.1.idx with
    | none => (none, f.2)
    | some idx =>
      let d := currentDirEntries f.2
      if d.1 = false then (none, d.2)
      else
        let size := (d.2.ent idx).fileSize
        let first := (d.2.ent idx).fstClusLo
        if size = 0 ∨ first < fatClusterMin then
          (some 0, { d.2 with readCache := d.2.readCache.put 0 0 })
        else loadClusterChain first size d.2

/-- `fs_append`: the old bytes are already in `read_cache`, so copying them there again
is the identity; the text goes after them. A null return of `fs_read_ptr` counts as an
empty file, whatever it was for. -/
def fsAppend (name text : List UInt8) (s : Fs) : Int × Fs :=
  if s.fsReady = false then (-1, s)
  else
    let r := fsReadPtr name s
    let oldLen := r.1.getD 0
    let add := (cstr text).length
    if oldLen + add > fsMaxFileSize then (-1, r.2)
    else
      let cache := (r.2.readCache.copy oldLen (ByteMem.ofList (cstr text)) add).put (oldLen + add) 0
      fsWriteRaw name (cache.toList (oldLen + add)) { r.2 with readCache := cache }

/-- One line of a listing: the printable name, the size, and the directory flag. -/
structure Listing where
  name : List UInt8
  len : Nat
  isDir : Bool
  deriving DecidableEq, Repr

/-- What a listing reports of an entry. -/
def FatDirEntry.listing (e : FatDirEntry) : Listing :=
  ⟨fatNameToPrintable e.name11, e.fileSize, e.isDir⟩

/-- The scanning loop of the two listing functions: `skip` is the test on dot entries in which
they differ, and `k` the entries still to pass. -/
def listLoop (skip : FatDirEntry → Bool) (ent : Nat → FatDirEntry) :
    Nat → Nat → Nat → Option FatDirEntry
  | 0, _, _ => none
  | n + 1, i, k =>
    if (ent i).lead = 0x00 then none
    else if (ent i).lead = 0xE5 ∨ (ent i).attr = 0x0F then listLoop skip ent n (i + 1) k
    else if skip (ent i) then listLoop skip ent n (i + 1) k
    else
      match k with
      | 0 => some (ent i)
      | k + 1 => listLoop skip ent n (i + 1) k

/-- A listing of the current directory, at `index`. -/
def listCurrent (skip : FatDirEntry → Bool) (index : Nat) (s : Fs) : Option FatDirEntry × Fs :=
  if s.fsReady = false then (none, s)
  else
    let d := currentDirEntries s
    if d.1 = false then (none, d.2)
    else (listLoop skip d.2.ent (maxEntries d.2.currentDirCluster) 0 index, d.2)

/-- `name[0] == '.' && (name[1] == ' ' || name[1] == '.')` -/
def skipDots (e : FatDirEntry) : Bool := e.lead = 0x2E ∧ (e.byte 1 = 0x20 ∨ e.byte 1 = 0x2E)

/-- `name[0] == '.'` -/
def skipDotNames (e : FatDirEntry) : Bool := e.lead = 0x2E

/-- `fs_list_entry`: the name and the length, `none` for the return value 0. -/
def fsListEntry (index : Nat) (s : Fs) : Option (List UInt8 × Nat) × Fs :=
  let r := listCurrent skipDots index s
  (r.1.map fun e => (e.listing.name, e.listing.len), r.2)

/-- `fs_list_dir_entry` -/
def fsListDirEntry (index : Nat) (s : Fs) : Option Listing × Fs :=
  let r := listCurrent skipDotNames index s
  (r.1.map FatDirEntry.listing, r.2)

end OsU
