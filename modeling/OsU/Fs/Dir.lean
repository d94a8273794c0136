import OsU.Fs.File

/-!
# `fs.c` — directories

Making, removing and changing directories, and the path string that `fs_chdir` keeps
next to the cluster of the current directory.

## Two notions of where one is

`current_dir_cluster` is where the next call looks names up. `current_path` is a string
of 128 bytes that `fs_getcwd` hands out, and no call looks at it for anything else.
`fs_chdir` changes both: it goes up by reading the `..` entry of the directory and by
cutting the string at its last slash, and down by taking the cluster of the entry and by
adding its name, if there is room. That the two agree is a condition on the run, not a
property of the state.

## One step function

The calls the kernel makes into the mounted driver are `FsOp`, and `FsOp.exec` runs one.
The results about sequences of calls are about lists of these. A call whose answer is
not a status gets 0 as its code; what it answers is compared elsewhere.
-/

set_option autoImplicit false

namespace OsU

/-- `".          "`, the name of the entry of a directory for itself. -/
def dotName : List UInt8 := 0x2E :: List.replicate 10 0x20

/-- `"..         "`, the name of its entry for its parent. -/
def dotdotName : List UInt8 := 0x2E :: 0x2E :: List.replicate 9 0x20

/-- The entry of a directory for itself, or for its parent. -/
def dotEntry (name : List UInt8) (cluster : Nat) : FatDirEntry :=
  (newEntry name fsAttrDirectory).setFstClusLo cluster

/-- The sector of a new directory: an entry for itself, one for its parent, and the end
mark, which is the zeros behind them. -/
def newDir (dirCluster parent : Nat) : ByteMem :=
  putEntry (putEntry (ByteMem.fill (fun _ => 0) 0 512) 0 (dotEntry dotName dirCluster)) 1
    (dotEntry dotdotName parent)

/-- `fs_mkdir`. The order matters where a disk fails: the cluster is allocated in
memory, the new directory's sector is written, and only then is the parent's entry
filled in and everything flushed. -/
def fsMkdir (name : List UInt8) (s : Fs) : Int × Fs :=
  if s.fsReady = false ∨ validName name = false then (-1, s)
  else
    let f := findEntryInCurrent name s
    match f.1.idx with
    | some _ => (-1, f.2)
    | none =>
      match f.1.freeIdx with
      | none => (-2, f.2)
      | some freeIdx =>
        let a := allocCluster f.2.fatBuf
        if a.1 = 0 then (-3, { f.2 with fatBuf := a.2 })
        else
          let s := { f.2 with fatBuf := a.2 }
          let w := diskWriteSectors .fsMkdir (clusterLba a.1) 1 (newDir a.1 s.currentDirCluster) s.dev
          let s := { s with dev := w.2 }
          if w.1 ≠ 0 then (-4, { s with fatBuf := freeChain s.fatBuf a.1 })
          else
            let d := currentDirEntries s
            if d.1 = false then (-5, d.2)
            else
              let s := d.2.setEnt freeIdx
                (((newEntry (nameBytes name) fsAttrDirectory).setFstClusLo a.1).setFileSize 0)
              let f := flushFat s
              if f.1 ≠ 0 then (-6, f.2)
              else
                let g := flushCurrentDir f.2
                if g.1 ≠ 0 then (-6, g.2) else (0, g.2)

/-- The emptiness check of `fs_rmdir`, over `n` slots from `i` on: nothing but deleted
entries before the end mark. The check begins behind the two entries that every
directory has. -/
def emptyLoop (ent : Nat → FatDirEntry) : Nat → Nat → Bool
  | 0, _ => true
  | n + 1, i =>
    if (ent i).lead = 0x00 then true
    else if (ent i).lead ≠ 0xE5 then false
    else emptyLoop ent n (i + 1)

/-- The part of `fs_rmdir` after the directory is known to be empty. The table is
written before the directory; when the second write fails, the entry on the disk names a
cluster that is free there. -/
def rmdirEntry (idx : Nat) (s : Fs) : Int × Fs :=
  let s := { s with fatBuf := freeChain s.fatBuf (s.ent idx).fstClusLo }
  let s := s.setEnt idx (((s.ent idx).setLead 0xE5).setFstClusLo 0)
  let f := flushFat s
  if f.1 ≠ 0 then (-5, f.2)
  else
    let g := flushCurrentDir f.2
    if g.1 ≠ 0 then (-5, g.2) else (0, g.2)

/-- `fs_rmdir`. The entries 2 to 15 of the directory are looked at, up to the first that
ends it; its own `.` and `..` are taken to be the first two. The sector is read into a
buffer of the call, so `dir_buf` still holds the current directory when the entry is
marked. -/
def fsRmdir (name : List UInt8) (s : Fs) : Int × Fs :=
  if s.fsReady = false then (-1, s)
  else
    let f := findEntryInCurrent name s
    match f.1.idx with
    | none => (-1, f.2)
    | some idx =>
      let d := currentDirEntries f.2
      if d.1 = false then (-1, d.2)
      else if (d.2.ent idx).isDir = false then (-2, d.2)
      else
        let r := diskReadSectors (clusterLba (d.2.ent idx).fstClusLo) 1 (fun _ => 0) d.2.dev
        let s := { d.2 with dev := r.2.2 }
        if r.1 ≠ 0 then (-3, s)
        else if emptyLoop (entryAt r.2.1) 14 2 = false then (-4, s)
        else rmdirEntry idx s

/-! ## The path string -/

/-- `strcpy(path + off, src)`: `src` and its terminator over the buffer. -/
def strcpyAt (path : List UInt8) (off : Nat) (src : List UInt8) : List UInt8 :=
  overwrite path off (cstr src ++ [0])

/-- `current_path[0] = '/'; current_path[1] = '\0'` -/
def rootPath (path : List UInt8) : List UInt8 := (path.set 0 0x2F).set 1 0

/-- The scan for the last slash: its index, 0 when there is none. -/
def lastSlash : List UInt8 → Nat → Nat → Nat
  | [], _, last => last
  | b :: rest, i, last =>
    if b = 0 then last else lastSlash rest (i + 1) (if b = 0x2F then i else last)

/-- The path without its last component. -/
def parentPath (path : List UInt8) : List UInt8 :=
  let last := lastSlash path 0 0
  if last = 0 then path.set 1 0 else path.set last 0

/-- The path with a component added, as far as the buffer has room for it. The slash is
added even when the name then does not fit. -/
def childPath (path printable : List UInt8) : List UInt8 :=
  let plen := (cstr path).length
  let slash := plen > 1 ∧ plen < fsMaxPath - 1
  let path := if slash then path.set plen 0x2F else path
  let plen := if slash then plen + 1 else plen
  if plen + (cstr printable).length < fsMaxPath then strcpyAt path plen printable else path

/-- `fs_chdir` on a relative path. The name `..` needs no entry of that name: the second
entry of the directory is taken, whatever it is, and in the root the call does nothing.
Any other path is looked up as one name, so a path with a slash in it is not found.

`current_path` is edited as a text beside `current_dir_cluster`; the two agree as long
as the names fit, see `childPath`. -/
def chdirRelative (path : List UInt8) (s : Fs) : Int × Fs :=
  if cstr path = [0x2E, 0x2E] then
    if s.currentDirCluster = 0 then (0, s)
    else
      let d := currentDirEntries s
      if d.1 = false then (-2, d.2)
      else
        (0, { d.2 with
          currentDirCluster := (d.2.ent 1).fstClusLo
          currentPath := parentPath d.2.currentPath })
  else
    let f := findEntryInCurrent path s
    match f.1.idx with
    | none => (-3, f.2)
    | some idx =>
      let d := currentDirEntries f.2
      if d.1 = false then (-4, d.2)
      else
        let e := d.2.ent idx
        if e.isDir = false then (-5, d.2)
        else
          (0, { d.2 with
            currentDirCluster := e.fstClusLo
            currentPath := childPath d.2.currentPath (fatNameToPrintable e.name11) })

/-- `fs_chdir`. A path from the root first goes to the root, cluster and string, and
then looks up the rest; if that fails the driver is left there. -/
def fsChdir (path : List UInt8) (s : Fs) : Int × Fs :=
  if s.fsReady = false then (-1, s)
  else if path.headD 0 = 0x2F then
    let s := { s with currentDirCluster := 0, currentPath := rootPath s.currentPath }
    if path.tail.headD 0 = 0 then (0, s) else chdirRelative path.tail s
  else chdirRelative path s

/-- `fs_getcwd`: the string at `current_path`. -/
def fsGetcwd (s : Fs) : List UInt8 × Fs :=
  let s := if s.currentPath.headD 0 = 0 then { s with currentPath := rootPath s.currentPath } else s
  (cstr s.currentPath, s)

/-- `fs_is_dir`. Its answer is a truth value and no status: a name that is not there, a
disk that fails and a driver that is not ready all give 0. -/
def fsIsDir (name : List UInt8) (s : Fs) : Int × Fs :=
  if s.fsReady = false then (0, s)
  else
    let f := findEntryInCurrent name s
    match f.1.idx with
    | none => (0, f.2)
    | some idx =>
      let d := currentDirEntries f.2
      if d.1 = false then (0, d.2) else (if (d.2.ent idx).isDir then 1 else 0, d.2)

/-! ## The driver as one step function -/

/-- The calls the kernel makes into the mounted driver. `fs_init` is none of them: it
runs once, before the kernel makes any. What is a pointer and a length in C, or a string
with its NUL, is a list of bytes here. -/
inductive FsOp where
  | touch (name : List UInt8)
  | remove (name : List UInt8)
  | writeRaw (name data : List UInt8)
  | write (name text : List UInt8)
  | append (name text : List UInt8)
  | readPtr (name : List UInt8)
  | listEntry (index : Nat)
  | mkdir (name : List UInt8)
  | rmdir (name : List UInt8)
  | chdir (path : List UInt8)
  | getcwd
  | isDir (name : List UInt8)
  | listDirEntry (index : Nat)
  deriving DecidableEq, Repr

/-- Return value and state after a call. A call that returns no status is given 0 here.
-/
def FsOp.exec : FsOp → Fs → Int × Fs
  | .touch name, s => fsTouch name s
  | .remove name, s => fsRemove name s
  | .writeRaw name data, s => fsWriteRaw name data s
  | .write name text, s => fsWrite name text s
  | .append name text, s => fsAppend name text s
  | .readPtr name, s => (0, (fsReadPtr name s).2)
  | .listEntry index, s => (0, (fsListEntry index s).2)
  | .mkdir name, s => fsMkdir name s
  | .rmdir name, s => fsRmdir name s
  | .chdir path, s => fsChdir path s
  | .getcwd, s => (0, (fsGetcwd s).2)
  | .isDir name, s => fsIsDir name s
  | .listDirEntry index, s => (0, (fsListDirEntry index s).2)

/-- The state after a call. -/
def FsOp.step (op : FsOp) (s : Fs) : Fs := (op.exec s).2

theorem FsOp.step_writeRaw (name data : List UInt8) (s : Fs) :
    (FsOp.writeRaw name data).step s = (fsWriteRaw name data s).2 := rfl

end OsU
