import OsU.Lib.CString
import OsU.Fs.Dir

/-!
# `vfs.c` — paths in front of the driver

A path is cut to one name before the driver sees it: blanks and one slash in front are
skipped, and the name ends at a blank or after FS_MAX_NAME characters. A path with a
separator inside is refused. The name is built in a buffer of its own, which no call of
the driver writes, so it is a value here.

There are two normalizers. That of the calls on files drops the slash in front; that of
`vfs_chdir` hands a path that begins with one to the driver as it is.
-/

set_option autoImplicit false

namespace OsU

open CString

/-- The loop of `normalize`, with room for `n` more characters: `none` for its early
return. A blank ends the name. The first of two dots is let through where they are a
whole component; a slash is refused, and so is a backslash. -/
def normalizeLoop : Nat → List UInt8 → Option (List UInt8)
  | 0, _ => some []
  | _ + 1, [] => some []
  | n + 1, c :: rest =>
    if c = 0 ∨ c = 0x20 then some []
    else if c = 0x2E ∧ peek rest = 0x2E ∧ (peek rest.tail = 0 ∨ peek rest.tail = 0x2F) then
      (normalizeLoop n rest).map (c :: ·)
    else if c = 0x2F ∨ c = 0x5C then none
    else (normalizeLoop n rest).map (c :: ·)

/-- `normalize`, on the bytes of the path; `none` is the null pointer it returns for a
path it refuses. -/
def normalize (path : List UInt8) : Option (List UInt8) :=
  if peek path = 0 then none
  else
    let path := path.dropWhile (· == 0x20)
    let path := if peek path = 0x2F then path.tail else path
    match normalizeLoop fsMaxName path with
    | none => none
    | some name => if name.length = 0 then none else some name

/-- `normalize_dir`. A path from the root is not cut at all, and one without keeps its
separators. -/
def normalizeDir (path : List UInt8) : Option (List UInt8) :=
  if peek path = 0 then none
  else
    let path := path.dropWhile (· == 0x20)
    if peek path = 0x2F then some path
    else
      let name := (copyWhile (fun c => c ≠ 0 ∧ c ≠ 0x20) fsMaxName path).1
      if name.length = 0 then none else some name

/-- A routine of the driver on the name a path normalizes to, or -1. -/
def onName (f : List UInt8 → Fs → Int × Fs) (name : Option (List UInt8)) (s : Fs) : Int × Fs :=
  match name with
  | none => (-1, s)
  | some n => f n s

def vfsTouch (path : List UInt8) (s : Fs) : Int × Fs := onName fsTouch (normalize path) s

def vfsRemove (path : List UInt8) (s : Fs) : Int × Fs := onName fsRemove (normalize path) s

def vfsWrite (path text : List UInt8) (s : Fs) : Int × Fs :=
  onName (fun n => fsWrite n text) (normalize path) s

def vfsAppend (path text : List UInt8) (s : Fs) : Int × Fs :=
  onName (fun n => fsAppend n text) (normalize path) s

def vfsWriteRaw (path data : List UInt8) (s : Fs) : Int × Fs :=
  onName (fun n => fsWriteRaw n data) (normalize path) s

def vfsMkdir (path : List UInt8) (s : Fs) : Int × Fs := onName fsMkdir (normalize path) s

def vfsRmdir (path : List UInt8) (s : Fs) : Int × Fs := onName fsRmdir (normalize path) s

def vfsChdir (path : List UInt8) (s : Fs) : Int × Fs := onName fsChdir (normalizeDir path) s

/-- `vfs_read_ptr`: the length stored through `len`; the bytes are the first of `read_cache`. -/
def vfsReadPtr (path : List UInt8) (s : Fs) : Option Nat × Fs :=
  match normalize path with
  | none => (none, s)
  | some n => fsReadPtr n s

/-- The bytes `vfs_read_ptr` gives its caller. -/
def loadedBytes (name : List UInt8) (s : Fs) : List UInt8 :=
  (vfsReadPtr name s).2.readCache.toList ((vfsReadPtr name s).1.getD 0)

/-- `vfs_is_dir`: 0 for a path it refuses. -/
def vfsIsDir (path : List UInt8) (s : Fs) : Int × Fs :=
  match normalize path with
  | none => (0, s)
  | some n => fsIsDir n s

def vfsGetcwd (s : Fs) : List UInt8 × Fs := fsGetcwd s

def vfsListDirEntry (index : Nat) (s : Fs) : Option Listing × Fs := fsListDirEntry index s

end OsU
