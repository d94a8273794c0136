import OsU.Lib.Scan
import OsU.Fs.Fat
import OsU.Fs.Entry

/-!
# `fs.c` — the state of the driver, mounting, and the current directory

The static variables of `fs.c` and the device are one state, and each routine is a
function from a state to its return value and the state it leaves. A directory is a
buffer of entries: the root lives in `root_buf` for as long as the volume is mounted,
any other directory is read into `dir_buf` each time it is looked at, so an edit of one
that is not flushed is lost.

`dir_buf` and `read_cache` keep what the last call left in them, and the model carries
that along: a caller of `fs_read_ptr` gets a pointer into `read_cache`, and the next
call that reads a file writes there.

## Mounting

`fs_init` loads the table and the root if the boot sector is the one the driver writes,
and formats the volume if it is not, or if it could not be read. An error of the device
on the way leaves the driver not ready, with the volume half loaded, or half formatted.

## The scan

A scan stops at the end mark, passes deleted entries and pieces of long names, and
remembers the first slot that can be reused. It looks at 32 slots of the root, which has
room for 128, and at the 16 of any other directory. What it finds and what it offers is
said once (`findLoop_idx_eq_some`, `findLoop_freeIdx`), in terms of the first slot at
which something holds.
-/

set_option autoImplicit false

namespace OsU

open Scan

/-- The static variables of `fs.c`, and the device behind it. The buffers are byte
memories without an end: that every access stays inside the arrays is proved and not
built in. `read_cache` has one byte more than a file can have. -/
structure Fs where
  dev : Device
  fatBuf : ByteMem
  rootBuf : ByteMem
  readCache : ByteMem
  fsReady : Bool
  /-- 0 is the root directory. -/
  currentDirCluster : Nat
  /-- The 128 bytes of `current_path`. -/
  currentPath : List UInt8
  dirBuf : ByteMem

/-- The driver before `fs_init`: its variables are zero. -/
def Fs.boot (d : Device) : Fs where
  dev := d
  fatBuf := fun _ => 0
  rootBuf := fun _ => 0
  readCache := fun _ => 0
  fsReady := false
  currentDirCluster := 0
  currentPath := List.replicate fsMaxPath 0
  dirBuf := fun _ => 0

/-! ## Mounting -/

/-- `sizeof(fat_buf)` -/
def fatEuSize : Nat := fatSectorsPerFat * 512

/-- `sizeof(root_buf)` -/
def rootEuSize : Nat := fatRootDirSectors * 512

/-- The bytes of `l` at offset `a`. -/
def putBytes (m : ByteMem) (a : Nat) (l : List UInt8) : ByteMem :=
  m.copy a (ByteMem.ofList l) l.length

/-- The boot sector `write_boot_sector` builds: `fat16_boot_sector_t` at its offsets.
The structure is packed, so a 16-bit field may lie at an odd offset; a 32-bit one is
written in two halves. What no statement sets stays zero. -/
def bootSector : ByteMem :=
  let bs : ByteMem := ByteMem.fill (fun _ => 0) 0 512
  let bs := putBytes bs 0 [0xEB, 0x3C, 0x90]
  let bs := putBytes bs 3 [0x4D, 0x49, 0x4E, 0x49, 0x4F, 0x53, 0x20, 0x20]
  let bs := bs.putLe16 11 512
  let bs := bs.put 13 (UInt8.ofNat fatSectorsPerCluster)
  let bs := bs.putLe16 14 fatReservedSectors
  let bs := bs.put 16 (UInt8.ofNat fatFatCount)
  let bs := bs.putLe16 17 fatRootEntries
  let bs := bs.putLe16 19 fatTotalSectors
  let bs := bs.put 21 0xF8
  let bs := bs.putLe16 22 fatSectorsPerFat
  let bs := bs.putLe16 24 63
  let bs := bs.putLe16 26 16
  let bs := (bs.putLe16 28 fatLbaStart).putLe16 30 (fatLbaStart / 65536)
  let bs := (bs.putLe16 32 0).putLe16 34 0
  let bs := bs.put 36 0x80
  let bs := bs.put 38 0x29
  let bs := (bs.putLe16 39 0x0206).putLe16 41 0x2026
  let bs := putBytes bs 43 [0x4F, 0x53, 0x55, 0x56, 0x4F, 0x4C, 0x55, 0x4D, 0x45, 0x20, 0x20]
  let bs := putBytes bs 54 [0x46, 0x41, 0x54, 0x31, 0x36, 0x20, 0x20, 0x20]
  bs.putLe16 510 0xAA55

/-- `write_boot_sector` -/
def writeBootSector (s : Fs) : Int × Fs :=
  let r := diskWriteSectors .writeBootSector fatLbaStart 1 bootSector s.dev
  (r.1, { s with dev := r.2 })

/-- `flush_fat` -/
def flushFat (s : Fs) : Int × Fs :=
  let r := diskWriteSectors .flushFat (fatLbaStart + fatReservedSectors) fatSectorsPerFat s.fatBuf s.dev
  (r.1, { s with dev := r.2 })

/-- `flush_root` -/
def flushRoot (s : Fs) : Int × Fs :=
  let r := diskWriteSectors .flushRoot rootLba fatRootDirSectors s.rootBuf s.dev
  (r.1, { s with dev := r.2 })

/-- The table `fat_format` writes: everything free but the two reserved words, over what
the buffer held. -/
def emptyFat (fat : ByteMem) : ByteMem :=
  fatSet (fatSet (fat.fill 0 fatEuSize) 0 0xFFF8) 1 fat16Eoc

/-- `fat_format`: boot sector, table and root directory, in this order, and the first
write that fails ends it. The clusters behind them are not touched, so what they held is
still there, unreferenced. -/
def fatFormat (s : Fs) : Int × Fs :=
  let b := writeBootSector s
  if b.1 ≠ 0 then (-1, b.2)
  else
    let f := flushFat { b.2 with fatBuf := emptyFat b.2.fatBuf }
    if f.1 ≠ 0 then (-1, f.2)
    else
      let r := flushRoot { f.2 with rootBuf := f.2.rootBuf.fill 0 rootEuSize }
      if r.1 ≠ 0 then (-1, r.2) else (0, r.2)

/-- `valid_boot` -/
def validBoot (bs : ByteMem) : Bool :=
  bs.le16 510 = 0xAA55 ∧ bs.le16 11 = 512 ∧ (bs 13).toNat = fatSectorsPerCluster ∧
  bs.le16 14 = fatReservedSectors ∧ (bs 16).toNat = fatFatCount ∧ bs.le16 17 = fatRootEntries ∧
  bs.le16 19 = fatTotalSectors ∧ bs.le16 22 = fatSectorsPerFat

/-- The second half of `fs_init`: load the table and the root directory. Only then is
the driver ready. -/
def loadVolume (s : Fs) : Fs :=
  let f := diskReadSectors (fatLbaStart + fatReservedSectors) fatSectorsPerFat s.fatBuf s.dev
  let s := { s with fatBuf := f.2.1, dev := f.2.2 }
  if f.1 ≠ 0 then s
  else
    let r := diskReadSectors rootLba fatRootDirSectors s.rootBuf s.dev
    let s := { s with rootBuf := r.2.1, dev := r.2.2 }
    if r.1 ≠ 0 then s else { s with fsReady := true }

/-- `fs_init`. A volume whose boot sector cannot be read is formatted, like one whose
boot sector is not valid. One that has just been formatted is loaded again from the
disk. Only a load that succeeds makes the driver ready. -/
def fsInit (s : Fs) : Fs :=
  let b := diskReadSectors fatLbaStart 1 (fun _ => 0) s.dev
  let s := { s with fsReady := false, dev := b.2.2 }
  if b.1 ≠ 0 ∨ validBoot b.2.1 = false then
    let f := fatFormat s
    if f.1 ≠ 0 then f.2 else loadVolume f.2
  else loadVolume s

/-! ## The current directory -/

/-- `current_dir_entries`: is there a buffer to look at, and the state with it loaded.
For the root no sector is read. -/
def currentDirEntries (s : Fs) : Bool × Fs :=
  if s.currentDirCluster = 0 then (true, s)
  else
    let r := diskReadSectors (clusterLba s.currentDirCluster) 1 s.dirBuf s.dev
    (r.1 = 0, { s with dirBuf := r.2.1, dev := r.2.2 })

/-- The buffer `current_dir_entries` points to. -/
def Fs.entBuf (s : Fs) : ByteMem := if s.currentDirCluster = 0 then s.rootBuf else s.dirBuf

/-- `ent[i]`, read through that pointer. -/
def Fs.ent (s : Fs) (i : Nat) : FatDirEntry := entryAt s.entBuf i

/-- `ent[i] = e`, stored through it. -/
def Fs.setEnt (s : Fs) (i : Nat) (e : FatDirEntry) : Fs :=
  if s.currentDirCluster = 0 then { s with rootBuf := putEntry s.rootBuf i e }
  else { s with dirBuf := putEntry s.dirBuf i e }

/-- The slots a scan of a directory looks at: 32 of the root, 16 of any other. -/
def maxEntries (cluster : Nat) : Nat := if cluster = 0 then fsMaxFiles else 16

/-- `flush_current_dir`: the root as a whole, or the one sector of another directory,
from `dir_buf`. So whoever changes an entry must have loaded the directory last. -/
def flushCurrentDir (s : Fs) : Int × Fs :=
  if s.currentDirCluster = 0 then flushRoot s
  else
    let r := diskWriteSectors .flushCurrentDir (clusterLba s.currentDirCluster) 1 s.dirBuf s.dev
    (r.1, { s with dev := r.2 })

/-- The answer of a scan: the slot found, and the first slot that can be reused. -/
structure FindResult where
  idx : Option Nat
  freeIdx : Option Nat
  deriving DecidableEq, Repr

/-- The `n` iterations of the scan of `find_entry_in_current` from slot `i` on. A zero
byte ends the directory and is itself a vacant slot; `0xE5` marks a deleted one. The
first vacant slot is kept while the scan goes on, and entries of long names are passed
over. -/
def findLoop (ent : Nat → FatDirEntry) (f11 : List UInt8) : Nat → Nat → Option Nat → FindResult
  | 0, _, firstFree => ⟨none, firstFree⟩
  | n + 1, i, firstFree =>
    if (ent i).lead = 0x00 ∨ (ent i).lead = 0xE5 then
      let firstFree := if firstFree = none then some i else firstFree
      if (ent i).lead = 0x00 then ⟨none, firstFree⟩ else findLoop ent f11 n (i + 1) firstFree
    else if (ent i).attr = 0x0F then findLoop ent f11 n (i + 1) firstFree
    else if (ent i).name = f11.take 8 ∧ (ent i).ext = f11.drop 8 then ⟨some i, firstFree⟩
    else findLoop ent f11 n (i + 1) firstFree

/-- `find_entry_in_current`; a free index the caller has not been given is `none`. A
name that cannot be written and a directory that cannot be read find nothing, and no
slot either. -/
def findEntryInCurrent (name : List UInt8) (s : Fs) : FindResult × Fs :=
  match fatNameFromInput name with
  | none => (⟨none, none⟩, s)
  | some f11 =>
    let d := currentDirEntries s
    if d.1 = false then (⟨none, none⟩, d.2)
    else (findLoop d.2.ent f11 (maxEntries d.2.currentDirCluster) 0 none, d.2)

/-! ## Edits of the current directory -/

@[simp] theorem setEnt_dev (s : Fs) (i : Nat) (e : FatDirEntry) : (s.setEnt i e).dev = s.dev := by
  unfold Fs.setEnt; split <;> rfl

@[simp] theorem setEnt_fatBuf (s : Fs) (i : Nat) (e : FatDirEntry) :
    (s.setEnt i e).fatBuf = s.fatBuf := by
  unfold Fs.setEnt; split <;> rfl

@[simp] theorem setEnt_readCache (s : Fs) (i : Nat) (e : FatDirEntry) :
    (s.setEnt i e).readCache = s.readCache := by
  unfold Fs.setEnt; split <;> rfl

@[simp] theorem setEnt_fsReady (s : Fs) (i : Nat) (e : FatDirEntry) :
    (s.setEnt i e).fsReady = s.fsReady := by
  unfold Fs.setEnt; split <;> rfl

@[simp] theorem setEnt_currentDirCluster (s : Fs) (i : Nat) (e : FatDirEntry) :
    (s.setEnt i e).currentDirCluster = s.currentDirCluster := by
  unfold Fs.setEnt; split <;> rfl

@[simp] theorem setEnt_currentPath (s : Fs) (i : Nat) (e : FatDirEntry) :
    (s.setEnt i e).currentPath = s.currentPath := by
  unfold Fs.setEnt; split <;> rfl

/-- `ent[j]` after a store to `ent[i]`. -/
@[simp] theorem setEnt_ent (s : Fs) (i j : Nat) (e : FatDirEntry) :
    (s.setEnt i e).ent j = if j = i then e else s.ent j := by
  by_cases h : s.currentDirCluster = 0 <;>
    simp [Fs.ent, Fs.entBuf, Fs.setEnt, h, entryAt_putEntry]

/-! ## The scan -/

/-- A slot that holds no entry: never used, or deleted. -/
def FatDirEntry.Vacant (e : FatDirEntry) : Prop := e.lead = 0x00 ∨ e.lead = 0xE5

instance (e : FatDirEntry) : Decidable e.Vacant := inferInstanceAs (Decidable (_ ∨ _))

/-- A slot that holds an entry: in use, and not a piece of a long name. -/
def FatDirEntry.Live (e : FatDirEntry) : Prop := ¬ e.Vacant ∧ e.attr ≠ 0x0F

instance (e : FatDirEntry) : Decidable e.Live := inferInstanceAs (Decidable (_ ∧ _))

/-- The slot `findLoop` stops at, the end mark or a live entry of that name. -/
def Stops (ent : Nat → FatDirEntry) (f11 : List UInt8) (j : Nat) : Prop :=
  (ent j).lead = 0x00 ∨ (ent j).Live ∧ (ent j).name11 = f11

theorem not_stops {ent : Nat → FatDirEntry} {f11 : List UInt8} {j : Nat} :
    ¬ Stops ent f11 j ↔ (ent j).lead ≠ 0x00 ∧ ((ent j).Live → (ent j).name11 ≠ f11) := by
  rw [Stops, not_or, not_and]

/-- What a scan from slot `i` over `n` slots finds: the first live entry of that name, unless the
end mark comes before it. -/
theorem findLoop_idx_eq_some {ent : Nat → FatDirEntry} {f11 : List UInt8} (hf : f11.length = 11)
    {n i k : Nat} {ff : Option Nat} :
    (findLoop ent f11 n i ff).idx = some k ↔
      Reaches (Stops ent f11) n i k ∧ (ent k).Live ∧ (ent k).name11 = f11 := by
  induction n generalizing i ff with
  | zero => exact iff_of_false nofun fun h => not_reaches_zero h.1
  | succ n ih =>
    -- At an entry that does not stop the scan, the answer is that of the scan behind
    -- it, whatever slot has been noted as free.
    have hrest : ∀ ff', ¬ Stops ent f11 i → ((findLoop ent f11 n (i + 1) ff').idx = some k ↔
        Reaches (Stops ent f11) (n + 1) i k ∧ (ent k).Live ∧ (ent k).name11 = f11) := by
      intro ff' hi
      rw [ih, reaches_succ]
      constructor
      · exact fun h => ⟨Or.inr ⟨hi, h.1⟩, h.2⟩
      · rintro ⟨rfl | ⟨-, hr⟩, hk⟩
        · exact absurd (Or.inr hk) hi
        · exact ⟨hr, hk⟩
    by_cases hv : (ent i).lead = 0x00 ∨ (ent i).lead = 0xE5
    · simp only [findLoop, if_pos hv]
      by_cases hz : (ent i).lead = 0x00
      · rw [if_pos hz, reaches_succ]
        refine iff_of_false nofun ?_
        rintro ⟨rfl | ⟨hi, -⟩, hk⟩
        · exact hk.1.1 hv
        · exact hi (Or.inl hz)
      · rw [if_neg hz]
        exact hrest _ (not_stops.mpr ⟨hz, fun hl => absurd hv hl.1⟩)
    · have hz : (ent i).lead ≠ 0x00 := fun h => hv (Or.inl h)
      simp only [findLoop, if_neg hv]
      by_cases ha : (ent i).attr = 0x0F
      · rw [if_pos ha]
        exact hrest _ (not_stops.mpr ⟨hz, fun hl => absurd ha hl.2⟩)
      · rw [if_neg ha]
        by_cases hn : (ent i).name = f11.take 8 ∧ (ent i).ext = f11.drop 8
        · have hstop : (ent i).Live ∧ (ent i).name11 = f11 :=
            ⟨⟨hv, ha⟩, ((ent i).name_ext_eq_iff hf).mp hn⟩
          rw [if_pos hn, reaches_succ]
          constructor
          · intro h
            obtain rfl : i = k := Option.some.inj h
            exact ⟨Or.inl rfl, hstop⟩
          · rintro ⟨rfl | ⟨hi, -⟩, -⟩
            · rfl
            · exact absurd (Or.inr hstop) hi
        · rw [if_neg hn]
          exact hrest _ (not_stops.mpr
            ⟨hz, fun _ h => hn (((ent i).name_ext_eq_iff hf).mpr h)⟩)

/-- Once a vacant slot is known, it stays the answer. -/
theorem findLoop_freeIdx_some (ent : Nat → FatDirEntry) (f11 : List UInt8) (n i k : Nat) :
    (findLoop ent f11 n i (some k)).freeIdx = some k := by
  induction n generalizing i with
  | zero => rfl
  | succ n ih =>
    simp only [findLoop]
    split
    · split
      · rfl
      · exact ih _
    · split
      · exact ih _
      · split
        · rfl
        · exact ih _

/-- Past a slot that is not vacant and not the one, the scan is that of the rest. -/
theorem findLoop_pass {ent : Nat → FatDirEntry} {f11 : List UInt8} {n i : Nat}
    (hv : ¬ (ent i).Vacant) (h : (findLoop ent f11 (n + 1) i none).idx = none) :
    findLoop ent f11 (n + 1) i none = findLoop ent f11 n (i + 1) none := by
  have hv' : ¬((ent i).lead = 0x00 ∨ (ent i).lead = 0xE5) := hv
  simp only [findLoop, if_neg hv'] at h ⊢
  split
  · rfl
  · rename_i ha
    rw [if_neg ha] at h
    split
    · rename_i hn
      rw [if_pos hn] at h
      exact nomatch h
    · rfl

/-- The slot a scan that finds nothing offers for a new entry: the first vacant one, provided no
earlier scan had already found one. -/
theorem findLoop_freeIdx {ent : Nat → FatDirEntry} {f11 : List UInt8} {n i : Nat}
    (h : (findLoop ent f11 n i none).idx = none) {k : Nat}
    (hk : (findLoop ent f11 n i none).freeIdx = some k) :
    Reaches (fun j => (ent j).Vacant) n i k ∧ (ent k).Vacant := by
  induction n generalizing i with
  | zero => exact nomatch hk
  | succ n ih =>
    by_cases hv : (ent i).Vacant
    · have hfirst : (findLoop ent f11 (n + 1) i none).freeIdx = some i := by
        have hv' : (ent i).lead = 0x00 ∨ (ent i).lead = 0xE5 := hv
        simp only [findLoop, if_pos hv']
        split
        · rfl
        · exact findLoop_freeIdx_some ent f11 n (i + 1) i
      obtain rfl := Option.some.inj (hfirst.symm.trans hk)
      exact ⟨reaches_self, hv⟩
    · have hpass := findLoop_pass hv h
      rw [hpass] at h hk
      obtain ⟨hr, hvk⟩ := ih h hk
      exact ⟨hr.cons hv, hvk⟩

end OsU
