import OsU.Proof.Room
import OsU.Proof.Saving

/-!
# Opening a file and saving it

`:wq` right after the start writes back the bytes that were loaded. They have room,
since the clusters of the file are freed first, so the call succeeds and the file holds
what it held. The array is another matter: `editor_edit_file` stores a zero byte behind
the text, and the largest file fills the array.

The result is therefore an equivalence with one side about the file and the array
together: the content is what it was and no cell from 4096 on has been used, exactly
when the file has fewer than 4096 bytes. The content is what it was in either case; what
the stored zero hits is not part of the model, which only sees that the index is
outside.
-/

set_option autoImplicit false

namespace OsU

open Runs Cells CString

/-! ## The room a file takes -/

theorem length_chainBytes_le (v : Volume) (n c r : Nat) : (chainBytes v n c r).length ≤ r := by
  induction n generalizing c r with
  | zero => exact Nat.zero_le r
  | succ n ih =>
    simp only [chainBytes]
    split
    · generalize ht : (if r > 512 then 512 else r) = take
      have htake : take ≤ r := by split at ht <;> omega
      rw [List.length_append, ByteMem.length_toList]
      split
      · exact htake
      · have hrest := ih (v.fat c) (r - take)
        omega
    · exact Nat.zero_le r

/-- At most a file of the largest size. -/
theorem length_fileBytes_le (v : Volume) (e : FatDirEntry) : (fileBytes v e).length ≤ 4096 := by
  unfold fileBytes
  split
  · exact Nat.zero_le _
  · refine (length_chainBytes_le _ _ _ _).trans ?_
    rw [show fsMaxFileSize = 4096 from rfl]
    split <;> omega

/-- A chain holds no more than its clusters do. -/
theorem FatChain.length_chainBytes_le {v : Volume} {c : Nat} {l : List Nat}
    (h : FatChain v.fat c l) (n r : Nat) : (chainBytes v n c r).length ≤ 512 * l.length := by
  induction h generalizing n r with
  | last _ he =>
    cases n with
    | zero => exact Nat.zero_le _
    | succ n =>
      simp only [chainBytes]
      split
      · rw [if_pos (Or.inl he), List.append_nil, ByteMem.length_toList, List.length_singleton]
        split <;> omega
      · exact Nat.zero_le _
  | @link c l _ _ ih =>
    cases n with
    | zero => exact Nat.zero_le _
    | succ n =>
      simp only [chainBytes]
      split
      · generalize ht : (if r > 512 then 512 else r) = take
        have htake : take ≤ 512 := by split at ht <;> omega
        rw [List.length_append, ByteMem.length_toList, List.length_cons]
        split
        · rw [List.length_nil]
          omega
        · have hrest := ih n (r - take)
          omega
      · exact Nat.zero_le _

theorem FatChain.chainCard_eq {fat : Nat → Nat} {first : Nat} {l : List Nat}
    (h : FatChain fat first l) : chainCard fat first = l.length := by
  have hset : {c | OnChain fat first c} = (l.toFinset : Set Nat) := by
    ext c
    simp [h.mem_iff]
  rw [chainCard, hset, Set.ncard_coe_finset, List.toFinset_card_of_nodup h.nodup]

/-- The file has as many clusters as its bytes need. -/
theorem sectorsFor_fileBytes_le {s : Fs} {name : List UInt8} {i : Nat}
    (hdir : IsDir s.volume s.currentDirCluster) (hC : ChainsOk s.volume)
    (hi : (s.seek name).idx = some i) :
    sectorsFor (fileBytes s.volume (s.volume.slot s.currentDirCluster i)).length ≤
      s.oldClusters name := by
  obtain ⟨hf, hfound⟩ := seek_found hi
  rw [Fs.oldClusters, hi]
  rcases hC.chain (hfound.owner hf hdir) with hnone | ⟨l, hl⟩
  · rw [fileBytes, if_pos (Or.inr hnone)]
    exact Nat.zero_le _
  · change _ ≤ chainCard s.volume.fat _
    rw [hl.chainCard_eq, fileBytes]
    split
    · exact Nat.zero_le _
    · have hlen := hl.length_chainBytes_le
      dsimp only
      generalize (if (s.volume.slot s.currentDirCluster i).fileSize > fsMaxFileSize then fsMaxFileSize
        else (s.volume.slot s.currentDirCluster i).fileSize) = size
      have hbytes := hlen size size
      rw [sectorsFor]
      omega

/-- **Writing back what was read.** The write of the bytes just read succeeds, and they
read back. The file gives up as many clusters as it needs, whatever else is free on the
volume. -/
theorem write_back {s : Fs} {name content : List UInt8} (hg : s.dev.Good)
    (hready : s.fsReady = true) (hdir : IsDir s.volume s.currentDirCluster)
    (hC : ChainsOk s.volume) (hfile : s.FileOrAbsent name) (hr : s.reads name = some content) :
    (fsWriteRaw name content (fsReadPtr name s).2).1 = 0 ∧
      (fsWriteRaw name content (fsReadPtr name s).2).2.reads name = some content := by
  have hq := fsReadPtr_quiet hdir.atDir name
  generalize (fsReadPtr name s).2 = t at hq
  rw [reads_eq hdir.atDir hg hready] at hr
  obtain ⟨i, hi, rfl⟩ := Option.map_eq_some_iff.mp hr
  have hdir' : IsDir t.volume t.currentDirCluster := by
    rw [hq.volume, hq.currentDirCluster]
    exact hdir
  have hC' : ChainsOk t.volume := hq.volume ▸ hC
  have hi' : (t.seek name).idx = some i := by rw [hq.seek, hi]
  have hslot : t.volume.slot t.currentDirCluster i = s.volume.slot s.currentDirCluster i := by
    rw [hq.volume, hq.currentDirCluster]
  have hold : sectorsFor (fileBytes s.volume (s.volume.slot s.currentDirCluster i)).length ≤
      t.oldClusters name := by
    have hle := sectorsFor_fileBytes_le hdir' hC' hi'
    rwa [hslot, hq.volume] at hle
  have hname : Name83 (cstr name) := (isSome_fatNameFromInput_iff name).mp (valid_of_found hi)
  have h0 := (write_ok_iff (hq.good hg) (hq.fsReady.trans hready) hdir' hC' name
    (fileBytes s.volume (s.volume.slot s.currentDirCluster i))).mpr
      ⟨hname, length_fileBytes_le _ _, Or.inl ⟨i, hi'⟩, by rw [sectorsFor] at hold; omega⟩
  obtain ⟨j, e, l, hst⟩ := fsWriteRaw_stored hdir'.atDir (hq.good hg) h0
  exact ⟨h0, hst.reads_back hC'.owned hdir' ((hq.fileOrAbsent name).mpr hfile)⟩

/-! ## The array -/

/-- The mark of the array never falls. -/
theorem drawLoop_top (cursor n i : Nat) (d : Drawing) :
    d.buf.top ≤ (drawLoop cursor n i d).buf.top := by
  induction n generalizing i d with
  | zero => exact le_refl _
  | succ n ih =>
    rw [drawLoop]
    split
    · have hnext : ∀ d' : Drawing, d'.buf = d.buf.use i →
          d.buf.top ≤ (drawLoop cursor n (i + 1) d').buf.top := fun d' hd' =>
        calc d.buf.top ≤ d'.buf.top := by rw [hd', use_top]; exact Nat.le_max_left _ _
          _ ≤ _ := ih (i + 1) d'
      dsimp only
      split_ifs
      all_goals first
        | exact hnext _ rfl
        | exact Nat.le_max_left _ _
    · exact le_refl _

/-- Drawing uses the characters of the text. -/
theorem Editor.draw_top (e : Editor) (h : e.len ≤ e.text.top) : e.draw.text.top = e.text.top := by
  have hloop : ∀ v, (drawLoop e.cursor e.len 0 ⟨e.text, 1, 0, 1, 0, v⟩).buf.top = e.text.top := by
    intro v
    refine le_antisymm ?_ (drawLoop_top e.cursor e.len 0 ⟨e.text, 1, 0, 1, 0, v⟩)
    have hreads : (drawLoop e.cursor e.len 0 ⟨e.text, 1, 0, 1, 0, v⟩).buf.top ≤ _ :=
      (drawLoop_reads (le_refl (0 + e.len))).top
    rwa [Nat.zero_add, max_eq_left h] at hreads
  unfold Editor.draw drawEditor
  dsimp only
  split_ifs <;> exact hloop _

/-- `:wq` and Enter, in MODE_NORMAL. Each key draws the screen first, which reads the
text, and the array is that of one drawing. -/
theorem Editor.run_wq {e : Editor} (hw : e.waits = .key) (hm : e.mode = .normal) :
    ∃ e' : Editor, run Editor.key e (ascii ":wq" ++ [0x0A]) = e'.command (ascii "wq") ∧
      e'.name = e.name ∧ e'.text = e.draw.text ∧ e'.len = e.len ∧ e'.fs = e.fs := by
  obtain ⟨name, text, len, cursor, mode, dirty, msg, waits, fs, vga, writes⟩ := e
  obtain rfl : waits = .key := hw
  obtain rfl : mode = .normal := hm
  exact ⟨_, rfl, rfl, rfl, rfl, rfl⟩

theorem Editor.command_wq {e : Editor} (h : e.vfsWriteRaw.1 = 0) :
    e.command (ascii "wq") = { e.vfsWriteRaw.2 with waits := .returned (ascii "wq") } := by
  unfold Editor.command
  rw [if_neg (by decide), if_neg (by decide), if_neg (by decide), if_neg (by decide),
    if_pos (Or.inl rfl)]
  exact if_pos h

/-! ## Opening and saving -/

section OpenSave

variable {name n content : List UInt8} (stack : Nat → UInt8) (vga : Vga) {s : Fs}

/-- The array holds the file and the zero byte behind it. -/
theorem editorEditFile_loaded (hn : normalize name = some n) (hr : s.reads n = some content) :
    let e := editorEditFile name stack vga s
    e.content = content ∧ e.len = content.length ∧ e.text.top = content.length + 1 ∧
      e.text.val content.length = 0 ∧ e.fs = (fsReadPtr n s).2 := by
  intro e
  have hread : vfsReadPtr name s = fsReadPtr n s := by rw [vfsReadPtr, hn]
  obtain ⟨k, hk, hcontent⟩ := Option.map_eq_some_iff.mp hr
  obtain rfl : content.length = k := by rw [← hcontent, ByteMem.length_toList]
  obtain ⟨ht, hl⟩ := editorEditFile_some stack vga (hread ▸ hk)
  refine ⟨?_, hl, ?_, ?_, congrArg Prod.snd hread⟩
  · rw [editorEditFile_content, loadedBytes, hread, hk]
    exact hcontent
  · rw [ht]
    change max (max 0 content.length) (content.length + 1) = content.length + 1
    omega
  · rw [ht]
    exact Function.update_self _ _ _

/-- `:wq` right after the start returns with the content unchanged, and the highest cell used is
that of the zero byte. -/
theorem open_save_run (hn : normalize name = some n) (hg : s.dev.Good) (hready : s.fsReady = true)
    (hdir : IsDir s.volume s.currentDirCluster) (hC : ChainsOk s.volume)
    (hfile : s.FileOrAbsent n) (hr : s.reads n = some content) :
    let e := run Editor.key (editorEditFile name stack vga s) (ascii ":wq" ++ [0x0A])
    e.text.top = content.length + 1 ∧ e.text.val content.length = 0 ∧
      e.waits = .returned (ascii "wq") ∧ e.fs.reads n = some content := by
  intro e
  obtain ⟨hcontent, hlen, htop, hterm, hfs⟩ := editorEditFile_loaded stack vga hn hr
  obtain ⟨h0, hback⟩ := write_back hg hready hdir hC hfile hr
  obtain ⟨e', he, hname', htext', hlen', hfs'⟩ :=
    Editor.run_wq (e := editorEditFile name stack vga s) rfl rfl
  have hval : e'.text.val = (editorEditFile name stack vga s).text.val :=
    htext' ▸ Editor.draw_val _
  have hcontent' : e'.content = content := (Editor.content_of_val hval hlen').trans hcontent
  -- What the editor writes is what it has read, under the same name.
  have hwrite : OsU.vfsWriteRaw e'.name e'.content e'.fs =
      fsWriteRaw n content (fsReadPtr n s).2 := by
    rw [hname', hcontent', hfs', hfs, OsU.vfsWriteRaw,
      show (editorEditFile name stack vga s).name = name from rfl, hn]
    rfl
  have hcode : e'.vfsWriteRaw.1 = 0 := (congrArg Prod.fst hwrite).trans h0
  have hdone : e = { e'.vfsWriteRaw.2 with waits := .returned (ascii "wq") } :=
    he.trans (Editor.command_wq hcode)
  rw [hdone]
  refine ⟨?_, ?_, rfl, ?_⟩
  · change max e'.text.top e'.len = content.length + 1
    rw [htext', Editor.draw_top _ (by omega), hlen', htop, hlen]
    omega
  · change e'.text.val content.length = 0
    rw [hval, hterm]
  · change (OsU.vfsWriteRaw e'.name e'.content e'.fs).2.reads n = some content
    rw [hwrite]
    exact hback

/-- **Open and save.** `:wq` right after the start leaves the content as it is and stays inside
the array, exactly when the file leaves room in it for the zero byte. -/
theorem open_save_iff (hn : normalize name = some n) (hg : s.dev.Good) (hready : s.fsReady = true)
    (hdir : IsDir s.volume s.currentDirCluster) (hC : ChainsOk s.volume)
    (hfile : s.FileOrAbsent n) (hr : s.reads n = some content) :
    let e := run Editor.key (editorEditFile name stack vga s) (ascii ":wq" ++ [0x0A])
    (e.text.top ≤ 4096 ∧ e.waits = .returned (ascii "wq") ∧ e.fs.reads n = some content) ↔
      content.length ≤ 4095 := by
  intro e
  obtain ⟨htop, -, hwaits, hreads⟩ := open_save_run stack vga hn hg hready hdir hC hfile hr
  constructor
  · intro h
    exact Nat.le_of_succ_le_succ (htop.symm.trans_le h.1)
  · intro h
    exact ⟨htop.trans_le (Nat.succ_le_succ h), hwaits, hreads⟩

end OpenSave

/-- The fresh volume with `data` in the file `A`. -/
def savedFs (data : List UInt8) : Fs := (fsWriteRaw [0x41] data freshFs).2

/-- The fresh volume has room for any file. -/
theorem savedFs_written {data : List UInt8} (h : data.length ≤ 4096) :
    (fsWriteRaw [0x41] data freshFs).1 = 0 := by
  have hname : Name83 (cstr [0x41]) := (isSome_fatNameFromInput_iff [0x41]).mp (by decide)
  have hvacant : (freshFs.volume.slot freshFs.currentDirCluster 0).Vacant := by
    rw [freshFs_cluster]
    exact Or.inl (freshFs_empty.root 0)
  have hmax : 0 < maxEntries freshFs.currentDirCluster := by
    rw [freshFs_cluster]
    decide
  have hfree : Finset.Icc 2 9 ⊆ freeClusters (fatGet freshFs.fatBuf) := by
    intro c hc
    obtain ⟨h₁, h₂⟩ := Finset.mem_Icc.mp hc
    exact mem_freeClusters.mpr ⟨inRange_iff.mpr ⟨h₁, by omega⟩, freshFs_empty.fat c h₁⟩
  have hcard := Finset.card_le_card hfree
  rw [Nat.card_Icc] at hcard
  exact (write_ok_iff freshFs_good freshFs_ready freshFs_isDir freshFs_empty.chainsOk [0x41]
    data).mpr ⟨hname, h, Or.inr ⟨0, hmax, hvacant⟩, by omega⟩

/-- A file of that volume, ready to be opened. -/
structure OneFile (s : Fs) (data : List UInt8) : Prop where
  good : s.dev.Good
  ready : s.fsReady = true
  dir : IsDir s.volume s.currentDirCluster
  chains : ChainsOk s.volume
  file : s.FileOrAbsent [0x41]
  reads : s.reads [0x41] = some data

theorem savedFs_oneFile {data : List UInt8} (h : data.length ≤ 4096) :
    OneFile (savedFs data) data := by
  have hO := freshFs_empty.chainsOk.owned
  have hfile := freshFs_fileOrAbsent [0x41]
  have h0 := savedFs_written h
  obtain ⟨i, e, l, hst⟩ := fsWriteRaw_stored freshFs_isDir.atDir freshFs_good h0
  have hC := hst.chainsOk freshFs_empty.chainsOk freshFs_isDir hfile
  have hdir := hst.isDir hO freshFs_isDir hfile freshFs_isDir
  exact ⟨hst.good, hst.ready, hst.done.currentDirCluster ▸ hdir, hC,
    hst.fileOrAbsent hO freshFs_isDir hfile, hst.reads_back hO freshFs_isDir hfile⟩

/-- `:wq` on a file of three bytes. -/
theorem open_save_iff_three :
    let e := run Editor.key (editorEditFile [0x41] (fun _ => 0) ⟨⟨fun _ => 0, 0⟩, 0, 0, 7, 0⟩
      (savedFs [1, 2, 3])) (ascii ":wq" ++ [0x0A])
    e.text.top ≤ 4096 ∧ e.waits = .returned (ascii "wq") ∧ e.fs.reads [0x41] = some [1, 2, 3] := by
  have h : OneFile (savedFs [1, 2, 3]) [1, 2, 3] := savedFs_oneFile (by decide)
  exact (open_save_iff _ _ (show normalize [0x41] = some [0x41] by decide) h.good h.ready h.dir
    h.chains h.file h.reads).mpr (by decide)

/-- The largest file: the zero byte goes behind the array. -/
theorem savedFs_full {data : List UInt8} (hlen : data.length = 4096) (stack : Nat → UInt8)
    (vga : Vga) :
    let e := run Editor.key (editorEditFile [0x41] stack vga (savedFs data)) (ascii ":wq" ++ [0x0A])
    (savedFs data).reads [0x41] = some data ∧ ¬ e.text.top ≤ 4096 ∧ e.text.val 4096 = 0 := by
  intro e
  have h : OneFile (savedFs data) data := savedFs_oneFile hlen.le
  obtain ⟨htop, hterm, -⟩ := open_save_run stack vga
    (show normalize [0x41] = some [0x41] by decide) h.good h.ready h.dir h.chains h.file h.reads
  rw [hlen] at htop hterm
  exact ⟨h.reads, fun hle => Nat.not_succ_le_self 4096 (htop.symm.trans_le hle), hterm⟩

/-- A file of 4096 bytes: the cell behind the array is overwritten. -/
theorem open_save_full :
    let data : List UInt8 := List.replicate 4096 0x61
    let e := run Editor.key (editorEditFile [0x41] (fun _ => 0x55) ⟨⟨fun _ => 0, 0⟩, 0, 0, 7, 0⟩
      (savedFs data)) (ascii ":wq" ++ [0x0A])
    (savedFs data).reads [0x41] = some data ∧ ¬ e.text.top ≤ 4096 ∧ e.text.val 4096 = 0 :=
  savedFs_full List.length_replicate _ _

end OsU
