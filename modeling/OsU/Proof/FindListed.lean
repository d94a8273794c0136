import OsU.Proof.DirWalk

/-!
# What a lookup finds and what the listing shows

Over a chain that comes to its end the two walks see the same entries, in the same order
(`list_run`, `find_run`). They leave out different ones: the lookup takes a volume label
and a name with a dot in front like any other entry. So it can find what is not listed,
and it can find such an entry in place of a listed one of the same name behind it.

The condition is about the entries before the end mark and nothing else: the first that
the lookup takes for the name must be one that the listing shows, or one with the same
name, size and flag as the first that is listed. A name that no entry has meets it.
-/

set_option autoImplicit false

namespace OsU

open Rounds

/-- The chain from a value on, as far as its end. Unlike the chain of a file it may pass
through values that are no clusters of the volume: the walks take any value below the
end mark. -/
def DirChain (s : Fat32) : UInt32 → List UInt32 → Prop
  | v, [] => fat32Eoc ≤ v
  | v, c :: cs => v = c ∧ v < fat32Eoc ∧ DirChain s (s.entryAt v) cs

instance DirChain.decidable (s : Fat32) : ∀ v cs, Decidable (DirChain s v cs)
  | v, [] => inferInstanceAs (Decidable (fat32Eoc ≤ v))
  | v, c :: cs =>
    have := DirChain.decidable s (s.entryAt v) cs
    inferInstanceAs (Decidable (v = c ∧ v < fat32Eoc ∧ DirChain s (s.entryAt v) cs))

/-- The entries of a directory, with what is behind its end. -/
def dirEntries (s : Fat32) (cs : List UInt32) : List ByteMem := cs.flatMap (clusterSlots s)

/-- The calls for some entries. -/
def callsOf (es : List ByteMem) : List Fat32.DirCall :=
  ((liveEntries es).filter fun e => Listed e).map callOf

/-- The first entry that the lookup takes for the name, label or not. -/
def firstSeen (name : List UInt8) (es : List ByteMem) : Option ByteMem :=
  (liveEntries es).find? fun e => Seen e ∧ Named name e

/-- The first entry of the name that is listed. -/
def firstListed (name : List UInt8) (es : List ByteMem) : Option ByteMem :=
  (liveEntries es).find? fun e => Listed e ∧ Named name e

/-- The callback hears of the first entry that the lookup takes for the name. It need
not be the same entry: what the callback is told is all that is compared. -/
def ShownAsSeen (name : List UInt8) (es : List ByteMem) : Prop :=
  ∀ e, firstSeen name es = some e → ∃ e', firstListed name es = some e' ∧ callOf e' = callOf e

/-- The lookup returns 0 for the names that the callback is called with, and gives the entry of the
first such call. -/
structure FindAgrees (s : Fat32) (n : Nat) (dir : UInt32) (name : List UInt8)
    (entry : ByteMem) : Prop where
  found : (s.findEntry n dir name entry).1 = some 0 ↔
    ∃ call ∈ (s.listDir n dir).2.1, call.name = cstr name
  same : (s.findEntry n dir name entry).1 = some 0 → ∀ call,
    (s.listDir n dir).2.1.find? (fun call => call.name = cstr name) = some call →
      call.size = (s.findEntry n dir name entry).2.1.le32 28 ∧
      (call.isDir ↔ (s.findEntry n dir name entry).2.1 11 &&& fatAttrDirectory ≠ 0)

/-! ## Entries of several clusters -/

section Lists

variable {es es' : List ByteMem} {name : List UInt8}

theorem callsOf_append_of_ended (h : ∃ e ∈ es, EndMark e) : callsOf (es ++ es') = callsOf es := by
  rw [callsOf, liveEntries_append_of_ended h, callsOf]

theorem callsOf_append (h : ¬ ∃ e ∈ es, EndMark e) :
    callsOf (es ++ es') = callsOf es ++ callsOf es' := by
  rw [callsOf, liveEntries_append h, List.filter_append, List.map_append, callsOf, callsOf,
    liveEntries_eq_self h]

theorem firstSeen_append_of_ended (h : ∃ e ∈ es, EndMark e) :
    firstSeen name (es ++ es') = firstSeen name es := by
  rw [firstSeen, liveEntries_append_of_ended h, firstSeen]

theorem firstSeen_append (h : ¬ ∃ e ∈ es, EndMark e) :
    firstSeen name (es ++ es') = (firstSeen name es).or (firstSeen name es') := by
  rw [firstSeen, liveEntries_append h, List.find?_append, firstSeen, firstSeen,
    liveEntries_eq_self h]

/-- What has been found in a cluster is found. -/
theorem firstSeen_append_of_some {e : ByteMem} (h : firstSeen name es = some e) :
    firstSeen name (es ++ es') = some e := by
  by_cases hend : ∃ e ∈ es, EndMark e
  · rw [firstSeen_append_of_ended hend, h]
  · rw [firstSeen_append hend, h, Option.some_or]

/-- The first call with the name is the one for the first such entry that is listed. -/
theorem find?_callsOf (name : List UInt8) (es : List ByteMem) :
    (callsOf es).find? (fun call => call.name = cstr name) = (firstListed name es).map callOf := by
  rw [callsOf, List.find?_map, List.find?_filter, firstListed]
  congr 1
  congr 1
  funext e
  rw [Bool.eq_iff_iff]
  simp only [Function.comp_apply, callOf, decide_eq_true_eq]
  exact and_congr_right fun _ => decide_eq_true_iff

theorem exists_call_iff (name : List UInt8) (es : List ByteMem) :
    (∃ call ∈ callsOf es, call.name = cstr name) ↔ ∃ e, firstListed name es = some e := by
  have hfind := find?_callsOf name es
  constructor
  · rintro ⟨call, hmem, hname⟩
    have hsome : ((callsOf es).find? fun call => call.name = cstr name).isSome :=
      List.find?_isSome.mpr ⟨call, hmem, decide_eq_true hname⟩
    rw [hfind, Option.isSome_map] at hsome
    exact Option.isSome_iff_exists.mp hsome
  · rintro ⟨e, he⟩
    rw [he, Option.map_some] at hfind
    exact ⟨_, List.mem_of_find?_eq_some hfind, by simpa using List.find?_some hfind⟩

theorem named_of_firstSeen {e : ByteMem} (h : firstSeen name es = some e) : Named name e := by
  have hprop : Seen e ∧ Named name e := by simpa using List.find?_some h
  exact hprop.2

theorem named_of_firstListed {e : ByteMem} (h : firstListed name es = some e) : Named name e := by
  have hprop : Listed e ∧ Named name e := by simpa using List.find?_some h
  exact hprop.2

/-- A call is its name, its size and its flag. -/
theorem call_ext {c : Fat32.DirCall} {e : ByteMem} (hname : c.name = (callOf e).name)
    (hsize : c.size = e.le32 28) (hdir : c.isDir ↔ e 11 &&& fatAttrDirectory ≠ 0) :
    c = callOf e := by
  obtain ⟨name, isDir, size⟩ := c
  obtain rfl : name = cstr (Fat32.fatNameToStr e) := hname
  obtain rfl : size = e.le32 28 := hsize
  obtain rfl : isDir = decide (e 11 &&& fatAttrDirectory ≠ 0) :=
    Bool.eq_iff_iff.mpr (hdir.trans decide_eq_true_iff.symm)
  rfl

/-- What is listed is seen. -/
theorem firstSeen_of_listed {e : ByteMem} (h : firstListed name es = some e) :
    ∃ e', firstSeen name es = some e' := by
  have hprop : Listed e ∧ Named name e := by simpa using List.find?_some h
  have hsome : (firstSeen name es).isSome :=
    List.find?_isSome.mpr
      ⟨e, List.mem_of_find?_eq_some h, decide_eq_true ⟨hprop.1.1, hprop.2⟩⟩
  exact Option.isSome_iff_exists.mp hsome

end Lists

/-! ## Runs along a chain

Both loops go along the same chain, one round for each cluster. The entries before the
last cluster are those the callback has heard of, or passed, when the lookup takes its
entry. -/

section Runs

variable {s : Fat32}

/-- **The listing of a chain** that comes to its end. -/
theorem list_run (hs : Opened s) (hg : s.dev.Good) {v : UInt32} {cs : List UInt32}
    (hc : DirChain s v cs) {clock : Nat} {d : Fat32} (hd : Later s clock d)
    (calls : List Fat32.DirCall) {n : Nat} (hn : cs.length < n) :
    ∃ d', loop listRound n (v, calls, d) =
      some (0, calls ++ callsOf (dirEntries s cs), d') := by
  induction cs generalizing v clock d calls n with
  | nil =>
    obtain ⟨n, rfl⟩ := Nat.exists_eq_add_of_lt hn
    have hround : listRound (v, calls, d) = .inl (0, calls, d) := if_neg (UInt32.not_lt.mpr hc)
    exact ⟨d, by rw [loop_inl hround, show callsOf (dirEntries s []) = [] from rfl,
      List.append_nil]⟩
  | cons c cs ih =>
    obtain ⟨rfl, hv, hrest⟩ := hc
    obtain ⟨n, rfl⟩ := Nat.exists_eq_add_of_lt hn
    have hcons : dirEntries s (v :: cs) = clusterSlots s v ++ dirEntries s cs :=
      List.flatMap_cons
    rw [hcons]
    obtain ⟨d', ⟨hend, hround⟩ | ⟨hmore, ⟨clock', hlater⟩, hround⟩⟩ :=
      listRound_cluster hs hg hd hv calls
    · rw [callsOf_append_of_ended hend]
      exact ⟨d', loop_inl hround _⟩
    · obtain ⟨d'', hrun⟩ := ih hrest hlater (calls ++ callsOf (clusterSlots s v))
        (show cs.length < cs.length + 1 + n by omega)
      rw [callsOf_append hmore, ← List.append_assoc]
      exact ⟨d'', (loop_inr hround _).trans hrun⟩

/-- What the lookup returns when this is the entry it takes. -/
def findResult (entry : ByteMem) (d : Fat32) : Option ByteMem → Int × ByteMem × Fat32
  | none => (-1, entry, d)
  | some e => (0, entry.copy 0 e 32, d)

/-- **The lookup in a chain** that comes to its end. -/
theorem find_run (hs : Opened s) (hg : s.dev.Good) (name : List UInt8) (entry : ByteMem)
    {v : UInt32} {cs : List UInt32} (hc : DirChain s v cs) {clock : Nat} {d : Fat32}
    (hd : Later s clock d) {n : Nat} (hn : cs.length < n) :
    ∃ d', loop (findRound name entry) n (v, d) =
      some (findResult entry d' (firstSeen name (dirEntries s cs))) := by
  induction cs generalizing v clock d n with
  | nil =>
    obtain ⟨n, rfl⟩ := Nat.exists_eq_add_of_lt hn
    refine ⟨d, loop_inl ?_ _⟩
    rw [findRound, if_neg (UInt32.not_lt.mpr hc)]
    rfl
  | cons c cs ih =>
    obtain ⟨rfl, hv, hrest⟩ := hc
    obtain ⟨n, rfl⟩ := Nat.exists_eq_add_of_lt hn
    have hcons : dirEntries s (v :: cs) = clusterSlots s v ++ dirEntries s cs :=
      List.flatMap_cons
    rw [hcons]
    obtain ⟨d', ⟨e, hfind, hround⟩ |
        ⟨hnone, ⟨hend, hround⟩ | ⟨hmore, ⟨clock', hlater⟩, hround⟩⟩⟩ :=
      findRound_cluster hs hg hd hv name entry
    · rw [firstSeen_append_of_some hfind]
      exact ⟨d', loop_inl hround _⟩
    · rw [firstSeen_append_of_ended hend, show firstSeen name (clusterSlots s v) = none from hnone]
      exact ⟨d', loop_inl hround _⟩
    · obtain ⟨d'', hrun⟩ := ih hrest hlater (show cs.length < cs.length + 1 + n by omega)
      rw [firstSeen_append hmore, show firstSeen name (clusterSlots s v) = none from hnone,
        Option.none_or]
      exact ⟨d'', (loop_inr hround _).trans hrun⟩

end Runs

/-- **Lookup and listing of a directory** whose chain comes to its end, on a volume whose clusters
fit into the buffer. Both return; the lookup agrees with the listing if and only if the callback
hears of the first entry the lookup takes. -/
theorem find_agrees_iff {s : Fat32} (hs : Buffered s) (hg : s.dev.Good) {dir : UInt32}
    {cs : List UInt32} (hc : DirChain s dir cs) (name : List UInt8) (entry : ByteMem) {n : Nat}
    (hn : cs.length < n) :
    (s.listDir n dir).1 = some 0 ∧ (s.findEntry n dir name entry).1.isSome ∧
      (FindAgrees s n dir name entry ↔ ShownAsSeen name (dirEntries s cs)) := by
  have hvalid : ¬ s.valid = false := by simp [hs.valid]
  obtain ⟨d₁, hlist⟩ := list_run hs.toOpened hg hc (Later.refl s) [] hn
  obtain ⟨d₂, hfind⟩ := find_run hs.toOpened hg name entry hc (Later.refl s) hn
  have hl : s.listDir n dir = (some 0, callsOf (dirEntries s cs), d₁) := by
    rw [Fat32.listDir, if_neg hvalid]
    exact listLoop_eq_some (h := (dir, [], s)).mpr hlist
  cases hseen : firstSeen name (dirEntries s cs) with
  | none =>
    have hf : s.findEntry n dir name entry = (some (-1), entry, d₂) := by
      rw [hseen] at hfind
      rw [Fat32.findEntry, if_neg hvalid]
      exact findLoop_eq_some (h := (dir, s)).mpr hfind
    have hno : ¬ ∃ e, firstListed name (dirEntries s cs) = some e := by
      rintro ⟨e, he⟩
      obtain ⟨e', he'⟩ := firstSeen_of_listed he
      cases hseen.symm.trans he'
    have hfail : ¬ (s.findEntry n dir name entry).1 = some 0 := by
      rw [hf]
      exact fun h => absurd (Option.some.inj h) (by decide)
    refine ⟨by rw [hl], by rw [hf]; rfl, iff_of_true ⟨iff_of_false hfail ?_, ?_⟩ ?_⟩
    · rwa [hl, exists_call_iff]
    · exact fun h => absurd h hfail
    · exact fun e he => by cases hseen.symm.trans he
  | some e =>
    have hf : s.findEntry n dir name entry = (some 0, entry.copy 0 e 32, d₂) := by
      rw [hseen] at hfind
      rw [Fat32.findEntry, if_neg hvalid]
      exact findLoop_eq_some (h := (dir, s)).mpr hfind
    -- the caller's entry is that of the directory
    have hcopy : callOf (entry.copy 0 e 32) = callOf e := callOf_congr fun k hk => by
      rw [ByteMem.copy_apply, if_pos (by omega), Nat.sub_zero]
    have hcalls := find?_callsOf name (dirEntries s cs)
    refine ⟨by rw [hl], by rw [hf]; rfl, fun h => ?_, fun h => ⟨?_, ?_⟩⟩
    · intro e₀ he₀
      obtain rfl : e = e₀ := Option.some.inj (hseen.symm.trans he₀)
      have hsucc : (s.findEntry n dir name entry).1 = some 0 := by rw [hf]
      have hcall := h.found.mp hsucc
      rw [hl, exists_call_iff] at hcall
      obtain ⟨e', he'⟩ := hcall
      rw [he', Option.map_some] at hcalls
      have hsame := h.same hsucc (callOf e') (by rw [hl]; exact hcalls)
      rw [hf] at hsame
      have hname : (callOf e').name = (callOf (entry.copy 0 e 32)).name := by
        rw [hcopy]
        exact (named_of_firstListed he').trans (named_of_firstSeen hseen).symm
      exact ⟨e', he', (call_ext hname hsame.1 hsame.2).trans hcopy⟩
    · rw [hl, exists_call_iff, hf]
      obtain ⟨e', he', -⟩ := h e hseen
      exact iff_of_true rfl ⟨e', he'⟩
    · intro _ call hfirst
      obtain ⟨e', he', heq⟩ := h e hseen
      rw [hl, hcalls, he', Option.map_some] at hfirst
      obtain rfl : callOf (entry.copy 0 e 32) = call :=
        hcopy.trans (heq.symm.trans (Option.some.inj hfirst))
      rw [hf]
      exact ⟨rfl, decide_eq_true_iff⟩

/-- A partition with one directory and one entry `A` in it, of the attributes given;
every entry behind it is vacant and ends the directory. -/
def oneEntry (attr : UInt8) : Device where
  sectors l :=
    if l = 0 then fun i =>
      if i.val = 12 then 2 else if i.val = 13 ∨ i.val = 14 ∨ i.val = 16 ∨ i.val = 36 then 1 else 0
    else if l = 1 then fun i =>
      if i.val = 11 then 0x0F else if 8 ≤ i.val ∧ i.val < 11 then 0xFF else 0
    else fun i =>
      if i.val = 0 then 0x41 else if i.val < 11 then 0x20 else if i.val = 11 then attr else 0
  ok := fun _ => true
  clock := 0
  written := []

/-- A file is found as it is listed. -/
theorem find_agrees_file :
    FindAgrees ((closedFat32 (oneEntry 0x20)).init 0).2 2 2 [0x61] fun _ => 0 := by
  have hopen : ((closedFat32 (oneEntry 0x20)).init 0).1 = 0 := by decide +kernel
  have hchain : DirChain ((closedFat32 (oneEntry 0x20)).init 0).2 2 [2] := by decide +kernel
  have hshown : ShownAsSeen [0x61] (dirEntries ((closedFat32 (oneEntry 0x20)).init 0).2 [2]) := by
    intro e he
    have hlisted : firstListed [0x61] (dirEntries ((closedFat32 (oneEntry 0x20)).init 0).2 [2]) =
        firstSeen [0x61] (dirEntries ((closedFat32 (oneEntry 0x20)).init 0).2 [2]) := rfl
    exact ⟨e, hlisted.trans he, rfl⟩
  have hs : Buffered ((closedFat32 (oneEntry 0x20)).init 0).2 :=
    ⟨init_opened hopen, by decide +kernel⟩
  exact (find_agrees_iff hs (fun _ => rfl) hchain [0x61] (fun _ => 0)
    (show [(2 : UInt32)].length < 2 by decide)).2.2.mpr hshown

/-- A volume label is found and not listed. -/
theorem find_agrees_label :
    ((closedFat32 (oneEntry 0x08)).init 0).1 = 0 ∧
      Narrow ((closedFat32 (oneEntry 0x08)).init 0).2 ∧ (oneEntry 0x08).Good ∧
      DirChain ((closedFat32 (oneEntry 0x08)).init 0).2 2 [2] ∧
      (((closedFat32 (oneEntry 0x08)).init 0).2.findEntry 2 2 [0x61] fun _ => 0).1 = some 0 ∧
      (((closedFat32 (oneEntry 0x08)).init 0).2.listDir 2 2).1 = some 0 ∧
      (((closedFat32 (oneEntry 0x08)).init 0).2.listDir 2 2).2.1 = [] ∧
      ¬ FindAgrees ((closedFat32 (oneEntry 0x08)).init 0).2 2 2 [0x61] fun _ => 0 := by
  have hfind : (((closedFat32 (oneEntry 0x08)).init 0).2.findEntry 2 2 [0x61] fun _ => 0).1 =
      some 0 := by decide +kernel
  have hlist : (((closedFat32 (oneEntry 0x08)).init 0).2.listDir 2 2).2.1 = [] := by
    decide +kernel
  refine ⟨by decide +kernel, by decide +kernel, fun _ => rfl, by decide +kernel, hfind,
    by decide +kernel, hlist, ?_⟩
  intro h
  obtain ⟨call, hmem, -⟩ := h.found.mp hfind
  rw [hlist] at hmem
  exact absurd hmem List.not_mem_nil

end OsU
