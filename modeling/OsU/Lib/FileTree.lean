import Mathlib.Tactic

/-!
# A store of files by path

What a hierarchical file store is for: a path leads to a file with its bytes, to a
directory, or to nothing, and a command changes the entry of one name of the working
directory. Space is counted in blocks, and a directory in the entries that still fit
into it, so a command that is refused is refused for a reason that can be seen here.

Names are of any type. A command gets `none` for a name that is malformed.

## What the store leaves open

There is no order of the entries of a directory, no way to list them, and no spelling of
a path: the answers to commands that ask for these are `Reply.unsaid`, and that the
store stays as it is is all that is said about them. Which blocks a file has is not said
either, only how many.

## What it demands

A store without a journal can lose the old content when a write runs out of blocks.
`Allows` is the condition on a command under which this cannot happen; it is a condition
on the store and the command, so a run that meets it can be told in advance.
-/

set_option autoImplicit false

universe u

/-- What a path leads to. Beside its bytes a file has the number of blocks it takes,
since that is what the store has to give back. -/
inductive Node where
  | file (bytes : List UInt8) (blocks : Nat)
  /-- A directory into which `vacant` more entries fit. -/
  | dir (vacant blocks : Nat)
  deriving DecidableEq, Repr

namespace Node

def blocks : Node → Nat
  | file _ k => k
  | dir _ k => k

def vacant : Node → Nat
  | file _ _ => 0
  | dir k _ => k

def isDir : Node → Bool
  | file _ _ => false
  | dir _ _ => true

def setVacant (k : Nat) : Node → Node
  | file b j => file b j
  | dir _ j => dir k j

end Node

/-- The limits of a store. They are parameters: the laws of the store hold for any, and
a driver is one choice of them. -/
structure Limits where
  /-- The longest file. -/
  maxSize : Nat
  /-- The blocks of a file, by its length. -/
  blocks : Nat → Nat
  /-- The entries that fit into a new directory, which takes a block. -/
  newDir : Nat

/-- A store, with a working directory and the number of free blocks. -/
structure FileTree (ν : Type u) where
  node : List ν → Option Node
  cwd : List ν
  free : Nat

/-- Where to go from a directory. -/
inductive Way (ν : Type u) where
  | stay
  | up
  | down (name : Option ν)
  deriving DecidableEq, Repr

/-- A command. A name that cannot be written is `none`; there is no entry of it, and
none can be made. -/
inductive TreeOp (ν : Type u) where
  | touch (name : Option ν)
  | put (name : Option ν) (bytes : List UInt8)
  | append (name : Option ν) (bytes : List UInt8)
  | remove (name : Option ν)
  | get (name : Option ν)
  | mkdir (name : Option ν)
  | rmdir (name : Option ν)
  /-- From the root, or from the working directory. -/
  | cd (fromRoot : Bool) (way : Way ν)
  | isDir (name : Option ν)
  /-- A command that only looks, at what the store leaves open: the order of the entries, or how a
  path is spelled. -/
  | look
  deriving DecidableEq, Repr

/-- What a command answers. -/
inductive Reply where
  | status (ok : Bool)
  | content (bytes : Option (List UInt8))
  /-- The store does not say. -/
  | unsaid
  deriving DecidableEq, Repr

namespace FileTree

variable {ν : Type u} [DecidableEq ν] (lim : Limits) (t : FileTree ν)

/-- The entry of a name of the working directory. -/
def here (n : ν) : Option Node := t.node (t.cwd ++ [n])

/-- The blocks it takes. -/
def held (n : ν) : Nat := ((t.here n).map Node.blocks).getD 0

def vacant : Nat := ((t.node t.cwd).map Node.vacant).getD 0

/-- The store with another entry there. -/
def enter (n : ν) (e : Option Node) (vacant free : Nat) : FileTree ν where
  node q :=
    if q = t.cwd ++ [n] then e
    else if q = t.cwd then (t.node q).map (Node.setVacant vacant)
    else t.node q
  cwd := t.cwd
  free := free

/-- The bytes of the file of that name. -/
def content (n : ν) : Option (List UInt8) :=
  match t.here n with
  | some (.file b _) => some b
  | _ => none

/-- An empty file, unless there is an entry of that name; `none` when it is refused. -/
def touch (n : ν) : Option (FileTree ν) :=
  if t.here n ≠ none then some t
  else if t.vacant = 0 then none
  else some (t.enter n (some (.file [] 0)) (t.vacant - 1) t.free)

/-- The name can be an entry: it is one, or one more fits. -/
def HasSlot (n : ν) : Prop := t.here n ≠ none ∨ 0 < t.vacant

instance (n : ν) : Decidable (t.HasSlot n) := inferInstanceAs (Decidable (_ ∨ _))

/-- A file with these bytes. The blocks of an old one count as free, so a file can be
replaced by one of the same length in a store that is full. -/
def put (n : ν) (bytes : List UInt8) : Option (FileTree ν) :=
  if bytes.length ≤ lim.maxSize ∧ t.HasSlot n ∧ lim.blocks bytes.length ≤ t.free + t.held n then
    some (t.enter n (some (.file bytes (lim.blocks bytes.length)))
      (if t.here n = none then t.vacant - 1 else t.vacant)
      (t.free + t.held n - lim.blocks bytes.length))
  else none

def remove (n : ν) : Option (FileTree ν) :=
  if t.here n = none then none
  else some (t.enter n none (t.vacant + 1) (t.free + t.held n))

def mkdir (n : ν) : Option (FileTree ν) :=
  if t.here n = none ∧ 0 < t.vacant ∧ 0 < t.free then
    some (t.enter n (some (.dir lim.newDir 1)) (t.vacant - 1) (t.free - 1))
  else none

/-- A directory with nothing in it is removed. -/
def rmdir (n : ν) : Option (FileTree ν) :=
  match t.here n with
  | some (.dir k b) =>
    if k = lim.newDir then some (t.enter n none (t.vacant + 1) (t.free + b)) else none
  | _ => none

/-- Another working directory. -/
def walk : Way ν → Option (FileTree ν)
  | .stay => some t
  | .up => some { t with cwd := t.cwd.dropLast }
  | .down none => none
  | .down (some n) =>
    if (t.here n).any Node.isDir then some { t with cwd := t.cwd ++ [n] } else none

/-- The store from the directory where a walk begins. -/
def start (fromRoot : Bool) : FileTree ν := if fromRoot then { t with cwd := [] } else t

/-- The answer and the store after a change that may be refused. -/
def settle (r : Option (FileTree ν)) : Reply × FileTree ν := (.status r.isSome, r.getD t)

/-- The answer to a command, and the store after it. A refusal leaves the store as it
is, except that a way from the root that is refused ends in the root. -/
def exec : TreeOp ν → Reply × FileTree ν
  | .touch name => t.settle (name.bind t.touch)
  | .put name bytes => t.settle (name.bind fun n => t.put lim n bytes)
  | .append name bytes =>
    t.settle (name.bind fun n => t.put lim n ((t.content n).getD [] ++ bytes))
  | .remove name => t.settle (name.bind t.remove)
  | .get name => (.content (name.bind t.content), t)
  | .mkdir name => t.settle (name.bind (t.mkdir lim))
  | .rmdir name => t.settle (name.bind (t.rmdir lim))
  | .cd fromRoot way => (t.start fromRoot).settle ((t.start fromRoot).walk way)
  | .isDir name => (.status ((name.bind t.here).any Node.isDir), t)
  | .look => (.unsaid, t)

/-! ## What a command leaves alone -/

/-- The path that a command is about, if it may change an entry. -/
def aim : TreeOp ν → Option (List ν)
  | .touch name => name.map fun n => t.cwd ++ [n]
  | .put name _ => name.map fun n => t.cwd ++ [n]
  | .append name _ => name.map fun n => t.cwd ++ [n]
  | .remove name => name.map fun n => t.cwd ++ [n]
  | .mkdir name => name.map fun n => t.cwd ++ [n]
  | .rmdir name => name.map fun n => t.cwd ++ [n]
  | _ => none

section Frame

variable {lim t} {q : List ν} {bytes : List UInt8} {blocks : Nat}

theorem enter_file (h : t.node q = some (.file bytes blocks)) {n : ν} (hq : t.cwd ++ [n] ≠ q)
    (e : Option Node) (vacant free : Nat) :
    (t.enter n e vacant free).node q = some (.file bytes blocks) := by
  simp only [enter, if_neg (Ne.symm hq), h]
  split <;> rfl

/-- A change about one name, made or refused, leaves a file of another path. -/
theorem settle_file (h : t.node q = some (.file bytes blocks)) {name : Option ν}
    {change : ν → Option (FileTree ν)} (hq : name.map (fun n => t.cwd ++ [n]) ≠ some q)
    (hchange : ∀ n t', change n = some t' → t' = t ∨ ∃ e v f, t' = t.enter n e v f) :
    (t.settle (name.bind change)).2.node q = some (.file bytes blocks) := by
  rw [settle]
  rcases hr : name.bind change with _ | t'
  · exact h
  · obtain ⟨n, rfl, hn⟩ := Option.bind_eq_some_iff.mp hr
    have hne : t.cwd ++ [n] ≠ q := fun he => hq (congrArg some he)
    rcases hchange n t' hn with rfl | ⟨e, v, f, rfl⟩
    · exact h
    · exact enter_file h hne e v f

theorem put_cases {n : ν} {b : List UInt8} {t' : FileTree ν} (h : t.put lim n b = some t') :
    t' = t ∨ ∃ e v f, t' = t.enter n e v f := by
  rw [put] at h
  split at h
  · exact Or.inr ⟨_, _, _, (Option.some.inj h).symm⟩
  · cases h

/-- A file that is taken is there. -/
theorem put_file {n : ν} {b : List UInt8} {t' : FileTree ν} (h : t.put lim n b = some t') :
    t'.node (t.cwd ++ [n]) = some (.file b (lim.blocks b.length)) := by
  rw [put] at h
  split at h
  · cases h
    exact if_pos rfl
  · cases h

/-- **A command that is about another path leaves a file as it is.** -/
theorem exec_file (h : t.node q = some (.file bytes blocks)) {op : TreeOp ν}
    (hq : t.aim op ≠ some q) : (t.exec lim op).2.node q = some (.file bytes blocks) := by
  cases op with
  | touch name =>
    refine settle_file h hq fun n t' hn => ?_
    rw [touch] at hn
    split at hn
    · exact Or.inl (Option.some.inj hn).symm
    · split at hn
      · cases hn
      · exact Or.inr ⟨_, _, _, (Option.some.inj hn).symm⟩
  | put name b => exact settle_file h hq fun n t' hn => put_cases hn
  | append name b => exact settle_file h hq fun n t' hn => put_cases hn
  | remove name =>
    refine settle_file h hq fun n t' hn => ?_
    rw [remove] at hn
    split at hn
    · cases hn
    · exact Or.inr ⟨_, _, _, (Option.some.inj hn).symm⟩
  | mkdir name =>
    refine settle_file h hq fun n t' hn => ?_
    rw [mkdir] at hn
    split at hn
    · exact Or.inr ⟨_, _, _, (Option.some.inj hn).symm⟩
    · cases hn
  | rmdir name =>
    refine settle_file h hq fun n t' hn => ?_
    rw [rmdir] at hn
    split at hn
    · split at hn
      · exact Or.inr ⟨_, _, _, (Option.some.inj hn).symm⟩
      · cases hn
    · cases hn
  | cd fromRoot way =>
    have hstart : (t.start fromRoot).node = t.node := by
      rw [start]
      split <;> rfl
    -- A way changes the working directory at most.
    have hwalk : ∀ u : FileTree ν, (u.settle (u.walk way)).2.node = u.node := by
      intro u
      rw [settle, walk.eq_def]
      split
      · rfl
      · rfl
      · rfl
      · split <;> rfl
    change ((t.start fromRoot).settle ((t.start fromRoot).walk way)).2.node q = _
    rw [hwalk, hstart, h]
  | get name => exact h
  | isDir name => exact h
  | look => exact h

end Frame

/-! ## What a store without a journal asks -/

/-- The name is not a directory's. -/
def FileOrNone (n : ν) : Prop := ∀ k b, t.here n ≠ some (.dir k b)

omit [DecidableEq ν] in
theorem fileOrNone_iff (n : ν) : t.FileOrNone n ↔ (t.here n).any Node.isDir = false := by
  rw [FileOrNone]
  rcases t.here n with _ | _ | _ <;> simp [Node.isDir]

instance (n : ν) : Decidable (t.FileOrNone n) := decidable_of_iff _ (t.fileOrNone_iff n).symm

/-- A file of that size is refused for want of blocks alone, when its old blocks are given up or
its name is new in the root. -/
def Spills (n : ν) (size : Nat) : Prop :=
  size ≤ lim.maxSize ∧ t.HasSlot n ∧ t.free + t.held n < lim.blocks size ∧
    (0 < t.held n ∨ t.here n = none ∧ t.cwd = [])

instance (n : ν) (size : Nat) : Decidable (t.Spills lim n size) :=
  inferInstanceAs (Decidable (_ ∧ _ ∧ _ ∧ _))

/-- What it asks of a command: that a name which is read, written or removed is not a
directory, and that a write does not spill. Every other command is allowed. -/
def Allows : TreeOp ν → Prop
  | .put name bytes => ∀ n ∈ name, t.FileOrNone n ∧ ¬ t.Spills lim n bytes.length
  | .append name bytes =>
    ∀ n ∈ name, t.FileOrNone n ∧ ¬ t.Spills lim n ((t.content n).getD [] ++ bytes).length
  | .remove name => ∀ n ∈ name, t.FileOrNone n
  | .get name => ∀ n ∈ name, t.FileOrNone n
  | _ => True

instance (op : TreeOp ν) : Decidable (t.Allows lim op) :=
  match op with
  | .put _ _ => inferInstanceAs (Decidable (∀ _ ∈ _, _ ∧ ¬ _))
  | .append _ _ => inferInstanceAs (Decidable (∀ _ ∈ _, _ ∧ ¬ _))
  | .remove _ => inferInstanceAs (Decidable (∀ _ ∈ _, _))
  | .get _ => inferInstanceAs (Decidable (∀ _ ∈ _, _))
  | .touch _ | .mkdir _ | .rmdir _ | .cd _ _ | .isDir _ | .look => isTrue trivial

/-- A store with nothing in it. -/
def new (vacant free : Nat) : FileTree ν where
  node q := if q = [] then some (.dir vacant 0) else none
  cwd := []
  free := free

end FileTree
